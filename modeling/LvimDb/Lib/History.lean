import Mathlib.Data.List.Infix
import Mathlib.Data.List.Nodup

/-!
# Histories

A history is the list of what happened, newest first. `Justified ok h` says that
every event of `h` is allowed by the events before it. A step that logs one event
has to justify that event only.
-/

namespace Lib
variable {ε : Type*}

def Justified (ok : List ε → ε → Prop) (h : List ε) : Prop :=
  ∀ pre e, (e :: pre) <:+ h → ok pre e

variable {ok : List ε → ε → Prop} {h : List ε} {e : ε}

theorem justified_nil : Justified ok [] := by
  intro pre e hs
  exact absurd (List.suffix_nil.mp hs) (List.cons_ne_nil e pre)

theorem Justified.cons (hj : Justified ok h) (he : ok h e) : Justified ok (e :: h) := by
  intro pre a hs
  rcases List.suffix_cons_iff.mp hs with heq | hs
  · obtain ⟨rfl, rfl⟩ := List.cons.inj heq
    exact he
  · exact hj pre a hs

theorem suffix_of_mem (hm : e ∈ h) : ∃ pre, (e :: pre) <:+ h := by
  obtain ⟨es, pre, hsplit⟩ := List.append_of_mem hm
  exact ⟨pre, es, hsplit.symm⟩

/-- Two events of a history: the same one, or one comes before the other. -/
theorem suffix_cases {pre pre' : List ε} {a b : ε} (ha : (a :: pre) <:+ h)
    (hb : (b :: pre') <:+ h) : (a = b ∧ pre = pre') ∨ a ∈ pre' ∨ b ∈ pre := by
  rcases List.suffix_or_suffix_of_suffix ha hb with hle | hle
  · rcases List.suffix_cons_iff.mp hle with heq | hle
    · exact .inl (List.cons.inj heq)
    · exact .inr (.inl (hle.subset (List.mem_cons_self ..)))
  · rcases List.suffix_cons_iff.mp hle with heq | hle
    · exact .inl ((List.cons.inj heq).imp Eq.symm Eq.symm)
    · exact .inr (.inr (hle.subset (List.mem_cons_self ..)))

theorem Justified.tail (hj : Justified ok (e :: h)) : Justified ok h :=
  fun pre a hs => hj pre a (hs.trans (List.suffix_cons e h))

/-! ### Events that take turns -/

variable {α : Type*} (f : ε → Option α) (xs : List α)

/-- An event that stands for an item of `xs` is the first one for it, and comes after one for
every earlier item. -/
def InTurn (pre : List ε) (e : ε) : Prop :=
  ∀ a, f e = some a → (∀ e' ∈ pre, f e' ≠ some a) ∧
    ∃ i : ℕ, xs[i]? = some a ∧
      ∀ (j : ℕ) (b : α), j < i → xs[j]? = some b → ∃ e' ∈ pre, f e' = some b

variable {f xs}

theorem mem_take_iff {j : ℕ} {b : α} : b ∈ xs.take j ↔ ∃ k, k < j ∧ xs[k]? = some b := by
  constructor
  · intro hb
    obtain ⟨k, hk⟩ := List.getElem?_of_mem hb
    rw [List.getElem?_take] at hk
    split at hk
    · exact ⟨k, ‹_›, hk⟩
    · cases hk
  · rintro ⟨k, hkj, hk⟩
    refine List.mem_of_getElem? (i := k) ?_
    rw [List.getElem?_take, if_pos hkj]
    exact hk

/-- What the events stand for, in the order they came, is a prefix of `xs`. -/
theorem Justified.in_turn (hj : Justified (InTurn f xs) h) (hxs : xs.Nodup) :
    ∃ j, h.reverse.filterMap f = xs.take j := by
  induction h with
  | nil => exact ⟨0, rfl⟩
  | cons e h ih =>
    obtain ⟨j, hj'⟩ := ih hj.tail
    have hcame : ∀ b, (∃ e' ∈ h, f e' = some b) ↔ ∃ k, k < j ∧ xs[k]? = some b := by
      intro b
      rw [← mem_take_iff, ← hj', List.mem_filterMap]
      simp only [List.mem_reverse]
    rw [List.reverse_cons, List.filterMap_append, hj']
    cases hf : f e with
    | none =>
      refine ⟨j, ?_⟩
      simp [hf]
    | some a =>
      obtain ⟨hfirst, i, hi, hearlier⟩ := hj h e (List.suffix_refl _) a hf
      obtain ⟨hlen, hget⟩ := List.getElem?_eq_some_iff.mp hi
      have hji : j ≤ i := by
        by_contra hlt
        obtain ⟨e', he', hfe⟩ := (hcame a).mpr ⟨i, Nat.lt_of_not_le hlt, hi⟩
        exact hfirst e' he' hfe
      have hij : i ≤ j := by
        by_contra hlt
        have hjlen : j < xs.length := by omega
        obtain ⟨k, hkj, hk⟩ := (hcame xs[j]).mp
          (hearlier j xs[j] (by omega) (List.getElem?_eq_getElem hjlen))
        obtain ⟨hklen, hk⟩ := List.getElem?_eq_some_iff.mp hk
        have heq : k = j := (List.Nodup.getElem_inj_iff hxs).mp hk
        omega
      obtain rfl : i = j := by omega
      refine ⟨i + 1, ?_⟩
      rw [List.take_add_one, hi]
      simp [hf]

end Lib
