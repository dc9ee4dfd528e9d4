import Mathlib.Data.List.Basic
import Mathlib.Data.List.Infix

/-!
# The first occurrence of a word

A text is cut before the first occurrence of a word, if the word occurs in it.
-/

namespace Lib
variable {α : Type*} {k a b s t : List α}

/-- In the text that goes on with `k` after `a`, this is where `k` occurs first. -/
def FirstAt (k a : List α) : Prop := ¬ k <:+: a ++ k.dropLast

theorem firstAt_nil (hk : k ≠ []) : FirstAt k [] := by
  intro h
  have hle := h.length_le
  have hpos := List.length_pos_iff.mpr hk
  rw [List.nil_append, List.length_dropLast] at hle
  omega

theorem FirstAt.tail {c : α} (h : FirstAt k (c :: a)) : FirstAt k a := fun hin =>
  h (List.infix_cons hin)

/-- The word does not begin before the place where it occurs first. -/
theorem FirstAt.not_prefix {c : α} (h : FirstAt k (c :: a)) (s : List α) :
    ¬ k <+: c :: a ++ k ++ s := by
  intro hp
  have hpart : c :: a ++ k.dropLast <+: c :: a ++ k ++ s :=
    ((List.prefix_append_right_inj _).mpr (List.dropLast_prefix k)).trans (List.prefix_append _ s)
  have hle : k.length ≤ (c :: a ++ k.dropLast).length := by
    rw [List.length_append, List.length_cons, List.length_dropLast]
    omega
  exact h (List.prefix_of_prefix_length_le hp hpart hle).isInfix

theorem exists_firstAt (hk : k ≠ []) (s : List α) :
    (∃ a t, s = a ++ k ++ t ∧ FirstAt k a) ∨ ¬ k <:+: s := by
  induction s with
  | nil => exact .inr fun h => hk (List.infix_nil.mp h)
  | cons c s ih =>
    by_cases hp : k <+: c :: s
    · obtain ⟨t, ht⟩ := hp
      exact .inl ⟨[], t, ht.symm, firstAt_nil hk⟩
    · rcases ih with ⟨a, t, hs, ha⟩ | hno
      · refine .inl ⟨c :: a, t, by rw [hs]; rfl, fun hin => ?_⟩
        rcases List.infix_cons_iff.mp hin with hin | hin
        · apply hp
          rw [hs]
          exact hin.trans
            (((List.prefix_append_right_inj (c :: a)).mpr (List.dropLast_prefix k)).trans
              (List.prefix_append _ t))
        · exact ha hin
      · refine .inr fun hin => ?_
        rcases List.infix_cons_iff.mp hin with hin | hin
        · exact hp hin
        · exact hno hin

/-- A text is cut in one way only. -/
theorem FirstAt.unique (ha : FirstAt k a) (hb : FirstAt k b) (h : a ++ k ++ s = b ++ k ++ t) :
    a = b ∧ s = t := by
  induction a generalizing b with
  | nil =>
    cases b with
    | nil => exact ⟨rfl, List.append_cancel_left h⟩
    | cons d b =>
      refine absurd ?_ (hb.not_prefix t)
      rw [← h, List.nil_append]
      exact List.prefix_append k s
  | cons c a ih =>
    cases b with
    | nil =>
      refine absurd ?_ (ha.not_prefix s)
      rw [h, List.nil_append]
      exact List.prefix_append k t
    | cons d b =>
      obtain ⟨rfl, hrest⟩ := List.cons.inj h
      obtain ⟨rfl, hst⟩ := ih ha.tail hb.tail hrest
      exact ⟨rfl, hst⟩

theorem firstAt_singleton {c : α} : FirstAt [c] a ↔ c ∉ a := by
  rw [FirstAt, List.dropLast_singleton, List.append_nil, List.singleton_infix_iff]

theorem cut_cons {c : α} (ha : c ∉ a) (hb : c ∉ b) (h : a ++ c :: s = b ++ c :: t) :
    a = b ∧ s = t := by
  refine FirstAt.unique (k := [c]) (firstAt_singleton.mpr ha) (firstAt_singleton.mpr hb) ?_
  rw [List.append_assoc, List.append_assoc]
  exact h

end Lib
