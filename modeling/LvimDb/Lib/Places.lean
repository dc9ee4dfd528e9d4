import Mathlib.Data.List.Nodup
import Mathlib.Logic.Function.Basic

/-!
# Tickets in places

The tickets `0`, `1`, … that have been issued lie in places, each in one of them and once. A
ticket that is moved is in the hand on the way.
-/

namespace Lib

/-- The tickets below `n`, in the hand and in places; where `whole`, none is lost. -/
structure Held {P : Type} (whole : Prop) (n : ℕ) (hand : List ℕ) (L : P → List ℕ) : Prop where
  below : ∀ id ∈ hand, id < n
  within : ∀ p, ∀ id ∈ L p, id < n
  single : hand.Nodup
  place : ∀ p, (L p).Nodup
  apart : ∀ p, ∀ id ∈ L p, id ∉ hand
  unique : ∀ p q id, id ∈ L p → id ∈ L q → p = q
  all : whole → ∀ id < n, id ∈ hand ∨ ∃ p, id ∈ L p

namespace Held
variable {P : Type} {whole : Prop} {n id : ℕ} {hand : List ℕ} {L L' : P → List ℕ} {p : P}

theorem nothing : Held whole 0 [] fun _ : P => [] where
  below := fun _ h => absurd h List.not_mem_nil
  within := fun _ _ h => absurd h List.not_mem_nil
  single := List.nodup_nil
  place := fun _ => List.nodup_nil
  apart := fun _ _ h => absurd h List.not_mem_nil
  unique := fun _ _ _ h => absurd h List.not_mem_nil
  all := fun _ _ h => absurd h (Nat.not_lt_zero _)

theorem count_one (h : Held whole n hand L) (hid : id ∈ L p) : (L p).count id = 1 :=
  List.count_eq_one_of_mem (h.place p) hid

theorem weaken {weak : Prop} (h : Held whole n hand L) (hw : weak → whole) :
    Held weak n hand L :=
  { h with all := fun hweak => h.all (hw hweak) }

/-- A new ticket, into the hand. -/
theorem issue (h : Held whole n hand L) : Held whole (n + 1) (n :: hand) L where
  below := by
    intro id hid
    rcases List.mem_cons.mp hid with rfl | hid
    · exact Nat.lt_succ_self _
    · exact Nat.lt_succ_of_lt (h.below id hid)
  within := fun p id hid => Nat.lt_succ_of_lt (h.within p id hid)
  single := List.nodup_cons.mpr ⟨fun hn => absurd (h.below n hn) (Nat.lt_irrefl n), h.single⟩
  place := h.place
  apart := by
    intro p id hid hcons
    rcases List.mem_cons.mp hcons with rfl | hcons
    · exact absurd (h.within p id hid) (Nat.lt_irrefl id)
    · exact h.apart p id hid hcons
  unique := h.unique
  all := by
    intro hw id hid
    rcases Nat.lt_succ_iff_lt_or_eq.mp hid with hid | rfl
    · exact (h.all hw id hid).imp (List.mem_cons_of_mem _) fun hp => hp
    · exact .inl (List.mem_cons_self ..)

/-- Some places are emptied; the tickets in them are lost. -/
theorem lose (h : Held whole n hand L) (hL : ∀ p, L' p = L p ∨ L' p = [])
    (hw : whole → ∀ p, L' p = L p) : Held whole n hand L' := by
  have hsub : ∀ p, ∀ id ∈ L' p, id ∈ L p := by
    intro p id hid
    rcases hL p with hp | hp
    · rwa [hp] at hid
    · rw [hp] at hid
      exact absurd hid List.not_mem_nil
  refine ⟨h.below, fun p id hid => h.within p id (hsub p id hid), h.single, fun p => ?_,
    fun p id hid => h.apart p id (hsub p id hid),
    fun p q id hp hq => h.unique p q id (hsub p id hp) (hsub q id hq), fun hall id hid => ?_⟩
  · rcases hL p with hp | hp
    · rw [hp]
      exact h.place p
    · rw [hp]
      exact List.nodup_nil
  · refine (h.all hall id hid).imp (fun hid => hid) fun ⟨p, hp⟩ => ⟨p, ?_⟩
    rwa [hw hall p]

variable [DecidableEq P]

theorem mem_update {q : P} {l : List ℕ} (h : id ∈ Function.update L p l q) :
    q = p ∧ id ∈ l ∨ q ≠ p ∧ id ∈ L q := by
  by_cases hq : q = p
  · subst hq
    rw [Function.update_self] at h
    exact .inl ⟨rfl, h⟩
  · rw [Function.update_of_ne hq] at h
    exact .inr ⟨hq, h⟩

/-- From the hand to the end of a place. -/
theorem put (p : P) (h : Held whole n (id :: hand) L) :
    Held whole n hand (Function.update L p (L p ++ [id])) := by
  obtain ⟨hnot, hnodup⟩ := List.nodup_cons.mp h.single
  have hfree : ∀ q, id ∉ L q := fun q hq => h.apart q id hq (List.mem_cons_self ..)
  have hmem : ∀ q i, i ∈ Function.update L p (L p ++ [id]) q → q = p ∧ i = id ∨ i ∈ L q := by
    intro q i hi
    rcases mem_update hi with ⟨rfl, hl⟩ | ⟨_, hl⟩
    · rcases List.mem_append.mp hl with hl | hl
      · exact .inr hl
      · exact .inl ⟨rfl, List.mem_singleton.mp hl⟩
    · exact .inr hl
  refine ⟨fun i hi => h.below i (List.mem_cons_of_mem _ hi), fun q i hi => ?_, hnodup, fun q => ?_,
    fun q i hi => ?_, fun q r i hq hr => ?_, fun hw i hi => ?_⟩
  · rcases hmem q i hi with ⟨_, rfl⟩ | hi
    · exact h.below i (List.mem_cons_self ..)
    · exact h.within q i hi
  · by_cases hq : q = p
    · subst hq
      rw [Function.update_self]
      exact List.Nodup.append (h.place q) (List.nodup_singleton id)
        (List.disjoint_singleton.mpr (hfree q))
    · rw [Function.update_of_ne hq]
      exact h.place q
  · rcases hmem q i hi with ⟨_, rfl⟩ | hi
    · exact hnot
    · exact fun hh => h.apart q i hi (List.mem_cons_of_mem _ hh)
  · rcases hmem q i hq with ⟨rfl, rfl⟩ | hq'
    · rcases hmem r i hr with ⟨rfl, _⟩ | hr
      · rfl
      · exact absurd hr (hfree r)
    · rcases hmem r i hr with ⟨rfl, rfl⟩ | hr
      · exact absurd hq' (hfree q)
      · exact h.unique q r i hq' hr
  · rcases h.all hw i hi with hi | ⟨q, hi⟩
    · rcases List.mem_cons.mp hi with rfl | hi
      · refine .inr ⟨p, ?_⟩
        rw [Function.update_self]
        exact List.mem_append_right _ (List.mem_singleton_self _)
      · exact .inl hi
    · refine .inr ⟨q, ?_⟩
      by_cases hq : q = p
      · subst hq
        rw [Function.update_self]
        exact List.mem_append_left _ hi
      · rwa [Function.update_of_ne hq]

/-- From the front of a place into the hand. -/
theorem take {l rest : List ℕ} (hp : L p = l ++ rest) (h : Held whole n hand L) :
    Held whole n (l ++ hand) (Function.update L p rest) := by
  have hplace := h.place p
  rw [hp] at hplace
  obtain ⟨hl, hrest, hdisj⟩ := List.nodup_append'.mp hplace
  have hin : ∀ i ∈ l, i ∈ L p := fun i hi => by
    rw [hp]
    exact List.mem_append_left _ hi
  have hmem : ∀ q i, i ∈ Function.update L p rest q → i ∈ L q ∧ i ∉ l := by
    intro q i hi
    rcases mem_update hi with ⟨rfl, hr⟩ | ⟨hq, hr⟩
    · refine ⟨?_, fun hil => hdisj hil hr⟩
      rw [hp]
      exact List.mem_append_right _ hr
    · exact ⟨hr, fun hil => hq (h.unique q p i hr (hin i hil))⟩
  refine ⟨fun i hi => ?_, fun q i hi => h.within q i (hmem q i hi).1, ?_, fun q => ?_,
    fun q i hi => ?_, fun q r i hq hr => h.unique q r i (hmem q i hq).1 (hmem r i hr).1,
    fun hw i hi => ?_⟩
  · rcases List.mem_append.mp hi with hi | hi
    · exact h.within p i (hin i hi)
    · exact h.below i hi
  · exact List.Nodup.append hl h.single fun i hi hih => h.apart p i (hin i hi) hih
  · by_cases hq : q = p
    · subst hq
      rwa [Function.update_self]
    · rw [Function.update_of_ne hq]
      exact h.place q
  · intro hh
    rcases List.mem_append.mp hh with hh | hh
    · exact (hmem q i hi).2 hh
    · exact h.apart q i (hmem q i hi).1 hh
  · rcases h.all hw i hi with hi | ⟨q, hi⟩
    · exact .inl (List.mem_append_right _ hi)
    · by_cases hq : q = p
      · subst hq
        rw [hp] at hi
        rcases List.mem_append.mp hi with hi | hi
        · exact .inl (List.mem_append_left _ hi)
        · exact .inr ⟨q, by rwa [Function.update_self]⟩
      · exact .inr ⟨q, by rwa [Function.update_of_ne hq]⟩

end Held
end Lib
