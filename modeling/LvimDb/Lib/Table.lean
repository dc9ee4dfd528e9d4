import Mathlib.Data.List.Nodup
import Mathlib.Logic.Function.Basic

/-!
# Tables with a key

The rows of a table come in any order. When no two have one key they are a map; what an insert,
an update and a removal do to the rows, they do to the map.
-/

namespace Lib.Table
variable {R K V α : Type*} {key : R → K} {val : R → V} {rows rows' found : List R}
  {m : K → Option V} {k : K} {v : V}

/-- `found` is what a query answers: the rows `p` holds for, in some order. -/
def Answer (rows : List R) (p : R → Bool) (found : List R) : Prop := found.Perm (rows.filter p)

instance [DecidableEq R] (p : R → Bool) : Decidable (Answer rows p found) :=
  inferInstanceAs (Decidable (found.Perm (rows.filter p)))

/-- `out` is `xs`, sorted. -/
def Sorts (before : α → α → Bool) (xs out : List α) : Prop :=
  out.Perm xs ∧ out.Pairwise fun a b => before b a = false

/-- The rows are the map. -/
structure Represents (key : R → K) (val : R → V) (rows : List R) (m : K → Option V) : Prop where
  nodup : (rows.map key).Nodup
  value : ∀ k v, m k = some v ↔ ∃ r ∈ rows, key r = k ∧ val r = v

theorem represents_nil : Represents key val [] fun _ => none where
  nodup := List.nodup_nil
  value k v := by simp

theorem Represents.perm (h : Represents key val rows m) (hp : rows'.Perm rows) :
    Represents key val rows' m where
  nodup := (hp.map key).nodup_iff.mpr h.nodup
  value k v := by
    rw [h.value]
    simp only [hp.mem_iff]

/-- A key that has no row is not in the map. -/
theorem Represents.none_iff (h : Represents key val rows m) : m k = none ↔ k ∉ rows.map key := by
  constructor
  · intro hm hk
    obtain ⟨r, hr, hkey⟩ := List.mem_map.mp hk
    have hsome := (h.value k (val r)).mpr ⟨r, hr, hkey, rfl⟩
    rw [hm] at hsome
    cases hsome
  · intro hk
    cases hm : m k with
    | none => rfl
    | some v =>
      obtain ⟨r, hr, hkey, -⟩ := (h.value k v).mp hm
      exact absurd (List.mem_map.mpr ⟨r, hr, hkey⟩) hk

section Changes
variable [DecidableEq K]

theorem Represents.insert {r : R} (h : Represents key val rows m) (hr : key r ∉ rows.map key) :
    Represents key val (r :: rows) (Function.update m (key r) (some (val r))) where
  nodup := List.nodup_cons.mpr ⟨hr, h.nodup⟩
  value k v := by
    by_cases hk : k = key r
    · subst hk
      rw [Function.update_self]
      constructor
      · intro hv
        exact ⟨r, List.mem_cons_self .., rfl, Option.some.inj hv⟩
      · rintro ⟨r', hr', hkey, rfl⟩
        rcases List.mem_cons.mp hr' with rfl | hr'
        · rfl
        · exact absurd (List.mem_map.mpr ⟨r', hr', hkey⟩) hr
    · rw [Function.update_of_ne hk, h.value]
      constructor
      · rintro ⟨r', hr', hrest⟩
        exact ⟨r', List.mem_cons_of_mem r hr', hrest⟩
      · rintro ⟨r', hr', hkey, hval⟩
        rcases List.mem_cons.mp hr' with rfl | hr'
        · exact absurd hkey.symm hk
        · exact ⟨r', hr', hkey, hval⟩

/-- The rows with one key changed, each in the same way. -/
def change (key : R → K) (k : K) (f : R → R) (rows : List R) : List R :=
  rows.map fun r => if key r = k then f r else r

theorem map_key_change {f : R → R} (hf : ∀ r, key (f r) = key r) (k : K) (rows : List R) :
    (change key k f rows).map key = rows.map key := by
  rw [change, List.map_map]
  apply List.map_congr_left
  intro r _
  show key (if key r = k then f r else r) = key r
  split
  · exact hf r
  · rfl

theorem Represents.change {f : R → R} {g : V → V} (h : Represents key val rows m)
    (hf : ∀ r, key (f r) = key r) (hg : ∀ r, val (f r) = g (val r)) (k : K) :
    Represents key val (change key k f rows) (Function.update m k ((m k).map g)) where
  nodup := by
    rw [map_key_change hf]
    exact h.nodup
  value k' v := by
    have hmem : ∀ r', r' ∈ Table.change key k f rows ↔
        ∃ r ∈ rows, (if key r = k then f r else r) = r' := fun r' => List.mem_map
    by_cases hk : k' = k
    · subst hk
      rw [Function.update_self, Option.map_eq_some_iff]
      constructor
      · rintro ⟨w, hw, rfl⟩
        obtain ⟨r, hr, hkey, rfl⟩ := (h.value k' w).mp hw
        exact ⟨f r, (hmem _).mpr ⟨r, hr, if_pos hkey⟩, (hf r).trans hkey, hg r⟩
      · rintro ⟨r', hr', hkey, rfl⟩
        obtain ⟨r, hr, rfl⟩ := (hmem _).mp hr'
        by_cases hrk : key r = k'
        · rw [if_pos hrk]
          exact ⟨val r, (h.value _ _).mpr ⟨r, hr, hrk, rfl⟩, (hg r).symm⟩
        · rw [if_neg hrk] at hkey
          exact absurd hkey hrk
    · rw [Function.update_of_ne hk, h.value]
      constructor
      · rintro ⟨r, hr, hkey, hval⟩
        have hrk : key r ≠ k := fun heq => hk (hkey.symm.trans heq)
        exact ⟨r, (hmem _).mpr ⟨r, hr, if_neg hrk⟩, hkey, hval⟩
      · rintro ⟨r', hr', hkey, hval⟩
        obtain ⟨r, hr, rfl⟩ := (hmem _).mp hr'
        by_cases hrk : key r = k
        · rw [if_pos hrk, hf] at hkey
          exact absurd (hkey.symm.trans hrk) hk
        · rw [if_neg hrk] at hkey hval
          exact ⟨r, hr, hkey, hval⟩

/-- The rows without those of a key. -/
def drop (key : R → K) (k : K) (rows : List R) : List R := rows.filter fun r => key r ≠ k

theorem Represents.drop (h : Represents key val rows m) (k : K) :
    Represents key val (drop key k rows) (Function.update m k none) where
  nodup := h.nodup.sublist (List.filter_sublist.map key)
  value k' v := by
    by_cases hk : k' = k
    · subst hk
      rw [Function.update_self]
      constructor
      · intro hv
        cases hv
      · rintro ⟨r, hr, hkey, -⟩
        have hne : key r ≠ k' := by simpa using (List.mem_filter.mp hr).2
        exact absurd hkey hne
    · rw [Function.update_of_ne hk, h.value]
      constructor
      · rintro ⟨r, hr, hkey, hval⟩
        have hne : key r ≠ k := fun heq => hk (hkey.symm.trans heq)
        exact ⟨r, List.mem_filter.mpr ⟨hr, by simpa using hne⟩, hkey, hval⟩
      · rintro ⟨r, hr, hrest⟩
        exact ⟨r, (List.mem_filter.mp hr).1, hrest⟩

/-- What a query for one key finds is what the map has there. -/
theorem Represents.answer (h : Represents key val rows m)
    (hf : Answer rows (fun r => key r = k) found) : found.head?.map val = m k := by
  have hmem : ∀ r, r ∈ found ↔ r ∈ rows ∧ key r = k := by
    intro r
    rw [hf.mem_iff, List.mem_filter, decide_eq_true_eq]
  cases found with
  | nil =>
    have hnot : k ∉ rows.map key := by
      intro hk
      obtain ⟨r, hr, hkey⟩ := List.mem_map.mp hk
      exact List.not_mem_nil ((hmem r).mpr ⟨hr, hkey⟩)
    exact (h.none_iff.mpr hnot).symm
  | cons r rest =>
    obtain ⟨hr, hkey⟩ := (hmem r).mp (List.mem_cons_self ..)
    exact ((h.value k (val r)).mpr ⟨r, hr, hkey, rfl⟩).symm

/-- It finds something where the key has a row. -/
theorem answer_nil_iff (hf : Answer rows (fun r => key r = k) found) :
    found = [] ↔ k ∉ rows.map key := by
  have hmem : ∀ r, r ∈ found ↔ r ∈ rows ∧ key r = k := by
    intro r
    rw [hf.mem_iff, List.mem_filter, decide_eq_true_eq]
  rw [List.eq_nil_iff_forall_not_mem]
  constructor
  · intro hnone hk
    obtain ⟨r, hr, hkey⟩ := List.mem_map.mp hk
    exact hnone r ((hmem r).mpr ⟨hr, hkey⟩)
  · intro hk r hr
    obtain ⟨hr, hkey⟩ := (hmem r).mp hr
    exact hk (List.mem_map.mpr ⟨r, hr, hkey⟩)

/-! ### Insert or update -/

/-- An update where the query before it found a row, else an insert. The answer to the query and
the number of a new row are given, `none` if the one or the other fails; a new number is free,
and so is the key where the table has the constraint `unique`. -/
def upsert [DecidableEq R] (key : R → K) (number : R → ℕ) (unique : Bool) (k : K) (edit : R → R)
    (make : ℕ → R) (answer : Option (List R)) (wrote : Option ℕ) (rows : List R) :
    Option (List R) :=
  if ∀ found ∈ answer, Answer rows (fun r => key r = k) found then
    match wrote with
    | none => some rows
    | some n =>
      if answer.getD [] ≠ [] then some (change key k edit rows)
      else if n ∈ rows.map number ∨ (unique = true ∧ k ∈ rows.map key) then none
      else some (make n :: rows)
  else none

variable [DecidableEq R] {number : R → ℕ} {unique : Bool} {edit : R → R} {make : ℕ → R}
  {answer : Option (List R)} {wrote : Option ℕ}

/-- What an `upsert` does: nothing, an update of a row that is there, or an insert; the insert
may be of a key that has a row only where the query failed and there is no constraint. -/
theorem upsert_cases (h : upsert key number unique k edit make answer wrote rows = some rows') :
    (wrote = none ∧ rows' = rows) ∨
    (wrote.isSome = true ∧ answer.isSome = true ∧ k ∈ rows.map key ∧
      rows' = change key k edit rows) ∨
    (∃ n, wrote = some n ∧ (k ∈ rows.map key → answer = none ∧ unique = false) ∧
      rows' = make n :: rows) := by
  unfold upsert at h
  split at h
  · next hanswer =>
    cases wrote with
    | none => exact .inl ⟨rfl, (Option.some.inj h).symm⟩
    | some n =>
      simp only at h
      cases answer with
      | none =>
        rw [if_neg (by simp)] at h
        split at h
        · cases h
        · next hfree =>
          refine .inr (.inr ⟨n, rfl, fun hk => ⟨rfl, ?_⟩, (Option.some.inj h).symm⟩)
          cases unique with
          | false => rfl
          | true => exact absurd (.inr ⟨rfl, hk⟩) hfree
      | some found =>
        have hnil := answer_nil_iff (hanswer found rfl)
        split at h
        · next hne =>
          have hk : k ∈ rows.map key := by
            by_contra hk
            exact hne (hnil.mpr hk)
          exact .inr (.inl ⟨rfl, rfl, hk, (Option.some.inj h).symm⟩)
        · next hne =>
          have hk : k ∉ rows.map key := hnil.mp (by simpa using hne)
          split at h
          · cases h
          · exact .inr (.inr ⟨n, rfl, fun hin => absurd hin hk, (Option.some.inj h).symm⟩)
  · cases h

/-- The query tells whether the key has a row, or nothing is inserted where it has. -/
def Checks (key : R → K) (rows : List R) (k : K) (answer : Option (List R)) (wrote : Option ℕ) :
    Prop := answer = none → wrote.isSome = true → k ∉ rows.map key

theorem Represents.upsert {g : V → V} (h : Represents key val rows m)
    (hu : upsert key number unique k edit make answer wrote rows = some rows')
    (hc : unique = true ∨ Checks key rows k answer wrote)
    (hk : ∀ r, key (edit r) = key r) (hmake : ∀ n, key (make n) = k)
    (hg : ∀ r, val (edit r) = g (val r)) (hv : ∀ n, val (make n) = v) :
    Represents key val rows'
      (if wrote.isSome then Function.update m k (some ((m k).elim v g)) else m) := by
  rcases upsert_cases hu with ⟨rfl, rfl⟩ | ⟨hw, -, hin, rfl⟩ | ⟨n, rfl, hfree, rfl⟩
  · exact h
  · have hsome : (m k).map g = some ((m k).elim v g) := by
      cases hm : m k with
      | none => exact absurd hin (h.none_iff.mp hm)
      | some w => rfl
    rw [if_pos hw, ← hsome]
    exact h.change hk hg k
  · have hin : k ∉ rows.map key := by
      intro hin
      obtain ⟨hnone, hunique⟩ := hfree hin
      rcases hc with hc | hc
      · rw [hunique] at hc
        cases hc
      · exact hc hnone rfl hin
    have hins := h.insert (r := make n) (by rwa [hmake])
    rw [hmake, hv] at hins
    rw [if_pos Option.isSome_some, h.none_iff.mpr hin]
    exact hins

/-- Keys stay apart exactly where the query did its work. -/
theorem nodup_upsert_iff (h : (rows.map key).Nodup)
    (hu : upsert key number false k edit make answer wrote rows = some rows')
    (hk : ∀ r, key (edit r) = key r) (hmake : ∀ n, key (make n) = k) :
    (rows'.map key).Nodup ↔ Checks key rows k answer wrote := by
  rcases upsert_cases hu with ⟨rfl, rfl⟩ | ⟨-, ha, -, rfl⟩ | ⟨n, rfl, hfree, rfl⟩
  · constructor
    · intro _ _ hw
      cases hw
    · intro _
      exact h
  · constructor
    · intro _ hnone
      rw [hnone] at ha
      cases ha
    · intro _
      rw [map_key_change hk]
      exact h
  · rw [List.map_cons, List.nodup_cons, hmake]
    constructor
    · intro hnodup _ _
      exact hnodup.1
    · intro hc
      refine ⟨fun hin => ?_, h⟩
      exact hc (hfree hin).1 rfl hin

end Changes

/-! ### The first of a sorted list -/

/-- What a cut of a sorted list drops comes no earlier than what it keeps. -/
theorem Sorts.take {before : α → α → Bool} {xs out : List α} (h : Sorts before xs out) (n : ℕ) :
    (out.take n).Pairwise (fun a b => before b a = false) ∧
      ∃ rest, xs.Perm (out.take n ++ rest) ∧
        ∀ a ∈ out.take n, ∀ b ∈ rest, before b a = false := by
  have hcut := h.2
  rw [← List.take_append_drop n out, List.pairwise_append] at hcut
  refine ⟨hcut.1, out.drop n, ?_, hcut.2.2⟩
  rw [List.take_append_drop]
  exact h.1.symm

end Lib.Table
