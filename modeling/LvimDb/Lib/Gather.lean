import Mathlib.Data.List.Basic
import Mathlib.Data.List.Induction

/-!
# Groups of rows

A list is read once. A row with a key goes to the group that has this key, or opens a group behind
the others; a row without one is left out.
-/

namespace Lib

/-- How groups are opened and filled. -/
structure Grouping (κ ρ β : Type*) where
  key : ρ → Option κ
  keyOf : β → κ
  fresh : κ → ρ → β
  add : β → ρ → β
  keyOf_fresh : ∀ k r, keyOf (fresh k r) = k
  keyOf_add : ∀ b r, keyOf (add b r) = keyOf b

namespace Grouping
variable {κ ρ β : Type*} [DecidableEq κ] (G : Grouping κ ρ β)

/-- The first group with the key takes the row; where there is none, one is opened. -/
def put (k : κ) (r : ρ) : List β → List β
  | [] => [G.fresh k r]
  | b :: out => if G.keyOf b = k then G.add b r :: out else b :: put k r out

def step (out : List β) (r : ρ) : List β := (G.key r).elim out fun k => G.put k r out

def groups (rows : List ρ) : List β := rows.foldl G.step []

def keys (rows : List ρ) : List κ := rows.filterMap G.key

/-- The rows that have a key. -/
def rowsOf (rows : List ρ) (k : κ) : List ρ := rows.filter fun r => G.key r = some k

variable {G} {k : κ} {r : ρ} {b : β} {out : List β} {rows : List ρ}

theorem put_keys (k : κ) (r : ρ) (out : List β) :
    (G.put k r out).map G.keyOf =
      out.map G.keyOf ++ if k ∈ out.map G.keyOf then [] else [k] := by
  induction out with
  | nil => simp [put, G.keyOf_fresh]
  | cons b out ih =>
    rw [put]
    by_cases hb : G.keyOf b = k
    · simp [hb, G.keyOf_add]
    · have hmem : k ∈ (b :: out).map G.keyOf ↔ k ∈ out.map G.keyOf := by
        rw [List.map_cons, List.mem_cons]
        exact or_iff_right (Ne.symm hb)
      rw [if_neg hb, List.map_cons, ih, List.map_cons, List.cons_append]
      simp only [← List.map_cons, hmem]

/-- A group after a row was put: the one that took it, the one that it opened, or another. -/
theorem put_cases (hnd : (out.map G.keyOf).Nodup) (hb : b ∈ G.put k r out) :
    (b ∈ out ∧ G.keyOf b ≠ k) ∨ (∃ b₀ ∈ out, G.keyOf b₀ = k ∧ b = G.add b₀ r) ∨
      (k ∉ out.map G.keyOf ∧ b = G.fresh k r) := by
  induction out with
  | nil => exact .inr (.inr ⟨List.not_mem_nil, List.mem_singleton.mp hb⟩)
  | cons b₁ out ih =>
    rw [List.map_cons, List.nodup_cons] at hnd
    rw [put] at hb
    by_cases hk : G.keyOf b₁ = k
    · rw [if_pos hk] at hb
      rcases List.mem_cons.mp hb with rfl | hb
      · exact .inr (.inl ⟨b₁, List.mem_cons_self, hk, rfl⟩)
      · refine .inl ⟨List.mem_cons_of_mem _ hb, fun heq => hnd.1 ?_⟩
        rw [hk, ← heq]
        exact List.mem_map_of_mem hb
    · rw [if_neg hk] at hb
      rcases List.mem_cons.mp hb with rfl | hb
      · exact .inl ⟨List.mem_cons_self, hk⟩
      · rcases ih hnd.2 hb with ⟨hold, hne⟩ | ⟨b₀, hold, hkey, heq⟩ | ⟨hnew, heq⟩
        · exact .inl ⟨List.mem_cons_of_mem _ hold, hne⟩
        · exact .inr (.inl ⟨b₀, List.mem_cons_of_mem _ hold, hkey, heq⟩)
        · refine .inr (.inr ⟨fun hmem => ?_, heq⟩)
          rcases List.mem_cons.mp hmem with heq | hmem
          · exact hk heq.symm
          · exact hnew hmem

theorem groups_concat (rows : List ρ) (r : ρ) :
    G.groups (rows ++ [r]) = (G.key r).elim (G.groups rows) fun k => G.put k r (G.groups rows) := by
  rw [groups, List.foldl_concat]
  rfl

theorem mem_put_keys {k₁ : κ} :
    k₁ ∈ (G.put k r out).map G.keyOf ↔ k₁ ∈ out.map G.keyOf ∨ k₁ = k := by
  rw [put_keys, List.mem_append]
  split
  · next hk =>
    rw [or_iff_left List.not_mem_nil]
    exact ⟨.inl, fun h => h.elim id fun heq => heq ▸ hk⟩
  · rw [List.mem_singleton]

omit [DecidableEq κ] in
theorem keys_concat (rows : List ρ) (r : ρ) :
    G.keys (rows ++ [r]) = G.keys rows ++ (G.key r).toList := by
  rw [keys, List.filterMap_append]
  cases hr : G.key r with
  | none => simp [keys, hr]
  | some k => simp [keys, hr]

variable (G) in
/-- The groups are those of the keys that rows have. -/
theorem mem_groups (rows : List ρ) {k : κ} :
    k ∈ (G.groups rows).map G.keyOf ↔ k ∈ G.keys rows := by
  induction rows using List.reverseRecOn with
  | nil => exact Iff.rfl
  | append_singleton rows r ih =>
    rw [groups_concat, keys_concat, List.mem_append]
    cases hr : G.key r with
    | none => simpa using ih
    | some k₁ =>
      rw [Option.elim_some, mem_put_keys, ih]
      simp

variable (G) in
/-- The groups stand in the order in which their keys came first. -/
theorem groups_order (rows : List ρ) :
    ((G.groups rows).map G.keyOf).Pairwise fun k k₁ =>
      (G.keys rows).idxOf k < (G.keys rows).idxOf k₁ := by
  induction rows using List.reverseRecOn with
  | nil => exact List.Pairwise.nil
  | append_singleton rows r ih =>
    have hold : ∀ {k ks}, k ∈ (G.groups rows).map G.keyOf →
        (G.keys rows ++ ks).idxOf k = (G.keys rows).idxOf k := fun hk =>
      List.idxOf_append_of_mem ((G.mem_groups rows).mp hk)
    rw [groups_concat, keys_concat]
    cases hr : G.key r with
    | none => simpa using ih
    | some k₁ =>
      rw [Option.elim_some, put_keys, List.pairwise_append]
      refine ⟨ih.imp_of_mem fun hk hk' hlt => ?_, ?_, fun k hk k' hk' => ?_⟩
      · rw [hold hk, hold hk']
        exact hlt
      · split
        · exact List.Pairwise.nil
        · exact List.pairwise_singleton _ _
      · split at hk'
        · cases hk'
        · next hnew =>
          -- a new key comes behind all others
          rw [List.mem_singleton.mp hk', hold hk,
            List.idxOf_append_of_notMem fun hmem => hnew ((G.mem_groups rows).mpr hmem)]
          have hlt : (G.keys rows).idxOf k < (G.keys rows).length :=
            List.idxOf_lt_length_of_mem ((G.mem_groups rows).mp hk)
          omega

variable (G) in
theorem groups_nodup (rows : List ρ) : ((G.groups rows).map G.keyOf).Nodup :=
  (G.groups_order rows).imp fun hlt heq => absurd (heq ▸ hlt) (Nat.lt_irrefl _)

theorem rowsOf_concat (rows : List ρ) (r : ρ) (k : κ) :
    G.rowsOf (rows ++ [r]) k = G.rowsOf rows k ++ if G.key r = some k then [r] else [] := by
  rw [rowsOf, List.filter_append]
  by_cases hr : G.key r = some k
  · simp [rowsOf, hr]
  · simp [rowsOf, hr]

/-- The first row of a key opens its group, and every later one is added to it. -/
theorem groups_rows (rows : List ρ) (hb : b ∈ G.groups rows) :
    ∃ r rs, G.rowsOf rows (G.keyOf b) = r :: rs ∧ b = rs.foldl G.add (G.fresh (G.keyOf b) r) := by
  induction rows using List.reverseRecOn generalizing b with
  | nil => cases hb
  | append_singleton rows r ih =>
    rw [groups_concat] at hb
    rw [rowsOf_concat]
    cases hr : G.key r with
    | none =>
      rw [hr] at hb
      obtain ⟨r₀, rs, hrows, heq⟩ := ih hb
      exact ⟨r₀, rs, by simpa using hrows, heq⟩
    | some k =>
      rw [hr, Option.elim_some] at hb
      rcases put_cases (G.groups_nodup rows) hb with ⟨hold, hne⟩ | ⟨b₀, hold, hkey, rfl⟩ | ⟨hnew, rfl⟩
      · obtain ⟨r₀, rs, hrows, heq⟩ := ih hold
        refine ⟨r₀, rs, ?_, heq⟩
        rw [if_neg fun h => hne (Option.some.inj h).symm, List.append_nil]
        exact hrows
      · obtain ⟨r₀, rs, hrows, heq⟩ := ih hold
        rw [G.keyOf_add, hkey, if_pos rfl]
        rw [hkey] at hrows heq
        refine ⟨r₀, rs ++ [r], ?_, ?_⟩
        · rw [hrows]
          rfl
        · rw [List.foldl_concat, ← heq]
      · have hnone : G.rowsOf rows k = [] := by
          refine List.filter_eq_nil_iff.mpr fun r₀ hmem hk => hnew ((G.mem_groups rows).mpr ?_)
          exact List.mem_filterMap.mpr ⟨r₀, hmem, of_decide_eq_true hk⟩
        rw [G.keyOf_fresh, if_pos rfl, hnone]
        exact ⟨r, [], rfl, rfl⟩

theorem put_flatMap {γ : Type*} {content : β → List γ} {f : ρ → γ}
    (hfresh : ∀ k r, content (G.fresh k r) = [f r])
    (hadd : ∀ b r, content (G.add b r) = content b ++ [f r]) (k : κ) (r : ρ) (out : List β) :
    ((G.put k r out).flatMap content).Perm (out.flatMap content ++ [f r]) := by
  induction out with
  | nil => simp [put, hfresh]
  | cons b out ih =>
    rw [put]
    split
    · -- the row goes before what the later groups have
      rw [List.flatMap_cons, List.flatMap_cons, hadd, List.append_assoc, List.append_assoc]
      exact List.perm_append_comm.append_left _
    · rw [List.flatMap_cons, List.flatMap_cons, List.append_assoc]
      exact ih.append_left _

variable (G) in
/-- Where every row has a key, the groups have every row once. -/
theorem groups_perm {γ : Type*} {content : β → List γ} {f : ρ → γ} {key : ρ → κ}
    (hkey : ∀ r, G.key r = some (key r)) (hfresh : ∀ k r, content (G.fresh k r) = [f r])
    (hadd : ∀ b r, content (G.add b r) = content b ++ [f r]) (rows : List ρ) :
    ((G.groups rows).flatMap content).Perm (rows.map f) := by
  induction rows using List.reverseRecOn with
  | nil => exact .refl _
  | append_singleton rows r ih =>
    rw [groups_concat, hkey, Option.elim_some, List.map_append]
    exact (put_flatMap hfresh hadd (key r) r _).trans (ih.append_right _)

end Grouping
end Lib
