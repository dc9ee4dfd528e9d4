import LvimDb.Store.Backend
import Mathlib.Logic.Function.Basic

/-!
# Saved connections over many sessions

The legacy file, the engine's table and the marker of `migrate_once` outlive a session; each
session resolves to one backend, and its saves and removals go there. `P` is what is saved
under a name, the driver and the spec.
-/

namespace LvimDb.Store

/-- What comes of a write: acknowledged, or given up on, where it may have been made. -/
inductive Outcome
  | done
  | failed (made : Bool)
  deriving DecidableEq, Repr

def Outcome.made : Outcome → Bool
  | .done => true
  | .failed made => made

/-- A write of a session, or a read that has its backend resolved. -/
inductive Op (P : Type)
  | list
  | save (name : String) (payload : P) (o : Outcome)
  | remove (name : String) (o : Outcome)

/-- A session begins, with the backend it will resolve to and whether its marker can be
written; or a call is made. -/
inductive Act (P : Type)
  | start (m : Mode) (marks : Bool)
  | op (o : Op P)

/-- What is on disk, the session, and `owed`: what was last written under a name whose save has
been acknowledged, until it is removed. -/
structure Disk (P : Type) where
  legacy : Option (String → Option P)
  marker : Bool
  engine : String → Option P
  mode : Option Mode
  found : Mode
  marks : Bool
  owed : String → Option P

namespace Disk
variable {P : Type} (s : Disk P)

def new : Disk P := ⟨none, false, fun _ => none, none, .none, false, fun _ => none⟩

/-- The connections of the legacy file. -/
def file (name : String) : Option P := s.legacy.bind fun table => table name

/-- `store.import`: the rows that the engine does not have already. -/
def imported (name : String) : Option P := (s.engine name).or (s.file name)

/-- `migrate_once` (378-423). -/
def migrateOnce : Disk P :=
  if s.marker then s else { s with engine := s.imported, marker := s.marks }

/-- `resolve` (427-450). -/
def resolve : Disk P :=
  match s.mode with
  | some _ => s
  | none =>
    match s.found with
    | .engine => { s with mode := some .engine }.migrateOnce
    | .legacy => { s with mode := some .legacy, legacy := some s.file }
    | .none => { s with mode := some .none }

/-- `M.list_connections` (477-487), by name. -/
def listed (name : String) : Option P :=
  match s.mode with
  | some .engine => s.engine name
  | some .legacy => s.file name
  | _ => none

/-- The backend's table with one name changed. -/
def put (name : String) (row : Option P) : Disk P :=
  match s.mode with
  | some .engine => { s with engine := Function.update s.engine name row }
  | some .legacy => { s with legacy := some (Function.update s.file name row) }
  | _ => s

/-- There is a backend that keeps connections. -/
def stores : Bool :=
  match s.mode with
  | some .engine | some .legacy => true
  | _ => false

/-- The name is owed with `payload` once it is owed. -/
def owe (name : String) (payload : P) (o : Outcome) : String → Option P :=
  match o with
  | .done => Function.update s.owed name (some payload)
  | .failed _ => Function.update s.owed name ((s.owed name).map fun _ => payload)

/-- `M.save_connection` (514-523); without a backend nothing is saved. -/
def save (name : String) (payload : P) (o : Outcome) : Disk P :=
  if s.stores && o.made then { s.put name (some payload) with owed := s.owe name payload o } else s

/-- `M.remove_connection` (528-537). -/
def remove (name : String) (o : Outcome) : Disk P :=
  if s.stores && o.made then
    { s.put name none with owed := Function.update s.owed name none }
  else s

def perform : Op P → Disk P
  | .list => s
  | .save name payload o => s.save name payload o
  | .remove name o => s.remove name o

def step : Act P → Option (Disk P)
  | .start m marks => some { s with mode := none, found := m, marks := marks }
  | .op o => some (s.resolve.perform o)

end Disk

def disks (P : Type) : Lib.Machine (Disk P) (Act P) where
  init := .new
  step := Disk.step

namespace Disk
variable {P : Type} {s t : Disk P} {name X : String} {v : P} {R : P → P → Prop}

/-! ### What an engine session lists -/

/-- What the sessions to come will list that resolve to the engine. -/
def later (s : Disk P) (name : String) : Option P :=
  (s.engine name).or (if s.marker then none else s.file name)

/-- The name is there, with what is related to `v`. -/
def Has (R : P → P → Prop) (row : Option P) (v : P) : Prop := ∃ v', row = some v' ∧ R v' v

/-- What is owed is listed, where the session is with the engine. -/
def Kept (R : P → P → Prop) (s : Disk P) : Prop :=
  s.mode = some .engine → ∀ X v, s.owed X = some v → Has R (s.listed X) v

/-- The backend the session resolves to. -/
def backend (s : Disk P) : Mode := s.mode.getD s.found

/-- A save that is owed does not go to the legacy file once that has been imported, nor where
the engine has something else under the name. -/
def Sound (R : P → P → Prop) (s : Disk P) : Act P → Prop
  | .op (.save name v o) =>
    s.backend = .legacy → o.made = true → o = .done ∨ (s.owed name).isSome →
      Has R (s.engine name) v ∨ (s.engine name = none ∧ s.marker = false)
  | _ => True

structure Owing (R : P → P → Prop) (s : Disk P) : Prop where
  later : ∀ X v, s.owed X = some v → Has R (s.later X) v
  now : s.mode = some .engine → ∀ X v, s.owed X = some v → Has R (s.engine X) v

theorem Has.or {row row' : Option P} (h : Has R row v) : Has R (row.or row') v := by
  obtain ⟨v', rfl, hr⟩ := h
  exact ⟨v', rfl, hr⟩

theorem Owing.kept (h : Owing R s) : Kept R s := by
  intro hm X v hX
  have hlisted : s.listed X = s.engine X := by
    unfold listed
    rw [hm]
  rw [hlisted]
  exact h.now hm X v hX

/-! ### The backend -/

theorem migrateOnce_later : s.migrateOnce.later = s.later := by
  funext X
  unfold migrateOnce
  cases hm : s.marker with
  | true => rfl
  | false =>
    simp only [Bool.false_eq_true, if_false, later, imported, hm, file]
    cases s.engine X <;> cases s.legacy.bind (fun table => table X) <;> cases s.marks <;> rfl

theorem migrateOnce_engine (hX : Has R (s.later X) v) : Has R (s.migrateOnce.engine X) v := by
  unfold migrateOnce
  cases hm : s.marker with
  | true =>
    simp only [later, hm, if_true, Option.or_none] at hX
    exact hX
  | false =>
    simp only [later, hm, Bool.false_eq_true, if_false] at hX
    exact hX

theorem migrateOnce_owed : s.migrateOnce.owed = s.owed := by
  unfold migrateOnce
  split <;> rfl

theorem migrateOnce_mode : s.migrateOnce.mode = s.mode := by
  unfold migrateOnce
  split <;> rfl

theorem resolve_mode : s.resolve.mode = some s.backend := by
  unfold resolve backend
  split
  · rename_i m hm
    rw [hm]
    rfl
  · rename_i hm
    rw [hm]
    split
    · rename_i hf
      rw [migrateOnce_mode, hf]
      rfl
    · rename_i hf
      rw [hf]
      rfl
    · rename_i hf
      rw [hf]
      rfl

/-- Off the engine, resolving changes nothing that a later session depends on. -/
theorem resolve_legacy (h : s.backend = .legacy) :
    s.resolve.engine = s.engine ∧ s.resolve.marker = s.marker ∧ s.resolve.owed = s.owed := by
  unfold resolve
  split
  · exact ⟨rfl, rfl, rfl⟩
  · rename_i hm
    split
    · rename_i hf
      simp [backend, hm, hf] at h
    · exact ⟨rfl, rfl, rfl⟩
    · exact ⟨rfl, rfl, rfl⟩

theorem Owing.resolve (h : Owing R s) : Owing R s.resolve := by
  unfold Disk.resolve
  split
  · exact h
  · split
    · constructor
      · intro X v hX
        rw [migrateOnce_owed] at hX
        rw [migrateOnce_later]
        exact h.later X v hX
      · intro _ X v hX
        rw [migrateOnce_owed] at hX
        exact migrateOnce_engine (h.later X v hX)
    · refine ⟨h.later, ?_⟩
      intro hm
      cases hm
    · refine ⟨h.later, ?_⟩
      intro hm
      cases hm

/-! ### Writes -/

theorem put_mode {row : Option P} : (s.put name row).mode = s.mode := by
  unfold put
  split <;> simp_all

/-- Another name is as it was. -/
theorem put_other (row : Option P) (h : X ≠ name) :
    (s.put name row).later X = s.later X ∧ (s.put name row).engine X = s.engine X := by
  unfold put
  split
  · simp [later, file, h]
  · simp [later, file, h]
  · exact ⟨rfl, rfl⟩

/-- What is owed under the other names is still there. -/
theorem Owing.put {row : Option P} {owed : String → Option P} (h : Owing R s)
    (hother : ∀ X, X ≠ name → owed X = s.owed X)
    (hname : ∀ v, owed name = some v → Has R ((s.put name row).later name) v ∧
      (s.mode = some .engine → Has R ((s.put name row).engine name) v)) :
    Owing R { s.put name row with owed := owed } := by
  constructor
  · intro X v hX
    by_cases hX' : X = name
    · subst hX'
      exact (hname v hX).1
    · have hX : s.owed X = some v := (hother X hX').symm.trans hX
      have hlater := h.later X v hX
      rw [← (put_other row hX').1] at hlater
      exact hlater
  · intro hput X v hX
    have hm : s.mode = some .engine := put_mode.symm.trans hput
    by_cases hX' : X = name
    · subst hX'
      exact (hname v hX).2 hm
    · have hX := (hother X hX').symm.trans hX
      have hnow := h.now hm X v hX
      rw [← (put_other row hX').2] at hnow
      exact hnow

/-- What is owed under the name that was written is what was written. -/
theorem owe_self {o : Outcome} {v' : P} (h : s.owe name v o name = some v') :
    v' = v ∧ (o = .done ∨ (s.owed name).isSome) := by
  cases o with
  | done =>
    simp only [owe, Function.update_self, Option.some.injEq] at h
    exact ⟨h.symm, .inl rfl⟩
  | failed made =>
    simp only [owe, Function.update_self, Option.map_eq_some_iff] at h
    obtain ⟨w, hw, rfl⟩ := h
    exact ⟨rfl, .inr (by rw [hw]; rfl)⟩

theorem owe_other {o : Outcome} (h : X ≠ name) : s.owe name v o X = s.owed X := by
  cases o <;> simp [owe, h]

theorem put_engine {row : Option P} (hm : s.mode = some .engine) :
    (s.put name row).engine name = row := by
  unfold put
  rw [hm]
  exact Function.update_self ..

theorem put_legacy {row : Option P} (hm : s.mode = some .legacy) :
    (s.put name row).later name = (s.engine name).or (if s.marker then none else row) := by
  unfold put
  rw [hm]
  simp [later, file]

theorem stores_cases (h : s.stores = true) : s.mode = some .engine ∨ s.mode = some .legacy := by
  unfold stores at h
  split at h
  · exact .inl ‹_›
  · exact .inr ‹_›
  · cases h

theorem Owing.save {o : Outcome} (hrefl : ∀ v, R v v) (h : Owing R s)
    (hs : s.mode = some .legacy → o.made = true → o = .done ∨ (s.owed name).isSome →
      Has R (s.engine name) v ∨ (s.engine name = none ∧ s.marker = false)) :
    Owing R (s.save name v o) := by
  unfold Disk.save
  split
  · rename_i hmade
    obtain ⟨hstores, hmade⟩ := Bool.and_eq_true_iff.mp hmade
    refine h.put (fun X hX => owe_other hX) ?_
    intro v' hv'
    obtain ⟨rfl, hdue⟩ := owe_self hv'
    rcases stores_cases hstores with hm | hm
    · have hhas : Has R ((s.put name (some v')).engine name) v' :=
        ⟨v', put_engine hm, hrefl v'⟩
      exact ⟨hhas.or, fun _ => hhas⟩
    · refine ⟨?_, fun he => ?_⟩
      · rw [put_legacy hm]
        rcases hs hm hmade hdue with hhas | ⟨he, hmark⟩
        · exact hhas.or
        · refine ⟨v', ?_, hrefl v'⟩
          simp [he, hmark]
      · rw [hm] at he
        cases he
  · exact h

theorem Owing.remove {o : Outcome} (h : Owing R s) : Owing R (s.remove name o) := by
  unfold Disk.remove
  split
  · refine h.put (fun X hX => Function.update_of_ne hX ..) ?_
    intro v hv
    rw [Function.update_self] at hv
    cases hv
  · exact h

theorem Owing.step {a : Act P} (hrefl : ∀ v, R v v) (h : Owing R s) (hs : Sound R s a)
    (hst : s.step a = some t) : Owing R t := by
  cases a with
  | start m marks =>
    obtain rfl := Option.some.inj hst
    refine ⟨h.later, ?_⟩
    intro hm
    cases hm
  | op o =>
    obtain rfl := Option.some.inj hst
    cases o with
    | list => exact h.resolve
    | remove name o => exact h.resolve.remove
    | save name v o =>
      refine h.resolve.save hrefl fun hm => ?_
      rw [resolve_mode] at hm
      obtain ⟨hengine, hmarker, howed⟩ := resolve_legacy (Option.some.inj hm)
      rw [hengine, hmarker, howed]
      exact hs (Option.some.inj hm)

/-- Along saves that are sound, an engine session lists what is owed. -/
theorem kept {is : List (Act P)} (hrefl : ∀ v, R v v)
    (h : (disks P).Run (Sound R) (disks P).init is t) : Kept R t := by
  refine (h.invariant (Owing R) (fun s a u hg hi hst => hi.step hrefl hg hst) ?_).kept
  constructor
  · intro X v hX
    cases hX
  · intro hm
    cases hm

/-! ### A save that is not sound -/

theorem save_done (name : String) (v : P) (hm : s.mode = some .legacy) {o : Outcome} (hmade : o.made = true)
    (hdue : o = .done ∨ (s.owed name).isSome) :
    (s.save name v o).owed name = some v ∧ (s.save name v o).engine = s.engine ∧
      (s.save name v o).marker = s.marker := by
  unfold save stores put
  rw [hm, hmade]
  refine ⟨?_, rfl, rfl⟩
  rcases hdue with rfl | hdue
  · exact Function.update_self ..
  · cases o with
    | done => exact Function.update_self ..
    | failed made =>
      obtain ⟨w, hw⟩ := Option.isSome_iff_exists.mp hdue
      simp [owe, hw]

/-- The engine's own row stands, and once the marker is there nothing is added. -/
theorem migrateOnce_row (h : ¬ Has R (s.engine X) v) (hm : s.engine X = none → s.marker = true) :
    ¬ Has R (s.migrateOnce.engine X) v := by
  unfold migrateOnce
  split
  · exact h
  · rename_i hmark
    cases he : s.engine X with
    | none => exact absurd (hm he) hmark
    | some v' =>
      simp only [imported, he]
      rw [he] at h
      exact h

/-- The next session with the engine does not list what an unsound save has acknowledged. -/
theorem lost {a : Act P} (ha : ¬ Sound R s a) (hst : s.step a = some t) :
    ∃ u, (disks P).Run Lib.Machine.free t [.start .engine true, .op .list] u ∧ ¬ Kept R u := by
  cases a with
  | start m marks => exact absurd trivial ha
  | op o =>
    cases o with
    | list => exact absurd trivial ha
    | remove name o => exact absurd trivial ha
    | save name v o =>
      obtain rfl := Option.some.inj hst
      simp only [Sound, Classical.not_imp, not_or, not_and] at ha
      obtain ⟨hb, hmade, hdue, hhas, hmark⟩ := ha
      have hmode : s.resolve.mode = some .legacy := resolve_mode.trans (congrArg some hb)
      obtain ⟨hengine, hmarker, howed⟩ := resolve_legacy hb
      rw [← howed] at hdue
      obtain ⟨ho, he, hk⟩ := save_done name v hmode hmade hdue
      let found : Disk P := { s.resolve.save name v o with
        mode := some .engine, found := .engine, marks := true }
      refine ⟨found.migrateOnce, .cons trivial rfl (.cons trivial rfl (.nil _)), ?_⟩
      intro hkept
      have hnot : ¬ Has R (found.migrateOnce.engine name) v := by
        apply migrateOnce_row
        · change ¬ Has R ((s.resolve.save name v o).engine name) v
          rw [he, hengine]
          exact hhas
        · intro hnone
          change (s.resolve.save name v o).engine name = none at hnone
          change (s.resolve.save name v o).marker = true
          rw [he, hengine] at hnone
          rw [hk, hmarker]
          simpa using hmark hnone
      have howes : found.migrateOnce.owed name = some v := by
        rw [migrateOnce_owed]
        exact ho
      have hfound : found.migrateOnce.mode = some .engine := migrateOnce_mode
      have hlisted := hkept hfound name v howes
      unfold listed at hlisted
      rw [hfound] at hlisted
      exact hnot hlisted

end Disk

open Disk in
/-- An engine session lists every name whose save has been acknowledged, and with what was
saved, along saves that are sound; where one is not, the next session with the engine does
not. -/
theorem acknowledged_listed (P : Type) :
    (∀ is t, (disks P).Run (Sound fun _ _ => True) (disks P).init is t →
      t.mode = some .engine → ∀ X v, t.owed X = some v → (t.listed X).isSome = true) ∧
    (∀ is t, (disks P).Run (Sound Eq) (disks P).init is t →
      t.mode = some .engine → ∀ X v, t.owed X = some v → t.listed X = some v) ∧
    (∀ (R : P → P → Prop) s a t, ¬ Sound R s a → s.step a = some t →
      ∃ u, (disks P).Run Lib.Machine.free t [.start .engine true, .op .list] u ∧
        ¬ Kept R u) := by
  refine ⟨?_, ?_, ?_⟩
  · intro is t h hm X v hX
    obtain ⟨v', hv', -⟩ := kept (fun _ => trivial) h hm X v hX
    rw [hv']
    rfl
  · intro is t h hm X v hX
    obtain ⟨v', hv', rfl⟩ := kept (fun _ => rfl) h hm X v hX
    exact hv'
  · intro R s a t ha hst
    exact lost ha hst

/-- A connection is saved before the engine is there for the first time. -/
def engineComes : List (Act Unit) :=
  [.start .legacy true, .op (.save "prod" () .done), .start .engine true, .op .list]

open Disk in
theorem acknowledged_listed_prod :
    ∃ t, (disks Unit).Run (Sound Eq) (disks Unit).init engineComes t ∧
      t.owed "prod" = some () ∧ t.listed "prod" = some () := by
  have hrun : ∃ t, (disks Unit).Run (Sound Eq) (disks Unit).init engineComes t ∧
      t.mode = some .engine ∧ t.owed "prod" = some () :=
    ⟨_, .cons trivial rfl (.cons (fun _ _ _ => .inr ⟨rfl, rfl⟩) rfl
      (.cons trivial rfl (.cons trivial rfl (.nil _)))), rfl, by decide⟩
  obtain ⟨t, ht, hm, ho⟩ := hrun
  exact ⟨t, ht, ho, (acknowledged_listed Unit).2.1 _ _ ht hm "prod" () ho⟩

/-- The engine goes away for a session after the import. -/
def engineAway : List (Act Unit) :=
  [.start .engine true, .op .list, .start .legacy true, .op (.save "prod" () .done),
    .start .engine true, .op .list]

theorem acknowledged_not_listed :
    ∃ t, (disks Unit).Run Lib.Machine.free (disks Unit).init engineAway t ∧
      t.mode = some .engine ∧ t.owed "prod" = some () ∧ t.listed "prod" = none := by
  obtain ⟨t, ht, hrun⟩ := (disks Unit).exists_run (disks Unit).init engineAway rfl
  have hrow : ((disks Unit).exec (disks Unit).init engineAway).map
      (fun t => (t.mode, t.owed "prod", t.listed "prod")) =
        some (some .engine, some (), none) := by decide
  rw [ht] at hrow
  obtain ⟨hm, ho, hl⟩ := Prod.mk.inj (Option.some.inj hrow) |>.imp id Prod.mk.inj
  exact ⟨t, hrun, hm, ho, hl⟩

end LvimDb.Store
