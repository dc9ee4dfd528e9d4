import LvimDb.Editor.RunAll
import LvimDb.Store.Backend

/-!
# The driver a run is handed

`with_conn` of ui/editor.lua with the drawer's rows and the store. A row has its driver from
the last time the rows were loaded; a connection that a run opens has it from the store, read
where the engine's answer is handled.
-/

namespace LvimDb.Editor
open Engine (ConnId)
open Store (Mode World)

/-- A read of the store: from within a daemon callback, or outside of them, with the backend
that an undecided one comes to and whether the engine answers. -/
inductive Read
  | inside
  | outside (decided : Mode) (answered : Bool)

def Read.answered : Read → Bool
  | .inside => false
  | .outside _ answered => answered

/-- A driver that was given to `run_guarded`, and the one saved under the name then. -/
structure Handed where
  name : String
  driver : String
  saved : Option String
  deriving DecidableEq, Repr

/-- The driver is the saved one. -/
def Handed.Saved (e : Handed) : Prop := ∀ d, e.saved = some d → e.driver = d

/-- `opening` are the connections that runs are opening. -/
structure Links where
  mode : Option Mode
  saved : Mode → String → Option String
  rows : String → Option Row
  opening : List String
  handed : List Handed

namespace Links
variable (w : World) (s : Links)

def new : Links := ⟨none, fun _ _ => none, fun _ => none, [], []⟩

/-- What `resolve` (store.lua:427-450) comes to. -/
def backend : Read → Mode
  | .inside => s.mode.getD w.fallback
  | .outside decided _ => s.mode.getD decided

/-- There is something to read: within a callback the engine cannot be waited for. -/
def readable (r : Read) : Bool :=
  match s.backend w r with
  | .engine => r.answered
  | .legacy => true
  | .none => false

/-- `M.get_connection` (store.lua:492-507), the driver of it. -/
def getConnection (r : Read) (name : String) : Option String :=
  if s.readable w r then s.saved (s.backend w r) name else none

@[simps] def resolve (r : Read) : Links := { s with mode := some (s.backend w r) }

/-- The driver saved under a name. -/
def current (name : String) : Option String := s.mode.bind fun m => s.saved m name

/-- `live_conn` (drawer.lua:93-99). -/
def liveConn (name : String) : Option (ConnId × String) :=
  (s.rows name).bind fun r => r.connId.map (·, r.driver)

/-- The rows where one that has no connection gets `id`. -/
def adoptedRows (name : String) (id : ConnId) : String → Option Row :=
  match s.rows name with
  | some ⟨driver, none⟩ => Function.update s.rows name (some ⟨driver, some id⟩)
  | _ => s.rows

/-- `adopt` (drawer.lua:641-651). -/
@[simps] def adopt (name : String) (id : ConnId) : Links :=
  { s with rows := s.adoptedRows name id }

/-- `load_connections` (drawer.lua:541-558): a row keeps its connection. -/
@[simps] def load (r : Read) : Links :=
  { s.resolve w r with rows := fun name =>
      (s.getConnection w r name).map fun driver => ⟨driver, (s.rows name).bind Row.connId⟩ }

/-- The callback of `with_conn`. -/
@[simps] def hand (name driver : String) : Links :=
  { s with handed := ⟨name, driver, s.current name⟩ :: s.handed }

/-- `with_conn` (282-302), up to its connect. -/
def withConn (name : String) (r : Read) : Links :=
  match s.liveConn name with
  | some (_, driver) => s.hand name driver
  | none =>
    match s.getConnection w r name with
    | some _ => { s.resolve w r with opening := s.opening ++ [name] }
    | none => s.resolve w r

/-- A connection that a run has opened; the answer is a daemon message. -/
def connected (name : String) (id : ConnId) : Links :=
  ((s.adopt name id).resolve w .inside).hand name ((s.getConnection w .inside name).getD "")

inductive Input
  | load (r : Read)
  | link (name : String) (id : Option ConnId)
  | store (m : Mode) (name : String) (driver : Option String)
  | run (name : String) (r : Read)
  | connected (n : ℕ) (id : Option ConnId)

def step : Input → Option Links
  | .load r => some (s.load w r)
  | .link name id =>
    match s.rows name with
    | some row => some { s with rows := Function.update s.rows name (some ⟨row.driver, id⟩) }
    | none => none
  | .store m name driver =>
    some { s with saved := Function.update s.saved m (Function.update (s.saved m) name driver) }
  | .run name r => some (s.withConn w name r)
  | .connected n id =>
    match s.opening[n]? with
    | some name =>
      let s := { s with opening := s.opening.eraseIdx n }
      match id with
      | some id => some (s.connected w name id)
      | none => some s
    | none => none

end Links

def links (w : World) : Lib.Machine Links Links.Input where
  init := .new
  step := Links.step w

namespace Links
variable {w : World} {s t : Links} {name : String} {r : Read}

/-- A save keeps the driver of a connection the drawer has a row for, and no connection that a
run opens comes up while the engine has a driver for it. -/
def Careful (s : Links) : Input → Prop
  | .store m name driver =>
    s.mode = some m → ∀ row, s.rows name = some row → ∀ d, driver = some d → row.driver = d
  | .connected n (some _) =>
    s.mode = some .engine → ∀ name, s.opening[n]? = some name →
      ∀ d, s.saved .engine name = some d → d = ""
  | _ => True

/-- The rows have the saved drivers, and so had the runs. -/
structure Fresh (s : Links) : Prop where
  mode : ∀ name row, s.rows name = some row → ∃ m, s.mode = some m ∧ m ≠ .none
  opening : s.opening ≠ [] → ∃ m, s.mode = some m ∧ m ≠ .none
  rows : ∀ m name row d, s.mode = some m → s.rows name = some row → s.saved m name = some d →
    row.driver = d
  handed : ∀ e ∈ s.handed, e.Saved

theorem backend_eq {m : Mode} (h : s.mode = some m) : s.backend w r = m := by
  cases r <;> simp [backend, h]

theorem getConnection_some {d : String} (h : s.getConnection w r name = some d) :
    s.saved (s.backend w r) name = some d ∧ s.backend w r ≠ .none := by
  unfold getConnection at h
  split at h
  · rename_i hr
    refine ⟨h, fun hb => ?_⟩
    rw [readable, hb] at hr
    cases hr
  · cases h

/-- Within a callback the legacy file only can be read. -/
theorem getConnection_inside (h : s.mode = some .legacy) :
    s.getConnection w .inside name = s.saved .legacy name := by
  have hb : s.backend w .inside = .legacy := backend_eq h
  simp only [getConnection, readable, hb, if_true]

theorem current_eq {m : Mode} (h : s.mode = some m) : s.current name = s.saved m name := by
  unfold current
  rw [h]
  rfl

theorem Fresh.hand {driver : String} (h : Fresh s)
    (hd : ∀ d, s.current name = some d → driver = d) : Fresh (s.hand name driver) where
  mode := h.mode
  opening := h.opening
  rows := h.rows
  handed e he := by
    rcases List.mem_cons.mp he with rfl | he
    · exact hd
    · exact h.handed e he

/-- Once the backend is known it stays. -/
theorem resolve_eq {m : Mode} (h : s.mode = some m) : s.resolve w r = s := by
  have hb : s.backend w r = m := backend_eq h
  cases s
  simp only [resolve, hb]
  rw [← h]

/-- A row that is there already, the backend is known. -/
theorem Fresh.resolve (h : Fresh s) : Fresh (s.resolve w r) := by
  cases hm : s.mode with
  | some m =>
    rw [resolve_eq hm]
    exact h
  | none =>
    have hrows : ∀ name, s.rows name = none := by
      intro name
      cases hr : s.rows name with
      | none => rfl
      | some row =>
        obtain ⟨m, hm', -⟩ := h.mode name row hr
        rw [hm] at hm'
        cases hm'
    constructor
    · intro name row hr
      exact absurd (hr.symm.trans (hrows name)) (Option.some_ne_none row)
    · intro ho
      obtain ⟨m, hm', -⟩ := h.opening ho
      rw [hm] at hm'
      cases hm'
    · intro m name row d _ hr
      exact absurd (hr.symm.trans (hrows name)) (Option.some_ne_none row)
    · exact h.handed

theorem Fresh.load (h : Fresh s) : Fresh (s.load w r) := by
  constructor
  · intro name row hr
    obtain ⟨d, hd, -⟩ := Option.map_eq_some_iff.mp hr
    exact ⟨s.backend w r, rfl, (getConnection_some hd).2⟩
  · exact h.resolve.opening
  · intro m name row d hm hr hd
    obtain ⟨d', hd', rfl⟩ := Option.map_eq_some_iff.mp hr
    obtain rfl := Option.some.inj hm
    exact Option.some.inj ((getConnection_some hd').1.symm.trans hd)
  · exact h.handed

theorem Fresh.withConn (h : Fresh s) : Fresh (s.withConn w name r) := by
  unfold Links.withConn
  split
  · rename_i id driver hlive
    refine h.hand fun d hd => ?_
    obtain ⟨row, hrow, hid⟩ := Option.bind_eq_some_iff.mp hlive
    obtain ⟨id', -, heq⟩ := Option.map_eq_some_iff.mp hid
    obtain ⟨m, hm, -⟩ := h.mode name row hrow
    rw [current_eq hm] at hd
    rw [← h.rows m name row d hm hrow hd]
    exact (Prod.mk.inj heq).2.symm
  · split
    · rename_i d hd
      have hr := h.resolve (w := w) (r := r)
      exact ⟨hr.mode, fun _ => ⟨_, rfl, (getConnection_some hd).2⟩, hr.rows, hr.handed⟩
    · exact h.resolve

/-- The rows before, but for the connection of one. -/
theorem Fresh.relink {rows : String → Option Row} (h : Fresh s)
    (hrows : ∀ name row, rows name = some row →
      ∃ old, s.rows name = some old ∧ old.driver = row.driver) :
    Fresh { s with rows := rows } := by
  constructor
  · intro name row hr
    obtain ⟨old, ho, -⟩ := hrows name row hr
    exact h.mode name old ho
  · exact h.opening
  · intro m name row d hm hr hd
    obtain ⟨old, ho, heq⟩ := hrows name row hr
    rw [← heq]
    exact h.rows m name old d hm ho hd
  · exact h.handed

theorem update_driver {rows : String → Option Row} {row : Row} {id : Option ConnId}
    (hrow : rows name = some row) (X : String) (row' : Row)
    (h : Function.update rows name (some ⟨row.driver, id⟩) X = some row') :
    ∃ old, rows X = some old ∧ old.driver = row'.driver := by
  by_cases hX : X = name
  · subst hX
    rw [Function.update_self] at h
    obtain rfl := Option.some.inj h
    exact ⟨row, hrow, rfl⟩
  · rw [Function.update_of_ne hX] at h
    exact ⟨row', h, rfl⟩

theorem Fresh.adopt {id : ConnId} (h : Fresh s) : Fresh (s.adopt name id) := by
  refine h.relink fun X row hr => ?_
  simp only [adoptedRows] at hr
  rcases hrow : s.rows name with _ | ⟨driver, _ | id'⟩
  · rw [hrow] at hr
    exact ⟨row, hr, rfl⟩
  · rw [hrow] at hr
    exact update_driver hrow X row hr
  · rw [hrow] at hr
    exact ⟨row, hr, rfl⟩

theorem Fresh.connected {id : ConnId} (h : Fresh s) (hm : ∃ m, s.mode = some m ∧ m ≠ .none)
    (he : s.mode = some .engine → ∀ d, s.saved .engine name = some d → d = "") :
    Fresh (s.connected w name id) := by
  unfold Links.connected
  refine h.adopt.resolve.hand fun d hd => ?_
  obtain ⟨m, hm, hne⟩ := hm
  have hm' : (s.adopt name id).mode = some m := hm
  rw [resolve_eq hm', current_eq hm'] at hd
  cases m with
  | none => exact absurd rfl hne
  | legacy =>
    have hd : s.saved .legacy name = some d := hd
    rw [getConnection_inside hm, hd]
    rfl
  | engine =>
    have hd : s.saved .engine name = some d := hd
    obtain rfl := he hm d hd
    have hb : s.backend w .inside = .engine := backend_eq hm
    simp [getConnection, readable, hb, Read.answered]

theorem Fresh.step {i : Input} (h : Fresh s) (hc : s.Careful i) (hst : s.step w i = some t) :
    Fresh t := by
  cases i with
  | load r =>
    obtain rfl := Option.some.inj hst
    exact h.load
  | link name id =>
    simp only [Links.step] at hst
    split at hst
    · rename_i row hrow
      obtain rfl := Option.some.inj hst
      exact h.relink (update_driver hrow)
    · cases hst
  | store m name driver =>
    obtain rfl := Option.some.inj hst
    refine ⟨h.mode, h.opening, ?_, h.handed⟩
    intro m' X row d hm hrow hd
    simp only [Function.update_apply] at hd
    split at hd
    · rename_i hm'
      subst hm'
      rw [Function.update_apply] at hd
      split at hd
      · rename_i hX
        subst hX
        exact hc hm row hrow d hd
      · exact h.rows m' X row d hm hrow hd
    · exact h.rows m' X row d hm hrow hd
  | run name r =>
    obtain rfl := Option.some.inj hst
    exact h.withConn
  | connected n id =>
    simp only [Links.step] at hst
    split at hst
    · rename_i name hname
      have hopen : s.opening ≠ [] := List.ne_nil_of_mem (List.mem_of_getElem? hname)
      have h' : Fresh { s with opening := s.opening.eraseIdx n } :=
        ⟨h.mode, fun _ => h.opening hopen, h.rows, h.handed⟩
      cases id with
      | none =>
        obtain rfl := Option.some.inj hst
        exact h'
      | some id =>
        obtain rfl := Option.some.inj hst
        exact h'.connected (h.opening hopen) fun he => hc he name hname
    · cases hst

/-! ### A step that is not careful -/

/-- A run was handed another driver than the saved one. -/
def Mistaken (s : Links) : Prop := ∃ e ∈ s.handed, ¬ e.Saved

theorem mistaken_hand {driver d : String} (hd : s.current name = some d) (hne : driver ≠ d) :
    (s.hand name driver).Mistaken :=
  ⟨⟨name, driver, s.current name⟩, List.mem_cons_self .., fun h => hne (h d hd)⟩

theorem leads_live {m : Mode} {driver d : String} (id : ConnId) (hm : s.mode = some m)
    (hlive : s.liveConn name = some (id, driver)) (hd : s.saved m name = some d)
    (hne : driver ≠ d) : (links w).Leads s Mistaken := by
  have hrun : (links w).step s (.run name .inside) = some (s.hand name driver) := by
    simp [links, step, withConn, hlive]
  have hcur : s.current name = some d := (current_eq hm).trans hd
  exact Lib.Machine.leads_step hrun (Lib.Machine.leads_here (mistaken_hand hcur hne))

/-- Outside of a callback, a store that answers is read. -/
theorem getConnection_outside {m : Mode} (hm : s.mode = some m) (hn : m ≠ .none) :
    s.getConnection w (.outside m true) name = s.saved m name := by
  have hb : s.backend w (.outside m true) = m := backend_eq hm
  cases m with
  | none => exact absurd rfl hn
  | engine => simp [getConnection, readable, hb, Read.answered]
  | legacy => simp [getConnection, readable, hb]

/-- A row with another driver than the saved one is what the next run is handed, or the one
after its connection is there. -/
theorem stale_row {m : Mode} {row : Row} {d : String} (hm : s.mode = some m) (hn : m ≠ .none)
    (hrow : s.rows name = some row) (hd : s.saved m name = some d) (hne : row.driver ≠ d) :
    (links w).Leads s Mistaken := by
  obtain ⟨driver, _ | id⟩ := row
  · -- the run opens a connection, which the row adopts
    let opened : Links := { s with opening := s.opening ++ [name] }
    have hopen : (links w).step s (.run name (.outside m true)) = some opened := by
      have hlive : s.liveConn name = none := by simp [liveConn, hrow]
      have hget := (getConnection_outside (w := w) hm hn).trans hd
      simp only [links, step, withConn, hlive, hget, resolve_eq hm]
      rfl
    let idle : Links := { opened with opening := opened.opening.eraseIdx s.opening.length }
    have hconn : (links w).step opened (.connected s.opening.length (some 0)) =
        some (idle.connected w name 0) := by
      simp [links, step, opened, idle]
    refine Lib.Machine.leads_step hopen (Lib.Machine.leads_step hconn ?_)
    have hm' : (idle.connected w name 0).mode = some m := congrArg some (backend_eq hm)
    refine leads_live 0 hm' ?_ hd hne
    simp [connected, liveConn, adoptedRows, idle, opened, hrow]
  · exact leads_live id hm (by simp [liveConn, hrow]) hd hne

theorem mistaken_leads {i : Input} (hf : Fresh s) (hc : ¬ s.Careful i) (hst : s.step w i = some t) :
    (links w).Leads t Mistaken := by
  cases i with
  | load r => exact absurd trivial hc
  | link name id => exact absurd trivial hc
  | run name r => exact absurd trivial hc
  | store m name driver =>
    obtain rfl := Option.some.inj hst
    simp only [Careful, Classical.not_imp, not_forall] at hc
    obtain ⟨hm, row, hrow, d, rfl, hne⟩ := hc
    obtain ⟨m', hm', hn⟩ := hf.mode name row hrow
    obtain rfl := Option.some.inj (hm.symm.trans hm')
    exact stale_row hm hn hrow (by simp) hne
  | connected n id =>
    cases id with
    | none => exact absurd trivial hc
    | some id =>
      simp only [Careful, Classical.not_imp, not_forall] at hc
      obtain ⟨hm, name, hname, d, hd, hne⟩ := hc
      simp only [Links.step, hname] at hst
      obtain rfl := Option.some.inj hst
      refine Lib.Machine.leads_here (mistaken_hand (d := d) ?_ ?_)
      · have hm' : (s.resolve w .inside).mode = some .engine := congrArg some (backend_eq hm)
        exact (current_eq hm').trans hd
      · have hget : ({ s with opening := s.opening.eraseIdx n } : Links).getConnection w .inside name
            = none := by
          have hb : ({ s with opening := s.opening.eraseIdx n } : Links).backend w .inside =
            .engine := backend_eq hm
          simp [getConnection, readable, hb, Read.answered]
        rw [hget]
        exact Ne.symm hne

end Links

open Links in
/-- Along careful steps every run is handed the driver saved under its connection's name; a
step that is not careful leads to a run that is not. -/
theorem driver_saved (w : World) :
    (∀ is t, (links w).Run Careful (links w).init is t → ∀ e ∈ t.handed, e.Saved) ∧
    (∀ is s i t, (links w).Run Careful (links w).init is s → ¬ s.Careful i →
      (links w).step s i = some t → (links w).Leads t Mistaken) := by
  have hfresh : ∀ is t, (links w).Run Careful (links w).init is t → Fresh t := by
    intro is t h
    refine h.invariant Fresh (fun s i u hg hi hst => hi.step hg hst) ?_
    refine ⟨?_, fun h => absurd rfl h, ?_, ?_⟩
    · intro name row hr
      cases hr
    · intro m name row d _ hr
      cases hr
    · intro e he
      cases he
  constructor
  · intro is t h
    exact (hfresh is t h).handed
  · intro is s i t h hc hst
    exact mistaken_leads (hfresh is s h) hc hst

/-- A run opens its connection itself, with the legacy store. -/
def legacyRun : List Links.Input :=
  [.store .legacy "prod" (some "mongodb"), .run "prod" (.outside .legacy true),
    .connected 0 (some 1)]

open Links in
theorem driver_saved_legacy : ∃ w t, (links w).Run Careful (links w).init legacyRun t ∧
    t.handed = [⟨"prod", "mongodb", some "mongodb"⟩] ∧ ∀ e ∈ t.handed, e.Saved := by
  let w : World := ⟨false, 2, false, true, true⟩
  have hrun : ∃ t, (links w).Run Careful (links w).init legacyRun t ∧
      t.handed = [⟨"prod", "mongodb", some "mongodb"⟩] :=
    ⟨_, .cons nofun rfl (.cons trivial rfl (.cons nofun rfl (.nil _))), by decide⟩
  obtain ⟨t, ht, hhanded⟩ := hrun
  exact ⟨w, t, ht, hhanded, (driver_saved w).1 _ _ ht⟩

/-- A run opens its connection itself, with the engine's store. -/
def firstRun : List Links.Input :=
  [.store .engine "prod" (some "mongodb"), .run "prod" (.outside .engine true),
    .connected 0 (some 1)]

theorem driver_lost : ∃ w t, (links w).Run Lib.Machine.free (links w).init firstRun t ∧
    t.handed = [⟨"prod", "", some "mongodb"⟩] := by
  let w : World := ⟨true, 2, true, true, true⟩
  obtain ⟨t, ht, hrun⟩ := (links w).exists_run (links w).init firstRun (by decide)
  have hhanded : ((links w).exec (links w).init firstRun).map Links.handed =
      some [⟨"prod", "", some "mongodb"⟩] := by decide
  rw [ht] at hhanded
  exact ⟨w, t, hrun, Option.some.inj hhanded⟩

end LvimDb.Editor
