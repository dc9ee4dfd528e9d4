import LvimDb.Lib.Lines
import LvimDb.Result.Inputs

/-!
# Running statements from the editor

`run` and `run_all` of ui/editor.lua over the result dock, with `with_conn`, the picker of a
connection and the drawer's rows they look a connection up in. Every other action of the
dock, the drawer and the editor may come between any two steps.
-/

namespace LvimDb.Editor
open Engine (ConnId)
open Lib (isSpace)
open Result (Ask Conn Dock Env Event Query)

/-- `vim.trim`. -/
def trim (text : String) : String := String.ofList (Lib.strip isSpace text.toList)

/-- The statements of a list that are sent: blank ones are skipped, the others trimmed. -/
def clean (stmts : List String) : List String := (stmts.map trim).filter (· ≠ "")

/-- A connection row of the drawer. -/
structure Row where
  driver : String
  connId : Option ConnId
  deriving DecidableEq, Repr

/-- A `run_all`: its statements, those it has not come to, and what it gave to `run_guarded`
with the numbers of the `on_done`s. -/
structure RunAll where
  stmts : List String
  rest : List String
  handed : List (ℕ × Ask)
  deriving DecidableEq, Repr

def RunAll.numbers (r : RunAll) : List ℕ := r.handed.map Prod.fst

/-- `opening` are the statements whose connection is being opened, `picking` those whose
connection is being asked for, with the `run_all` that goes on with `on_done`. -/
structure Workspace (V : Type) where
  dock : Dock V
  active : Option String
  rows : String → Option Row
  saved : List (String × String)
  lists : List RunAll
  opening : List (String × String × Option ℕ)
  picking : List (String × Option ℕ)

inductive Input (V : Type)
  | dock (i : Result.Input V)
  | setActive (name : Option String)
  | setRow (name : String) (row : Option Row)
  | store (saved : List (String × String))
  | run (statement : String)
  | runAll (stmts : List String)
  | connected (n : ℕ) (id : Option ConnId)
  | picked (n : ℕ) (name : Option String)

namespace Workspace
variable {V : Type} (env : Env V) (s : Workspace V)

def new : Workspace V where
  dock := .new
  active := none
  rows := fun _ => none
  saved := []
  lists := []
  opening := []
  picking := []

/-- `live_conn` (drawer.lua:93-99). -/
def liveConn (name : String) : Option (ConnId × String) :=
  (s.rows name).bind fun r => r.connId.map (·, r.driver)

/-- `adopt` (drawer.lua:641-651). -/
def adopt (name : String) (id : ConnId) : Workspace V :=
  match s.rows name with
  | some ⟨driver, none⟩ =>
    { s with rows := Function.update s.rows name (some ⟨driver, some id⟩) }
  | _ => s

/-- The driver of a saved connection (`get_connection`). -/
def savedDriver (name : String) : String := (s.saved.lookup name).getD ""

/-- The statement is given to `run_guarded`. -/
def guarded (q : Query) (l : Option ℕ) : Workspace V :=
  { s with
    dock := s.dock.runGuarded env q l.isSome
    lists :=
      match l with
      | some l => s.lists.modify l fun r => { r with handed := r.handed ++ [(s.dock.next, q.ask)] }
      | none => s.lists }

/-- `with_conn` (282-302) with what `run` does once the connection is there. -/
def withConn (name statement : String) (l : Option ℕ) : Workspace V :=
  match s.liveConn name with
  | some (id, driver) => s.guarded env ⟨⟨id, name, driver⟩, statement, none⟩ l
  | none => { s with opening := s.opening ++ [(name, statement, l)] }

/-- `run` (391-438) for a statement that is not blank. -/
def start (statement : String) (l : Option ℕ) : Workspace V :=
  match s.active with
  | some name => s.withConn env name statement l
  | none => if s.saved.isEmpty then s else { s with picking := s.picking ++ [(statement, l)] }

/-- `step` of `run_all` (443-461) from the statements left: a blank one is skipped. -/
def advance (s : Workspace V) (l : ℕ) : List String → Workspace V
  | [] => { s with lists := s.lists.modify l fun r => { r with rest := [] } }
  | st :: rest =>
    if trim st = "" then advance s l rest
    else
      start env { s with lists := s.lists.modify l fun r => { r with rest := rest } } (trim st) (some l)

def proceed (l : ℕ) : Workspace V :=
  match s.lists[l]? with
  | some r => s.advance env l r.rest
  | none => s

/-- The `run_all` whose `step` an `on_done` is. -/
def owner (n : ℕ) : Option ℕ := s.lists.findIdx? fun r => n ∈ r.numbers

/-- What happened since: the `on_done`s that were called with true go on, the others stop. -/
def report (es : List (Event V)) : Workspace V :=
  match es.findSome? fun | .finished n true => some n | _ => none with
  | some n =>
    match s.owner n with
    | some l => s.proceed env l
    | none => s
  | none => s

def step : Input V → Option (Workspace V)
  | .dock i =>
    (s.dock.step env i).map fun d =>
      report env { s with dock := d } (d.hist.take (d.hist.length - s.dock.hist.length))
  | .setActive name => some { s with active := name }
  | .setRow name row => some { s with rows := Function.update s.rows name row }
  | .store saved => some { s with saved := saved }
  | .run statement => some (if trim statement = "" then s else s.start env (trim statement) none)
  | .runAll stmts =>
    some (proceed env { s with lists := s.lists ++ [⟨stmts, stmts, []⟩] } s.lists.length)
  | .connected n id =>
    match s.opening[n]? with
    | some (name, statement, l) =>
      let s := { s with opening := s.opening.eraseIdx n }
      match id with
      | some id =>
        some ((s.adopt name id).guarded env ⟨⟨id, name, s.savedDriver name⟩, statement, none⟩ l)
      | none => some s
    | none => none
  | .picked n name =>
    match s.picking[n]? with
    | some (statement, l) =>
      let s := { s with picking := s.picking.eraseIdx n }
      match name with
      | some name => some (withConn env { s with active := some name } name statement l)
      | none => some s
    | none => none

end Workspace

def machine {V : Type} (env : Env V) : Lib.Machine (Workspace V) (Input V) where
  init := .new
  step := Workspace.step env

end LvimDb.Editor
