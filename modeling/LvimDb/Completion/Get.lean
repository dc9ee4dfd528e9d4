import LvimDb.Completion.Source

/-!
# The callbacks of the completion source

cmp.lua by itself, over an engine that answers its fetches in any order, with rows or an error.
Callbacks given to `M.get` are numbered, fetches too; a fetch fails at once while the engine
cannot be started.
-/

namespace LvimDb.Completion
open Engine (ConnId)

/-- A callback on its way, with the name before the dot. -/
structure Waiting where
  id : ℕ
  dotted : Option String
  deriving DecidableEq, Repr

/-- `nodes` and `nodes_pending`, the nodes with the number of the fetch they were set by. -/
inductive Nodes
  | pending (parked : List Waiting)
  | fetched (nodes : List Schema) (by_ : ℕ)

/-- `cols[key]` and `cols_pending[key]` of an object whose columns have been asked for. -/
inductive Cols
  | pending (parked : List ℕ)
  | fetched (cols : List Column) (by_ : ℕ)

/-- `LvimDbCmpCache`. -/
structure Slot where
  nodes : Nodes
  cols : String → Option Cols

/-- `cache`; the numbered fetches that have not been answered, and the answers with rows; the
callbacks that have been scheduled and those that have been called, with their items. -/
structure Cmp where
  cache : ConnId → Option Slot
  flights : List (ℕ × Fetch)
  asked : ℕ
  trees : List (ℕ × List Schema)
  columns : List (ℕ × List Column)
  down : Bool
  given : ℕ
  scheduled : List ℕ
  calls : List (ℕ × List Item)

/-- What happens to the source. An answer has no rows when it is an error. -/
inductive Event
  | get (conn : Option ConnId) (dotted : Option String)
  | scheduled
  | nodes (n : ℕ) (k : ConnId) (rows : Option (List Schema))
  | columns (n : ℕ) (k : ConnId) (key : String) (rows : Option (List Column))
  | invalidate (conn : Option ConnId)
  | engine (down : Bool)

namespace Cmp

def new : Cmp where
  cache := fun _ => none
  flights := []
  asked := 0
  trees := []
  columns := []
  down := false
  given := 0
  scheduled := []
  calls := []

variable (s : Cmp)

def callBack (id : ℕ) (items : List Item) : Cmp := { s with calls := s.calls ++ [(id, items)] }

def setSlot (k : ConnId) (e : Option Slot) : Cmp := { s with cache := Function.update s.cache k e }

def setCols (k : ConnId) (e : Slot) (key : String) (c : Option Cols) : Cmp :=
  s.setSlot k (some { e with cols := Function.update e.cols key c })

/-- A fetch gets its number. -/
def flight (f : Fetch) : Cmp :=
  { s with flights := s.flights ++ [(s.asked, f)], asked := s.asked + 1 }

def grounded : Cmp := { s with asked := s.asked + 1 }

/-! ### Columns -/

/-- The callback of a columns fetch (108-120). -/
def gotColumns (k : ConnId) (key : String) (n : ℕ) (rows : Option (List Column)) : Cmp :=
  match s.cache k with
  | none => s
  | some e =>
    let parked := match e.cols key with
      | some (.pending parked) => parked
      | _ => []
    parked.foldl (fun s id => s.callBack id (columnItems (rows.getD [])))
      (s.setCols k e key (rows.map (.fetched · n)))

def askColumns (k : ConnId) (key : String) : Cmp :=
  if s.down then s.grounded.gotColumns k key s.asked none else s.flight (.columns k key)

/-- `with_columns` (87-121), for the callback of `M.get` (192-198). -/
def withColumns (k : ConnId) (schema obj : String) (id : ℕ) : Cmp :=
  match s.cache k with
  | none => s.callBack id (columnItems [])
  | some e =>
    match e.cols (schema ++ "." ++ obj) with
    | some (.fetched cols _) => s.callBack id (columnItems cols)
    | some (.pending parked) =>
      s.setCols k e (schema ++ "." ++ obj) (some (.pending (parked ++ [id])))
    | none =>
      (s.setCols k e (schema ++ "." ++ obj) (some (.pending [id]))).askColumns k
        (schema ++ "." ++ obj)

/-! ### Structure -/

/-- What `M.get` does with the nodes (185-222). -/
def giveTree (k : ConnId) (nodes : List Schema) (g : Waiting) : Cmp :=
  match g.dotted with
  | none => s.callBack g.id (schemaItems nodes)
  | some dotted =>
    match firstObject nodes dotted with
    | none => s.callBack g.id []
    | some (schema, obj) => s.withColumns k schema obj g.id

/-- The callback of a structure fetch (66-77). -/
def gotNodes (k : ConnId) (n : ℕ) (rows : Option (List Schema)) : Cmp :=
  match s.cache k with
  | none => s
  | some e =>
    let parked := match e.nodes with
      | .pending parked => parked
      | .fetched _ _ => []
    parked.foldl (fun s g => s.giveTree k (rows.getD []) g)
      (s.setSlot k (some { e with nodes := .fetched (rows.getD []) n }))

def askNodes (k : ConnId) : Cmp :=
  if s.down then s.grounded.gotNodes k s.asked none else s.flight (.nodes k)

/-- `with_structure` (55-78). -/
def withStructure (k : ConnId) (g : Waiting) : Cmp :=
  match s.cache k with
  | some e =>
    match e.nodes with
    | .fetched nodes _ => s.giveTree k nodes g
    | .pending parked => s.setSlot k (some { e with nodes := .pending (parked ++ [g]) })
  | none => (s.setSlot k (some ⟨.pending [g], fun _ => none⟩)).askNodes k

/-! ### The source -/

/-- The callback that is given next has its number. -/
def issue : Cmp := { s with given := s.given + 1 }

/-- `M.get` (177-223), with the live connection of the editor. -/
def get (conn : Option ConnId) (dotted : Option String) : Cmp :=
  match conn with
  | none => { s.issue with scheduled := s.scheduled ++ [s.given] }
  | some k => s.issue.withStructure k ⟨s.given, dotted⟩

/-- `M.invalidate` (228-232). -/
def invalidate : Option ConnId → Cmp
  | none => s
  | some k => s.setSlot k none

def landed (n : ℕ) (f : Fetch) : Cmp := { s with flights := s.flights.erase (n, f) }

/-- A fetch is answered while it is under way. -/
def step : Event → Option Cmp
  | .get conn dotted => some (s.get conn dotted)
  | .scheduled =>
    match s.scheduled with
    | [] => none
    | id :: rest => some ({ s with scheduled := rest }.callBack id [])
  | .nodes n k rows =>
    if (n, .nodes k) ∈ s.flights then
      some ({ s.landed n (.nodes k) with
        trees := s.trees ++ (rows.map (n, ·)).toList }.gotNodes k n rows)
    else none
  | .columns n k key rows =>
    if (n, .columns k key) ∈ s.flights then
      some ({ s.landed n (.columns k key) with
        columns := s.columns ++ (rows.map (n, ·)).toList }.gotColumns k key n rows)
    else none
  | .invalidate conn => some (s.invalidate conn)
  | .engine down => some { s with down := down }

end Cmp

def cmpMachine : Lib.Machine Cmp Event where
  init := .new
  step := Cmp.step

/-! ### What is promised -/

/-- Where a callback is. -/
inductive Spot
  | called
  | scheduled
  | nodes (k : ConnId)
  | columns (k : ConnId) (key : String)
  deriving DecidableEq, Repr

def Nodes.ids : Nodes → List ℕ
  | .pending parked => parked.map Waiting.id
  | .fetched _ _ => []

def Cols.ids : Cols → List ℕ
  | .pending parked => parked
  | .fetched _ _ => []

namespace Cmp
variable (s : Cmp)

/-- The callbacks at a place. -/
def at_ : Spot → List ℕ
  | .called => s.calls.map Prod.fst
  | .scheduled => s.scheduled
  | .nodes k => (s.cache k).elim [] (·.nodes.ids)
  | .columns k key => ((s.cache k).bind (·.cols key)).elim [] Cols.ids

def Flying (f : Fetch) : Prop := ∃ n, (n, f) ∈ s.flights

/-- A callback is scheduled, or parked on a fetch that is under way. -/
def Waits (id : ℕ) : Prop :=
  id ∈ s.at_ .scheduled ∨ (∃ k, id ∈ s.at_ (.nodes k) ∧ s.Flying (.nodes k)) ∨
    ∃ k key, id ∈ s.at_ (.columns k key) ∧ s.Flying (.columns k key)

/-- What a request finds or waits for: rows that are remembered, or a fetch. -/
def Fetches (k : ConnId) (dotted : Option String) : Prop :=
  s.Flying (.nodes k) ∨ ∃ e nodes n, s.cache k = some e ∧ e.nodes = .fetched nodes n ∧
    ∀ d schema obj, dotted = some d → firstObject nodes d = some (schema, obj) →
      s.Flying (.columns k (schema ++ "." ++ obj)) ∨
        ∃ cols n, e.cols (schema ++ "." ++ obj) = some (.fetched cols n)

/-- Every callback has been called once, or waits and has not; what is remembered is what a fetch
has brought, so that a request finds that or a fetch. -/
structure Answers : Prop where
  once : ∀ id < s.given, (s.at_ .called).count id = 1 ∨
    (s.at_ .called).count id = 0 ∧ s.Waits id
  nodes : ∀ k e nodes n, s.cache k = some e → e.nodes = .fetched nodes n → (n, nodes) ∈ s.trees
  columns : ∀ k e key cols n, s.cache k = some e → e.cols key = some (.fetched cols n) →
    (n, cols) ∈ s.columns
  again : s.down = false → ∀ k dotted, (s.get (some k) dotted).Fetches k dotted

/-- No callback is dropped and no failure remembered: a connection is invalidated with nothing
parked on it, and no structure fetch fails whose connection still has its entry. -/
def Sound : Event → Prop
  | .get (some k) _ => s.down = true → s.cache k ≠ none
  | .nodes _ k none => s.cache k = none
  | .invalidate (some k) => s.at_ (.nodes k) = [] ∧ ∀ key, s.at_ (.columns k key) = []
  | _ => True

end Cmp
end LvimDb.Completion
