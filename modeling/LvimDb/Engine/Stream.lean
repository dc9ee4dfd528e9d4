import Mathlib.Data.List.Basic
import LvimDb.Lib.Pull
import Mathlib.Algebra.Group.Nat.Defs

/-!
# Result streams

The two implementors of `ResultStream` (driver.rs:94-113): `BufferedStream`
(drivers/buffered.rs), which holds every row and hands out pages, and
`MongoCursorStream` (drivers/mongodb.rs:472-535), which reads a live cursor. Both
are sources in the sense of the pull library as long as no `usize` sum overflows
and the cursor yields no error.
-/

namespace LvimDb.Engine

/-! ### Machine arithmetic -/

/-- A build checks its sums for overflow, or lets them wrap. -/
inductive Build
  | checked
  | wrapping
  deriving DecidableEq, Repr

/-- How a piece of a handler ends. -/
inductive Outcome (α : Type)
  | ok (a : α)
  | err (e : String)
  | panic
  deriving DecidableEq, Repr

def usizeSize : ℕ := 2 ^ 64

def Build.add : Build → ℕ → ℕ → Option ℕ
  | .checked, a, b => if a + b < usizeSize then some (a + b) else none
  | .wrapping, a, b => some ((a + b) % usizeSize)

theorem Build.add_small (bld : Build) {a b : ℕ} (h : a + b < usizeSize) :
    bld.add a b = some (a + b) := by
  cases bld with
  | checked => exact if_pos h
  | wrapping => exact congrArg some (Nat.mod_eq_of_lt h)

/-- `&xs[start..stop]`; a range outside the list is a panic. -/
def slice {α : Type} (xs : List α) (start stop : ℕ) : Option (List α) :=
  if start ≤ stop ∧ stop ≤ xs.length then some ((xs.take stop).drop start) else none

theorem slice_of_le {α : Type} {xs : List α} {start stop : ℕ} (h : start ≤ stop)
    (h' : stop ≤ xs.length) : slice xs start stop = some ((xs.take stop).drop start) :=
  if_pos ⟨h, h'⟩

/-! ### Columns and documents -/

structure Column where
  name : String
  typeName : String
  deriving DecidableEq, Repr

/-- A BSON document: its entries in order. -/
abbrev Document (B : Type) := List (String × B)

/-- What the driver makes of a BSON value: `cell` for a field (mongodb.rs), `Value::Null`
for a missing one, and the relaxed extended JSON of a whole document. -/
class BsonCells (V B : Type) where
  cell : B → V
  null : V
  json : Document B → V

/-- Documents of numbers, for the concrete runs. -/
instance : BsonCells ℕ ℕ := ⟨id, 0, List.length⟩

section Documents
variable {V B : Type} [BsonCells V B]

def columnOrder (doc : Document B) : List String :=
  (if doc.any (·.1 == "_id") then ["_id"] else []) ++ (doc.map (·.1)).filter (· != "_id")

def docToRow (keys : List String) (doc : Document B) : List V :=
  keys.map (fun k => ((doc.lookup k).map (BsonCells.cell (V := V))).getD (BsonCells.null B)) ++
    [BsonCells.json doc]

def columnsFor (keys : List String) : List Column :=
  keys.map (fun k => ⟨k, ""⟩) ++ [⟨"_document", "json"⟩]

end Documents

/-! ### A materialised result -/

structure BufferedStream (V : Type) where
  columns : List Column
  rows : List (List V)
  pos : ℕ
  affected : Option ℕ
  deriving DecidableEq

namespace BufferedStream
variable {V : Type}

def new (columns : List Column) (rows : List (List V)) (affected : Option ℕ) : BufferedStream V :=
  ⟨columns, rows, 0, affected⟩

def affectedRows (s : BufferedStream V) : Option ℕ :=
  if s.rows.isEmpty then s.affected else none

def total (s : BufferedStream V) : Option ℕ :=
  if s.rows.isEmpty && s.affected.isSome then none else some s.rows.length

def nextPage (bld : Build) (s : BufferedStream V) (n : ℕ) :
    Outcome (Option (List (List V))) × BufferedStream V :=
  if s.rows.length ≤ s.pos then (.ok none, s)
  else
    match bld.add s.pos n with
    | none => (.panic, s)
    | some sum =>
      let stop := min sum s.rows.length
      match slice s.rows s.pos stop with
      | none => (.panic, s)
      | some page => (.ok (some page), { s with pos := stop })

end BufferedStream

/-! ### A live cursor -/

/-- The cursor is what its `next` will yield; past the end it yields `None`. -/
structure MongoCursorStream (B : Type) where
  cursor : List (Except String (Document B))
  keys : List String
  columns : List Column
  first : Option (Document B)
  done : Bool
  total : Option ℕ

namespace MongoCursorStream
variable {V B : Type} [BsonCells V B]

def openCursor (cursor : List (Except String (Document B))) (total : Option ℕ) :
    Except String (MongoCursorStream B) :=
  match cursor with
  | [] => .ok ⟨[], [], columnsFor [], none, false, total⟩
  | .ok doc :: rest =>
    .ok ⟨rest, columnOrder doc, columnsFor (columnOrder doc), some doc, false, total⟩
  | .error e :: _ => .error e

/-- The loop of `next_page`: what is left of the cursor, whether its end was met, and the
rows, unless the cursor yielded an error. -/
def drain (keys : List String) (n : ℕ) :
    List (Except String (Document B)) → List (List V) →
      Outcome (List (List V)) × List (Except String (Document B)) × Bool
  | [], rows => (.ok rows, [], decide (rows.length < n))
  | .ok doc :: rest, rows =>
    if rows.length < n then drain keys n rest (rows ++ [docToRow keys doc])
    else (.ok rows, .ok doc :: rest, false)
  | .error e :: rest, rows =>
    if rows.length < n then (.err e, rest, false) else (.ok rows, .error e :: rest, false)

def nextPage (s : MongoCursorStream B) (n : ℕ) :
    Outcome (Option (List (List V))) × MongoCursorStream B :=
  if s.done && s.first.isNone then (.ok none, s)
  else
    let rows : List (List V) := s.first.toList.map (docToRow s.keys)
    match if s.done then (.ok rows, s.cursor, true) else drain s.keys n s.cursor rows with
    | (.ok rows, cursor, done) =>
      (.ok (if rows.isEmpty then none else some rows), { s with cursor, first := none, done })
    | (.err e, cursor, done) => (.err e, { s with cursor, first := none, done })
    | (.panic, cursor, done) => (.panic, { s with cursor, first := none, done })

end MongoCursorStream

/-! ### `Box<dyn ResultStream>` -/

inductive ResultStream (V B : Type)
  | buffered (s : BufferedStream V)
  | cursor (s : MongoCursorStream B)

namespace ResultStream
variable {V B : Type} [BsonCells V B]

def columns : ResultStream V B → List Column
  | .buffered s => s.columns
  | .cursor s => s.columns

def affected : ResultStream V B → Option ℕ
  | .buffered s => s.affectedRows
  | .cursor _ => none

def total : ResultStream V B → Option ℕ
  | .buffered s => s.total
  | .cursor s => s.total

def nextPage (bld : Build) (n : ℕ) :
    ResultStream V B → Outcome (Option (List (List V))) × ResultStream V B
  | .buffered s => ((s.nextPage bld n).1, .buffered (s.nextPage bld n).2)
  | .cursor s => ((s.nextPage n).1, .cursor (s.nextPage (V := V) n).2)

end ResultStream

/-- What a driver fetched: rows in full, or a cursor not read yet. -/
inductive Fetched (V B : Type)
  | buffered (columns : List Column) (rows : List (List V)) (affected : Option ℕ)
  | cursor (docs : List (Except String (Document B))) (total : Option ℕ)

def Fetched.openStream {V B : Type} : Fetched V B → Except String (ResultStream V B)
  | .buffered columns rows affected => .ok (.buffered (BufferedStream.new columns rows affected))
  | .cursor docs total => (MongoCursorStream.openCursor docs total).map .cursor

end LvimDb.Engine
