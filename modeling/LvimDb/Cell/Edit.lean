import LvimDb.Cell.Pretty
import LvimDb.Cell.Value

/-!
# Editing a cell

`edit_cell` of ui/result.lua, from the raw value to the text the field is seeded with, and
`coerce`, from the text that is accepted to the pending value. The whole document of a MongoDB
row goes another way.
-/

namespace LvimDb.Cell
open Daemon (Json textOf)
open Editor (trim)
open Engine (Column)
open Lib (isSpace)

/-- `structured_type` (1029-1055). -/
def structuredType (driver coltype : String) : Option String :=
  let t := coltype.toUpper
  if driver = "snowflake" then
    if t = "VARIANT" ∨ t = "OBJECT" ∨ t = "ARRAY" then
      some "semi-structured value — view only (needs a typed constructor to write back)"
    else if t = "BINARY" then some "binary value — view only"
    else none
  else if driver = "postgres" ∧ t = "BYTEA" then some "binary value — view only"
  else none

/-- An error without what stands before its first colon. -/
def afterColon (e : String) : String :=
  match e.toList.dropWhile (· ≠ ':') with
  | _ :: cs => String.ofList (cs.dropWhile isSpace)
  | [] => e

/-- The synthetic column of a MongoDB row. -/
def isWhole (driver : String) (col : Column) : Bool :=
  driver == "mongodb" && col.name == "_document"

section
variable (env : Env) (driver : String) (col : Column)

/-- `coerce` (1058-1111), from where the text is read against the original's type. -/
def retype (text : String) (orig : Json) : Except String (Option Json) :=
  if text = "NULL" then .ok none
  else
    match tagKind orig with
    | .null | .string => .ok (some (.str text))
    | .number => .ok (some ((tonumber env text).elim (.str text) .num))
    | .bool =>
      let l := text.toLower
      if l = "true" ∨ l = "1" then .ok (some (.bool true))
      else if l = "false" ∨ l = "0" then .ok (some (.bool false))
      else .ok (some (.str text))
    | .oid _ => .ok (some (.obj [("__oid", .str (trim text))]))
    | .int _ => .ok (some (.obj [("__int", .str (trim text))]))
    | .ext key => .ok (some (.obj [(key, .str (trim text))]))
    | .bytes _ => .error "binary value cannot be edited as text"
    | .document =>
      if driver = "mongodb" then
        match env.decode text with
        | .ok parsed => .ok (some parsed)
        | .error e => .error ("not valid JSON — " ++ afterColon e)
      else .error "structured value cannot be edited as text on this engine"

/-- `coerce`. -/
def coerce (text : String) (orig : Json) : Except String (Option Json) :=
  if isWhole driver col then .error "synthetic whole-document column — view only"
  else
    match structuredType driver col.typeName with
    | some why => .error why
    | none => retype env driver text orig

/-- `field_editable` (1126-1154), its tests of the value. -/
def shapeEditable (raw : Json) : Option String :=
  if raw.isTable then
    match editKind raw with
    | .bytes _ => some "binary value — view only"
    | .oid _ | .int _ => none
    | _ =>
      if driver = "mongodb" then none
      else some "structured value — view only (no faithful text form on this engine)"
  else none

/-- `field_editable`: why not, or nothing. -/
def fieldEditable (raw : Json) : Option String :=
  if isWhole driver col then some "synthetic whole-document column — view only"
  else
    match structuredType driver col.typeName with
    | some why => some why
    | none => shapeEditable driver raw

/-- `flatten` (104-106). -/
def flatten (s : String) : String :=
  String.ofList (s.toList.map fun c => if c.toNat < 32 ∨ c.toNat = 127 then ' ' else c)

/-- `raw` of `edit_cell` (1323-1329), where nil is `none`: the box of the field, or the row's value. -/
def opened (orig : Json) (box : Option (Option Json)) : Option Json := box.getD (some orig)

inductive EditMode
  | cell
  | row
  | panel
  deriving DecidableEq, Repr

/-- The widths of the column and of the grid. -/
structure Widths where
  col : ℕ
  row : ℕ

variable (widths : Widths) (raw : Json)

/-- `edit_mode` (1296-1308). -/
def editMode (disp : String) (isDoc : Bool) : EditMode :=
  if isDoc || disp.toList.contains '\n' then .panel
  else if env.strwidth (flatten disp) ≤ widths.col then .cell
  else if env.strwidth (flatten disp) ≤ widths.row then .row
  else .panel

/-- A column type that names JSON. -/
def jsonType (coltype : String) : Bool := decide ("JSON".toList <:+: coltype.toUpper.toList)

/-- `^%s*[%[{]`. -/
def startsJson (s : String) : Bool := ((s.toList.dropWhile isSpace).head?).any isOpening

def mode : EditMode :=
  let disp := cellDisplay env raw
  editMode env widths disp
    ((raw.isTable && !taggedScalar raw) || jsonType col.typeName || disp.toList.contains '\n')

/-- The panel formats its text. -/
def formatted : Bool :=
  decide (mode env col widths raw = .panel) && (raw.isTable || startsJson (cellDisplay env raw))

/-- A text as the field is seeded with it. -/
def shown (text : String) : String :=
  if formatted env col widths raw then prettyJson text else text

/-- What the field is seeded with (1423-1486). -/
def seed : String := shown env col widths raw (cellDisplay env raw)

/-- `coerce` of `apply` for the text that the field was seeded with; the type is that of the row's
value, whatever is pending. -/
def accept (orig : Json) (box : Option (Option Json)) : Except String (Option Json) :=
  coerce env driver col (seed env col widths ((opened orig box).getD .null)) orig

/-- What is pending after `apply`; an error leaves it. -/
def boxAfter (orig : Json) (box : Option (Option Json)) : Option (Option Json) :=
  match accept env driver col widths orig box with
  | .ok new => some new
  | .error _ => box

end

end LvimDb.Cell
