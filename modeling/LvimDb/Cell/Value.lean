import LvimDb.Daemon.Client
import LvimDb.Editor.RunAll
import LvimDb.Lib.Binary64

/-!
# Cell values

The engine's `Value` (spec.rs:323-422), what the client decodes it to, and how result.lua
tells the kinds apart again: a scalar whose type has to survive the trip is sent as an object
with a tag.
-/

namespace LvimDb.Cell
open Daemon (Json textOf)

/-- `serde_json::Value`. -/
inductive Serde
  | null
  | bool (b : Bool)
  | int (i : ℤ)
  | float (q : ℚ)
  | str (s : String)
  | arr (xs : List Serde)
  | obj (fields : List (String × Serde))

/-- `Value`; a float is a number, or none where it is infinite or not a number. -/
inductive Value
  | null
  | bool (b : Bool)
  | int (i : Int64)
  | float (f : Option ℚ)
  | text (s : String)
  | bytes (b64 : String) (len : ℕ)
  | json (j : Serde)
  | timestamp (s : String)
  | oid (hex : String)
  | ext (text key : String)

/-- `Value::serialize` (374-416). -/
def Value.serialize : Value → Serde
  | .null => .null
  | .bool b => .bool b
  | .int i =>
    if i.toInt.natAbs < 2 ^ 53 then .int i.toInt else .obj [("__int", .str (toString i.toInt))]
  | .float f => f.elim .null .float
  | .text s | .timestamp s => .str s
  | .json j => j
  | .bytes b64 len => .obj [("__bytes", .str b64), ("len", .int len)]
  | .oid hex => .obj [("__oid", .str hex)]
  | .ext shown key => .obj [("__ext", .str key), ("v", .str shown)]

mutual

/-- `vim.json.decode` of what is sent: a number becomes a double. -/
def Serde.decode : Serde → Json
  | .null => .null
  | .bool b => .bool b
  | .int i => .num (Lib.toDouble i)
  | .float q => .num q
  | .str s => .str s
  | .arr xs => .arr (decodeList xs)
  | .obj fields => .obj (decodeFields fields)

def decodeList : List Serde → List Json
  | [] => []
  | x :: xs => x.decode :: decodeList xs

def decodeFields : List (String × Serde) → List (String × Json)
  | [] => []
  | (name, x) :: fields => (name, x.decode) :: decodeFields fields

end

/-- The cell of a page. -/
def Value.received (v : Value) : Json := v.serialize.decode

/-- What a value is taken for. -/
inductive Kind
  | null
  | number
  | bool
  | string
  | document
  | oid (hex : String)
  | int (digits : String)
  | ext (key : String)
  | bytes (b64 : String)
  deriving DecidableEq, Repr

/-- What the variant of a value is. -/
def Value.kind : Value → Kind
  | .null => .null
  | .bool _ => .bool
  | .int i => if i.toInt.natAbs < 2 ^ 53 then .number else .int (toString i.toInt)
  | .float _ => .number
  | .text _ | .timestamp _ => .string
  | .bytes b64 _ => .bytes b64
  | .oid hex => .oid hex
  | .ext _ key => .ext key
  | .json j =>
    match j with
    | .null => .null
    | .bool _ => .bool
    | .int _ | .float _ => .number
    | .str _ => .string
    | .arr _ | .obj _ => .document

/-- The tests of `cell_display` (281-312) and of `coerce` (1058-1111). -/
def tagKind : Json → Kind
  | .null => .null
  | .num _ => .number
  | .bool _ => .bool
  | .str _ => .string
  | .arr _ => .document
  | .obj fields =>
    match textOf (fields.lookup "__oid"), textOf (fields.lookup "__int"),
      textOf (fields.lookup "__ext"), textOf (fields.lookup "__bytes") with
    | some hex, _, _, _ => .oid hex
    | none, some digits, _, _ => .int digits
    | none, none, some key, _ => .ext key
    | none, none, none, some b64 => .bytes b64
    | none, none, none, none => .document

/-- The tests of `field_editable` (1126-1154), which do not ask for `__ext`. -/
def editKind : Json → Kind
  | .obj fields =>
    match textOf (fields.lookup "__bytes"), textOf (fields.lookup "__oid"),
      textOf (fields.lookup "__int") with
    | some b64, _, _ => .bytes b64
    | none, some hex, _ => .oid hex
    | none, none, some digits => .int digits
    | none, none, none => .document
  | j => tagKind j

inductive Icon
  | key
  | number
  | date
  | bool
  | string
  | json
  | null
  deriving DecidableEq, Repr

/-- `value_icon` (244-277), which takes any value of a tag. -/
def valueIcon : Json → Icon
  | .null => .null
  | .num _ => .number
  | .bool _ => .bool
  | .str _ => .string
  | .arr _ => .json
  | .obj fields =>
    if (fields.lookup "__oid").isSome then .key
    else if (fields.lookup "__int").isSome then .number
    else
      match fields.lookup "__ext" with
      | some key => if textOf (some key) = some "$date" then .date else .number
      | none => if (fields.lookup "__bytes").isSome then .null else .json

/-- `tagged_scalar` of `edit_cell` (1420-1421). -/
def taggedScalar : Json → Bool
  | .obj fields =>
    (fields.lookup "__oid").isSome || (fields.lookup "__int").isSome ||
      (fields.lookup "__ext").isSome || (fields.lookup "__bytes").isSome
  | _ => false

/-- `vim.json.encode` and `vim.json.decode`, with the number of digits after the first that a number
is encoded with; what `tonumber` makes of a text that is no decimal numeral; the address that
`tostring` writes of a table; and `nvim_strwidth`. -/
structure Env where
  encode : Json → String
  decode : String → Except String Json
  precision : ℕ
  special : String → Option ℚ
  address : Json → String
  strwidth : String → ℕ

variable (env : Env)

/-- `tostring` of a number. -/
def numberText (q : ℚ) : String := (Lib.general 13 q).text

/-- `tostring`. -/
def tostring : Option Json → String
  | none => "nil"
  | some .null => "vim.NIL"
  | some (.num q) => numberText q
  | some (.bool b) => toString b
  | some (.str s) => s
  | some j => env.address j

/-- `tonumber` of a text. -/
def tonumber (text : String) : Option ℚ :=
  match Lib.readNumeral (Editor.trim text).toList with
  | some n => some (Lib.toDouble n.value)
  | none => env.special text

/-- `tonumber`. -/
def number : Option Json → Option ℚ
  | some (.num q) => some q
  | some (.str s) => tonumber env s
  | _ => none

/-- `cell_display` (281-312), its text. -/
def cellDisplay (v : Json) : String :=
  match tagKind v with
  | .null => "NULL"
  | .oid hex => hex
  | .int digits => digits
  | .ext _ => tostring env (v.field "v")
  | .bytes _ =>
    let len := (number env (v.field "len")).getD 0
    "<" ++ toString (len.num.tdiv len.den) ++ " bytes>"
  | .document => env.encode v
  | .number | .bool | .string => tostring env (some v)

/-! ### Integers -/

variable {env}

theorem received_small {i : Int64} (h : i.toInt.natAbs < 2 ^ 53) :
    (Value.int i).received = .num (i.toInt : ℚ) := by
  simp only [Value.received, Value.serialize, if_pos h, Serde.decode, Lib.toDouble_int h]

theorem received_big {i : Int64} (h : ¬ i.toInt.natAbs < 2 ^ 53) :
    (Value.int i).received = .obj [("__int", .str (toString i.toInt))] := by
  simp only [Value.received, Value.serialize, if_neg h, Serde.decode, decodeFields]

theorem display_small {i : Int64} (h : i.toInt.natAbs < 2 ^ 53) :
    cellDisplay env (Value.int i).received = (Lib.general 13 (i.toInt : ℚ)).text := by
  rw [received_small h]
  rfl

theorem display_big {i : Int64} (h : ¬ i.toInt.natAbs < 2 ^ 53) :
    cellDisplay env (Value.int i).received = toString i.toInt := by
  rw [received_big h]
  rfl

variable (env) in
/-- An integer is shown as it is up to 14 digits, and from `2 ^ 53` on. -/
theorem integer_shown (i : Int64) :
    cellDisplay env (Value.int i).received = toString i.toInt ↔
      i.toInt.natAbs < 10 ^ 14 ∨ 2 ^ 53 ≤ i.toInt.natAbs := by
  by_cases hsmall : i.toInt.natAbs < 2 ^ 53
  · rw [display_small hsmall]
    constructor
    · intro heq
      by_contra hnot
      have hle : 10 ^ (13 + 1) ≤ i.toInt.natAbs := by omega
      exact Lib.general_int_ne i.toInt hle heq
    · rintro (hlt | hbig)
      · exact Lib.general_int i.toInt hlt
      · omega
  · refine iff_of_true (display_big hsmall) (.inr ?_)
    omega

/-- No text is JSON, and a table has no text of its own. -/
def bareEnv : Env where
  encode := fun _ => ""
  decode := fun _ => .error "Expected value"
  precision := 13
  special := fun _ => none
  address := fun _ => "table"
  strwidth := String.length

/-- 15 digits are too many. -/
theorem integer_rounded :
    cellDisplay bareEnv (Value.int 100000000000000).received = "1e+14" ∧
      toString (100000000000000 : Int64).toInt = "100000000000000" := by
  constructor
  · rw [display_small (by decide)]
    decide +kernel
  · decide

end LvimDb.Cell
