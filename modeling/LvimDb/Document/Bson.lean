import LvimDb.Cell.Value
import LvimDb.Lib.Rounding

/-!
# BSON documents and their extended JSON

A document as mongodb.rs has it, its relaxed extended JSON, and what `Bson::try_from` makes of a
JSON value. The typed values other than the numbers and code with a scope (object ids, dates,
decimals, binary data, timestamps and so on) are any type with a tagged form. The sign of a zero
double is not modelled.
-/

namespace LvimDb.Document
open Cell (Serde)

variable {Typed : Type}

inductive Bson (Typed : Type)
  | null
  | bool (b : Bool)
  | string (s : String)
  | int32 (i : Int32)
  | int64 (i : Int64)
  | double (q : ℚ)
  | typed (t : Typed)
  | code (source : String) (scope : List (String × Bson Typed))
  | arr (xs : List (Bson Typed))
  | doc (fields : List (String × Bson Typed))

/-- The tagged forms of the typed values, and what an object with a reserved key is read as, other
than code with a scope. -/
structure Tags (Typed : Type) where
  tagged : Typed → List (String × Serde)
  untag : List (String × Serde) → Option (Bson Typed)

/-- The keys of extended JSON that no field of a document is read for. -/
def reserved : List String :=
  ["$oid", "$symbol", "$regularExpression", "$numberInt", "$numberLong", "$numberDouble",
    "$numberDecimal", "$binary", "$uuid", "$code", "$timestamp", "$date", "$minKey", "$maxKey",
    "$dbPointer", "$undefined"]

abbrev names {α : Type} (fields : List (String × α)) : List String := fields.map Prod.fst

variable (tags : Tags Typed)

mutual

/-- `into_relaxed_extjson`. -/
def relaxed : Bson Typed → Serde
  | .null => .null
  | .bool b => .bool b
  | .string s => .str s
  | .int32 i => .int i.toInt
  | .int64 i => .int i.toInt
  | .double q => .float q
  | .typed t => .obj (tags.tagged t)
  | .code source scope => .obj [("$code", .str source), ("$scope", .obj (relaxedFields scope))]
  | .arr xs => .arr (relaxedList xs)
  | .doc fields => .obj (relaxedFields fields)

def relaxedList : List (Bson Typed) → List Serde
  | [] => []
  | x :: xs => relaxed x :: relaxedList xs

def relaxedFields : List (String × Bson Typed) → List (String × Serde)
  | [] => []
  | (name, x) :: fields => (name, relaxed x) :: relaxedFields fields

end

/-- An integer of JSON text: the smallest type it fits. -/
def readInt (i : ℤ) : Bson Typed :=
  if -2 ^ 31 ≤ i ∧ i < 2 ^ 31 then .int32 (Int32.ofInt i)
  else if -2 ^ 63 ≤ i ∧ i < 2 ^ 63 then .int64 (Int64.ofInt i)
  else .double (Lib.toDouble i)

mutual

/-- `Bson::try_from`. -/
def read : Serde → Option (Bson Typed)
  | .null => some .null
  | .bool b => some (.bool b)
  | .str s => some (.string s)
  | .int i => some (readInt i)
  | .float q => some (.double q)
  | .arr xs => (readList xs).map .arr
  | .obj fields =>
    if ∃ key ∈ reserved, key ∈ names fields then
      if "$scope" ∈ names fields then
        match fields.lookup "$code", readScope fields with
        | some (.str source), some scope =>
          if fields.length = 2 then some (.code source scope) else none
        | _, _ => none
      else tags.untag fields
    else (readFields fields).map .doc

def readList : List Serde → Option (List (Bson Typed))
  | [] => some []
  | x :: xs => do
    let b ← read x
    let bs ← readList xs
    some (b :: bs)

def readFields : List (String × Serde) → Option (List (String × Bson Typed))
  | [] => some []
  | (name, x) :: fields => do
    let b ← read x
    let bs ← readFields fields
    some ((name, b) :: bs)

/-- The document of the field `$scope`. -/
def readScope : List (String × Serde) → Option (List (String × Bson Typed))
  | [] => none
  | (name, .obj scope) :: fields =>
    if name = "$scope" then readFields scope else readScope fields
  | (_, _) :: fields => readScope fields

end

end LvimDb.Document
