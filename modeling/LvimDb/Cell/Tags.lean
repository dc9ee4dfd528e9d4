import LvimDb.Cell.Value

/-!
# Tags

A document of the user may have fields that are named like the tags. Each place of the client
that tells the kinds apart takes some of them for a tagged scalar; a float that JSON has no number
for comes as a null, and `field_editable` takes a date or a decimal for a document.
-/

namespace LvimDb.Cell
open Daemon (Json textOf)

def TAGS : List String := ["__oid", "__int", "__ext", "__bytes"]

def Serde.isText : Serde → Bool
  | .str _ => true
  | _ => false

namespace Value

/-- A document of the user with one of the fields. -/
def hasField (p : Serde → Bool) (names : List String) : Value → Bool
  | .json (.obj fields) => names.any fun name => (fields.lookup name).any p
  | _ => false

/-- A float that is infinite or not a number. -/
def nonfinite : Value → Bool
  | .float none => true
  | _ => false

def isExt : Value → Bool
  | .ext _ _ => true
  | _ => false

def icon (v : Value) : Icon :=
  match v.kind with
  | .null => .null
  | .number => .number
  | .bool => .bool
  | .string => .string
  | .document => .json
  | .oid _ => .key
  | .int _ => .number
  | .ext key => if key = "$date" then .date else .number
  | .bytes _ => .null

def tagged (v : Value) : Bool :=
  match v.kind with
  | .oid _ | .int _ | .ext _ | .bytes _ => true
  | _ => false

end Value

variable {fields : List (String × Serde)} {name : String}

theorem lookup_decodeFields :
    (decodeFields fields).lookup name = (fields.lookup name).map Serde.decode := by
  induction fields with
  | nil => rfl
  | cons f fields ih =>
    obtain ⟨key, x⟩ := f
    rw [decodeFields, List.lookup_cons, List.lookup_cons]
    split
    · rfl
    · exact ih

/-- A field is a text on both sides. -/
theorem textOf_decode {x : Option Serde} :
    (textOf (x.map Serde.decode)).isSome = x.any Serde.isText := by
  cases x with
  | none => rfl
  | some x => cases x <;> simp [Serde.decode, textOf, Serde.isText]

theorem any_true {x : Option Serde} : x.any (fun _ => true) = x.isSome := by
  cases x <;> rfl

/-! ### A document of the user -/

/-- The document's fields, by the tests of `cell_display` and `coerce`. -/
theorem tagKind_document :
    tagKind (Serde.obj fields).decode = .document ↔
      (Value.json (.obj fields)).hasField Serde.isText TAGS = false := by
  simp only [Serde.decode, tagKind, lookup_decodeFields, Value.hasField, TAGS, List.any_cons,
    List.any_nil, Bool.or_false, Bool.or_eq_false_iff, ← textOf_decode]
  generalize textOf ((fields.lookup "__oid").map Serde.decode) = a
  generalize textOf ((fields.lookup "__int").map Serde.decode) = b
  generalize textOf ((fields.lookup "__ext").map Serde.decode) = c
  generalize textOf ((fields.lookup "__bytes").map Serde.decode) = d
  cases a <;> cases b <;> cases c <;> cases d <;> simp

theorem editKind_document :
    editKind (Serde.obj fields).decode = .document ↔
      (Value.json (.obj fields)).hasField Serde.isText ["__bytes", "__oid", "__int"] = false := by
  simp only [Serde.decode, editKind, lookup_decodeFields, Value.hasField, List.any_cons,
    List.any_nil, Bool.or_false, Bool.or_eq_false_iff, ← textOf_decode]
  generalize textOf ((fields.lookup "__bytes").map Serde.decode) = a
  generalize textOf ((fields.lookup "__oid").map Serde.decode) = b
  generalize textOf ((fields.lookup "__int").map Serde.decode) = c
  cases a <;> cases b <;> cases c <;> simp

theorem valueIcon_document :
    valueIcon (Serde.obj fields).decode = .json ↔
      (Value.json (.obj fields)).hasField (fun _ => true) TAGS = false := by
  simp only [Serde.decode, valueIcon, lookup_decodeFields, Value.hasField, TAGS, List.any_cons,
    List.any_nil, Bool.or_false, Bool.or_eq_false_iff, any_true, Option.isSome_map]
  cases (fields.lookup "__oid").isSome
  · cases (fields.lookup "__int").isSome
    · cases hext : fields.lookup "__ext" with
      | none => cases (fields.lookup "__bytes").isSome <;> simp
      | some x =>
        simp only [Option.map_some, Bool.false_eq_true, if_false]
        split <;> simp
    · simp
  · simp

theorem taggedScalar_document :
    taggedScalar (Serde.obj fields).decode = false ↔
      (Value.json (.obj fields)).hasField (fun _ => true) TAGS = false := by
  simp only [Serde.decode, taggedScalar, lookup_decodeFields, Value.hasField, TAGS, List.any_cons,
    List.any_nil, Bool.or_false, Bool.or_eq_false_iff, any_true, Option.isSome_map, and_assoc]

/-! ### Every value -/

/-- Neither a document nor a float without a number: the tests come to the variant, but that
`field_editable` has none for a date or a decimal. -/
theorem received_scalar {v : Value} (h : ∀ fields, v ≠ .json (.obj fields))
    (hnum : v.nonfinite = false) :
    tagKind v.received = v.kind ∧ (editKind v.received = v.kind ↔ v.isExt = false) ∧
      valueIcon v.received = v.icon ∧ taggedScalar v.received = v.tagged := by
  cases v with
  | int i =>
    by_cases hi : i.toInt.natAbs < 2 ^ 53
    · have hk : (Value.int i).kind = .number := if_pos hi
      simp only [received_small hi, Value.icon, Value.tagged, hk]
      exact ⟨rfl, iff_of_true rfl rfl, rfl, rfl⟩
    · have hk : (Value.int i).kind = .int (toString i.toInt) := if_neg hi
      simp only [received_big hi, Value.icon, Value.tagged, hk]
      exact ⟨rfl, iff_of_true rfl rfl, rfl, rfl⟩
  | float f =>
    cases f with
    | none => cases hnum
    | some q => exact ⟨rfl, iff_of_true rfl rfl, rfl, rfl⟩
  | json j =>
    cases j with
    | obj fields => exact absurd rfl (h fields)
    | arr xs => exact ⟨rfl, iff_of_true rfl rfl, rfl, rfl⟩
    | null => exact ⟨rfl, iff_of_true rfl rfl, rfl, rfl⟩
    | bool b => exact ⟨rfl, iff_of_true rfl rfl, rfl, rfl⟩
    | int i => exact ⟨rfl, iff_of_true rfl rfl, rfl, rfl⟩
    | float q => exact ⟨rfl, iff_of_true rfl rfl, rfl, rfl⟩
    | str s => exact ⟨rfl, iff_of_true rfl rfl, rfl, rfl⟩
  | ext shown key =>
    refine ⟨rfl, iff_of_false nofun nofun, ?_, rfl⟩
    change (if some key = some "$date" then Icon.date else Icon.number) =
      if key = "$date" then Icon.date else Icon.number
    simp only [Option.some.injEq]
  | null => exact ⟨rfl, iff_of_true rfl rfl, rfl, rfl⟩
  | bool b => exact ⟨rfl, iff_of_true rfl rfl, rfl, rfl⟩
  | text s => exact ⟨rfl, iff_of_true rfl rfl, rfl, rfl⟩
  | bytes b64 len => exact ⟨rfl, iff_of_true rfl rfl, rfl, rfl⟩
  | timestamp s => exact ⟨rfl, iff_of_true rfl rfl, rfl, rfl⟩
  | oid hex => exact ⟨rfl, iff_of_true rfl rfl, rfl, rfl⟩

/-- The kind a value is taken for is its variant, for each place that tells the kinds apart,
exactly when it is no float without a number, not a document with one of the fields that the place
asks for and, for `field_editable`, neither a date nor a decimal. -/
theorem kinds_exact (v : Value) :
    (tagKind v.received = v.kind ↔ v.nonfinite = false ∧ v.hasField Serde.isText TAGS = false) ∧
    (editKind v.received = v.kind ↔ v.nonfinite = false ∧ v.isExt = false ∧
      v.hasField Serde.isText ["__bytes", "__oid", "__int"] = false) ∧
    (valueIcon v.received = v.icon ↔
      v.nonfinite = false ∧ v.hasField (fun _ => true) TAGS = false) ∧
    (taggedScalar v.received = v.tagged ↔ v.hasField (fun _ => true) TAGS = false) := by
  by_cases h : ∃ fields, v = .json (.obj fields)
  · obtain ⟨fields, rfl⟩ := h
    have hnum : (Value.json (.obj fields)).nonfinite = false := rfl
    have hext : (Value.json (.obj fields)).isExt = false := rfl
    rw [hnum, hext]
    simp only [true_and]
    exact ⟨tagKind_document, editKind_document, valueIcon_document, taggedScalar_document⟩
  · have hno : ∀ p names, v.hasField p names = false := by
      intro p names
      unfold Value.hasField
      split
      · exact absurd ⟨_, rfl⟩ h
      · rfl
    cases hnum : v.nonfinite with
    | true =>
      -- it has come as a null
      have hv : v = .float none := by
        unfold Value.nonfinite at hnum
        split at hnum
        · rfl
        · cases hnum
      subst hv
      have hlost : ∀ {p : Prop}, ¬ (true = false ∧ p) := fun h => nomatch h.1
      exact ⟨iff_of_false nofun hlost, iff_of_false nofun hlost, iff_of_false nofun hlost,
        iff_of_true rfl (hno _ _)⟩
    | false =>
      obtain ⟨hk, he, hi, ht⟩ := received_scalar (not_exists.mp h) hnum
      refine ⟨iff_of_true hk ⟨rfl, hno _ _⟩, he.trans ?_, iff_of_true hi ⟨rfl, hno _ _⟩,
        iff_of_true ht (hno _ _)⟩
      exact ⟨fun hext => ⟨rfl, hext, hno _ _⟩, fun h => h.2.1⟩

/-- A document of the user that is taken for an ObjectId. -/
def disguised : Value := .json (.obj [("__oid", .str "x"), ("total", .int 3)])

/-- So is a date for a document, and a float without a number for a null. -/
theorem document_mistaken : tagKind disguised.received = .oid "x" ∧
    editKind disguised.received = .oid "x" ∧ valueIcon disguised.received = .key ∧
      disguised.kind = .document ∧
      editKind (Value.ext "2024-01-01" "$date").received = .document ∧
      (Value.ext "2024-01-01" "$date").kind = .ext "$date" ∧
      tagKind (Value.float none).received = .null ∧ (Value.float none).kind = .number :=
  ⟨rfl, rfl, rfl, rfl, rfl, rfl, rfl, rfl⟩

end LvimDb.Cell
