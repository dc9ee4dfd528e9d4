import LvimDb.Cell.Edit

/-!
# The two guards of an edit

`field_editable` is asked before a field is opened, `coerce` when its text is accepted; the popup
relies on `coerce` alone. The two test the tags of a value in different orders, and `coerce` looks
for the word for NULL before it looks at the value.
-/

namespace LvimDb.Cell
open Daemon (Json textOf)
open Engine (Column)

/-- The value has no text surface: its bytes are tagged, or it is a table that is neither an
ObjectId nor a big integer, on an engine that takes no documents. -/
def ViewOnly (driver : String) : Json → Prop
  | .arr _ => driver ≠ "mongodb"
  | .obj fields =>
    textOf (fields.lookup "__bytes") ≠ none ∨
      driver ≠ "mongodb" ∧ textOf (fields.lookup "__oid") = none ∧
        textOf (fields.lookup "__int") = none
  | _ => False

/-- The value is a document that is edited as JSON. -/
def EditedAsJson (driver : String) (raw : Json) : Prop :=
  driver = "mongodb" ∧ tagKind raw = .document

variable {env : Env} {driver : String} {col : Column} {raw : Json}

variable (env driver col raw) in
/-- What `field_editable` refuses `coerce` refuses for every text, and what it accepts `coerce`
refuses only where a document's text is no JSON. -/
structure Agree : Prop where
  refused : fieldEditable driver col raw ≠ none → ∀ text, ∃ e, coerce env driver col text raw = .error e
  accepted : fieldEditable driver col raw = none → ∀ text e, coerce env driver col text raw = .error e →
    EditedAsJson driver raw ∧ ∃ why, env.decode text = .error why

/-! ### The tests of the value -/

theorem shapeEditable_iff : shapeEditable driver raw ≠ none ↔ ViewOnly driver raw := by
  cases raw with
  | null => simp [shapeEditable, Json.isTable, ViewOnly]
  | bool b => simp [shapeEditable, Json.isTable, ViewOnly]
  | num q => simp [shapeEditable, Json.isTable, ViewOnly]
  | str s => simp [shapeEditable, Json.isTable, ViewOnly]
  | arr xs =>
    by_cases hd : driver = "mongodb"
    · simp [shapeEditable, Json.isTable, ViewOnly, editKind, tagKind, hd]
    · simp [shapeEditable, Json.isTable, ViewOnly, editKind, tagKind, hd]
  | obj fields =>
    simp only [shapeEditable, Json.isTable, if_true, editKind, ViewOnly]
    cases textOf (fields.lookup "__bytes") with
    | some b64 => simp
    | none =>
      cases textOf (fields.lookup "__oid") with
      | some hex => simp
      | none =>
        cases textOf (fields.lookup "__int") with
        | some digits => simp
        | none =>
          by_cases hd : driver = "mongodb"
          · simp [hd]
          · simp [hd]

/-- A value that is not view only is refused as a document whose text is no JSON. -/
theorem retype_error {text e : String} (hv : ¬ ViewOnly driver raw)
    (h : retype env driver text raw = .error e) :
    EditedAsJson driver raw ∧ ∃ why, env.decode text = .error why := by
  unfold retype at h
  split at h
  · cases h
  · cases hk : tagKind raw with
    | null | string | number | oid hex | int digits | ext key =>
      rw [hk] at h
      cases h
    | bool =>
      rw [hk] at h
      dsimp only at h
      split_ifs at h
    | bytes b64 =>
      exfalso
      cases raw with
      | obj fields =>
        refine hv (.inl fun hnone => ?_)
        rw [tagKind, hnone] at hk
        split at hk
        all_goals cases hk
        next hb => cases hb
      | _ => cases hk
    | document =>
      rw [hk] at h
      dsimp only at h
      by_cases hd : driver = "mongodb"
      · rw [if_pos hd] at h
        cases hdec : env.decode text with
        | ok parsed =>
          rw [hdec] at h
          cases h
        | error why => exact ⟨⟨hd, hk⟩, why, rfl⟩
      · exfalso
        cases raw with
        | arr xs => exact hv hd
        | obj fields =>
          rw [tagKind] at hk
          split at hk
          all_goals cases hk
          next hoid hint _ _ => exact hv (.inr ⟨hd, hoid, hint⟩)
        | _ => cases hk

/-! ### The two together -/

theorem coerce_null (hw : isWhole driver col = false)
    (ht : structuredType driver col.typeName = none) :
    coerce env driver col "NULL" raw = .ok none := by
  unfold coerce
  rw [if_neg (by rw [hw]; exact Bool.false_ne_true), ht]
  exact if_pos rfl

/-- The column alone makes both refuse. -/
theorem agree_of_column
    (h : isWhole driver col = true ∨ (structuredType driver col.typeName).isSome = true) :
    Agree env driver col raw := by
  have hboth : (∃ why, fieldEditable driver col raw = some why) ∧
      ∀ text, ∃ e, coerce env driver col text raw = .error e := by
    unfold fieldEditable coerce
    by_cases hw : isWhole driver col = true
    · rw [if_pos hw]
      exact ⟨⟨_, rfl⟩, fun text => ⟨_, if_pos hw⟩⟩
    · obtain ⟨why, ht⟩ := Option.isSome_iff_exists.mp (h.resolve_left hw)
      rw [if_neg hw, ht]
      exact ⟨⟨why, rfl⟩, fun text => ⟨why, if_neg hw⟩⟩
  obtain ⟨⟨why, hrefused⟩, herror⟩ := hboth
  refine ⟨fun _ => herror, fun haccepted => ?_⟩
  rw [hrefused] at haccepted
  cases haccepted

variable (env driver col raw) in
/-- The guards agree exactly where the column decides, or the value has a text surface. -/
theorem guards_agree : Agree env driver col raw ↔
    isWhole driver col = true ∨ (structuredType driver col.typeName).isSome = true ∨
      ¬ ViewOnly driver raw := by
  by_cases hw : isWhole driver col = true
  · exact iff_of_true (agree_of_column (.inl hw)) (.inl hw)
  · cases ht : structuredType driver col.typeName with
    | some why =>
      have hsome : (structuredType driver col.typeName).isSome = true := by rw [ht]; rfl
      exact iff_of_true (agree_of_column (.inr hsome)) (.inr (.inl rfl))
    | none =>
      have hshape : fieldEditable driver col raw = shapeEditable driver raw := by
        unfold fieldEditable
        rw [if_neg hw, ht]
      have hcoerce : ∀ text, coerce env driver col text raw = retype env driver text raw := by
        intro text
        unfold coerce
        rw [if_neg hw, ht]
      constructor
      · intro h
        refine .inr (.inr fun hv => ?_)
        obtain ⟨e, he⟩ := h.refused (hshape ▸ shapeEditable_iff.mpr hv) "NULL"
        rw [coerce_null (Bool.eq_false_iff.mpr hw) ht] at he
        cases he
      · rintro (h | h | hv)
        · exact absurd h hw
        · cases h
        · refine ⟨fun hrefused => ?_, fun _ text e he => ?_⟩
          · exact absurd (shapeEditable_iff.mp (hshape ▸ hrefused)) hv
          · rw [hcoerce] at he
            exact retype_error hv he

/-- Bytes of a column that can be NULL: the field is not opened, and the popup writes it. -/
theorem bytes_overwritten :
    let raw := Json.obj [("__bytes", .str "QUI="), ("len", .num 2)]
    fieldEditable "sqlite" ⟨"photo", "BLOB"⟩ raw = some "binary value — view only" ∧
      coerce bareEnv "sqlite" ⟨"photo", "BLOB"⟩ "NULL" raw = .ok none ∧
      ¬ Agree bareEnv "sqlite" ⟨"photo", "BLOB"⟩ raw := by
  refine ⟨by decide, rfl, fun h => ?_⟩
  obtain ⟨e, he⟩ := h.refused (by decide) "NULL"
  cases he

end LvimDb.Cell
