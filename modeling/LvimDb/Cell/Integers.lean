import LvimDb.Cell.Edit

/-!
# Integers that are typed

A form for a new row reads its boxes by `M.parse_cell` of rules.lua, an edited cell is read by
`coerce`. Both take the text of an integer through `tonumber`, and a Lua number is a double.
-/

namespace LvimDb.Cell
open Daemon (Json)
open Editor (trim)
open Lib (isSpace)
open Engine (Column)

/-- `M.parse_cell` (rules.lua:39-65). -/
def parseCell (env : Env) (text kind : String) : Json :=
  let t := trim text
  if t.toLower = "null" then .null
  else if kind = "integer" ∨ kind = "float" then (tonumber env t).elim (.str t) .num
  else if kind = "bool" then
    let l := t.toLower
    if l = "true" ∨ l = "1" then .bool true
    else if l = "false" ∨ l = "0" then .bool false
    else .str t
  else if kind = "json" then
    match env.decode t with
    | .ok parsed => parsed
    | .error _ => .str t
  else .str t

/-- The text of a decimal integer: a sign, or none, and digits. -/
structure IntegerText where
  sign : Option Bool
  digits : List Char
  nonempty : digits ≠ []
  isDigit : ∀ c ∈ digits, c.isDigit = true

namespace IntegerText

def signChars : Option Bool → List Char
  | none => []
  | some false => ['+']
  | some true => ['-']

def chars (t : IntegerText) : List Char := signChars t.sign ++ t.digits

def text (t : IntegerText) : String := String.ofList t.chars

def value (t : IntegerText) : ℤ :=
  if t.sign = some true then -(Nat.ofDigitChars 10 t.digits 0 : ℤ)
  else Nat.ofDigitChars 10 t.digits 0

end IntegerText

/-- What a value that is handed to `row.write` says about an integer; a number from `2 ^ 1024` on
is infinite. -/
def Denotes : Json → ℤ → Prop
  | .num q, i => q = i ∧ |q| < 2 ^ 1024
  | .str s, i => ∃ t : IntegerText, t.text = s ∧ t.value = i
  | _, _ => False

variable {env : Env} {t : IntegerText}

variable (env t) in
/-- The form for a new row and the edit of a number both hand on the integer that was typed. -/
structure WrittenExactly : Prop where
  inserted : Denotes (parseCell env t.text "integer") t.value
  edited : ∀ driver col orig, isWhole driver col = false →
    structuredType driver col.typeName = none →
      ∃ v, coerce env driver col t.text (.num orig) = .ok (some v) ∧ Denotes v t.value

theorem digit_range {c : Char} (h : c.isDigit = true) : 48 ≤ c.toNat ∧ c.toNat ≤ 57 := by
  rw [Char.isDigit, Bool.and_eq_true, decide_eq_true_eq, decide_eq_true_eq] at h
  exact ⟨UInt32.le_iff_toNat_le.mp h.1, UInt32.le_iff_toNat_le.mp h.2⟩

namespace IntegerText

theorem mem_chars {c : Char} (h : c ∈ t.chars) : c = '+' ∨ c = '-' ∨ c.isDigit = true := by
  rcases List.mem_append.mp h with hsign | hdigit
  · cases hs : t.sign with
    | none =>
      rw [hs] at hsign
      cases hsign
    | some neg =>
      rw [hs] at hsign
      cases neg with
      | false => exact .inl (List.mem_singleton.mp hsign)
      | true => exact .inr (.inl (List.mem_singleton.mp hsign))
  · exact .inr (.inr (t.isDigit c hdigit))

theorem not_space {c : Char} (h : c ∈ t.chars) : isSpace c = false := by
  rcases mem_chars h with rfl | rfl | hd
  · rfl
  · rfl
  · have hrange := digit_range hd
    have hblank : ¬ c = ' ' := by
      rintro rfl
      exact absurd hrange (by decide)
    have hcontrol : ¬ ('\t' ≤ c ∧ c ≤ '\r') := by
      rintro ⟨-, hle⟩
      have hle : c.toNat ≤ 13 := hle
      omega
    simp [isSpace, hblank, hcontrol]

theorem chars_ne_nil : t.chars ≠ [] := by
  intro h
  exact t.nonempty (List.append_eq_nil_iff.mp h).2

theorem trim_text : trim t.text = t.text := by
  unfold trim text
  rw [String.toList_ofList]
  congr 1
  have hdrop : t.chars.dropWhile isSpace = t.chars := by
    cases hc : t.chars with
    | nil => exact absurd hc chars_ne_nil
    | cons c cs =>
      refine List.dropWhile_cons_of_neg ?_
      rw [not_space (t := t) (by rw [hc]; exact List.mem_cons_self ..)]
      exact Bool.false_ne_true
  rw [Lib.strip, hdrop]
  refine List.rdropWhile_eq_self_iff.mpr fun hne => ?_
  rw [not_space (List.getLast_mem hne)]
  exact Bool.false_ne_true

/-- No word is the text of an integer. -/
theorem text_ne {s : String} (h : ∃ c ∈ s.toList, ¬ (c = '+' ∨ c = '-' ∨ c.isDigit = true)) :
    t.text ≠ s := by
  rintro rfl
  obtain ⟨c, hc, hnot⟩ := h
  rw [text, String.toList_ofList] at hc
  exact hnot (mem_chars hc)

theorem toLower_text : t.text.toLower = t.text := by
  have hmap : t.chars.map Char.toLower = t.chars := by
    refine (List.map_congr_left fun c hc => ?_).trans (List.map_id _)
    rcases mem_chars hc with rfl | rfl | hd
    · rfl
    · rfl
    · have hupper : ¬ (65 ≤ c.val ∧ c.val ≤ 90) := by
        rintro ⟨hle, -⟩
        have hle : 65 ≤ c.toNat := UInt32.le_iff_toNat_le.mp hle
        have hrange := digit_range hd
        omega
      unfold Char.toLower
      exact dif_neg hupper
  rw [← String.toList_inj]
  show (t.text.map Char.toLower).toList = _
  rw [String.toList_map, text, String.toList_ofList, hmap]

theorem readSign_chars : Lib.readSign t.chars = (decide (t.sign = some true), t.digits) := by
  unfold chars
  cases hs : t.sign with
  | none =>
    have h : Lib.readSign ((if false = true then ['-'] else []) ++ t.digits ++ []) =
        (false, t.digits ++ []) := Lib.readSign_digits false t.nonempty t.isDigit
    rw [List.append_nil, List.append_nil] at h
    exact h
  | some neg => cases neg <;> rfl

theorem readNumeral_chars : Lib.readNumeral t.chars =
    some ⟨decide (t.sign = some true), Nat.ofDigitChars 10 t.digits 0, [], none⟩ := by
  have hspan : Lib.spanDigits t.digits = (t.digits, []) := by
    have h : Lib.spanDigits (t.digits ++ []) = (t.digits, []) :=
      Lib.spanDigits_append t.isDigit (by simp)
    rwa [List.append_nil] at h
  unfold Lib.readNumeral
  simp only [readSign_chars, hspan, Lib.readFrac, t.nonempty, false_and, if_false, Lib.readRest]

theorem tonumber_text : tonumber env t.text = some (Lib.toDouble (t.value : ℚ)) := by
  have hvalue : Lib.Numeral.value
      ⟨decide (t.sign = some true), Nat.ofDigitChars 10 t.digits 0, [], none⟩ = (t.value : ℚ) := by
    unfold Lib.Numeral.value value
    by_cases hs : t.sign = some true
    · simp [hs]
    · simp [hs]
  unfold tonumber
  rw [trim_text, text, String.toList_ofList, readNumeral_chars]
  exact congrArg (fun q => some (Lib.toDouble q)) hvalue

end IntegerText

/-! ### What is handed on -/

theorem parseCell_integer :
    parseCell env t.text "integer" = .num (Lib.toDouble (t.value : ℚ)) := by
  have hnull : t.text ≠ "null" := t.text_ne ⟨'n', by decide, by decide⟩
  unfold parseCell
  simp only [IntegerText.trim_text, IntegerText.toLower_text, hnull, if_false, true_or, if_true,
    IntegerText.tonumber_text, Option.elim_some]

theorem coerce_integer {driver : String} {col : Column} (orig : ℚ) (hw : isWhole driver col = false)
    (ht : structuredType driver col.typeName = none) :
    coerce env driver col t.text (.num orig) = .ok (some (.num (Lib.toDouble (t.value : ℚ)))) := by
  have hnull : t.text ≠ "NULL" := t.text_ne ⟨'N', by decide, by decide⟩
  unfold coerce retype
  simp only [hw, Bool.false_eq_true, if_false, ht, hnull, tagKind, IntegerText.tonumber_text,
    Option.elim_some]

/-- The double next to an integer is that integer and finite. -/
theorem denotes_iff (i : ℤ) : Denotes (.num (Lib.toDouble (i : ℚ))) i ↔
    Lib.Significant i.natAbs ∧ i.natAbs < 2 ^ 1024 := by
  have habs : |(i : ℚ)| < 2 ^ 1024 ↔ i.natAbs < 2 ^ 1024 := by
    rw [← Int.cast_abs, Int.abs_eq_natAbs, Int.cast_natCast]
    exact_mod_cast Iff.rfl
  rw [Denotes, Lib.toDouble_int_iff]
  refine and_congr_right fun hsig => ?_
  rw [(Lib.toDouble_int_iff i).mpr hsig]
  exact habs

variable (env t) in
/-- An integer is written as it was typed exactly when a double is that integer: it has at most
53 significant bits, and is below `2 ^ 1024`. -/
theorem integer_written :
    WrittenExactly env t ↔ Lib.Significant t.value.natAbs ∧ t.value.natAbs < 2 ^ 1024 := by
  rw [← denotes_iff]
  constructor
  · intro h
    have hparsed : parseCell env t.text "integer" = .num (Lib.toDouble (t.value : ℚ)) :=
      parseCell_integer
    rw [← hparsed]
    exact h.inserted
  · intro h
    refine ⟨?_, fun driver col orig hw ht => ⟨_, coerce_integer orig hw ht, h⟩⟩
    rw [parseCell_integer]
    exact h

/-- `2 ^ 53 + 1`. -/
def oddInteger : IntegerText where
  sign := none
  digits := "9007199254740993".toList
  nonempty := by decide
  isDigit := List.all_eq_true.mp (by decide +kernel)

theorem integer_rounded_off :
    oddInteger.text = "9007199254740993" ∧
      parseCell bareEnv oddInteger.text "integer" = .num 9007199254740992 ∧
      coerce bareEnv "sqlite" ⟨"n", "INTEGER"⟩ oddInteger.text (.num 1) =
        .ok (some (.num 9007199254740992)) ∧
      ¬ WrittenExactly bareEnv oddInteger := by
  have hvalue : oddInteger.value = 9007199254740993 := by decide
  have hdouble : Lib.toDouble (oddInteger.value : ℚ) = 9007199254740992 := by
    rw [hvalue]
    decide +kernel
  have hparsed : parseCell bareEnv oddInteger.text "integer" = .num 9007199254740992 := by
    rw [parseCell_integer, hdouble]
  refine ⟨rfl, hparsed, ?_, fun h => ?_⟩
  · rw [coerce_integer 1 (by decide) (by decide), hdouble]
  · have hdenotes := h.inserted
    rw [hparsed, hvalue] at hdenotes
    exact absurd hdenotes.1 (by norm_num)

end LvimDb.Cell
