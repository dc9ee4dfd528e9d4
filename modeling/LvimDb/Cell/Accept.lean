import LvimDb.Cell.Edit

/-!
# Accepting a cell unchanged

The text a field is seeded with goes back through `coerce`. A number comes back as what its 14
digits say, and a nested document with its numbers as they are encoded. A field that is opened again
is seeded from its pending value, and its text is read by the type of the row's.
-/

namespace LvimDb.Cell
open Daemon (Json textOf)
open Editor (trim)
open Engine (Column)
open Lib (isSpace)

/-! ### What a pending value stands for -/

mutual

/-- A value with its numbers as `k + 1` digits say. -/
def rounded (k : ℕ) : Json → Json
  | .num q => .num (Lib.toDouble (Lib.significant k q))
  | .arr xs => .arr (roundedList k xs)
  | .obj fields => .obj (roundedFields k fields)
  | j => j

def roundedList (k : ℕ) : List Json → List Json
  | [] => []
  | x :: xs => rounded k x :: roundedList k xs

def roundedFields (k : ℕ) : List (String × Json) → List (String × Json)
  | [] => []
  | (name, x) :: fields => (name, rounded k x) :: roundedFields k fields

end

/-- The pending value denotes the raw one: it is the same; it is the extended JSON of a tagged
date or decimal; in a JSON column it is the same text but for blanks between the tokens. -/
inductive Same (json : Bool) : Option Json → Option Json → Prop
  | nil : Same json none none
  | null : Same json (some .null) none
  | eq (raw : Json) : Same json (some raw) (some raw)
  | ext (key t : String) :
    Same json (some (.obj [("__ext", .str key), ("v", .str t)])) (some (.obj [(key, .str t)]))
  | text (s s' : String) : json = true → tokens s' = tokens s →
    Same json (some (.str s)) (some (.str s'))

/-- `vim.json` on a value: a text with the tokens of an encoded table is read as the table, with the
numbers as they were written; numbers and booleans are read as Lua writes them; and no text is read as
a string that is this text, nor as an object with such a field. -/
structure Codec (env : Env) (raw : Json) : Prop where
  reads : raw.isTable = true → ∀ s, tokens s = tokens (env.encode raw) →
    env.decode s = .ok (rounded env.precision raw)
  num : ∀ q, raw = .num q →
    env.decode (numberText q) = .ok (.num (Lib.toDouble (Lib.significant 13 q)))
  bool : ∀ b, raw = .bool b → env.decode (toString b) = .ok (.bool b)
  str : ∀ s t, env.decode s = .ok (.str t) → tokens t ≠ tokens s
  field : ∀ s fields name, env.decode s = .ok (.obj fields) →
    tokens (tostring env (fields.lookup name)) ≠ tokens s

section
variable (env : Env) (driver : String) (col : Column) (widths : Widths) (orig raw : Json)

/-- The field opens: it did for the row's value, and does for the value that an earlier text has left
in its box. -/
structure Opens (box : Option (Option Json)) : Prop where
  row : fieldEditable driver col orig = none
  field : fieldEditable driver col ((opened orig box).getD .null) = none
  boxed : ∀ new ∈ box, ∃ text, coerce env driver col text orig = .ok new

/-- The text is accepted, and what is pending then denotes the raw value. -/
def Accepted (box : Option (Option Json)) : Prop :=
  ∃ new, boxAfter env driver col widths orig box = some new ∧
    Same (jsonType col.typeName) (opened orig box) new

/-- What is kept where the row's value is a null, a text, a number or a boolean. -/
def KeptPlain : Prop :=
  match raw with
  | .num q => Lib.toDouble (Lib.significant 13 q) = q
  | .bool _ => True
  | .str s =>
    seed env col widths raw = s ∨
      (jsonType col.typeName = true ∧
        (tagKind orig = .number → tonumber env (seed env col widths raw) = none))
  | _ => False

/-- Where it is a tagged scalar: what the text is wrapped in, or the tagged date or decimal, with no
more than this text. -/
def Rewrapped (name : String) : Prop :=
  ∃ t, (raw = .obj [(name, .str t)] ∨ raw = .obj [("__ext", .str name), ("v", .str t)]) ∧
    trim (seed env col widths raw) = t

/-- Where it is a document: a text that is no JSON is refused, and leaves what is pending. -/
def KeptDocument : Prop :=
  match tagKind raw with
  | .null | .bool => True
  | .number => ∀ q, raw = .num q → Lib.toDouble (Lib.significant 13 q) = q
  | .document => rounded env.precision raw = raw
  | .bytes _ => False
  | .string | .oid _ | .int _ | .ext _ => ∀ v, env.decode (seed env col widths raw) ≠ .ok v

/-- What is kept by the type of the row's value. -/
def KeptBy : Prop :=
  match tagKind orig with
  | .null | .number | .bool | .string => KeptPlain env col widths orig raw
  | .oid _ => Rewrapped env col widths raw "__oid"
  | .int _ => Rewrapped env col widths raw "__int"
  | .ext key => Rewrapped env col widths raw key
  | .document => KeptDocument env col widths raw
  | .bytes _ => False

/-- The raw values that are kept. -/
def Kept : Option Json → Prop
  | none | some .null => True
  | some raw => seed env col widths raw ≠ "NULL" ∧ KeptBy env col widths orig raw

end

variable {env : Env} {driver : String} {col : Column} {widths : Widths} {orig raw : Json}
  {box : Option (Option Json)}

/-! ### Texts -/

theorem strip_eq {p : Char → Bool} {cs : List Char} (h : ∀ c ∈ cs, p c = false) :
    Lib.strip p cs = cs := by
  unfold Lib.strip
  cases cs with
  | nil => rfl
  | cons c cs =>
    rw [List.dropWhile_cons_of_neg (by simp [h c (List.mem_cons_self ..)])]
    apply List.rdropWhile_eq_self_iff.mpr
    intro hne
    simp [h _ (List.getLast_mem hne)]

theorem trim_eq {s : String} (h : ∀ c ∈ s.toList, isSpace c = false) : trim s = s := by
  unfold trim
  rw [strip_eq h, String.ofList_toList]

/-- The characters of a numeral. -/
theorem numeral_chars {n : Lib.Numeral} (h : ∀ c ∈ n.frac, c.isDigit = true) :
    ∀ c ∈ n.text.toList, c.isDigit = true ∨ c = '-' ∨ c = '+' ∨ c = '.' ∨ c = 'e' := by
  have hdigits : ∀ m : ℕ, ∀ c ∈ Nat.toDigits 10 m, c.isDigit = true :=
    fun _ _ hc => Lib.isDigit_toDigits hc
  intro c hc
  rw [Lib.Numeral.text, String.toList_ofList, Lib.Numeral.chars] at hc
  simp only [List.mem_append, or_assoc] at hc
  rcases hc with hc | hc | hc | hc
  · split at hc
    · exact .inr (.inl (List.mem_singleton.mp hc))
    · cases hc
  · exact .inl (hdigits _ c hc)
  · split at hc
    · cases hc
    · rcases List.mem_cons.mp hc with rfl | hc
      · simp
      · exact .inl (h c hc)
  · unfold Lib.Numeral.expChars at hc
    split at hc
    · cases hc
    · rcases List.mem_cons.mp hc with rfl | hc
      · simp
      · rcases List.mem_cons.mp hc with rfl | hc
        · split <;> simp
        · split at hc
          · rcases List.mem_cons.mp hc with rfl | hc
            · exact .inl rfl
            · exact .inl (hdigits _ c hc)
          · exact .inl (hdigits _ c hc)

/-- They are no blanks and no brackets. -/
theorem numeral_char {c : Char}
    (h : c.isDigit = true ∨ c = '-' ∨ c = '+' ∨ c = '.' ∨ c = 'e') :
    isSpace c = false ∧ isOpening c = false := by
  rcases h with h | rfl | rfl | rfl | rfl
  · obtain ⟨hlo, hhi⟩ := Char.isDigit_iff_toNat.mp h
    have h0 : '0'.toNat = 48 := rfl
    have h9 : '9'.toNat = 57 := rfl
    constructor
    · have hle : ¬ c ≤ '\r' := by
        rw [Char.le_def, UInt32.le_iff_toNat_le, Char.toNat_val, Char.toNat_val]
        have hr : '\r'.toNat = 13 := rfl
        omega
      have hne : c ≠ ' ' := by
        rintro rfl
        have hs : ' '.toNat = 32 := rfl
        omega
      simp [isSpace, hle, hne]
    · have hcurly : c ≠ '{' := by
        rintro rfl
        exact absurd h (by decide)
      have hsquare : c ≠ '[' := by
        rintro rfl
        exact absurd h (by decide)
      simp [isOpening, hcurly, hsquare]
  · decide
  · decide
  · decide
  · decide

theorem startsJson_eq_false {s : String} (h : ∀ c ∈ s.toList, isOpening c = false) :
    startsJson s = false := by
  unfold startsJson
  cases hd : (s.toList.dropWhile isSpace).head? with
  | none => rfl
  | some c =>
    have hc : c ∈ s.toList := (List.dropWhile_sublist _).subset (List.mem_of_mem_head? hd)
    exact h c hc

/-! ### Numbers -/

theorem numberText_char (q : ℚ) :
    ∀ c ∈ (numberText q).toList, isSpace c = false ∧ isOpening c = false :=
  fun c hc => numeral_char (numeral_chars Lib.general_digits c hc)

theorem tonumber_numberText (q : ℚ) :
    tonumber env (numberText q) = some (Lib.toDouble (Lib.significant 13 q)) := by
  unfold tonumber
  rw [trim_eq fun c hc => (numberText_char q c hc).1]
  obtain ⟨n, hn, hv⟩ := Option.map_eq_some_iff.mp (Lib.read_general (k := 13) q)
  have hn : Lib.readNumeral (numberText q).toList = some n := hn
  rw [hn]
  simp only [hv]

theorem numberText_ne (q : ℚ) : numberText q ≠ "NULL" := by
  intro h
  have hN := numeral_chars (Lib.general_digits (k := 13) (q := q)) 'N' (by
    change 'N' ∈ (numberText q).toList
    rw [h]
    decide)
  exact absurd hN (by decide)

/-! ### What `NULL` is to the field -/

theorem prettyJson_null : prettyJson "NULL" = "NULL" := rfl

theorem shown_null : shown env col widths raw "NULL" = "NULL" := by
  unfold shown
  split
  · exact prettyJson_null
  · rfl

/-- What the panel is seeded with has the tokens of the text. -/
theorem tokens_shown (text : String) : tokens (shown env col widths raw text) = tokens text := by
  unfold shown
  split
  · exact tokens_prettyJson text
  · rfl

/-- Formatting only adds blanks. -/
theorem subset_prettyFrom (st : Scan) (indent : ℕ) (cs : List Char) :
    cs ⊆ prettyFrom st indent cs := by
  fun_induction prettyFrom st indent cs with
  | case1 => exact List.Subset.refl _
  | _ => simp_all [List.subset_def]

/-- Where a text has a bracket in front it has one in the field. -/
theorem shown_bracket {s : String} (h : startsJson s = true) :
    ∃ c ∈ (shown env col widths raw s).toList, isOpening c = true := by
  obtain ⟨c, hc, ho⟩ := (Option.any_eq_true ..).mp h
  have hmem : c ∈ s.toList := (List.dropWhile_sublist _).subset (List.mem_of_mem_head? hc)
  refine ⟨c, ?_, ho⟩
  unfold shown
  split
  · rw [prettyJson, String.toList_ofList]
    exact subset_prettyFrom _ _ _ hmem
  · exact hmem

/-! ### The text that is accepted -/

/-- A field that was opened is not refused for its column. -/
theorem not_refused (ho : fieldEditable driver col raw = none) :
    isWhole driver col = false ∧ structuredType driver col.typeName = none ∧
      shapeEditable driver raw = none := by
  unfold fieldEditable at ho
  split at ho
  · cases ho
  · rename_i hwhole
    split at ho
    · cases ho
    · rename_i hty
      exact ⟨Bool.eq_false_iff.mpr hwhole, hty, ho⟩

theorem coerce_opened (ho : fieldEditable driver col orig = none) (text : String) :
    coerce env driver col text orig = retype env driver text orig := by
  obtain ⟨hwhole, hty, -⟩ := not_refused ho
  unfold coerce
  rw [hwhole, if_neg Bool.false_ne_true]
  simp only [hty]

/-- A table that was opened is a tagged scalar or MongoDB's, and has no bytes. -/
theorem opened_table (ho : shapeEditable driver raw = none) (ht : raw.isTable = true) :
    (∀ b64, editKind raw ≠ .bytes b64) ∧ (editKind raw = .document → driver = "mongodb") := by
  unfold shapeEditable at ho
  rw [if_pos ht] at ho
  constructor
  · intro b64 hk
    rw [hk] at ho
    cases ho
  · intro hk
    rw [hk] at ho
    by_contra hd
    simp only [if_neg hd] at ho
    cases ho

/-- What is read of the text, by the type of the row's value. -/
theorem accept_retype (h : Opens env driver col orig box) (hraw : opened orig box = some raw) :
    accept env driver col widths orig box =
      retype env driver (seed env col widths raw) orig := by
  unfold accept
  rw [coerce_opened h.row, hraw, Option.getD_some]

theorem accepted_iff {new : Option Json} (hacc : accept env driver col widths orig box = .ok new) :
    Accepted env driver col widths orig box ↔
      Same (jsonType col.typeName) (opened orig box) new := by
  have hafter : boxAfter env driver col widths orig box = some new := by
    unfold boxAfter
    rw [hacc]
  constructor
  · rintro ⟨new', h', hs⟩
    obtain rfl := Option.some.inj (hafter.symm.trans h')
    exact hs
  · exact fun hs => ⟨new, hafter, hs⟩

/-- A text that is refused leaves the value it was seeded from. -/
theorem accepted_error {e : String} (hbox : box = some (some raw))
    (hacc : accept env driver col widths orig box = .error e) :
    Accepted env driver col widths orig box := by
  subst hbox
  refine ⟨some raw, ?_, .eq raw⟩
  unfold boxAfter
  rw [hacc]

/-- The raw value is the row's, or was read of a text by its type. -/
theorem Opens.source (h : Opens env driver col orig box) (hraw : opened orig box = some raw) :
    (box = none ∧ orig = raw) ∨ (box = some (some raw) ∧
      ∃ text, text ≠ "NULL" ∧ retype env driver text orig = .ok (some raw)) := by
  cases box with
  | none => exact .inl ⟨rfl, Option.some.inj hraw⟩
  | some new =>
    have hnew : new = some raw := hraw
    subst hnew
    obtain ⟨text, htext⟩ := h.boxed _ rfl
    rw [coerce_opened h.row] at htext
    refine .inr ⟨rfl, text, ?_, htext⟩
    rintro rfl
    rw [retype, if_pos rfl] at htext
    cases htext

/-- A number denotes another only where it is that number. -/
theorem same_num {json : Bool} {q q' : ℚ} :
    Same json (some (.num q)) (some (.num q')) ↔ q' = q := by
  constructor
  · intro h
    cases h
    rfl
  · rintro rfl
    exact .eq _

theorem accept_null (h : Opens env driver col orig box)
    (hraw : opened orig box = none ∨ opened orig box = some .null) :
    Accepted env driver col widths orig box := by
  have hnull : (opened orig box).getD .null = .null := by
    rcases hraw with hraw | hraw
    · rw [hraw]
      rfl
    · rw [hraw]
      rfl
  have hseed : seed env col widths .null = "NULL" := shown_null
  have hacc : accept env driver col widths orig box = .ok none := by
    unfold accept
    rw [hnull, hseed, coerce_opened h.row, retype, if_pos rfl]
  rw [accepted_iff hacc]
  rcases hraw with hraw | hraw
  · rw [hraw]
    exact .nil
  · rw [hraw]
    exact .null

/-- A text that comes to `NULL` loses the value. -/
theorem accept_lost (h : Opens env driver col orig box) (hraw : opened orig box = some raw)
    (hne : raw ≠ .null) (hn : seed env col widths raw = "NULL") :
    ¬ Accepted env driver col widths orig box := by
  have hacc : accept env driver col widths orig box = .ok none := by
    rw [accept_retype h hraw, hn, retype, if_pos rfl]
  rw [accepted_iff hacc, hraw]
  intro hs
  cases hs
  exact hne rfl

/-! ### Plain text -/

/-- A value that is no table is shown as it is, where its text has no bracket in front. -/
theorem seed_scalar (ht : raw.isTable = false) (hj : startsJson (cellDisplay env raw) = false) :
    seed env col widths raw = cellDisplay env raw := by
  unfold seed shown formatted
  rw [ht, hj, Bool.or_false, Bool.and_false]
  rfl

theorem seed_num (q : ℚ) : seed env col widths (.num q) = numberText q :=
  seed_scalar rfl (startsJson_eq_false fun c hc => (numberText_char q c hc).2)

theorem seed_bool (b : Bool) : seed env col widths (.bool b) = toString b := by
  have hfalse : startsJson "false" = false := by decide
  have htrue : startsJson "true" = false := by decide
  apply seed_scalar rfl
  cases b
  · exact hfalse
  · exact htrue

/-- A text is read as a text. -/
theorem accept_text {s : String} (hraw : opened orig box = some (.str s))
    (hacc : accept env driver col widths orig box =
      .ok (some (.str (seed env col widths (.str s))))) :
    Accepted env driver col widths orig box ↔
      seed env col widths (.str s) = s ∨ jsonType col.typeName = true := by
  have htokens : tokens (seed env col widths (.str s)) = tokens s := tokens_shown s
  rw [accepted_iff hacc, hraw]
  generalize seed env col widths (.str s) = s' at htokens ⊢
  constructor
  · intro h
    cases h with
    | eq => exact .inl rfl
    | text _ _ hjson _ => exact .inr hjson
  · rintro (rfl | hjson)
    · exact .eq _
    · exact .text s s' hjson htokens

/-- The words that `coerce` takes for a boolean. -/
def boolWord (text : String) : Bool :=
  let l := text.toLower
  decide (l = "true" ∨ l = "1" ∨ l = "false" ∨ l = "0")

theorem retype_bool {b : Bool} {text : String} (hne : text ≠ "NULL") (hw : boolWord text = false) :
    retype env driver text (.bool b) = .ok (some (.str text)) := by
  simp only [boolWord, decide_eq_false_iff_not, not_or] at hw
  obtain ⟨h1, h2, h3, h4⟩ := hw
  unfold retype
  rw [if_neg hne]
  simp only [tagKind, h1, h2, h3, h4, or_false, if_false]

/-- A text with a bracket is no such word. -/
theorem boolWord_bracket {text : String} {c : Char} (hc : c ∈ text.toList)
    (ho : isOpening c = true) : boolWord text = false := by
  have hlow : c ∈ text.toLower.toList := by
    show c ∈ (text.map Char.toLower).toList
    rw [String.toList_map]
    refine List.mem_map.mpr ⟨c, hc, ?_⟩
    simp only [isOpening, Bool.or_eq_true, beq_iff_eq] at ho
    rcases ho with rfl | rfl <;> rfl
  have hno : ∀ word : String, word.toList.all (!isOpening ·) = true → text.toLower ≠ word := by
    rintro word hall rfl
    have hnot := List.all_eq_true.mp hall c hlow
    rw [ho] at hnot
    cases hnot
  simp only [boolWord, decide_eq_false_iff_not, not_or]
  exact ⟨hno _ (by decide), hno _ (by decide), hno _ (by decide), hno _ (by decide)⟩

theorem boolWord_seed {s : String} (hw : boolWord s = false) :
    boolWord (seed env col widths (.str s)) = false := by
  by_cases hj : startsJson s = true
  · have hmem : ∃ c ∈ (seed env col widths (.str s)).toList, isOpening c = true := shown_bracket hj
    obtain ⟨c, hc, ho⟩ := hmem
    exact boolWord_bracket hc ho
  · have hseed : seed env col widths (.str s) = s := seed_scalar rfl (Bool.eq_false_iff.mpr hj)
    rw [hseed]
    exact hw

theorem keptPlain_str {s : String} (hnum : tagKind orig ≠ .number) :
    KeptPlain env col widths orig (.str s) ↔
      seed env col widths (.str s) = s ∨ jsonType col.typeName = true :=
  or_congr_right (and_iff_left fun h => absurd h hnum)

/-- Under a null or a text every text is read as it is. -/
theorem accept_string (h : Opens env driver col orig box) (hraw : opened orig box = some raw)
    (hne : raw ≠ .null) (hn : seed env col widths raw ≠ "NULL")
    (hk : orig = .null ∨ ∃ t, orig = .str t) :
    Accepted env driver col widths orig box ↔ KeptPlain env col widths orig raw := by
  have hretype : ∀ text, text ≠ "NULL" → retype env driver text orig = .ok (some (.str text)) := by
    intro text htext
    unfold retype
    rw [if_neg htext]
    rcases hk with rfl | ⟨t, rfl⟩ <;> rfl
  have hnum : tagKind orig ≠ .number := by
    rcases hk with rfl | ⟨t, rfl⟩ <;> simp [tagKind]
  obtain ⟨s, rfl⟩ : ∃ s, raw = .str s := by
    rcases h.source hraw with ⟨-, rfl⟩ | ⟨-, text, hnull, htext⟩
    · exact hk.resolve_left hne
    · rw [hretype text hnull] at htext
      cases htext
      exact ⟨text, rfl⟩
  rw [keptPlain_str hnum]
  refine accept_text hraw ?_
  rw [accept_retype h hraw, hretype _ hn]

theorem accept_bool {b : Bool} (h : Opens env driver col (.bool b) box)
    (hraw : opened (.bool b) box = some raw) (hn : seed env col widths raw ≠ "NULL") :
    Accepted env driver col widths (.bool b) box ↔ KeptPlain env col widths (.bool b) raw := by
  have hraws : (∃ b', raw = .bool b') ∨ ∃ s, raw = .str s ∧ boolWord s = false := by
    rcases h.source hraw with ⟨-, rfl⟩ | ⟨-, text, hnull, htext⟩
    · exact .inl ⟨b, rfl⟩
    · by_cases hw : boolWord text = true
      · unfold retype at htext
        simp only [boolWord, decide_eq_true_eq] at hw
        split at htext
        · cases htext
        · dsimp only [tagKind] at htext
          split at htext
          · cases htext
            exact .inl ⟨true, rfl⟩
          · rename_i hno
            rw [if_pos (by tauto)] at htext
            cases htext
            exact .inl ⟨false, rfl⟩
      · have hw : boolWord text = false := Bool.eq_false_iff.mpr hw
        rw [retype_bool hnull hw] at htext
        cases htext
        exact .inr ⟨text, rfl, hw⟩
  rcases hraws with ⟨b', rfl⟩ | ⟨s, rfl, hw⟩
  · refine iff_of_true ?_ trivial
    have hacc : accept env driver col widths (.bool b) box = .ok (some (.bool b')) := by
      rw [accept_retype h hraw, seed_bool]
      have hlow : ∀ w : Bool, (toString w).toLower = toString w := by
        intro w
        rw [← String.toList_inj]
        show ((toString w).map Char.toLower).toList = _
        rw [String.toList_map]
        cases w <;> rfl
      have hlower := hlow b'
      cases b' with
      | false =>
        have hlower : "false".toLower = "false" := hlower
        change retype env driver "false" (.bool b) = _
        simp [retype, tagKind, hlower]
      | true =>
        have hlower : "true".toLower = "true" := hlower
        change retype env driver "true" (.bool b) = _
        simp [retype, tagKind, hlower]
    rw [accepted_iff hacc, hraw]
    exact .eq _
  · rw [keptPlain_str (by simp [tagKind])]
    refine accept_text hraw ?_
    rw [accept_retype h hraw, retype_bool hn (boolWord_seed hw)]

theorem retype_num {q : ℚ} {text : String} (hne : text ≠ "NULL") :
    retype env driver text (.num q) = .ok (some ((tonumber env text).elim (.str text) .num)) := by
  unfold retype
  rw [if_neg hne]
  rfl

theorem accept_num {q : ℚ} (h : Opens env driver col (.num q) box)
    (hraw : opened (.num q) box = some raw) (hn : seed env col widths raw ≠ "NULL") :
    Accepted env driver col widths (.num q) box ↔ KeptPlain env col widths (.num q) raw := by
  have hraws : (∃ q', raw = .num q') ∨ ∃ s, raw = .str s ∧ tonumber env s = none := by
    rcases h.source hraw with ⟨-, rfl⟩ | ⟨-, text, hnull, htext⟩
    · exact .inl ⟨q, rfl⟩
    · rw [retype_num hnull] at htext
      cases htonumber : tonumber env text with
      | none =>
        rw [htonumber] at htext
        cases htext
        exact .inr ⟨text, rfl, htonumber⟩
      | some q' =>
        rw [htonumber] at htext
        cases htext
        exact .inl ⟨q', rfl⟩
  have hacc : accept env driver col widths (.num q) box = .ok (some
      ((tonumber env (seed env col widths raw)).elim (.str (seed env col widths raw)) .num)) := by
    rw [accept_retype h hraw, retype_num hn]
  rcases hraws with ⟨q', rfl⟩ | ⟨s, rfl, hs⟩
  · rw [seed_num, tonumber_numberText, Option.elim_some] at hacc
    rw [accepted_iff hacc, hraw]
    exact same_num
  · show _ ↔ seed env col widths (.str s) = s ∨ (jsonType col.typeName = true ∧
      (Kind.number = Kind.number → tonumber env (seed env col widths (.str s)) = none))
    cases htonumber : tonumber env (seed env col widths (.str s)) with
    | none =>
      rw [htonumber, Option.elim_none] at hacc
      simpa only [forall_const, and_true] using accept_text hraw hacc
    | some q' =>
      rw [htonumber, Option.elim_some] at hacc
      rw [accepted_iff hacc, hraw]
      refine iff_of_false nofun ?_
      rintro (heq | ⟨-, hnone⟩)
      · rw [heq, hs] at htonumber
        cases htonumber
      · cases hnone rfl

/-! ### Tagged scalars -/

/-- The text is wrapped under a name. -/
theorem accept_wrapped {name : String} (h : Opens env driver col orig box)
    (hraw : opened orig box = some raw) (hn : seed env col widths raw ≠ "NULL")
    (hretype : ∀ text, text ≠ "NULL" →
      retype env driver text orig = .ok (some (.obj [(name, .str (trim text))]))) :
    Accepted env driver col widths orig box ↔ Rewrapped env col widths raw name := by
  have hacc : accept env driver col widths orig box =
      .ok (some (.obj [(name, .str (trim (seed env col widths raw)))])) := by
    rw [accept_retype h hraw, hretype _ hn]
  rw [accepted_iff hacc, hraw, Rewrapped]
  generalize trim (seed env col widths raw) = t
  constructor
  · intro hs
    generalize hnew : Json.obj [(name, .str t)] = new at hs
    cases hs with
    | eq => exact ⟨t, .inl hnew.symm, rfl⟩
    | ext key t' =>
      obtain ⟨rfl, rfl⟩ : name = key ∧ t = t' := by simpa using hnew
      exact ⟨t, .inr rfl, rfl⟩
    | text s s' => cases hnew
  · rintro ⟨t', rfl | rfl, rfl⟩
    · exact .eq _
    · exact .ext name t

/-! ### Documents -/

theorem tagKind_table (h : ∀ k, tagKind raw = k → k ≠ .null ∧ k ≠ .number ∧ k ≠ .bool ∧ k ≠ .string) :
    raw.isTable = true := by
  obtain ⟨h1, h2, h3, h4⟩ := h _ rfl
  cases raw with
  | null => exact absurd rfl h1
  | num q => exact absurd rfl h2
  | bool b => exact absurd rfl h3
  | str s => exact absurd rfl h4
  | arr xs => rfl
  | obj fields => rfl

theorem tagKind_obj (ht : raw.isTable = true) (hk : tagKind raw ≠ .document) :
    ∃ fields, raw = .obj fields := by
  cases raw with
  | arr xs => exact absurd rfl hk
  | obj fields => exact ⟨fields, rfl⟩
  | null => cases ht
  | num q => cases ht
  | bool b => cases ht
  | str s => cases ht

/-- The tests find the text of the field they ask for. -/
theorem tagKind_eq (fields : List (String × Json)) :
    (∀ hex, tagKind (.obj fields) = .oid hex → textOf (fields.lookup "__oid") = some hex) ∧
    (∀ ds, tagKind (.obj fields) = .int ds → textOf (fields.lookup "__int") = some ds) ∧
    (∀ key, tagKind (.obj fields) = .ext key → textOf (fields.lookup "__ext") = some key) ∧
    (∀ b64, tagKind (.obj fields) = .bytes b64 → textOf (fields.lookup "__bytes") = some b64) := by
  unfold tagKind
  dsimp only
  split <;> simp_all

theorem editKind_of_document (hk : tagKind raw = .document) : editKind raw = .document := by
  cases raw with
  | obj fields =>
    unfold tagKind at hk
    dsimp only at hk
    split at hk <;> simp_all [editKind]
  | arr xs => rfl
  | null => cases hk
  | num q => cases hk
  | bool b => cases hk
  | str s => cases hk

/-- The values that were opened have no bytes. -/
theorem tagKind_ne_bytes {b64 : String} (ho : fieldEditable driver col raw = none) :
    tagKind raw ≠ .bytes b64 := by
  intro hk
  have ht : raw.isTable = true := tagKind_table (by rw [hk]; rintro k rfl; simp)
  obtain ⟨fields, rfl⟩ := tagKind_obj ht (by rw [hk]; simp)
  obtain ⟨-, -, -, hbytes⟩ := tagKind_eq fields
  have hlook := hbytes b64 hk
  obtain ⟨-, -, hshape⟩ := not_refused ho
  apply (opened_table hshape ht).1 b64
  unfold editKind
  dsimp only
  rw [hlook]

/-- A document that was opened is MongoDB's. -/
theorem mongo_of_document (ho : fieldEditable driver col orig = none)
    (hk : tagKind orig = .document) : driver = "mongodb" := by
  have ht : orig.isTable = true := tagKind_table (by rw [hk]; rintro k rfl; simp)
  obtain ⟨-, -, hshape⟩ := not_refused ho
  exact (opened_table hshape ht).2 (editKind_of_document hk)

theorem retype_document (env : Env) {text : String} (hmongo : driver = "mongodb")
    (hk : tagKind orig = .document) (hne : text ≠ "NULL") :
    retype env driver text orig =
      match env.decode text with
      | .ok parsed => .ok (some parsed)
      | .error e => .error ("not valid JSON — " ++ afterColon e) := by
  unfold retype
  rw [if_neg hne, hk]
  exact if_pos hmongo

/-- A text that cannot be read as what is shown by it. -/
theorem accept_apart (h : Opens env driver col orig box) (hraw : opened orig box = some raw)
    (hk : tagKind orig = .document) (hn : seed env col widths raw ≠ "NULL")
    (hbox : box = some (some raw))
    (hno : ∀ v, env.decode (seed env col widths raw) = .ok v →
      ¬ Same (jsonType col.typeName) (some raw) (some v)) :
    Accepted env driver col widths orig box ↔
      ∀ v, env.decode (seed env col widths raw) ≠ .ok v := by
  have hread := retype_document env (mongo_of_document h.row hk) hk hn
  rw [← accept_retype h hraw] at hread
  cases hdecode : env.decode (seed env col widths raw) with
  | ok v =>
    rw [hdecode] at hread
    rw [accepted_iff hread, hraw]
    exact iff_of_false (hno v hdecode) fun hall => hall v rfl
  | error e =>
    rw [hdecode] at hread
    exact iff_of_true (accepted_error hbox hread) nofun

theorem tagKind_obj_ne (fields : List (String × Json)) :
    tagKind (.obj fields) ≠ .null ∧ tagKind (.obj fields) ≠ .number ∧
      tagKind (.obj fields) ≠ .bool ∧ tagKind (.obj fields) ≠ .string := by
  unfold tagKind
  dsimp only
  split <;> simp

theorem textOf_some {x : Option Json} {t : String} (h : textOf x = some t) : x = some (.str t) := by
  unfold textOf at h
  split at h
  · cases h
    rfl
  · cases h

theorem tokens_seed (raw : Json) :
    tokens (seed env col widths raw) = tokens (cellDisplay env raw) := tokens_shown _

/-- A tagged scalar that was typed in place of a document is shown by one of its fields. -/
theorem accept_tagged {fields : List (String × Json)} (name : String)
    (h : Opens env driver col orig box) (hraw : opened orig box = some (.obj fields))
    (hk : tagKind orig = .document) (hn : seed env col widths (.obj fields) ≠ "NULL")
    (hc : Codec env (.obj fields)) (hne : tagKind (.obj fields) ≠ .document)
    (hshown : cellDisplay env (.obj fields) = tostring env (fields.lookup name)) :
    Accepted env driver col widths orig box ↔
      ∀ v, env.decode (seed env col widths (.obj fields)) ≠ .ok v := by
  have hbox : box = some (some (.obj fields)) := by
    rcases h.source hraw with ⟨-, rfl⟩ | ⟨hbox, -⟩
    · exact absurd hk hne
    · exact hbox
  refine accept_apart h hraw hk hn hbox fun v hv hs => ?_
  generalize hr : Json.obj fields = raw at hs
  cases hs with
  | eq =>
    rw [← hr] at hv
    apply hc.field _ _ name hv
    rw [tokens_seed, hshown]
  | ext key t =>
    -- the date or decimal is shown as `t`
    apply hc.field _ _ key hv
    rw [tokens_seed, hr]
    have hlookup : List.lookup key [(key, Json.str t)] = some (.str t) := by simp
    rw [hlookup]
    rfl
  | text s s' => cases hr

theorem accept_document (h : Opens env driver col orig box) (hraw : opened orig box = some raw)
    (hne : raw ≠ .null) (hn : seed env col widths raw ≠ "NULL") (hk : tagKind orig = .document)
    (hc : Codec env raw) :
    Accepted env driver col widths orig box ↔ KeptDocument env col widths raw := by
  have hread := retype_document env (mongo_of_document h.row hk) hk hn
  rw [← accept_retype h hraw] at hread
  have htable : raw.isTable = true → tagKind raw = .document →
      (Accepted env driver col widths orig box ↔ rounded env.precision raw = raw) := by
    intro ht hkraw
    have hdisp : cellDisplay env raw = env.encode raw := by
      unfold cellDisplay
      rw [hkraw]
    have hdecode : env.decode (seed env col widths raw) = .ok (rounded env.precision raw) :=
      hc.reads ht _ (by rw [tokens_seed, hdisp])
    rw [hdecode] at hread
    rw [accepted_iff hread, hraw]
    constructor
    · intro hs
      generalize rounded env.precision raw = new at hs ⊢
      cases hs with
      | eq => rfl
      | ext key t => cases hkraw
      | text s s' => cases hkraw
    · intro heq
      rw [heq]
      exact .eq raw
  cases raw with
  | null => exact absurd rfl hne
  | bool b =>
    rw [seed_bool, hc.bool b rfl] at hread
    rw [accepted_iff hread, hraw]
    exact iff_of_true (.eq _) trivial
  | num q =>
    rw [seed_num, hc.num q rfl] at hread
    rw [accepted_iff hread, hraw, same_num]
    constructor
    · intro heq q' hq
      cases hq
      exact heq
    · exact fun hall => hall q rfl
  | str s =>
    have hbox : box = some (some (.str s)) := by
      rcases h.source hraw with ⟨-, rfl⟩ | ⟨hbox, -⟩
      · cases hk
      · exact hbox
    refine accept_apart h hraw hk hn hbox fun v hv hs => ?_
    have htokens : tokens (seed env col widths (.str s)) = tokens s := tokens_seed _
    cases hs with
    | eq => exact hc.str _ _ hv htokens.symm
    | text _ s' _ hsame => exact hc.str _ _ hv (hsame.trans htokens.symm)
  | arr xs => exact htable rfl rfl
  | obj fields =>
    obtain ⟨hoid, hint, -, -⟩ := tagKind_eq fields
    unfold KeptDocument
    cases hkraw : tagKind (.obj fields) with
    | null => exact absurd hkraw (tagKind_obj_ne fields).1
    | number => exact absurd hkraw (tagKind_obj_ne fields).2.1
    | bool => exact absurd hkraw (tagKind_obj_ne fields).2.2.1
    | string => exact absurd hkraw (tagKind_obj_ne fields).2.2.2
    | document => exact htable rfl hkraw
    | bytes b64 =>
      have hopen := h.field
      rw [hraw, Option.getD_some] at hopen
      exact absurd hkraw (tagKind_ne_bytes hopen)
    | oid hex =>
      refine accept_tagged "__oid" h hraw hk hn hc (by rw [hkraw]; simp) ?_
      rw [textOf_some (hoid hex hkraw), cellDisplay, hkraw]
      rfl
    | int digits =>
      refine accept_tagged "__int" h hraw hk hn hc (by rw [hkraw]; simp) ?_
      rw [textOf_some (hint digits hkraw), cellDisplay, hkraw]
      rfl
    | ext key =>
      refine accept_tagged "v" h hraw hk hn hc (by rw [hkraw]; simp) ?_
      rw [cellDisplay, hkraw]
      rfl

/-- The text a field was seeded with leaves what denotes the same value, exactly for the values that
are kept. -/
theorem unchanged_kept (env : Env) (driver : String) (col : Column) (widths : Widths) (orig : Json)
    (box : Option (Option Json)) (h : Opens env driver col orig box)
    (hc : tagKind orig = .document → ∀ raw ∈ opened orig box, Codec env raw) :
    Accepted env driver col widths orig box ↔ Kept env col widths orig (opened orig box) := by
  cases hraw : opened orig box with
  | none => exact iff_of_true (accept_null h (.inl hraw)) trivial
  | some raw =>
    by_cases hnull : raw = .null
    · subst hnull
      exact iff_of_true (accept_null h (.inr hraw)) trivial
    have hkept : Kept env col widths orig (some raw) ↔
        seed env col widths raw ≠ "NULL" ∧ KeptBy env col widths orig raw := by
      cases raw with
      | null => exact absurd rfl hnull
      | _ => exact Iff.rfl
    by_cases hn : seed env col widths raw = "NULL"
    · exact iff_of_false (accept_lost h hraw hnull hn) fun hk => (hkept.mp hk).1 hn
    rw [hkept, and_iff_right hn]
    cases orig with
    | null => exact accept_string h hraw hnull hn (.inl rfl)
    | str t => exact accept_string h hraw hnull hn (.inr ⟨t, rfl⟩)
    | bool b => exact accept_bool h hraw hn
    | num q => exact accept_num h hraw hn
    | arr xs => exact accept_document h hraw hnull hn rfl (hc rfl raw hraw)
    | obj fields =>
      obtain ⟨h1, h2, h3, h4⟩ := tagKind_obj_ne fields
      unfold KeptBy
      cases hk : tagKind (.obj fields) with
      | null => exact absurd hk h1
      | number => exact absurd hk h2
      | bool => exact absurd hk h3
      | string => exact absurd hk h4
      | document => exact accept_document h hraw hnull hn hk (hc hk raw hraw)
      | bytes b64 => exact absurd hk (tagKind_ne_bytes h.row)
      | oid hex | int digits | ext key =>
        refine accept_wrapped h hraw hn fun text hne => ?_
        rw [retype, if_neg hne, hk]

/-- A codec that knows one list. -/
def oneList : Env where
  encode _ := "[1]"
  decode s := if tokens s = tokens "[1]" then .ok (.arr [.num 1]) else .error "bad"
  precision := 13
  special _ := none
  address _ := "table: 0x1"
  strwidth s := s.length

theorem rounded_oneList : rounded 13 (.arr [.num 1]) = .arr [.num 1] := by
  have hone : Lib.toDouble (Lib.significant 13 1) = 1 := by decide +kernel
  simp only [rounded, roundedList, hone]

theorem codec_oneList : Codec oneList (.arr [.num 1]) where
  reads _ s hs := by
    have hs : tokens s = tokens "[1]" := hs
    change (if tokens s = tokens "[1]" then _ else _) = Except.ok (rounded 13 (.arr [.num 1]))
    rw [if_pos hs, rounded_oneList]
  num q h := by cases h
  bool b h := by cases h
  str s t h := by
    have h : (if tokens s = tokens "[1]" then _ else _) = Except.ok (Json.str t) := h
    split at h <;> cases h
  field s fields name h := by
    have h : (if tokens s = tokens "[1]" then _ else _) = Except.ok (Json.obj fields) := h
    split at h <;> cases h

theorem unchanged_kept_list :
    Accepted oneList "mongodb" ⟨"sizes", ""⟩ ⟨20, 80⟩ (.arr [.num 1]) none := by
  refine (unchanged_kept oneList "mongodb" ⟨"sizes", ""⟩ ⟨20, 80⟩ (.arr [.num 1]) none
    ⟨by decide, by decide, nofun⟩ fun _ raw hraw => ?_).mpr ⟨by decide, rounded_oneList⟩
  obtain rfl := Option.some.inj hraw
  exact codec_oneList

/-- What is encoded of an edited date. -/
def oneDate : Env := { oneList with encode := fun _ => "\x7b\"$date\":\"2024\"\x7d" }

/-- The string `NULL`, an integer of 15 digits, a list in a text column that opens in the panel, and a
date whose field is opened again. -/
theorem unchanged_not_kept :
    ¬ Accepted oneList "postgres" ⟨"name", "text"⟩ ⟨20, 80⟩ (.str "NULL") none ∧
      ¬ Accepted oneList "postgres" ⟨"n", "int8"⟩ ⟨20, 80⟩ (.num 100000000000001) none ∧
      ¬ Accepted oneList "postgres" ⟨"name", "text"⟩ ⟨2, 4⟩ (.str "[1,2]") none ∧
      coerce oneDate "mongodb" ⟨"at", ""⟩ "2024"
          (.obj [("__ext", .str "$date"), ("v", .str "2023")]) =
        .ok (some (.obj [("$date", .str "2024")])) ∧
      ¬ Accepted oneDate "mongodb" ⟨"at", ""⟩ ⟨20, 80⟩
        (.obj [("__ext", .str "$date"), ("v", .str "2023")])
        (some (some (.obj [("$date", .str "2024")]))) := by
  have hnumber : Lib.toDouble (Lib.significant 13 100000000000001) ≠ 100000000000001 := by
    decide +kernel
  have hretype : ∀ text, text ≠ "NULL" → retype oneDate "mongodb" text
      (.obj [("__ext", .str "$date"), ("v", .str "2023")]) =
        .ok (some (.obj [("$date", .str (trim text))])) := by
    intro text hne
    rw [retype, if_neg hne]
    rfl
  have hdate : coerce oneDate "mongodb" ⟨"at", ""⟩ "2024"
      (.obj [("__ext", .str "$date"), ("v", .str "2023")]) =
        .ok (some (.obj [("$date", .str "2024")])) := by
    have htrim : trim "2024" = "2024" := by decide
    rw [coerce_opened (by decide +kernel), hretype _ (by decide), htrim]
  refine ⟨?_, ?_, ?_, hdate, ?_⟩
  · exact accept_lost ⟨by decide +kernel, by decide +kernel, nofun⟩ rfl nofun shown_null
  · intro h
    have hseed : seed oneList ⟨"n", "int8"⟩ ⟨20, 80⟩ (.num 100000000000001) ≠ "NULL" := by
      rw [seed_num]
      exact numberText_ne _
    have hopens : Opens oneList "postgres" ⟨"n", "int8"⟩ (.num 100000000000001) none :=
      ⟨by decide +kernel, by decide +kernel, nofun⟩
    exact hnumber ((accept_num hopens rfl hseed).mp h)
  · intro h
    -- the field opens in the panel, and its text is formatted
    have hopens : Opens oneList "postgres" ⟨"name", "text"⟩ (.str "[1,2]") none :=
      ⟨by decide +kernel, by decide +kernel, nofun⟩
    have hseed : seed oneList ⟨"name", "text"⟩ ⟨2, 4⟩ (.str "[1,2]") ≠ "[1,2]" := by
      decide +kernel
    have hjson : jsonType "text" = false := by decide +kernel
    have hnull : seed oneList ⟨"name", "text"⟩ ⟨2, 4⟩ (.str "[1,2]") ≠ "NULL" := by
      decide +kernel
    have hkept := (accept_string hopens rfl nofun hnull (.inr ⟨_, rfl⟩)).mp h
    rw [keptPlain_str (by simp [tagKind]), hjson] at hkept
    exact hkept.elim hseed (by simp)
  · intro h
    -- the field is seeded with the encoded object, which is wrapped once more
    have hopens : Opens oneDate "mongodb" ⟨"at", ""⟩
        (.obj [("__ext", .str "$date"), ("v", .str "2023")])
        (some (some (.obj [("$date", .str "2024")]))) := by
      refine ⟨by decide +kernel, by decide +kernel, fun new hnew => ⟨"2024", ?_⟩⟩
      rw [hdate, ← Option.some.inj hnew]
    have hseed : trim (seed oneDate ⟨"at", ""⟩ ⟨20, 80⟩ (.obj [("$date", .str "2024")])) ≠
        "2024" := by
      decide +kernel
    obtain ⟨t, ht | ht, htext⟩ := (accept_wrapped hopens rfl (by decide +kernel) hretype).mp h
    · cases ht
      exact hseed htext
    · simp at ht

end LvimDb.Cell
