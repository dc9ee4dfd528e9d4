import LvimDb.Cell.Pretty
import LvimDb.Document.Kept

/-!
# A document that is saved as it was opened

The `_document` cell of result.lua, the statement that query.lua makes of its text, and what
mongodb.rs reads in the statement.
-/

namespace LvimDb.Document
open Cell (Env Serde)
open Daemon (Json)

variable {Typed : Type}

/-- The statement of `M.replace_document`. -/
def statement (object : String) (doc id : Json) : Json :=
  .obj [("update", .str object),
    ("updates", .arr [.obj [("q", .obj [("_id", id)]), ("u", doc), ("multi", .bool false)]])]

/-- `M.replace_document` (33-48). -/
def replaceDocument (env : Env) (driver object : String) (doc : Json) : Except String String :=
  if driver ≠ "mongodb" then .error "whole-document replace is a MongoDB operation"
  else if doc.isTable = false then .error "the document is not a JSON object"
  else
    match doc.field "_id" with
    | none => .error "the document has no _id — it cannot be addressed for replacement"
    | some id => .ok (env.encode (statement object doc id))

/-- The `_document` branch of `edit_cell` (1333-1373) where the text is saved as it was opened: the
statement it writes. -/
def saveDocument (env : Env) (driver object : String) (raw : Json) : Except String String :=
  match env.decode (Cell.prettyJson (env.encode raw)) with
  | .error _ => .error "lvim-db: not valid JSON — the document was not saved"
  | .ok doc =>
    if doc.isTable = false then .error "lvim-db: not valid JSON — the document was not saved"
    else replaceDocument env driver object doc

/-- The field `u` of the first update of a command. -/
def replacement : Bson Typed → Option (Bson Typed)
  | .doc command =>
    match command.lookup "updates" with
    | some (.arr (.doc update :: _)) => update.lookup "u"
    | _ => none
  | _ => none

/-- The replacement that the engine reads in the statement, where `parse` is
`serde_json::from_str`. -/
def sentDocument (env : Env) (parse : String → Option Serde) (tags : Tags Typed)
    (object : String) (fields : List (String × Bson Typed)) : Option (Bson Typed) := do
  let raw := (Cell.Value.json (relaxed tags (.doc fields))).received
  let stmt ← (saveDocument env "mongodb" object raw).toOption
  let json ← parse stmt
  let command ← read tags json
  replacement command

/-- A value of which the text was read. -/
def reopened (order : List String → List String) (k : ℕ) (raw : Json) : Json :=
  (written order k raw).decode

/-- What is written of `raw` is read by the client, and what is written of the statement by the
engine. -/
structure Codec (env : Env) (order : List String → List String) (parse : String → Option Serde)
    (object : String) (raw : Json) : Prop where
  reads : ∀ s, Cell.tokens s = Cell.tokens (env.encode raw) →
    env.decode s = .ok (reopened order env.precision raw)
  parses : ∀ id, (reopened order env.precision raw).field "_id" = some id →
    parse (env.encode (statement object (reopened order env.precision raw) id)) =
      some (written order env.precision
        (statement object (reopened order env.precision raw) id))

variable {order : List String → List String} {k : ℕ} {tags : Tags Typed}

/-! ### Tables that are read -/

theorem readFields_lookup {fields : List (String × Serde)} {bs : List (String × Bson Typed)}
    (h : readFields tags fields = some bs) (name : String) :
    bs.lookup name = (fields.lookup name).bind (read tags) := by
  induction fields generalizing bs with
  | nil =>
    cases h
    rfl
  | cons field fields ih =>
    obtain ⟨key, v⟩ := field
    simp only [readFields, Option.bind_eq_bind, Option.bind_eq_some_iff, Option.some.injEq] at h
    obtain ⟨b, hb, bs, hbs, rfl⟩ := h
    rw [List.lookup_cons, List.lookup_cons]
    split
    · exact hb.symm
    · exact ih hbs

theorem readFields_isSome {fields : List (String × Serde)}
    (h : ∀ field ∈ fields, ∃ b, read tags field.2 = some b) :
    ∃ bs, readFields tags fields = some bs := by
  induction fields with
  | nil => exact ⟨[], rfl⟩
  | cons field fields ih =>
    obtain ⟨name, v⟩ := field
    obtain ⟨b, hb⟩ := h _ (List.mem_cons_self ..)
    obtain ⟨bs, hbs⟩ := ih fun field hfield => h field (List.mem_cons_of_mem _ hfield)
    refine ⟨(name, b) :: bs, ?_⟩
    have hb : read tags v = some b := hb
    rw [readFields, hb, hbs]
    rfl

theorem lookup_arranged {α : Type} (henum : Enumerates order) (fields : List (String × α))
    (name : String) : (arranged order fields).lookup name = fields.lookup name := by
  unfold arranged
  rw [lookup_pick]
  split
  · rfl
  · next hname =>
    rw [henum.mem, ← lookup_isSome, Option.not_isSome_iff_eq_none] at hname
    exact hname.symm

/-- A table without reserved keys is read as a document, field by field. -/
theorem read_table (henum : Enumerates order) {fields : List (String × Serde)}
    (hkeys : ∀ key ∈ reserved, key ∉ names fields) :
    read tags (.obj (arranged order fields)) =
      (readFields tags (arranged order fields)).map .doc := by
  rw [read, if_neg]
  rintro ⟨key, hkey, hmem⟩
  refine hkeys key hkey ?_
  unfold arranged at hmem
  rw [pick_names fun x => (henum.mem _ x).mp, henum.mem] at hmem
  exact hmem

/-- A table without reserved keys is read if its fields are. -/
theorem read_table_isSome (henum : Enumerates order) {fields : List (String × Serde)}
    (hkeys : ∀ key ∈ reserved, key ∉ names fields)
    (h : ∀ field ∈ fields, ∃ b, read tags field.2 = some b) :
    ∃ b, read tags (.obj (arranged order fields)) = some b := by
  have harranged : ∀ field ∈ arranged order fields, ∃ b, read tags field.2 = some b :=
    fun field hfield => h field (mem_of_pick hfield)
  obtain ⟨bs, hbs⟩ := readFields_isSome harranged
  exact ⟨.doc bs, by rw [read_table henum hkeys, hbs]; rfl⟩

/-- The fields of the document that a table is read as. -/
theorem read_table_lookup (henum : Enumerates order) {fields : List (String × Serde)}
    (hkeys : ∀ key ∈ reserved, key ∉ names fields) {b : Bson Typed}
    (h : read tags (.obj (arranged order fields)) = some b) :
    ∃ bs, b = .doc bs ∧ ∀ name v, fields.lookup name = some v →
      ∃ c, read tags v = some c ∧ bs.lookup name = some c := by
  rw [read_table henum hkeys] at h
  obtain ⟨bs, hbs, rfl⟩ := Option.map_eq_some_iff.mp h
  refine ⟨bs, rfl, fun name v hv => ?_⟩
  have hlookup := readFields_lookup hbs name
  rw [lookup_arranged henum, hv, Option.bind_some] at hlookup
  have hmem : name ∈ names bs := by
    rw [readFields_names hbs]
    unfold arranged
    rw [pick_names fun x => (henum.mem _ x).mp, henum.mem]
    exact lookup_isSome.mp (by rw [hv]; rfl)
  obtain ⟨c, hc⟩ := Option.isSome_iff_exists.mp (lookup_isSome.mpr hmem)
  exact ⟨c, hlookup.symm.trans hc, hc⟩

/-! ### The statement -/

/-- The replacement of a statement is what its document is read as; where it is read, so is the
filter. -/
theorem replacement_statement (henum : Enumerates order) (object : String) {doc id : Json}
    {b : Bson Typed} :
    (read tags (written order k (statement object doc id))).bind replacement = some b ↔
      read tags (written order k doc) = some b ∧
        ∃ i, read tags (written order k id) = some i := by
  set update : List (String × Serde) := [("q", .obj (arranged order [("_id", written order k id)])),
    ("u", written order k doc), ("multi", .bool false)] with hupdate
  have hstatement : written order k (statement object doc id) = .obj (arranged order
      [("update", .str object), ("updates", .arr [.obj (arranged order update)])]) := rfl
  rw [hstatement]
  have hid : ∀ key ∈ reserved, key ∉ names [("_id", written order k id)] := by
    simp only [names, List.map_cons, List.map_nil]
    decide
  have hfields : ∀ key ∈ reserved, key ∉ names update := by
    simp only [hupdate, names, List.map_cons, List.map_nil]
    decide
  have hcommand : ∀ key ∈ reserved, key ∉ names
      [("update", Serde.str object), ("updates", .arr [.obj (arranged order update)])] := by
    simp only [names, List.map_cons, List.map_nil]
    decide
  constructor
  · intro h
    obtain ⟨command, hread, hreplacement⟩ := Option.bind_eq_some_iff.mp h
    obtain ⟨bs, rfl, hbs⟩ := read_table_lookup henum hcommand hread
    obtain ⟨c, hc, hupdates⟩ := hbs "updates" _ rfl
    rw [read] at hc
    obtain ⟨cs, hcs, rfl⟩ := Option.map_eq_some_iff.mp hc
    simp only [readList, Option.bind_eq_bind, Option.bind_eq_some_iff, Option.some.injEq,
      Option.bind_some] at hcs
    obtain ⟨u, hu, rfl⟩ := hcs
    obtain ⟨us, rfl, hus⟩ := read_table_lookup henum hfields hu
    obtain ⟨d, hd, hdoc⟩ := hus "u" _ rfl
    obtain ⟨q, hq, -⟩ := hus "q" _ rfl
    obtain ⟨qs, -, hqs⟩ := read_table_lookup henum hid hq
    obtain ⟨i, hi, -⟩ := hqs "_id" _ rfl
    rw [replacement, hupdates] at hreplacement
    have hreplaced : us.lookup "u" = some b := hreplacement
    rw [hdoc] at hreplaced
    exact ⟨hd.trans hreplaced, i, hi⟩
  · rintro ⟨hdoc, i, hi⟩
    obtain ⟨q, hq⟩ := read_table_isSome henum hid (by simpa using ⟨i, hi⟩)
    obtain ⟨u, hu⟩ := read_table_isSome henum hfields (by
      simp only [hupdate, List.forall_mem_cons]
      exact ⟨⟨q, hq⟩, ⟨b, hdoc⟩, ⟨.bool false, rfl⟩, by simp⟩)
    have hupdates : read tags (.arr [.obj (arranged order update)]) = some (.arr [u]) := by
      rw [read, readList, hu]
      rfl
    obtain ⟨command, hread⟩ := read_table_isSome henum hcommand (by
      simp only [List.forall_mem_cons]
      exact ⟨⟨.string object, rfl⟩, ⟨_, hupdates⟩, by simp⟩)
    rw [hread, Option.bind_some]
    obtain ⟨bs, rfl, hbs⟩ := read_table_lookup henum hcommand hread
    obtain ⟨c, hc, hlookup⟩ := hbs "updates" _ rfl
    rw [hupdates] at hc
    obtain rfl := Option.some.inj hc
    obtain ⟨us, rfl, hus⟩ := read_table_lookup henum hfields hu
    obtain ⟨d, hd, hlast⟩ := hus "u" _ rfl
    rw [hdoc] at hd
    obtain rfl := Option.some.inj hd
    rw [replacement, hlookup]
    exact hlast

/-! ### The document -/

/-- A field of the document that is read of the text. -/
theorem reopened_field (henum : Enumerates order) (fields : List (String × Bson Typed))
    (name : String) :
    (reopened order k (relaxed tags (.doc fields)).decode).field name =
      (fields.lookup name).map fun b => (carry order k (relaxed tags b)).decode := by
  have hcarry : reopened order k (relaxed tags (.doc fields)).decode =
      (carry order k (.obj (relaxedFields tags fields))).decode := rfl
  rw [hcarry, carry_obj, Serde.decode, Json.field, decodeFields_eq, lookup_map,
    lookup_arranged henum, lookup_map, relaxedFields_eq, lookup_map, Option.map_map,
    Option.map_map]
  rfl

theorem reopened_isTable (fields : List (String × Bson Typed)) :
    (reopened order k (relaxed tags (.doc fields)).decode).isTable = true := by
  have hcarry : reopened order k (relaxed tags (.doc fields)).decode =
      (carry order k (.obj (relaxedFields tags fields))).decode := rfl
  rw [hcarry, carry_obj, Serde.decode]
  rfl

theorem survives_lookup {fields : List (String × Bson Typed)} {name : String} {b : Bson Typed}
    (h : SurvivesFields order k fields) (hb : fields.lookup name = some b) : Survives order k b := by
  induction fields with
  | nil => cases hb
  | cons field fields ih =>
    obtain ⟨key, v⟩ := field
    rw [List.lookup_cons] at hb
    split at hb
    · obtain rfl := Option.some.inj hb
      exact h.1
    · exact ih h.2 hb

/-- The statement of a text that was not edited. -/
theorem saveDocument_unchanged {env : Env} {parse : String → Option Serde} {object : String}
    {fields : List (String × Bson Typed)}
    (hcodec : Codec env order parse object (relaxed tags (.doc fields)).decode) :
    saveDocument env "mongodb" object (relaxed tags (.doc fields)).decode =
      replaceDocument env "mongodb" object
        (reopened order env.precision (relaxed tags (.doc fields)).decode) := by
  unfold saveDocument
  rw [hcodec.reads _ (Cell.tokens_prettyJson _)]
  dsimp only
  rw [if_neg (by rw [reopened_isTable]; decide)]

/-- The replacement of a document that was not edited is what its sent form is read as. -/
theorem sentDocument_iff {env : Env} {parse : String → Option Serde} {object : String}
    {fields : List (String × Bson Typed)} (henum : Enumerates order)
    (hcodec : Codec env order parse object (relaxed tags (.doc fields)).decode)
    {i : Bson Typed} (hid : fields.lookup "_id" = some i) {b : Bson Typed} :
    sentDocument env parse tags object fields = some b ↔
      read tags (sent order env.precision tags (.doc fields)) = some b ∧
        ∃ j, read tags (sent order env.precision tags i) = some j := by
  have hraw : (Cell.Value.json (relaxed tags (.doc fields))).received =
      (relaxed tags (.doc fields)).decode := rfl
  have hfield : (reopened order env.precision (relaxed tags (.doc fields)).decode).field "_id" =
      some (carry order env.precision (relaxed tags i)).decode := by
    rw [reopened_field henum, hid]
    rfl
  have hdoc : written order env.precision
      (reopened order env.precision (relaxed tags (.doc fields)).decode) =
        sent order env.precision tags (.doc fields) := rfl
  have hi : written order env.precision (carry order env.precision (relaxed tags i)).decode =
      sent order env.precision tags i := rfl
  have hparse := hcodec.parses _ hfield
  unfold sentDocument
  dsimp only
  rw [hraw, saveDocument_unchanged hcodec]
  unfold replaceDocument
  rw [if_neg (by decide), if_neg (by rw [reopened_isTable]; decide)]
  simp only [hfield, Except.toOption, Option.bind_eq_bind, Option.bind_some, hparse]
  rw [replacement_statement henum, hdoc, hi]

/-- A document without an `_id` is not sent. -/
theorem sentDocument_none {env : Env} {parse : String → Option Serde} {object : String}
    {fields : List (String × Bson Typed)} (henum : Enumerates order)
    (hcodec : Codec env order parse object (relaxed tags (.doc fields)).decode)
    (hid : fields.lookup "_id" = none) :
    sentDocument env parse tags object fields = none := by
  have hraw : (Cell.Value.json (relaxed tags (.doc fields))).received =
      (relaxed tags (.doc fields)).decode := rfl
  have hfield : (reopened order env.precision (relaxed tags (.doc fields)).decode).field "_id" =
      none := by
    rw [reopened_field henum, hid]
    rfl
  unfold sentDocument
  dsimp only
  rw [hraw, saveDocument_unchanged hcodec]
  unfold replaceDocument
  rw [if_neg (by decide), if_neg (by rw [reopened_isTable]; decide)]
  simp [hfield, Except.toOption]

/-- The replacement that is sent for a document that was not edited is the document exactly if it
has an `_id` and survives. -/
theorem document_unchanged (env : Env) (order : List String → List String)
    (parse : String → Option Serde) (tags : Tags Typed) (object : String)
    (fields : List (String × Bson Typed)) (henum : Enumerates order) (hspec : tags.Spec order)
    (hk : 9 ≤ env.precision)
    (hcodec : Codec env order parse object (relaxed tags (.doc fields)).decode) :
    sentDocument env parse tags object fields = some (.doc fields) ↔
      "_id" ∈ names fields ∧ Survives order env.precision (.doc fields) := by
  rw [← lookup_isSome]
  cases hid : fields.lookup "_id" with
  | none =>
    rw [sentDocument_none henum hcodec hid]
    simp
  | some i =>
    rw [sentDocument_iff henum hcodec hid, read_sent henum hspec hk (.doc fields)]
    constructor
    · rintro ⟨h, -⟩
      exact ⟨rfl, h⟩
    · rintro ⟨-, h⟩
      exact ⟨h, i, (read_sent henum hspec hk i).mpr (survives_lookup h.2.2 hid)⟩

/-! ### One document -/

/-- Object ids. -/
def objectIds : Tags String where
  tagged hex := [("$oid", .str hex)]
  untag fields :=
    match fields with
    | [(key, .str hex)] => if key = "$oid" then some (.typed hex) else none
    | _ => none

def oneText : String := "\x7b\"_id\":1\x7d"

def oneStatement : String :=
  "\x7b\"update\":\"c\",\"updates\":[\x7b\"q\":" ++ oneText ++ ",\"u\":" ++ oneText ++
    ",\"multi\":false\x7d]\x7d"

/-- A codec that knows one document and its statement. -/
def oneDocument : Env where
  encode j := if (j.field "update").isSome then oneStatement else oneText
  decode s :=
    if Cell.tokens s = Cell.tokens oneText then .ok (.obj [("_id", .num 1)]) else .error "bad"
  precision := 13
  special _ := none
  address _ := "table: 0x1"
  strwidth s := s.length

def oneParse (s : String) : Option Serde :=
  if s = oneStatement then
    some (.obj [("update", .str "c"), ("updates", .arr [.obj [("q", .obj [("_id", .int 1)]),
      ("u", .obj [("_id", .int 1)]), ("multi", .bool false)]])])
  else none

theorem enumerates_dedup : Enumerates List.dedup :=
  ⟨fun keys => List.nodup_dedup keys, fun _ _ => List.mem_dedup⟩

theorem objectIds_spec : objectIds.Spec List.dedup where
  reserved _ := ⟨"$oid", by decide, List.mem_singleton.mpr rfl⟩
  scope _ := by
    simp only [objectIds, names, List.map_cons, List.map_nil]
    decide
  small _ := ⟨trivial, trivial⟩
  untag t fields h := by
    obtain rfl := Serde.obj.inj (h : Serde.obj [("$oid", .str t)] = .obj fields)
    rfl
  not_doc fields fields' := by
    unfold objectIds
    dsimp only
    split
    · split <;> simp
    · simp

theorem one_raw : (Serde.obj [("_id", .int 1)]).decode = .obj [("_id", .num 1)] := by
  have hone : Lib.toDouble (1 : ℚ) = 1 := by exact_mod_cast Lib.toDouble_int (i := 1) (by decide)
  simp [Serde.decode, Cell.decodeFields, hone]

theorem one_written : written List.dedup 13 (.obj [("_id", .num 1)]) = .obj [("_id", .int 1)] := by
  have hone : spelled 13 1 = .int 1 := by exact_mod_cast spelled_int (i := 1) (by decide)
  rw [written, writtenFields, written, hone, writtenFields]
  rfl

theorem one_codec : Codec oneDocument List.dedup oneParse "c" (.obj [("_id", .num 1)]) := by
  have hreopened : reopened List.dedup 13 (.obj [("_id", .num 1)]) = .obj [("_id", .num 1)] := by
    unfold reopened
    rw [one_written, one_raw]
  constructor
  · intro s hs
    have hs : Cell.tokens s = Cell.tokens oneText := hs
    change (if Cell.tokens s = Cell.tokens oneText then _ else _) = Except.ok (reopened _ 13 _)
    rw [if_pos hs, hreopened]
  · intro id hid
    have hid : (reopened List.dedup 13 (.obj [("_id", .num 1)])).field "_id" = some id := hid
    rw [hreopened] at hid
    obtain rfl := Option.some.inj (hid : some (Json.num 1) = some id)
    have hstatement : written List.dedup 13 (statement "c" (.obj [("_id", .num 1)]) (.num 1)) =
        .obj (arranged List.dedup [("update", .str "c"), ("updates", .arr [.obj (arranged List.dedup
          [("q", written List.dedup 13 (.obj [("_id", .num 1)])),
            ("u", written List.dedup 13 (.obj [("_id", .num 1)])), ("multi", .bool false)])])]) :=
      rfl
    change oneParse (oneDocument.encode (statement "c" (reopened List.dedup 13 _) _)) =
      some (written List.dedup 13 (statement "c" (reopened List.dedup 13 _) _))
    rw [hreopened, hstatement, one_written]
    change (if oneStatement = oneStatement then _ else _) = _
    rw [if_pos rfl]
    rfl

theorem document_unchanged_one : sentDocument oneDocument oneParse objectIds "c"
    [("_id", .int32 1)] = some (.doc [("_id", .int32 1)]) := by
  have hraw : (relaxed objectIds (.doc [("_id", .int32 1)])).decode = .obj [("_id", .num 1)] :=
    one_raw
  refine (document_unchanged oneDocument List.dedup oneParse objectIds "c" [("_id", .int32 1)]
    enumerates_dedup objectIds_spec (by decide) ?_).mpr ⟨by decide, ?_, ?_, ?_, ?_⟩
  · rw [hraw]
    exact one_codec
  · decide
  · decide
  · trivial
  · trivial

/-- A 64-bit 1 is sent as a 32-bit one. -/
theorem document_narrowed : sentDocument oneDocument oneParse objectIds "c"
    [("_id", .int64 1)] = some (.doc [("_id", .int32 1)]) := by
  have hraw : (relaxed objectIds (.doc [("_id", .int64 1)])).decode = .obj [("_id", .num 1)] :=
    one_raw
  have hcodec : Codec oneDocument List.dedup oneParse "c"
      (relaxed objectIds (.doc [("_id", .int64 1)])).decode := by
    rw [hraw]
    exact one_codec
  have hread : ∀ b, Survives List.dedup 13 b →
      read objectIds (sent List.dedup 13 objectIds b) = some b := fun b =>
    (read_sent enumerates_dedup objectIds_spec (by decide) b).mpr
  refine (sentDocument_iff enumerates_dedup hcodec (i := .int64 1) rfl).mpr ⟨?_, .int32 1, ?_⟩
  · exact hread (.doc [("_id", .int32 1)]) ⟨by decide, by decide, trivial, trivial⟩
  · exact hread (.int32 1) trivial

end LvimDb.Document
