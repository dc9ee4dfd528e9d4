import LvimDb.Document.Bson
import LvimDb.Engine.Totals

/-!
# Statements of MongoDB

`dispatch` of mongodb.rs: a statement is a find, an aggregation or a command, and a find says up
front how many documents there are. The database is a parameter.
-/

namespace LvimDb.Document
open Cell (Serde)
open Engine (BsonCells Build Call CancelHandle Fetched MongoCursorStream ResultStream columnOrder
  columnsFor docToRow)

abbrev Fields (Typed : Type) := Engine.Document (Bson Typed)

/-- What a collection answers; a cursor may fail on the way. -/
structure Collection (Typed : Type) where
  countDocuments : Fields Typed → Except String ℕ
  find : Fields Typed → Option (Fields Typed) → Option ℤ → Option (Fields Typed) →
    Except String (List (Except String (Fields Typed)))
  aggregate : List (Fields Typed) → Except String (List (Except String (Fields Typed)))

structure Database (Typed : Type) where
  collection : String → Collection Typed
  runCommand : Fields Typed → Except String (Fields Typed)

variable {Typed V : Type} [BsonCells V (Bson Typed)]

/-! ### Reading a statement -/

/-- `get_str`. -/
def getStr (doc : Fields Typed) (key : String) : Option String :=
  match doc.lookup key with
  | some (.string s) => some s
  | _ => none

/-- `get_document`. -/
def getDocument (doc : Fields Typed) (key : String) : Option (Fields Typed) :=
  match doc.lookup key with
  | some (.doc fields) => some fields
  | _ => none

/-- `get_i64`, else `get_i32`. -/
def getInt (doc : Fields Typed) (key : String) : Option ℤ :=
  match doc.lookup key with
  | some (.int64 i) => some i.toInt
  | some (.int32 i) => some i.toInt
  | _ => none

/-- The stages of `get_array("pipeline")` that are documents. -/
def getPipeline (doc : Fields Typed) : List (Fields Typed) :=
  match doc.lookup "pipeline" with
  | some (.arr xs) => xs.filterMap fun x => match x with
    | .doc fields => some fields
    | _ => none
  | _ => []

def filterOf (doc : Fields Typed) : Fields Typed := (getDocument doc "filter").getD []

/-- The count with the limit of the result. -/
def capped (limit : Option ℤ) (n : ℕ) : ℕ :=
  match limit with
  | some l => if 0 < l then min n l.toNat else n
  | none => n

/-- `find` (297-326). -/
def findIn (c : Collection Typed) (doc : Fields Typed) : Except String (Fetched V (Bson Typed)) :=
  let limit := getInt doc "limit"
  let total := (c.countDocuments (filterOf doc)).toOption.map (capped limit)
  (c.find (filterOf doc) (getDocument doc "sort") limit (getDocument doc "projection")).map
    fun docs => .cursor docs total

/-- A command, its result as one row (340-348). -/
def runIn (db : Database Typed) (doc : Fields Typed) : Except String (Fetched V (Bson Typed)) :=
  (db.runCommand doc).map fun result =>
    .buffered (columnsFor (columnOrder result)) [docToRow (columnOrder result) result] none

def answer (db : Database Typed) (doc : Fields Typed) : Except String (Fetched V (Bson Typed)) :=
  match getStr doc "find" with
  | some coll => findIn (db.collection coll) doc
  | none =>
    match getStr doc "aggregate" with
    | some coll =>
      ((db.collection coll).aggregate (getPipeline doc)).map fun docs => .cursor docs none
    | none => runIn db doc

/-- `dispatch` (281-349) of a statement, as its JSON is read or fails to be; `complain` is what is
said of a value that is no extended JSON. -/
def dispatch (tags : Tags Typed) (complain : Serde → String) (db : Database Typed)
    (stmt : Except String Serde) : Except String (Fetched V (Bson Typed)) :=
  match stmt with
  | .error e => .error ("statement must be a JSON document: " ++ e)
  | .ok json =>
    match read tags json with
    | some (.doc doc) => answer db doc
    | some _ => .error "statement must be a JSON object"
    | none => .error ("invalid command document: " ++ complain json)

/-! ### A collection that stays as it is -/

/-- How many of `n` matching documents a find answers, its limit as the server takes it: none and
zero are no limit, and a negative one is for one batch. -/
def Limited (limit : Option ℤ) (n k : ℕ) : Prop :=
  match limit with
  | none => k = n
  | some l => if 0 < l then k = min n l.toNat else if l = 0 then k = n else k ≤ n

/-- Of the documents, `matching` many match a filter, when they are counted and when they are
found. -/
structure Collection.Still (c : Collection Typed) (matching : Fields Typed → ℕ) : Prop where
  count : ∀ filter n, c.countDocuments filter = .ok n → n = matching filter
  find : ∀ filter sort limit projection (docs : List (Fields Typed)),
    c.find filter sort limit projection = .ok (docs.map .ok) →
      Limited limit (matching filter) docs.length

/-- The statement is a find with a negative limit that leaves out some of the `n` documents. -/
def Batched (matching : String → Fields Typed → ℕ) (doc : Fields Typed) (n k : ℕ) : Prop :=
  ∃ coll l, getStr doc "find" = some coll ∧ getInt doc "limit" = some l ∧ l < 0 ∧
    n = matching coll (filterOf doc) ∧ k < n

variable {matching : String → Fields Typed → ℕ} {doc : Fields Typed} {db : Database Typed}
  {fetched : Fetched V (Bson Typed)} {stream : ResultStream V (Bson Typed)} {R : List (List V)}

/-- What is said up front is right, but for a negative limit. -/
theorem capped_limited {limit : Option ℤ} {n k : ℕ} (h : Limited limit n k) :
    capped limit n = k ∨ ∃ l, limit = some l ∧ l < 0 ∧ capped limit n = n ∧ k ≤ n := by
  cases limit with
  | none => exact .inl h.symm
  | some l =>
    unfold Limited at h
    simp only at h
    by_cases hpos : 0 < l
    · rw [if_pos hpos] at h
      exact .inl ((if_pos hpos).trans h.symm)
    · have hcap : capped (some l) n = n := if_neg hpos
      rw [if_neg hpos] at h
      by_cases hzero : l = 0
      · rw [if_pos hzero] at h
        exact .inl (hcap.trans h.symm)
      · rw [if_neg hzero] at h
        exact .inr ⟨l, rfl, by omega, hcap, h⟩

/-- A cursor that was opened is the one that was given. -/
theorem openCursor_inj {cursor cursor' : List (Except String (Fields Typed))}
    {total total' : Option ℕ} {s : MongoCursorStream (Bson Typed)}
    (h : MongoCursorStream.openCursor cursor total = .ok s)
    (h' : MongoCursorStream.openCursor cursor' total' = .ok s) :
    cursor = cursor' ∧ s.total = total := by
  have hopen : ∀ {cursor : List (Except String (Fields Typed))} {total : Option ℕ},
      MongoCursorStream.openCursor cursor total = .ok s →
      cursor = s.first.toList.map .ok ++ s.cursor ∧ s.total = total := by
    intro cursor total h
    cases cursor with
    | nil =>
      cases h
      exact ⟨rfl, rfl⟩
    | cons doc rest =>
      cases doc with
      | error e => cases h
      | ok doc =>
        cases h
        exact ⟨rfl, rfl⟩
  exact ⟨(hopen h).1.trans (hopen h').1.symm, (hopen h).2⟩

/-- A cursor's result has one row for each of its documents. -/
theorem opened_cursor {docs : List (Except String (Fields Typed))} {total : Option ℕ}
    (hopen : (Fetched.cursor docs total : Fetched V (Bson Typed)).openStream = .ok stream)
    (hR : ResultStream.Opened stream R) :
    stream.total = total ∧
      ∃ ok : List (Fields Typed), docs = ok.map .ok ∧ R.length = ok.length := by
  have hopen : (MongoCursorStream.openCursor docs total).map ResultStream.cursor =
    .ok stream := hopen
  cases hcursor : MongoCursorStream.openCursor docs total with
  | error e =>
    rw [hcursor] at hopen
    cases hopen
  | ok s =>
    rw [hcursor] at hopen
    cases hopen
    cases hR with
    | cursor ok total' _ hok =>
      obtain ⟨heq, htotal⟩ := openCursor_inj hcursor hok
      exact ⟨htotal, ok, heq, by rw [List.length_map]⟩

/-- What the stream of a find says up front. -/
theorem find_total {c : Collection Typed} {m : Fields Typed → ℕ} (hc : c.Still m)
    (hd : findIn c doc = .ok fetched) (hopen : fetched.openStream = .ok stream)
    (hR : ResultStream.Opened stream R) :
    (stream.total.isSome ↔ ∃ n, c.countDocuments (filterOf doc) = .ok n) ∧
    ∀ n, stream.total = some n → n = R.length ∨
      ∃ l, getInt doc "limit" = some l ∧ l < 0 ∧ n = m (filterOf doc) ∧ R.length < n := by
  unfold findIn at hd
  simp only at hd
  cases hfind : c.find (filterOf doc) (getDocument doc "sort") (getInt doc "limit")
      (getDocument doc "projection") with
  | error e =>
    rw [hfind] at hd
    cases hd
  | ok docs =>
    rw [hfind] at hd
    cases hd
    obtain ⟨htotal, ok, rfl, hlen⟩ := opened_cursor hopen hR
    have hlimit := hc.find _ _ _ _ ok hfind
    rw [htotal]
    cases hcount : c.countDocuments (filterOf doc) with
    | error e =>
      constructor
      · constructor
        · intro h
          cases h
        · rintro ⟨n, hn⟩
          cases hn
      · intro n hn
        cases hn
    | ok n =>
      refine ⟨iff_of_true rfl ⟨n, rfl⟩, fun k hk => ?_⟩
      obtain rfl := Option.some.inj hk
      rw [hc.count _ _ hcount, hlen]
      rcases capped_limited hlimit with heq | ⟨l, hl, hneg, hcap, hle⟩
      · exact .inl heq
      · rcases hle.eq_or_lt with heq | hlt
        · exact .inl (hcap.trans heq.symm)
        · exact .inr ⟨l, hl, hneg, hcap, by rwa [hcap]⟩

/-- A statement that is no find says nothing up front, or has all its rows at hand. -/
theorem other_total (hd : answer db doc = .ok fetched) (hno : getStr doc "find" = none)
    (hopen : fetched.openStream = .ok stream) (hR : ResultStream.Opened stream R) :
    stream.total = none ∨ stream.total = some R.length := by
  unfold answer at hd
  rw [hno] at hd
  simp only at hd
  split at hd
  · next coll _ =>
    cases hagg : (db.collection coll).aggregate (getPipeline doc) with
    | error e =>
      rw [hagg] at hd
      cases hd
    | ok docs =>
      rw [hagg] at hd
      cases hd
      exact .inl (opened_cursor hopen hR).1
  · unfold runIn at hd
    cases hrun : db.runCommand doc with
    | error e =>
      rw [hrun] at hd
      cases hd
    | ok result =>
      rw [hrun] at hd
      cases hd
      cases hopen
      cases hR
      exact .inr rfl

/-- Over collections that stay as they are, whatever pages of a statement's result are asked for,
in whatever order: a page that tells a total tells the number of the rows, unless the statement is
a find with a negative limit that leaves documents out, where it is the number of those that
match. A find whose documents could be counted tells its total on every page. -/
theorem mongo_totals {tags : Tags Typed} {complain : Serde → String} {stmt : Except String Serde}
    (hdb : ∀ coll, (db.collection coll).Still (matching coll))
    (hd : dispatch tags complain db stmt = .ok fetched)
    (hopen : fetched.openStream = .ok stream) (hR : ResultStream.Opened stream R) (bld : Build)
    (handle : Option CancelHandle) (ms : ℕ) (reqs : List (ℕ × ℕ)) :
    ∃ json doc, stmt = .ok json ∧ read tags json = some (.doc doc) ∧
      ∃ answers last, (∀ fuel, R.length + 2 ≤ fuel →
          (({ Call.new with cancel := handle } : Call V (Bson Typed)).finish ms
            (.ok stream)).1.pages bld fuel reqs = some (answers, last)) ∧
        ∀ p, .ok (.ready p) ∈ answers →
          (∀ n, p.total = some n → n = R.length ∨ Batched matching doc n R.length) ∧
          ∀ coll, getStr doc "find" = some coll →
            (∃ n, (db.collection coll).countDocuments (filterOf doc) = .ok n) →
              p.total.isSome = true := by
  cases stmt with
  | error e => cases hd
  | ok json =>
    unfold dispatch at hd
    simp only at hd
    split at hd
    · next doc hread =>
      obtain ⟨answers, last, hpages, htells⟩ := Call.totals_told bld handle ms stream reqs hR
      refine ⟨json, doc, rfl, hread, answers, last, hpages, fun p hp => ?_⟩
      have htell := htells _ hp p rfl
      cases hfind : getStr doc "find" with
      | none =>
        refine ⟨fun n hn => .inl ?_, fun coll hcoll => by cases hcoll⟩
        rcases htell with heq | ⟨-, hrows⟩
        · rw [heq] at hn
          rcases other_total hd hfind hopen hR with hnone | hsome
          · rw [hnone] at hn
            cases hn
          · rw [hsome] at hn
            exact (Option.some.inj hn).symm
        · rw [hrows] at hn
          exact (Option.some.inj hn).symm
      | some coll =>
        have hd : findIn (db.collection coll) doc = .ok fetched := by
          unfold answer at hd
          rw [hfind] at hd
          exact hd
        obtain ⟨hcounted, hright⟩ := find_total (hdb coll) hd hopen hR
        constructor
        · intro n hn
          rcases htell with heq | ⟨-, hrows⟩
          · rcases hright n (heq.symm.trans hn) with hrows | ⟨l, hl, hneg, hn', hlt⟩
            · exact .inl hrows
            · exact .inr ⟨coll, l, hfind, hl, hneg, hn', hlt⟩
          · exact .inl (Option.some.inj (hn.symm.trans hrows))
        · intro coll' hcoll hcount
          obtain rfl := Option.some.inj hcoll
          rcases htell with heq | ⟨hnone, -⟩
          · rw [heq]
            exact hcounted.mpr hcount
          · have hsome := hcounted.mpr hcount
            rw [hnone] at hsome
            cases hsome
    · cases hd
    · cases hd

/-! ### Three documents -/

instance : BsonCells ℕ (Bson Empty) := ⟨fun _ => 0, 0, List.length⟩

def untagged : Tags Empty := ⟨fun t => t.elim, fun _ => none⟩

def oneField : Fields Empty := [("_id", .int32 1)]

/-- A collection of `n` documents that all filters match. -/
def copies (n : ℕ) : Collection Empty where
  countDocuments _ := .ok n
  find _ _ limit _ :=
    .ok (List.replicate (match limit with
      | none => n
      | some l => if l = 0 then n else min n l.natAbs) (.ok oneField))
  aggregate _ := .ok []

theorem copies_still (n : ℕ) : (copies n).Still fun _ => n where
  count _ k h := by
    cases h
    rfl
  find _ _ limit _ docs h := by
    have hlen := congrArg List.length (Except.ok.inj h)
    rw [List.length_replicate, List.length_map] at hlen
    rw [← hlen]
    cases limit with
    | none => exact rfl
    | some l =>
      unfold Limited
      simp only
      split
      · next hpos =>
        rw [if_neg (by omega)]
        omega
      · split
        · rfl
        · exact Nat.min_le_left ..

def threeCopies : Database Empty := ⟨fun _ => copies 3, fun _ => .ok []⟩

/-- A find of two of three documents, read past its end and from its beginning. -/
def findTwo : Serde := .obj [("find", .str "c"), ("limit", .int 2)]

theorem read_findTwo :
    read untagged findTwo = some (.doc [("find", .string "c"), ("limit", .int32 2)]) := by
  have hplain : ¬ ∃ key ∈ reserved, key ∈ names [("find", Serde.str "c"), ("limit", .int 2)] := by
    decide
  rw [findTwo, read, if_neg hplain]
  rfl

theorem mongo_totals_two : ∃ stream : ResultStream ℕ (Bson Empty), ∃ answers last,
    ((dispatch untagged (fun _ => "") threeCopies (.ok findTwo)).bind
      Fetched.openStream = .ok stream) ∧
    (∀ fuel, 4 ≤ fuel → (({ Call.new with cancel := none } : Call ℕ (Bson Empty)).finish 7
      (.ok stream)).1.pages .checked fuel [(0, 9), (0, 1)] = some (answers, last)) ∧
    ∀ p, .ok (.ready p) ∈ answers → p.total = some 2 := by
  have hd : dispatch untagged (fun _ => "") threeCopies (.ok findTwo) =
      .ok (.cursor [.ok oneField, .ok oneField] (some 2) : Fetched ℕ (Bson Empty)) := by
    unfold dispatch
    simp only [read_findTwo]
    rfl
  have hR : (.cursor ⟨[.ok oneField], ["_id"], columnsFor ["_id"], some oneField, false, some 2⟩ :
      ResultStream ℕ (Bson Empty)).Opened [[0, 1], [0, 1]] :=
    .cursor [oneField, oneField] (some 2) _ rfl
  obtain ⟨json, doc, hjson, hread, answers, last, hpages, htotals⟩ :=
    mongo_totals (fun _ => copies_still 3) hd rfl hR .checked none 7 [(0, 9), (0, 1)]
  obtain rfl := Except.ok.inj hjson
  rw [read_findTwo] at hread
  obtain rfl := Bson.doc.inj (Option.some.inj hread)
  refine ⟨_, answers, last, by rw [hd]; rfl, hpages, fun p hp => ?_⟩
  obtain ⟨hright, hsome⟩ := htotals p hp
  obtain ⟨n, hn⟩ := Option.isSome_iff_exists.mp (hsome "c" rfl ⟨3, rfl⟩)
  rcases hright n hn with rfl | ⟨coll, l, -, hl, hneg, -⟩
  · exact hn
  · obtain rfl := Option.some.inj hl
    exact absurd hneg (by decide)

end LvimDb.Document
