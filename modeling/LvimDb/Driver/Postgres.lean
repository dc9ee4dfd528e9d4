import Mathlib.Data.List.Forall2
import LvimDb.Cell.Value
import LvimDb.Engine.Stream

/-!
# Results of PostgreSQL

`simple` and `execute` of drivers/postgres.rs. A statement text may hold several statements; the
server answers each of them, and the rows of all their result sets go into one result.
-/

namespace LvimDb.Driver.Postgres
open Cell (Value)
open Engine (Column BufferedStream)

/-! ### What the server sends -/

/-- A result set: its columns, rows as wide as they are, and the count that ends it. -/
structure ResultSet where
  columns : List String
  rows : List { r : List (Option String) // r.length = columns.length }
  count : ℕ

inductive Answer
  | set (s : ResultSet)
  | command (affected : ℕ)

/-- `SimpleQueryRow`: a row with the columns of its result set. -/
structure SimpleQueryRow where
  columns : List String
  values : List (Option String)
  wide : values.length = columns.length

inductive SimpleQueryMessage
  | row (r : SimpleQueryRow)
  | commandComplete (n : ℕ)
  | rowDescription (columns : List String)

def ResultSet.sent (s : ResultSet) : List SimpleQueryRow :=
  s.rows.map fun r => ⟨s.columns, r.1, r.2⟩

def Answer.messages : Answer → List SimpleQueryMessage
  | .set s => .rowDescription s.columns :: (s.sent.map .row ++ [.commandComplete s.count])
  | .command n => [.commandComplete n]

def Answer.sent : Answer → List SimpleQueryRow
  | .set s => s.sent
  | .command _ => []

def messages (answers : List Answer) : List SimpleQueryMessage := answers.flatMap Answer.messages

/-- The rows of all result sets, in the order in which they come. -/
def sent (answers : List Answer) : List SimpleQueryRow := answers.flatMap Answer.sent

/-! ### What is made of it -/

/-- `columns`, `rows` and `affected` of `simple`. -/
structure Simple where
  columns : List Column
  rows : List (List Value)
  affected : Option ℕ

def cell : Option String → Value
  | some s => .text s
  | none => .null

/-- The body of the loop (261-285). -/
def Simple.step (s : Simple) : SimpleQueryMessage → Simple
  | .row row =>
    { s with
      columns := if s.columns = [] then row.columns.map (⟨·, ""⟩) else s.columns
      rows := s.rows ++ [row.values.map cell] }
  | .commandComplete n => { s with affected := some n }
  | .rowDescription _ => s

/-- `simple` (256-292), with what `simple_query` returns. -/
def simple (reply : Except String (List SimpleQueryMessage)) : Except String Simple :=
  reply.map fun msgs =>
    let s := msgs.foldl Simple.step ⟨[], [], none⟩
    { s with affected := if s.rows ≠ [] then none else s.affected }

/-- The loop over the columns of `prepare` (451-453). -/
def typed : List Column → List String → List Column
  | col :: columns, t :: types => { col with typeName := t } :: typed columns types
  | columns, _ => columns

/-- `execute` (441-457); `prepared` has the types that `prepare` describes, if it succeeds. -/
def execute (reply : Except String (List SimpleQueryMessage)) (prepared : Option (List String)) :
    Except String (BufferedStream Value) :=
  (simple reply).map fun s =>
    let columns := if s.columns ≠ [] then prepared.elim s.columns (typed s.columns) else s.columns
    BufferedStream.new columns s.rows s.affected

/-- Every row is as wide as the columns, and its cells stand under those of its result set. -/
def Framed (own : List SimpleQueryRow) (columns : List Column) (rows : List (List Value)) : Prop :=
  List.Forall₂ (fun r row => row = r.values.map cell ∧ row.length = columns.length ∧
    ∀ i < row.length, columns[i]?.map Column.name = r.columns[i]?) own rows

variable {answers : List Answer} {own : List SimpleQueryRow} {columns : List Column}

/-! ### The columns -/

theorem typed_names (columns : List Column) (types : List String) :
    (typed columns types).map Column.name = columns.map Column.name := by
  induction columns generalizing types with
  | nil =>
    cases types with
    | nil => rfl
    | cons t types => rfl
  | cons col columns ih =>
    cases types with
    | nil => rfl
    | cons t types => rw [typed, List.map_cons, List.map_cons, ih]

/-- The columns are those of the first row that has any. -/
def firstColumns (own : List SimpleQueryRow) : List String :=
  ((own.map SimpleQueryRow.columns).find? (· ≠ [])).getD []

theorem firstColumns_append (own own' : List SimpleQueryRow) :
    firstColumns (own ++ own') =
      if firstColumns own = [] then firstColumns own' else firstColumns own := by
  unfold firstColumns
  rw [List.map_append, List.find?_append]
  cases hfind : (own.map SimpleQueryRow.columns).find? (· ≠ []) with
  | none => simp
  | some c =>
    have hc : c ≠ [] := by simpa using List.find?_some hfind
    simp [hc]

theorem foldl_rows (own : List SimpleQueryRow) (s : Simple) :
    (own.map SimpleQueryMessage.row).foldl Simple.step s =
      { s with
        columns := if s.columns = [] then (firstColumns own).map (⟨·, ""⟩) else s.columns
        rows := s.rows ++ own.map (·.values.map cell) } := by
  induction own generalizing s with
  | nil =>
    obtain ⟨columns, rows, affected⟩ := s
    by_cases hs : columns = []
    · simp [firstColumns, hs]
    · simp [hs]
  | cons r own ih =>
    rw [List.map_cons, List.foldl_cons, ih]
    by_cases hs : s.columns = []
    · by_cases hr : r.columns = []
      · simp [Simple.step, firstColumns, hs, hr]
      · simp [Simple.step, firstColumns, hs, hr]
    · simp [Simple.step, hs]

/-- The columns and the rows are made of the rows that were sent, whatever is between them. -/
theorem foldl_messages (answers : List Answer) (s : Simple) :
    ∃ n, (messages answers).foldl Simple.step s =
      { columns := if s.columns = [] then (firstColumns (sent answers)).map (⟨·, ""⟩) else s.columns
        rows := s.rows ++ (sent answers).map (·.values.map cell)
        affected := n } := by
  induction answers generalizing s with
  | nil =>
    obtain ⟨columns, rows, affected⟩ := s
    refine ⟨affected, ?_⟩
    by_cases hs : columns = []
    · simp [messages, sent, firstColumns, hs]
    · simp [messages, sent, hs]
  | cons answer answers ih =>
    have hmessages : messages (answer :: answers) = answer.messages ++ messages answers :=
      List.flatMap_cons
    have hsent : sent (answer :: answers) = answer.sent ++ sent answers := List.flatMap_cons
    rw [hmessages, hsent, List.foldl_append]
    obtain ⟨n, hn⟩ := ih (answer.messages.foldl Simple.step s)
    refine ⟨n, hn.trans ?_⟩
    cases answer with
    | command m => rfl
    | set r =>
      have hset : (Answer.set r).messages.foldl Simple.step s =
          Simple.step ((r.sent.map SimpleQueryMessage.row).foldl Simple.step s)
            (.commandComplete r.count) := by
        rw [Answer.messages, List.foldl_cons, List.foldl_concat]
        rfl
      rw [hset, foldl_rows, firstColumns_append]
      by_cases hs : s.columns = []
      · by_cases hr : firstColumns r.sent = []
        · simp [Simple.step, Answer.sent, hs, hr]
        · simp [Simple.step, Answer.sent, hs, hr]
      · simp [Simple.step, Answer.sent, hs]

theorem untyped_names (names : List String) :
    (names.map fun name => (⟨name, ""⟩ : Column)).map Column.name = names := by
  rw [List.map_map]
  exact List.map_id _

theorem simple_messages (answers : List Answer) :
    ∃ n, simple (.ok (messages answers)) =
      .ok ⟨(firstColumns (sent answers)).map (⟨·, ""⟩),
        (sent answers).map (·.values.map cell), n⟩ := by
  obtain ⟨n, hn⟩ := foldl_messages answers ⟨[], [], none⟩
  rw [if_pos rfl, List.nil_append] at hn
  refine ⟨if (sent answers).map (·.values.map cell) ≠ [] then none else n, ?_⟩
  unfold simple
  rw [Except.map, hn]

theorem execute_messages (answers : List Answer) (prepared : Option (List String)) :
    ∃ s, execute (.ok (messages answers)) prepared = .ok s ∧
      s.columns.map Column.name = firstColumns (sent answers) ∧
      s.rows = (sent answers).map (·.values.map cell) := by
  obtain ⟨n, hn⟩ := simple_messages answers
  have hnames := untyped_names (firstColumns (sent answers))
  refine ⟨_, by rw [execute, hn, Except.map], ?_, rfl⟩
  show List.map Column.name (if _ then _ else _) = _
  split
  · cases prepared with
    | none => exact hnames
    | some types => exact (typed_names _ types).trans hnames
  · exact hnames

/-! ### When it is a table -/

theorem eq_columns_iff (r : SimpleQueryRow) (names : List String) :
    (r.values.map cell).length = names.length ∧
      (∀ i < (r.values.map cell).length, names[i]? = r.columns[i]?) ↔ r.columns = names := by
  rw [List.length_map, r.wide]
  constructor
  · rintro ⟨hlen, hcell⟩
    refine List.ext_getElem? fun i => ?_
    by_cases hi : i < r.columns.length
    · exact (hcell i hi).symm
    · rw [List.getElem?_eq_none (by omega), List.getElem?_eq_none (by omega)]
  · rintro rfl
    exact ⟨rfl, fun _ _ => rfl⟩

theorem eq_firstColumns_iff (own : List SimpleQueryRow) :
    (∀ r ∈ own, r.columns = firstColumns own) ↔
      ∀ r ∈ own, ∀ r' ∈ own, r.columns = r'.columns := by
  constructor
  · intro h r hr r' hr'
    rw [h r hr, h r' hr']
  · intro h r hr
    unfold firstColumns
    cases hfind : (own.map SimpleQueryRow.columns).find? (· ≠ []) with
    | none =>
      rw [List.find?_eq_none] at hfind
      by_contra hne
      exact hfind r.columns (List.mem_map_of_mem hr) (decide_eq_true hne)
    | some c =>
      obtain ⟨r', hr', rfl⟩ := List.mem_map.mp (List.mem_of_find?_eq_some hfind)
      exact h r hr r' hr'

theorem framed_iff (hnames : columns.map Column.name = firstColumns own) :
    Framed own columns (own.map (·.values.map cell)) ↔
      ∀ r ∈ own, ∀ r' ∈ own, r.columns = r'.columns := by
  rw [Framed, List.forall₂_map_right_iff, List.forall₂_same, ← eq_firstColumns_iff]
  refine forall₂_congr fun r _ => ?_
  rw [← eq_columns_iff, ← hnames, List.length_map]
  simp only [List.length_map, List.getElem?_map, true_and]

/-- The results of a statement text are tables whenever all rows have the columns of one. -/
theorem results_framed_iff (answers : List Answer) (prepared : Option (List String)) :
    ∃ out s, simple (.ok (messages answers)) = .ok out ∧
      execute (.ok (messages answers)) prepared = .ok s ∧
      (Framed (sent answers) out.columns out.rows ∧ Framed (sent answers) s.columns s.rows ↔
        ∀ r ∈ sent answers, ∀ r' ∈ sent answers, r.columns = r'.columns) := by
  obtain ⟨n, hn⟩ := simple_messages answers
  obtain ⟨s, hs, hnames, hrows⟩ := execute_messages answers prepared
  refine ⟨_, s, hn, hs, ?_⟩
  have hout := untyped_names (firstColumns (sent answers))
  rw [hrows]
  exact ⟨fun h => (framed_iff hout).mp h.1,
    fun h => ⟨(framed_iff hout).mpr h, (framed_iff hnames).mpr h⟩⟩

/-- `SELECT 1 AS a; SELECT 2 AS b, 3 AS c`. -/
def twoSelects : List Answer :=
  [.set ⟨["a"], [⟨[some "1"], rfl⟩], 1⟩, .set ⟨["b", "c"], [⟨[some "2", some "3"], rfl⟩], 1⟩]

/-- The second row has a cell too many, and none of its cells has its column. -/
theorem twoSelects_ragged :
    ∃ out, simple (.ok (messages twoSelects)) = .ok out ∧ out.columns = [⟨"a", ""⟩] ∧
      out.rows = [[.text "1"], [.text "2", .text "3"]] ∧
      ¬ Framed (sent twoSelects) out.columns out.rows := by
  refine ⟨_, rfl, rfl, rfl, fun h => ?_⟩
  obtain ⟨-, hrest⟩ := List.forall₂_cons.mp h
  obtain ⟨⟨-, hlen, -⟩, -⟩ := List.forall₂_cons.mp hrest
  cases hlen

end LvimDb.Driver.Postgres
