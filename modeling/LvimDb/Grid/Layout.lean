import LvimDb.Cell.Edit
import LvimDb.Grid.Export

/-!
# The layout of the grid

`render_result` of ui/result.lua. The widths and the starts of the columns are display cells and
belong to all rows; where a cell begins in its line is in bytes, and belongs to its row.
-/

namespace LvimDb.Grid
open Cell (Env cellDisplay flatten)
open Lib.CharWidth (strwidth_append strwidth_nil)

/-- A column of the layout. -/
structure GridColumn where
  name : String
  typeName : String
  label : Text
  width : ℕ
  start : ℕ

/-- A cell of the layout, its padded text from byte `bstart` on. -/
structure GridCell where
  text : Text
  bstart : ℕ
  blen : ℕ
  deriving DecidableEq

/-- `state.grid`. -/
structure Layout where
  cols : List GridColumn
  rows : List (List GridCell)

/-- `state.grid` and the lines of the buffer. -/
structure Screen where
  grid : Option Layout
  lines : List (List UInt8)

def utf8 (s : Text) : List UInt8 := s.flatMap String.utf8EncodeChar

/-- The line of some padded texts. -/
def rowLine (parts : List Text) : Text := [' '] ++ SEP.intercalate parts ++ [' ']

/-- What stands in a line before one of its padded texts. -/
def before (parts : List Text) (ci : ℕ) : Text := [' '] ++ (parts.take ci).flatMap (· ++ SEP)

section
variable (W : Widths)

/-- The loop over the columns (452-460), with `at`; the widths are those of 437-450. -/
def columnsFrom (texts : List (List Text)) : ℕ → ℕ → List Engine.Column → List GridColumn
  | _, _, [] => []
  | ci, start, col :: cols =>
    let label := (flatten col.name).toList
    let width := texts.foldl (fun w row => max w (W.strwidth (row.getD ci []))) (W.strwidth label)
    ⟨col.name, col.typeName, label, width, start⟩ ::
      columnsFrom texts (ci + 1) (start + width + SEP_CELLS) cols

/-- The padded texts of a row. -/
def parts (cols : List GridColumn) (row : List Text) : List Text :=
  cols.zipWith (fun col text => padCells W text col.width) row

/-- The loop over a row (464-471), with `bpos`. -/
def cellsFrom : ℕ → List GridColumn → List Text → List GridCell
  | bpos, col :: cols, text :: row =>
    let blen := (utf8 (padCells W text col.width)).length
    ⟨text, bpos, blen⟩ :: cellsFrom (bpos + blen + (utf8 SEP).length) cols row
  | _, _, _ => []

/-- The grid of some texts and its lines (462-485). -/
def draw (cols : List GridColumn) (texts : List (List Text)) : Screen where
  grid := some ⟨cols, texts.map (cellsFrom W 1 cols)⟩
  lines := texts.map fun row => utf8 (rowLine (parts W cols row))

variable (env : Env) (page : Page)

/-- The text of a value that its column holds all of. -/
def fullText (v : Daemon.Json) : Text := (flatten (cellDisplay env v)).toList

/-- The texts of the rows (442-450), one for each column. -/
def texts : List (List Text) :=
  page.rows.map fun row => (List.range page.columns.length).map fun ci =>
    cutCells W (fullText env (row.getD ci .null)) MAX_CELL

def gridColumns : List GridColumn := columnsFrom W (texts W env page) 0 1 page.columns

/-- `render_result` (412-485) of `state.page`, where it does not raise: a count that is null is not
nil, and `%d` refuses it. -/
def renderResult : Option Page → Option Screen
  | none => some ⟨none, [[], utf8 "  no result yet".toList]⟩
  | some page =>
    if page.columns = [] then
      page.affected.map fun n =>
        ⟨none, [[], utf8 ("  " ++ toString n ++ " row(s) affected").toList]⟩
    else some (draw W (gridColumns W env page) (texts W env page))

end

/-- The text at `ci` of a line stands there, at display cell `k`. -/
def StandsAt (W : Widths) (parts : List Text) (ci : ℕ) (part : Text) (k : ℕ) : Prop :=
  W.strwidth (before parts ci) = k ∧ ∃ rest, rowLine parts = before parts ci ++ part ++ rest

/-- All but the last of a row's texts are no wider than their columns. -/
def Fits (W : Widths) (cols : List GridColumn) (row : List Text) : Prop :=
  ∀ (ci : ℕ) (col : GridColumn) (text : Text), cols[ci]? = some col → row[ci]? = some text →
    ci + 1 < cols.length → W.strwidth text ≤ col.width

variable {W : Widths} {env : Env} {page : Page} {cols : List GridColumn} {ps row : List Text}
  {ci start : ℕ} {col : GridColumn}

theorem utf8_append (s t : Text) : utf8 (s ++ t) = utf8 s ++ utf8 t := List.flatMap_append

theorem foldl_max_le_iff {α : Type} {f : α → ℕ} {l : List α} {w n : ℕ} :
    l.foldl (fun w x => max w (f x)) w ≤ n ↔ w ≤ n ∧ ∀ x ∈ l, f x ≤ n := by
  induction l generalizing w with
  | nil => simp
  | cons x l ih => rw [List.foldl_cons, ih, max_le_iff, List.forall_mem_cons, and_assoc]

theorem intercalate_cons (sep l : Text) (ls : List Text) :
    sep.intercalate (l :: ls) = l ++ ls.flatMap (sep ++ ·) := by
  induction ls generalizing l with
  | nil => simp
  | cons m ls ih =>
    rw [List.intercalate_cons_cons, ih, List.flatMap_cons, List.append_assoc, List.append_assoc]

theorem intercalate_set (sep : Text) {ls : List Text} (h : ci < ls.length) :
    ∃ rest, ∀ l, sep.intercalate (ls.set ci l) = (ls.take ci).flatMap (· ++ sep) ++ l ++ rest := by
  induction ls generalizing ci with
  | nil => exact absurd h (Nat.not_lt_zero _)
  | cons x ls ih =>
    cases ci with
    | zero => exact ⟨ls.flatMap (sep ++ ·), fun l => intercalate_cons sep l ls⟩
    | succ ci =>
      have hlt : ci < ls.length := Nat.lt_of_succ_lt_succ h
      obtain ⟨rest, hrest⟩ := ih hlt
      refine ⟨rest, fun l => ?_⟩
      have hne : ls.set ci l ≠ [] := by
        apply List.ne_nil_of_length_pos
        rw [List.length_set]
        omega
      rw [List.set_cons_succ, List.intercalate_cons_of_ne_nil hne, hrest, List.take_succ_cons,
        List.flatMap_cons]
      simp only [List.append_assoc]

theorem rowLine_set (h : ci < ps.length) :
    ∃ rest, ∀ part, rowLine (ps.set ci part) = before ps ci ++ part ++ rest := by
  obtain ⟨rest, hrest⟩ := intercalate_set SEP h
  refine ⟨rest ++ [' '], fun part => ?_⟩
  rw [rowLine, before, hrest]
  simp only [List.append_assoc]

/-- A line is what stands before one of its texts, that text, and the rest. -/
theorem rowLine_split {part : Text} (h : ps[ci]? = some part) :
    ∃ rest, rowLine ps = before ps ci ++ part ++ rest := by
  obtain ⟨hlt, rfl⟩ := List.getElem?_eq_some_iff.mp h
  obtain ⟨rest, hrest⟩ := rowLine_set hlt
  refine ⟨rest, ?_⟩
  rw [← hrest, List.set_getElem_self]

/-! ### Starts -/

/-- Each column starts behind the one before it and the separator. -/
def Started : ℕ → List GridColumn → Prop
  | _, [] => True
  | start, col :: cols => col.start = start ∧ Started (start + col.width + SEP_CELLS) cols

theorem started_columnsFrom (texts : List (List Text)) (ci start : ℕ)
    (cols : List Engine.Column) : Started start (columnsFrom W texts ci start cols) := by
  induction cols generalizing ci start with
  | nil => trivial
  | cons col cols ih => exact ⟨rfl, ih _ _⟩

/-- The columns of a line stand at their starts exactly when all but the last of its texts are as
wide as their columns. -/
theorem starts_iff (hs : Started start cols) (hlen : ps.length = cols.length) :
    (∀ ci col, cols[ci]? = some col →
        start + W.strwidth ((ps.take ci).flatMap (· ++ SEP)) = col.start) ↔
      ∀ ci col part, cols[ci]? = some col → ps[ci]? = some part → ci + 1 < cols.length →
        W.strwidth part = col.width := by
  induction cols generalizing start ps with
  | nil => simp
  | cons c cols ih =>
    obtain ⟨p, ps, rfl⟩ : ∃ p qs, ps = p :: qs :=
      List.exists_cons_of_length_pos (by rw [hlen]; exact Nat.succ_pos _)
    obtain ⟨hc, hrest⟩ := hs
    rw [List.length_cons, List.length_cons, Nat.succ_inj] at hlen
    have hnext : ∀ ci, start + W.strwidth (((p :: ps).take (ci + 1)).flatMap (· ++ SEP)) =
        start + W.strwidth p + SEP_CELLS + W.strwidth ((ps.take ci).flatMap (· ++ SEP)) := by
      intro ci
      rw [List.take_succ_cons, List.flatMap_cons, strwidth_append, strwidth_append, strwidth_SEP]
      omega
    constructor
    · intro h
      have hp : 1 < (c :: cols).length → W.strwidth p = c.width := by
        intro hlt
        obtain ⟨d, ds, rfl⟩ : ∃ d ds, cols = d :: ds :=
          List.exists_cons_of_length_pos (by rw [List.length_cons] at hlt; omega)
        have hd := h 1 d rfl
        rw [hnext, List.take_zero, List.flatMap_nil, strwidth_nil, hrest.1] at hd
        omega
      intro ci col part hcol hpart hlt
      cases ci with
      | zero =>
        obtain rfl : c = col := by simpa using hcol
        obtain rfl : p = part := by simpa using hpart
        exact hp hlt
      | succ ci =>
        rw [List.length_cons] at hlt
        have hwidth := hp (by rw [List.length_cons]; omega)
        refine (ih hrest hlen).mp (fun ci col hcol => ?_) ci col part hcol hpart (by omega)
        rw [← hwidth, ← hnext]
        exact h (ci + 1) col hcol
    · intro h ci col hcol
      cases ci with
      | zero =>
        obtain rfl : c = col := by simpa using hcol
        rw [List.take_zero, List.flatMap_nil, strwidth_nil, hc, Nat.add_zero]
      | succ ci =>
        rw [List.getElem?_cons_succ] at hcol
        have hlt := (List.getElem?_eq_some_iff.mp hcol).1
        have hwidth : W.strwidth p = c.width := h 0 c p rfl rfl (by rw [List.length_cons]; omega)
        rw [hnext, hwidth]
        refine (ih hrest hlen).mpr (fun ci col part hcol hpart hlt => ?_) ci col hcol
        exact h (ci + 1) col part hcol hpart (by rw [List.length_cons]; omega)

/-! ### The columns of a page -/

theorem columnsFrom_columns (texts : List (List Text)) (ci start : ℕ)
    (cols : List Engine.Column) :
    (columnsFrom W texts ci start cols).map (fun col => ⟨col.name, col.typeName⟩) = cols := by
  induction cols generalizing ci start with
  | nil => rfl
  | cons col cols ih => rw [columnsFrom, List.map_cons, ih]

theorem columnsFrom_getElem? {texts : List (List Text)} {first : ℕ} {cols : List Engine.Column}
    (h : (columnsFrom W texts first start cols)[ci]? = some col) :
    col.label = (flatten col.name).toList ∧
      col.width = texts.foldl (fun w row => max w (W.strwidth (row.getD (first + ci) [])))
        (W.strwidth col.label) := by
  induction cols generalizing ci first start with
  | nil => exact absurd h (by simp [columnsFrom])
  | cons c cols ih =>
    cases ci with
    | zero =>
      rw [columnsFrom, List.getElem?_cons_zero, Option.some.injEq] at h
      subst h
      dsimp only
      rw [Nat.add_zero]
      exact ⟨rfl, rfl⟩
    | succ ci =>
      have hnext : first + 1 + ci = first + (ci + 1) := by omega
      rw [columnsFrom, List.getElem?_cons_succ] at h
      have hrest := ih h
      rwa [hnext] at hrest

/-- The label and the texts of a column are no wider than the column. -/
theorem fits_column (h : (gridColumns W env page)[ci]? = some col) :
    W.strwidth col.label ≤ col.width ∧
      ∀ row ∈ texts W env page, W.strwidth (row.getD ci []) ≤ col.width := by
  obtain ⟨_, hwidth⟩ := columnsFrom_getElem? h
  rw [Nat.zero_add] at hwidth
  exact foldl_max_le_iff.mp hwidth.ge

theorem gridColumns_columns (W : Widths) (env : Env) (page : Page) :
    (gridColumns W env page).map (fun col => ⟨col.name, col.typeName⟩) = page.columns :=
  columnsFrom_columns _ _ _ _

theorem gridColumns_length (W : Widths) (env : Env) (page : Page) :
    (gridColumns W env page).length = page.columns.length := by
  rw [← gridColumns_columns W env page, List.length_map]

theorem length_of_texts (h : row ∈ texts W env page) :
    row.length = (gridColumns W env page).length := by
  obtain ⟨_, _, rfl⟩ := List.mem_map.mp h
  rw [List.length_map, List.length_range, gridColumns_length]

theorem parts_length (h : row.length = cols.length) : (parts W cols row).length = cols.length := by
  rw [parts, List.length_zipWith, h, Nat.min_self]

theorem parts_getElem? {text : Text} (hc : cols[ci]? = some col) (ht : row[ci]? = some text) :
    (parts W cols row)[ci]? = some (padCells W text col.width) := by
  rw [parts, List.getElem?_zipWith, hc, ht]

theorem part_of_parts {part : Text} (hp : (parts W cols row)[ci]? = some part)
    (hc : cols[ci]? = some col) :
    ∃ text, row[ci]? = some text ∧ part = padCells W text col.width := by
  rw [parts, List.getElem?_zipWith, hc] at hp
  cases hrow : row[ci]? with
  | none => simp [hrow] at hp
  | some text => exact ⟨text, rfl, by simpa [hrow] using hp.symm⟩

/-- The texts of a row stand where their columns start exactly when they fit. -/
theorem stand_iff (hs : Started 1 cols) (hlen : row.length = cols.length) :
    (∀ (ci : ℕ) (col : GridColumn) (text : Text), cols[ci]? = some col → row[ci]? = some text →
        StandsAt W (parts W cols row) ci (padCells W text col.width) col.start) ↔
      Fits W cols row := by
  have hbefore : ∀ ci, W.strwidth (before (parts W cols row) ci) =
      1 + W.strwidth (((parts W cols row).take ci).flatMap (· ++ SEP)) := by
    intro ci
    rw [before, strwidth_append]
    simp [W.space]
  have hiff := starts_iff (W := W) hs (parts_length (W := W) hlen)
  constructor
  · intro h ci col text hcol htext hlt
    refine strwidth_pad_iff.mp (hiff.mp (fun ci col hcol => ?_) ci col _ hcol
      (parts_getElem? hcol htext) hlt)
    have hci : ci < row.length := by
      rw [hlen]
      exact (List.getElem?_eq_some_iff.mp hcol).1
    rw [← hbefore]
    exact (h ci col _ hcol (List.getElem?_eq_getElem hci)).1
  · intro h ci col text hcol htext
    refine ⟨?_, rowLine_split (parts_getElem? hcol htext)⟩
    rw [hbefore]
    refine hiff.mpr (fun ci col part hcol hpart hlt => ?_) ci col hcol
    obtain ⟨text, htext, rfl⟩ := part_of_parts hpart hcol
    exact strwidth_pad (h ci col text hcol htext hlt)

theorem texts_fit (h : row ∈ texts W env page) : Fits W (gridColumns W env page) row := by
  intro ci col text hcol htext _
  have hfit := (fits_column hcol).2 row h
  rwa [List.getD_eq_getElem?_getD, htext] at hfit

theorem started_gridColumns (W : Widths) (env : Env) (page : Page) :
    Started 1 (gridColumns W env page) := started_columnsFrom _ _ _ _

end LvimDb.Grid
