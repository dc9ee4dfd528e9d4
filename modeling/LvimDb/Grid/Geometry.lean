import LvimDb.Grid.Layout

/-!
# The geometry of an edited grid

An accepted edit writes its text, cut to the column, over the bytes of the cell, and derives the
geometry of its row anew. `cut_cells` leaves the ellipsis in a column of no width, which moves the
columns behind it.
-/

namespace LvimDb.Grid
open Cell (Env cellDisplay coerce)
open Lib.CharWidth (strwidth_append strwidth_nil strwidth_cons)

/-- A text typed into a cell. -/
structure Edit where
  ri : ℕ
  ci : ℕ
  text : String

/-- The loop over an edited row (1412-1420), with `bpos`. -/
def restart : ℕ → List GridCell → List GridCell
  | _, [] => []
  | bpos, cell :: row =>
    { cell with bstart := bpos } :: restart (bpos + cell.blen + (utf8 SEP).length) row

section
variable (W : Widths) (env : Env) (driver : String) (page : Page)

/-- `apply` of `edit_cell` (1389-1421), where it gets past `coerce`. -/
def applied (screen : Screen) (e : Edit) : Option Screen := do
  let g ← screen.grid
  let col ← g.cols[e.ci]?
  let cells ← g.rows[e.ri]?
  let cell ← cells[e.ci]?
  let row ← page.rows[e.ri]?
  let line ← screen.lines[e.ri]?
  let value ← (coerce env driver ⟨col.name, col.typeName⟩ e.text (row.getD e.ci .null)).toOption
  let text := cutCells W (fullText env (value.getD .null)) col.width
  let part := utf8 (padCells W text col.width)
  let cells := restart 1 (cells.set e.ci { cell with text := text, blen := part.length })
  some
    { grid := some { g with rows := g.rows.set e.ri cells }
      lines := screen.lines.set e.ri
        (line.take cell.bstart ++ part ++ line.drop (cell.bstart + cell.blen)) }

/-- An edit that is refused changes nothing. -/
def apply (screen : Screen) (e : Edit) : Screen := (applied W env driver page screen e).getD screen

/-- The screen after some edits of a page; where the render raises there is no grid. -/
def edited (edits : List Edit) : Screen :=
  edits.foldl (apply W env driver page) ((renderResult W env (some page)).getD ⟨none, []⟩)

/-- What an edit that is accepted shows, before it is cut. -/
def accepted (e : Edit) : Option Text := do
  let col ← page.columns[e.ci]?
  let row ← page.rows[e.ri]?
  let value ← (coerce env driver col e.text (row.getD e.ci .null)).toOption
  some (fullText env (value.getD .null))

/-- The name of a column has no width, and none of its values has. -/
def Narrow (ci : ℕ) : Prop :=
  ∀ col, page.columns[ci]? = some col → W.strwidth (Cell.flatten col.name).toList = 0 ∧
    ∀ row ∈ page.rows, W.strwidth (fullText env (row.getD ci .null)) = 0

/-- An edit puts no text of a width into a column that has none, the last column aside. -/
def Roomy (e : Edit) : Prop :=
  ∀ text, accepted env driver page e = some text → e.ci + 1 < page.columns.length →
    Narrow W env page e.ci → W.strwidth text = 0

end

/-- In a row `bstart` and `blen` are the bytes of each padded cell, and each column starts at its
display cell. -/
structure RowPlaced (W : Widths) (cols : List GridColumn) (cells : List GridCell)
    (line : List UInt8) : Prop where
  size : cells.length = cols.length
  drawn : line = utf8 (rowLine (parts W cols (cells.map GridCell.text)))
  bytes : ∀ (ci : ℕ) (col : GridColumn) (cell : GridCell), cols[ci]? = some col →
    cells[ci]? = some cell → ∃ rest,
      line = utf8 (before (parts W cols (cells.map GridCell.text)) ci) ++
        utf8 (padCells W cell.text col.width) ++ rest ∧
      cell.bstart = (utf8 (before (parts W cols (cells.map GridCell.text)) ci)).length ∧
      cell.blen = (utf8 (padCells W cell.text col.width)).length
  starts : ∀ (ci : ℕ) (col : GridColumn) (cell : GridCell), cols[ci]? = some col →
    cells[ci]? = some cell → StandsAt W (parts W cols (cells.map GridCell.text)) ci
      (padCells W cell.text col.width) col.start

/-- Every row of the grid is so placed. -/
def Placed (W : Widths) (screen : Screen) : Prop :=
  ∀ g, screen.grid = some g → g.rows.length = screen.lines.length ∧
    ∀ (ri : ℕ) (cells : List GridCell) (line : List UInt8), g.rows[ri]? = some cells →
      screen.lines[ri]? = some line → RowPlaced W g.cols cells line

/-- The table of the texts shown, one row for each row of the page. -/
structure Shown (page : Page) (cols : List GridColumn) (table : List (List Text)) : Prop where
  columns : cols.map (fun col => ⟨col.name, col.typeName⟩) = page.columns
  rows : table.length = page.rows.length
  size : ∀ row ∈ table, row.length = cols.length

/-- An edit of the table. -/
def put (W : Widths) (env : Env) (driver : String) (page : Page) (cols : List GridColumn)
    (table : List (List Text)) (e : Edit) : List (List Text) :=
  match accepted env driver page e, cols[e.ci]?, table[e.ri]? with
  | some text, some col, some row => table.set e.ri (row.set e.ci (cutCells W text col.width))
  | _, _, _ => table

variable {W : Widths} {env : Env} {driver : String} {page : Page} {cols : List GridColumn}
  {ps row : List Text} {table : List (List Text)} {ci bpos : ℕ} {col : GridColumn}
  {text old : Text}

/-! ### Bytes -/

theorem parts_cons (c : GridColumn) (t : Text) :
    parts W (c :: cols) (t :: row) = padCells W t c.width :: parts W cols row := rfl

theorem cellsFrom_length (bpos : ℕ) (h : row.length = cols.length) :
    (cellsFrom W bpos cols row).length = cols.length := by
  induction cols generalizing bpos row with
  | nil =>
    rw [List.length_eq_zero_iff.mp h]
    rfl
  | cons col cols ih =>
    obtain ⟨text, row, rfl⟩ : ∃ p qs, row = p :: qs :=
      List.exists_cons_of_length_pos (by rw [h]; exact Nat.succ_pos _)
    rw [cellsFrom, List.length_cons, List.length_cons, ih _ (Nat.succ.inj h)]

theorem cellsFrom_text (bpos : ℕ) (h : row.length = cols.length) :
    (cellsFrom W bpos cols row).map GridCell.text = row := by
  induction cols generalizing bpos row with
  | nil =>
    rw [List.length_eq_zero_iff.mp h]
    rfl
  | cons col cols ih =>
    obtain ⟨text, row, rfl⟩ : ∃ p qs, row = p :: qs :=
      List.exists_cons_of_length_pos (by rw [h]; exact Nat.succ_pos _)
    rw [cellsFrom, List.map_cons, ih _ (Nat.succ.inj h)]

theorem cellsFrom_getElem? (hc : cols[ci]? = some col) (ht : row[ci]? = some text) :
    (cellsFrom W bpos cols row)[ci]? = some
      ⟨text, bpos + (utf8 (((parts W cols row).take ci).flatMap (· ++ SEP))).length,
        (utf8 (padCells W text col.width)).length⟩ := by
  induction cols generalizing bpos row ci with
  | nil => exact absurd hc (by simp)
  | cons c cols ih =>
    cases row with
    | nil => exact absurd ht (by simp)
    | cons t row =>
      cases ci with
      | zero =>
        obtain rfl := Option.some.inj hc
        obtain rfl := Option.some.inj ht
        rfl
      | succ ci =>
        have hbytes : bpos + (utf8 (padCells W t c.width)).length + (utf8 SEP).length +
            (utf8 (((parts W cols row).take ci).flatMap (· ++ SEP))).length =
              bpos + (utf8 (((padCells W t c.width :: parts W cols row).take (ci + 1)).flatMap
                (· ++ SEP))).length := by
          rw [List.take_succ_cons, List.flatMap_cons, utf8_append, utf8_append, List.length_append,
            List.length_append]
          omega
        rw [cellsFrom, List.getElem?_cons_succ, ih hc ht, parts_cons, hbytes]

theorem restart_cellsFrom (bpos' : ℕ) (h : row.length = cols.length) :
    restart bpos (cellsFrom W bpos' cols row) = cellsFrom W bpos cols row := by
  induction cols generalizing bpos bpos' row with
  | nil =>
    rw [List.length_eq_zero_iff.mp h]
    rfl
  | cons col cols ih =>
    obtain ⟨text, row, rfl⟩ : ∃ p qs, row = p :: qs :=
      List.exists_cons_of_length_pos (by rw [h]; exact Nat.succ_pos _)
    rw [cellsFrom, restart, ih _ (Nat.succ.inj h), cellsFrom]

theorem restart_set {bpos' : ℕ} {cell : GridCell} (hlen : row.length = cols.length)
    (hc : cols[ci]? = some col) (htext : cell.text = text)
    (hblen : cell.blen = (utf8 (padCells W text col.width)).length) :
    restart bpos ((cellsFrom W bpos' cols row).set ci cell) =
      cellsFrom W bpos cols (row.set ci text) := by
  induction cols generalizing bpos bpos' row ci with
  | nil => exact absurd hc (by simp)
  | cons c cols ih =>
    obtain ⟨t, row, rfl⟩ : ∃ p qs, row = p :: qs :=
      List.exists_cons_of_length_pos (by rw [hlen]; exact Nat.succ_pos _)
    cases ci with
    | zero =>
      obtain rfl := Option.some.inj hc
      rw [cellsFrom, List.set_cons_zero, restart, restart_cellsFrom _ (Nat.succ.inj hlen),
        List.set_cons_zero, cellsFrom, hblen, ← htext]
    | succ ci =>
      rw [cellsFrom, List.set_cons_succ, restart, ih (Nat.succ.inj hlen) hc, List.set_cons_succ,
        cellsFrom]

theorem parts_set (hc : cols[ci]? = some col) :
    parts W cols (row.set ci text) = (parts W cols row).set ci (padCells W text col.width) := by
  induction cols generalizing row ci with
  | nil => exact absurd hc (by simp)
  | cons c cols ih =>
    cases row with
    | nil => rfl
    | cons t row =>
      cases ci with
      | zero =>
        obtain rfl := Option.some.inj hc
        rfl
      | succ ci =>
        rw [List.set_cons_succ, parts_cons, ih hc, parts_cons, List.set_cons_succ]

theorem before_length (ps : List Text) (ci : ℕ) :
    (utf8 (before ps ci)).length = 1 + (utf8 ((ps.take ci).flatMap (· ++ SEP))).length := by
  rw [before, utf8_append, List.length_append]
  rfl

theorem splice_line {part part' : Text} (h : ps[ci]? = some part) :
    (utf8 (rowLine ps)).take (utf8 (before ps ci)).length ++ utf8 part' ++
        (utf8 (rowLine ps)).drop ((utf8 (before ps ci)).length + (utf8 part).length) =
      utf8 (rowLine (ps.set ci part')) := by
  obtain ⟨hlt, rfl⟩ := List.getElem?_eq_some_iff.mp h
  obtain ⟨rest, hrest⟩ := rowLine_set hlt
  have hline : rowLine ps = before ps ci ++ ps[ci] ++ rest := by
    rw [← hrest, List.set_getElem_self]
  have hbytes : utf8 (rowLine ps) = utf8 (before ps ci) ++ (utf8 ps[ci] ++ utf8 rest) := by
    rw [hline, utf8_append, utf8_append, List.append_assoc]
  have hfrom : (utf8 (rowLine ps)).drop ((utf8 (before ps ci)).length + (utf8 ps[ci]).length) =
      utf8 rest := by
    rw [hbytes, ← List.append_assoc, ← List.length_append, List.drop_left]
  rw [hfrom, hbytes, List.take_left, hrest, utf8_append, utf8_append]

/-- The rows that are drawn from texts are placed when the texts fit. -/
theorem rowPlaced_iff (hs : Started 1 cols) (hlen : row.length = cols.length) :
    RowPlaced W cols (cellsFrom W 1 cols row) (utf8 (rowLine (parts W cols row))) ↔
      Fits W cols row := by
  have htexts := cellsFrom_text (W := W) 1 hlen
  constructor
  · intro h
    refine (stand_iff hs hlen).mp fun ci col text hcol htext => ?_
    have hstart := h.starts ci col _ hcol (cellsFrom_getElem? hcol htext)
    rwa [htexts] at hstart
  · intro h
    have hcell {ci : ℕ} {cell : GridCell} (hcell : (cellsFrom W 1 cols row)[ci]? = some cell) :
        row[ci]? = some cell.text := by
      rw [← htexts, List.getElem?_map, hcell]
      rfl
    refine ⟨cellsFrom_length 1 hlen, by rw [htexts], fun ci col cell hcol hcell' => ?_,
      fun ci col cell hcol hcell' => ?_⟩
    · have htext := hcell hcell'
      obtain ⟨rest, hrest⟩ := rowLine_split (parts_getElem? (W := W) hcol htext)
      rw [htexts]
      refine ⟨utf8 rest, by rw [hrest, utf8_append, utf8_append], ?_⟩
      rw [cellsFrom_getElem? hcol htext] at hcell'
      rw [← Option.some.inj hcell', before_length]
      exact ⟨rfl, rfl⟩
    · rw [htexts]
      exact (stand_iff hs hlen).mpr h ci col cell.text hcol (hcell hcell')

theorem placed_draw_iff (hs : Started 1 cols) (h : Shown page cols table) :
    Placed W (draw W cols table) ↔ ∀ row ∈ table, Fits W cols row := by
  constructor
  · intro hp row hrow
    obtain ⟨ri, hri⟩ := List.mem_iff_getElem?.mp hrow
    obtain ⟨_, hrows⟩ := hp _ rfl
    refine (rowPlaced_iff hs (h.size row hrow)).mp (hrows ri _ _ ?_ ?_)
    · rw [List.getElem?_map, hri]
      rfl
    · rw [draw, List.getElem?_map, hri]
      rfl
  · rintro hfit g ⟨⟩
    refine ⟨by rw [draw, List.length_map, List.length_map], fun ri cells line hcells hline => ?_⟩
    rw [List.getElem?_map] at hcells
    rw [draw, List.getElem?_map] at hline
    obtain ⟨row, hri, rfl⟩ := Option.map_eq_some_iff.mp hcells
    rw [hri] at hline
    rw [← Option.some.inj hline]
    have hrow := List.mem_of_getElem? hri
    exact (rowPlaced_iff hs (h.size row hrow)).mpr (hfit row hrow)

/-! ### Edits -/

theorem shown_put (h : Shown page cols table) (e : Edit) :
    Shown page cols (put W env driver page cols table e) := by
  unfold put
  split
  · next row _ _ hrow =>
    refine ⟨h.columns, by rw [List.length_set, h.rows], fun row' hrow' => ?_⟩
    rcases List.mem_or_eq_of_mem_set hrow' with hrow' | rfl
    · exact h.size row' hrow'
    · rw [List.length_set, h.size row (List.mem_of_getElem? hrow)]
  · exact h

/-- The drawn row with another text in a cell, and its line. -/
theorem draw_set (hsize : row.length = cols.length) (hcol : cols[ci]? = some col)
    (htext : row[ci]? = some old) (table : List (List Text)) (ri : ℕ) (text : Text) :
    (⟨some ⟨cols, (table.map (cellsFrom W 1 cols)).set ri (restart 1
        ((cellsFrom W 1 cols row).set ci ⟨text, (utf8 (before (parts W cols row) ci)).length,
          (utf8 (padCells W text col.width)).length⟩))⟩,
      (table.map fun row => utf8 (rowLine (parts W cols row))).set ri
        ((utf8 (rowLine (parts W cols row))).take (utf8 (before (parts W cols row) ci)).length ++
          utf8 (padCells W text col.width) ++
          (utf8 (rowLine (parts W cols row))).drop ((utf8 (before (parts W cols row) ci)).length +
            (utf8 (padCells W old col.width)).length))⟩ : Screen) =
      draw W cols (table.set ri (row.set ci text)) := by
  rw [splice_line (parts_getElem? hcol htext), ← parts_set hcol, restart_set hsize hcol rfl rfl,
    draw, List.map_set, List.map_set]

/-- An edit of the screen is one of the table that is drawn. -/
theorem apply_draw (h : Shown page cols table) (e : Edit) :
    apply W env driver page (draw W cols table) e =
      draw W cols (put W env driver page cols table e) := by
  unfold apply applied put accepted
  rw [← h.columns, List.getElem?_map]
  cases hcol : cols[e.ci]? with
  | none => simp [draw, hcol]
  | some col =>
    cases htable : table[e.ri]? with
    | none => simp [draw, htable]
    | some row =>
      have hsize := h.size row (List.mem_of_getElem? htable)
      have hlt : e.ci < row.length := by
        rw [hsize]
        exact (List.getElem?_eq_some_iff.mp hcol).1
      have htext : row[e.ci]? = some row[e.ci] := List.getElem?_eq_getElem hlt
      obtain ⟨values, hvalues⟩ : ∃ values, page.rows[e.ri]? = some values := by
        have hri := (List.getElem?_eq_some_iff.mp htable).1
        rw [h.rows] at hri
        exact ⟨_, List.getElem?_eq_getElem hri⟩
      have hcell : (cellsFrom W 1 cols row)[e.ci]? = some
          ⟨row[e.ci], (utf8 (before (parts W cols row) e.ci)).length,
            (utf8 (padCells W row[e.ci] col.width)).length⟩ := by
        rw [cellsFrom_getElem? hcol htext, before_length]
      have hset := draw_set (W := W) hsize hcol htext table e.ri
      rw [hvalues]
      simp only [draw, hcol, List.getElem?_map, htable, hcell, Option.map_some, Option.bind_eq_bind,
        Option.bind_some]
      cases (coerce env driver ⟨col.name, col.typeName⟩ e.text
        (values.getD e.ci .null)).toOption with
      | none => rfl
      | some value => exact hset _

/-! ### Room -/

theorem shown_texts (W : Widths) (env : Env) (page : Page) :
    Shown page (gridColumns W env page) (texts W env page) where
  columns := gridColumns_columns W env page
  rows := List.length_map _
  size := fun _ => length_of_texts

theorem forall_texts_iff (p : Text → Prop) (hlt : ci < page.columns.length) :
    (∀ row ∈ texts W env page, p (row.getD ci [])) ↔
      ∀ row ∈ page.rows, p (cutCells W (fullText env (row.getD ci .null)) MAX_CELL) := by
  rw [texts, List.forall_mem_map]
  refine forall₂_congr fun row _ => ?_
  rw [List.getD_eq_getElem _ _ (by simpa using hlt), List.getElem_map, List.getElem_range]

theorem narrow_iff (hcol : (gridColumns W env page)[ci]? = some col) :
    col.width = 0 ↔ Narrow W env page ci := by
  obtain ⟨hlabel, hwidth⟩ := columnsFrom_getElem? hcol
  have hlt : ci < page.columns.length := by
    rw [← gridColumns_length W env page]
    exact (List.getElem?_eq_some_iff.mp hcol).1
  have hpage : page.columns[ci]? = some ⟨col.name, col.typeName⟩ := by
    rw [← gridColumns_columns W env page, List.getElem?_map, hcol]
    rfl
  have hnarrow : Narrow W env page ci ↔ W.strwidth col.label = 0 ∧
      ∀ row ∈ page.rows, W.strwidth (fullText env (row.getD ci .null)) = 0 := by
    rw [hlabel]
    constructor
    · exact fun h => h ⟨col.name, col.typeName⟩ hpage
    · intro h c hc
      obtain rfl := Option.some.inj (hpage.symm.trans hc)
      exact h
  rw [hnarrow, ← Nat.le_zero, hwidth, foldl_max_le_iff, Nat.le_zero, Nat.zero_add,
    forall_texts_iff (fun text => W.strwidth text ≤ 0) hlt]
  simp only [Nat.le_zero, strwidth_cutCells_eq_zero]

theorem cell_of_accepted (h : Shown page cols table) {e : Edit}
    (hacc : accepted env driver page e = some text) :
    ∃ col row, cols[e.ci]? = some col ∧ table[e.ri]? = some row := by
  rw [accepted, ← h.columns, List.getElem?_map] at hacc
  obtain ⟨c, hc, hacc⟩ := Option.bind_eq_some_iff.mp hacc
  obtain ⟨col, hcol, rfl⟩ := Option.map_eq_some_iff.mp hc
  obtain ⟨values, hvalues, _⟩ := Option.bind_eq_some_iff.mp hacc
  have hri := (List.getElem?_eq_some_iff.mp hvalues).1
  rw [← h.rows] at hri
  exact ⟨col, table[e.ri], hcol, List.getElem?_eq_getElem hri⟩

/-- A row with a cut text in a cell fits when there is room for that text. -/
theorem fits_set_iff (hsize : row.length = cols.length) (hfit : Fits W cols row)
    (hcol : cols[ci]? = some col) :
    Fits W cols (row.set ci (cutCells W text col.width)) ↔
      (ci + 1 < cols.length → col.width = 0 → W.strwidth text = 0) := by
  have hlt : ci < row.length := by
    rw [hsize]
    exact (List.getElem?_eq_some_iff.mp hcol).1
  rw [← forall_congr' fun _ => strwidth_cutCells_le_iff]
  constructor
  · exact fun h => h ci col _ hcol (List.getElem?_set_self hlt)
  · intro h i c t hc ht hi
    by_cases heq : ci = i
    · subst heq
      rw [List.getElem?_set_self hlt] at ht
      rw [← Option.some.inj ht, ← Option.some.inj (hcol.symm.trans hc)]
      exact h hi
    · rw [List.getElem?_set_ne heq] at ht
      exact hfit i c t hc ht hi

/-- One edit keeps what fits exactly when it has room. -/
theorem put_fits_iff (h : Shown page (gridColumns W env page) table)
    (hfit : ∀ row ∈ table, Fits W (gridColumns W env page) row) (e : Edit) :
    (∀ row ∈ put W env driver page (gridColumns W env page) table e,
        Fits W (gridColumns W env page) row) ↔ Roomy W env driver page e := by
  cases hacc : accepted env driver page e with
  | none =>
    have hput : put W env driver page (gridColumns W env page) table e = table := by
      rw [put, hacc]
    rw [hput]
    exact iff_of_true hfit fun text htext => by rw [hacc] at htext; exact absurd htext (by simp)
  | some text =>
    obtain ⟨col, row, hcol, hrow⟩ := cell_of_accepted h hacc
    have hmem := List.mem_of_getElem? hrow
    have hri := (List.getElem?_eq_some_iff.mp hrow).1
    have hput : put W env driver page (gridColumns W env page) table e =
        table.set e.ri (row.set e.ci (cutCells W text col.width)) := by
      rw [put, hacc, hcol, hrow]
    have hset : Fits W (gridColumns W env page) (row.set e.ci (cutCells W text col.width)) ↔ _ :=
      fits_set_iff (h.size row hmem) (hfit row hmem) hcol
    rw [narrow_iff hcol, gridColumns_length] at hset
    have hroomy : Roomy W env driver page e ↔
        (e.ci + 1 < page.columns.length → Narrow W env page e.ci → W.strwidth text = 0) := by
      rw [Roomy, hacc]
      exact ⟨fun h => h text rfl, fun h t ht => Option.some.inj ht ▸ h⟩
    rw [hput, hroomy, ← hset]
    constructor
    · exact fun hall => hall _ (List.mem_of_getElem? (List.getElem?_set_self hri))
    · intro hrow row' hrow'
      rcases List.mem_or_eq_of_mem_set hrow' with hrow' | rfl
      · exact hfit row' hrow'
      · exact hrow

/-! ### Runs -/

/-- The table after some edits. -/
def tableAfter (W : Widths) (env : Env) (driver : String) (page : Page) (edits : List Edit) :
    List (List Text) :=
  edits.foldl (put W env driver page (gridColumns W env page)) (texts W env page)

theorem tableAfter_concat (edits : List Edit) (e : Edit) :
    tableAfter W env driver page (edits ++ [e]) =
      put W env driver page (gridColumns W env page) (tableAfter W env driver page edits) e := by
  rw [tableAfter, List.foldl_append]
  rfl

theorem edited_concat (edits : List Edit) (e : Edit) :
    edited W env driver page (edits ++ [e]) =
      apply W env driver page (edited W env driver page edits) e := by
  rw [edited, List.foldl_append]
  rfl

theorem shown_tableAfter (edits : List Edit) :
    Shown page (gridColumns W env page) (tableAfter W env driver page edits) := by
  induction edits using List.reverseRecOn with
  | nil => exact shown_texts W env page
  | append_singleton edits e ih =>
    rw [tableAfter_concat]
    exact shown_put ih e

/-- The screen is drawn from the table all along. -/
theorem edited_draw (hcols : page.columns ≠ []) (edits : List Edit) :
    edited W env driver page edits =
      draw W (gridColumns W env page) (tableAfter W env driver page edits) := by
  induction edits using List.reverseRecOn with
  | nil =>
    rw [edited, List.foldl_nil, renderResult, if_neg hcols, Option.getD_some]
    rfl
  | append_singleton edits e ih =>
    rw [edited_concat, ih, tableAfter_concat]
    exact apply_draw (shown_tableAfter edits) e

theorem edited_message (hcols : page.columns = []) (edits : List Edit) :
    (edited W env driver page edits).grid = none := by
  induction edits using List.reverseRecOn with
  | nil =>
    rw [edited, List.foldl_nil, renderResult, if_pos hcols]
    cases page.affected with
    | none => rfl
    | some n => rfl
  | append_singleton edits e ih =>
    rw [edited_concat, apply, applied, ih]
    exact ih

theorem roomy_message (hcols : page.columns = []) (e : Edit) : Roomy W env driver page e := by
  intro text htext
  rw [accepted, hcols] at htext
  exact absurd htext (by simp)

theorem placed_edited_iff (hcols : page.columns ≠ []) (edits : List Edit) :
    Placed W (edited W env driver page edits) ↔
      ∀ row ∈ tableAfter W env driver page edits, Fits W (gridColumns W env page) row := by
  rw [edited_draw hcols]
  exact placed_draw_iff (started_gridColumns W env page) (shown_tableAfter edits)

theorem placed_render (hcols : page.columns ≠ []) : Placed W (edited W env driver page []) :=
  (placed_edited_iff hcols []).mpr fun _ => texts_fit

/-- One edit keeps the geometry right exactly when it has room. -/
theorem placed_step_iff (hcols : page.columns ≠ []) (edits : List Edit) (e : Edit)
    (h : Placed W (edited W env driver page edits)) :
    Placed W (edited W env driver page (edits ++ [e])) ↔ Roomy W env driver page e := by
  rw [placed_edited_iff hcols, tableAfter_concat]
  exact put_fits_iff (shown_tableAfter edits) ((placed_edited_iff hcols edits).mp h) e

/-- The geometry is right after every edit exactly when every edit has room. -/
theorem edits_placed_iff (W : Widths) (env : Env) (driver : String) (page : Page) (edits : List Edit) :
    (∀ done, done <+: edits → Placed W (edited W env driver page done)) ↔
      ∀ e ∈ edits, Roomy W env driver page e := by
  by_cases hcols : page.columns = []
  · refine iff_of_true (fun done _ g hg => ?_) fun e _ => roomy_message hcols e
    rw [edited_message hcols] at hg
    exact absurd hg (by simp)
  · induction edits using List.reverseRecOn with
    | nil =>
      refine iff_of_true (fun done hdone => ?_) fun e he => absurd he List.not_mem_nil
      rw [List.prefix_nil.mp hdone]
      exact placed_render hcols
    | append_singleton edits e ih =>
      constructor
      · intro h e' he'
        have hdone := h edits (List.prefix_append _ _)
        rcases List.mem_append.mp he' with he' | he'
        · exact ih.mp (fun done hpre => h done (hpre.trans (List.prefix_append _ _))) e' he'
        · rw [List.mem_singleton.mp he']
          exact (placed_step_iff hcols edits e hdone).mp (h _ (List.prefix_refl _))
      · intro h done hpre
        have hbefore := ih.mpr fun e' he' => h e' (List.mem_append_left _ he')
        rcases List.prefix_concat_iff.mp hpre with rfl | hpre
        · exact (placed_step_iff hcols edits e (hbefore edits (List.prefix_refl _))).mpr
            (h e (List.mem_append_right _ (List.mem_singleton_self e)))
        · exact hbefore done hpre

/-- Every character covers one cell. -/
def oneCell : Widths := ⟨⟨fun _ => 1, rfl⟩, rfl, rfl⟩

/-- A column with an empty name, and two empty values. -/
def emptyPage : Page where
  columns := [⟨"", "TEXT"⟩, ⟨"b", "TEXT"⟩]
  rows := [[.str "", .str ""]]
  from_ := 0
  hasMore := false
  total := none
  affected := none

/-- A text in the first column moves the second. -/
theorem second_moved :
    (accepted Cell.bareEnv "sqlite" emptyPage ⟨0, 0, "x"⟩).isSome = true ∧
      ¬ Placed oneCell (edited oneCell Cell.bareEnv "sqlite" emptyPage [⟨0, 0, "x"⟩]) := by
  have hacc : accepted Cell.bareEnv "sqlite" emptyPage ⟨0, 0, "x"⟩ = some ['x'] := by
    decide +kernel
  have hcols : emptyPage.columns ≠ [] := List.cons_ne_nil _ _
  refine ⟨by rw [hacc]; rfl, fun h => ?_⟩
  have hroomy := (placed_step_iff hcols [] ⟨0, 0, "x"⟩ (placed_render hcols)).mp h
  have hnarrow : Narrow oneCell Cell.bareEnv emptyPage 0 := by
    intro col hcol
    obtain rfl := Option.some.inj hcol
    refine ⟨by decide +kernel, fun row hrow => ?_⟩
    rw [List.mem_singleton.mp hrow]
    decide +kernel
  exact absurd (hroomy ['x'] hacc (by decide) hnarrow) (by decide)

end LvimDb.Grid
