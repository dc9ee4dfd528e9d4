import LvimDb.Grid.Geometry

/-!
# Moving by column

`column_at`, `goto_column`, `next_column` and `prev_column` of ui/result.lua. The cursor is put on
the first cell of a column in a line of its own widths, and the window is scrolled to the column.
-/

namespace LvimDb.Grid
open Cell (Env)
open Lib.CharWidth (charAt_append charAt_zero strwidth_append)

/-- The last cell of the character the cursor is on, counted from 0, the first cell of the window,
and `active_col`. -/
structure Cursor where
  cell : ℕ
  leftcol : ℕ
  active : ℕ
  deriving DecidableEq, Repr

/-- A key, and where Neovim leaves the window when it has set the cursor. -/
structure Press where
  forward : Bool
  auto : ℕ
  deriving DecidableEq, Repr

/-- One turn of the loop of `column_at`. -/
def reach (cell ci : ℕ) (col : GridColumn × ℕ) : ℕ := if col.1.start ≤ cell then col.2 else ci

/-- `column_at` (888-900), of a grid. -/
def columnAt (cols : List GridColumn) (cell : ℕ) : ℕ := (cols.zipIdx 1).foldl (reach cell) 1

/-- Where `virtcol` is once the cursor is on the character that covers cell `k` (`virtcol2col`), or
on the last one of a shorter line. -/
def landing (W : Widths) (line : Text) (k : ℕ) : ℕ :=
  match W.charAt k line with
  | some (c, i) => k - i + W.width c - 1
  | none => W.strwidth line - 1

/-- The column in view (945-961). -/
def scrollTo (ci : ℕ) (col : GridColumn) (width leftcol : ℕ) : ℕ :=
  let left := col.start
  let right := col.start + col.width
  if left < leftcol then if ci = 1 then 0 else left
  else if leftcol + width < right then min left (right - width)
  else leftcol

/-- `goto_column` (930-965) in a line of the grid. -/
def gotoColumn (W : Widths) (cols : List GridColumn) (line : Text) (width ci auto : ℕ)
    (cur : Cursor) : Cursor :=
  match cols[ci - 1]? with
  | some col => ⟨landing W line col.start, scrollTo ci col width auto, ci⟩
  | none => cur

/-- `next_column` (968-974), the column it goes to. -/
def nextColumn (cols : List GridColumn) (cell : ℕ) : ℕ := columnAt cols cell % cols.length + 1

/-- `prev_column` (977-983), the column it goes to. -/
def prevColumn (cols : List GridColumn) (cell : ℕ) : ℕ :=
  (((columnAt cols cell : ℤ) - 2) % cols.length + 1).toNat

def press (W : Widths) (cols : List GridColumn) (line : Text) (width : ℕ) (cur : Cursor)
    (p : Press) : Cursor :=
  if cols = [] then cur
  else
    gotoColumn W cols line width
      (if p.forward then nextColumn cols cur.cell else prevColumn cols cur.cell) p.auto cur

variable {W : Widths} {cols : List GridColumn} {row ps : List Text} {start cell i : ℕ}
  {col : GridColumn} {part : Text}

/-! ### The column of a cell -/

theorem started_le (h : Started start cols) : ∀ c ∈ cols, start ≤ c.start := by
  induction cols generalizing start with
  | nil => exact fun c hc => by cases hc
  | cons c cols ih =>
    intro d hd
    rcases List.mem_cons.mp hd with rfl | hd
    · exact h.1.ge
    · have hle := ih h.2 d hd
      omega

theorem reach_none (h : ∀ c ∈ cols, cell < c.start) (n ci : ℕ) :
    (cols.zipIdx n).foldl (reach cell) ci = ci := by
  induction cols generalizing n with
  | nil => rfl
  | cons c cols ih =>
    obtain ⟨hc, hcols⟩ := List.forall_mem_cons.mp h
    have hskip : reach cell ci (c, n) = ci := if_neg (Nat.not_le.mpr hc)
    rw [List.zipIdx_cons, List.foldl_cons, hskip]
    exact ih hcols (n + 1)

theorem reach_eq (hs : Started start cols) (hi : cols[i]? = some col) (hle : col.start ≤ cell)
    (hnext : ∀ c, cols[i + 1]? = some c → cell < c.start) (n ci : ℕ) :
    (cols.zipIdx n).foldl (reach cell) ci = n + i := by
  induction cols generalizing start i n ci with
  | nil => cases hi
  | cons c cols ih =>
    rw [List.zipIdx_cons, List.foldl_cons]
    cases i with
    | zero =>
      obtain rfl : c = col := by simpa using hi
      have htake : reach cell ci (c, n) = n := if_pos hle
      rw [htake]
      refine reach_none (fun d hd => ?_) (n + 1) n
      cases cols with
      | nil => cases hd
      | cons e cols =>
        have hfirst := hnext e rfl
        have hstart : e.start = start + c.width + SEP_CELLS := hs.2.1
        have hrest := started_le hs.2 d hd
        omega
    | succ i =>
      rw [ih hs.2 (by simpa using hi) fun c hc => hnext c (by simpa using hc)]
      omega

/-- A cell is in the last column that has begun. -/
theorem columnAt_eq (hs : Started start cols) (hi : cols[i]? = some col) (hle : col.start ≤ cell)
    (hnext : ∀ c, cols[i + 1]? = some c → cell < c.start) : columnAt cols cell = i + 1 := by
  rw [columnAt, reach_eq hs hi hle hnext, Nat.add_comm]

/-! ### Where the cursor lands -/

theorem before_succ (h : ps[i]? = some part) : before ps (i + 1) = before ps i ++ part ++ SEP := by
  rw [before, before, List.take_add_one, h, List.flatMap_append]
  simp

theorem rowLine_end (h : ps[i]? = some part) :
    ∃ rest, rowLine ps = before ps i ++ (part ++ rest ++ [' ']) := by
  obtain ⟨hlt, rfl⟩ := List.getElem?_eq_some_iff.mp h
  obtain ⟨rest, hrest⟩ := intercalate_set SEP hlt
  refine ⟨rest, ?_⟩
  have hline := hrest ps[i]
  rw [List.set_getElem_self] at hline
  rw [rowLine, before, hline]
  simp only [List.append_assoc]

/-- The cursor lands on the first character that covers cells behind `a`. -/
theorem landing_append {a b t : Text} (h : 0 < W.strwidth b) :
    W.strwidth a ≤ landing W (a ++ (b ++ t)) (W.strwidth a) ∧
      landing W (a ++ (b ++ t)) (W.strwidth a) < W.strwidth a + W.strwidth b := by
  obtain ⟨c, hc, hpos, hle⟩ := charAt_zero h t
  have hchar := charAt_append (W := W.toCharWidth) a (b ++ t) 0
  rw [Nat.add_zero, hc] at hchar
  unfold landing
  rw [hchar]
  simp only
  omega

theorem landing_column (hs : Started 1 cols) (hlen : row.length = cols.length)
    (hfit : Fits W cols row) (hi : cols[i]? = some col) :
    columnAt cols (landing W (rowLine (parts W cols row)) col.start) = i + 1 := by
  have hstand := (stand_iff (W := W) hs hlen).mpr hfit
  have htext : ∀ {j : ℕ} {c : GridColumn}, cols[j]? = some c →
      ∃ text : Text, row[j]? = some text := by
    intro j c hj
    have hlt : j < row.length := by
      rw [hlen]
      exact (List.getElem?_eq_some_iff.mp hj).1
    exact ⟨row[j], List.getElem?_eq_getElem hlt⟩
  obtain ⟨text, ht⟩ := htext hi
  have hpart := parts_getElem? (W := W) hi ht
  obtain ⟨hstart, -⟩ := hstand i col text hi ht
  rw [← hstart]
  cases hnext : cols[i + 1]? with
  | none =>
    obtain ⟨rest, hline⟩ := rowLine_end hpart
    have hpos : 0 < W.strwidth (padCells W text col.width ++ rest ++ [' ']) := by
      rw [strwidth_append]
      simp [W.space]
    have hland := (landing_append (W := W) (a := before (parts W cols row) i) (t := []) hpos).1
    rw [List.append_nil, ← hline] at hland
    refine columnAt_eq hs hi (hstart ▸ hland) fun c hc => ?_
    rw [hnext] at hc
    cases hc
  | some c =>
    obtain ⟨text', ht'⟩ := htext hnext
    obtain ⟨hstart', rest, hline⟩ := hstand (i + 1) c text' hnext ht'
    have hpos : 0 < W.strwidth (padCells W text col.width ++ SEP) := by
      rw [strwidth_append, strwidth_SEP, SEP_CELLS]
      omega
    have hwhole : rowLine (parts W cols row) = before (parts W cols row) i ++
        (padCells W text col.width ++ SEP ++ (padCells W text' c.width ++ rest)) := by
      rw [hline, before_succ hpart]
      simp only [List.append_assoc]
    obtain ⟨hle, hlt⟩ := landing_append (W := W) (a := before (parts W cols row) i)
      (t := padCells W text' c.width ++ rest) hpos
    rw [← hwhole] at hle hlt
    have hend : W.strwidth (before (parts W cols row) i) +
        W.strwidth (padCells W text col.width ++ SEP) = c.start := by
      rw [← hstart', before_succ hpart, List.append_assoc, strwidth_append (t := _ ++ SEP)]
    refine columnAt_eq hs hi (hstart ▸ hle) fun d hd => ?_
    rw [hnext] at hd
    rw [← Option.some.inj hd, ← hend]
    exact hlt

/-! ### The window -/

/-- The window shows the whole column. -/
def InView (col : GridColumn) (width leftcol : ℕ) : Prop :=
  leftcol ≤ col.start ∧ col.start + col.width ≤ leftcol + width

/-- A column that fits is shown whole, any other from its first cell on, but for the first one,
for which the window goes back to the beginning of the lines. -/
theorem scrollTo_shows (ci : ℕ) (col : GridColumn) (width leftcol : ℕ) :
    (ci = 1 ∧ scrollTo ci col width leftcol = 0) ∨
      (col.width ≤ width ∧ InView col width (scrollTo ci col width leftcol)) ∨
      (width < col.width ∧ scrollTo ci col width leftcol = col.start) := by
  unfold scrollTo InView
  simp only
  split
  · split
    · exact .inl ⟨‹_›, rfl⟩
    · omega
  · split
    · omega
    · omega

/-! ### Any keys -/

/-- How far a key turns. -/
def turn (p : Press) : ℤ := if p.forward then 1 else -1

variable {width : ℕ} {cur : Cursor} {p : Press} {presses : List Press}

/-- The column a key goes to, counted from 0. -/
theorem target_eq (hne : cols ≠ []) (cell : ℕ) (p : Press) : ∃ i, i < cols.length ∧
    (if p.forward then nextColumn cols cell else prevColumn cols cell) = i + 1 ∧
    (i : ℤ) = ((columnAt cols cell : ℤ) - 1 + turn p) % cols.length := by
  have hlen := List.length_pos_iff.mpr hne
  unfold turn
  split
  · refine ⟨columnAt cols cell % cols.length, Nat.mod_lt _ hlen, rfl, ?_⟩
    rw [Int.natCast_mod, sub_add_cancel]
  · have hnonneg := Int.emod_nonneg ((columnAt cols cell : ℤ) - 2) (b := cols.length) (by omega)
    have hlt := Int.emod_lt_of_pos ((columnAt cols cell : ℤ) - 2) (b := cols.length) (by omega)
    have hback : (columnAt cols cell : ℤ) - 1 + -1 = columnAt cols cell - 2 := by omega
    refine ⟨(((columnAt cols cell : ℤ) - 2) % cols.length).toNat, by omega, ?_, ?_⟩
    · unfold prevColumn
      omega
    · rw [hback]
      omega

/-- What a key leaves. -/
structure Went (cols : List GridColumn) (width : ℕ) (i : ℕ) (cur : Cursor) : Prop where
  column : columnAt cols cur.cell = i + 1
  active : cur.active = i + 1
  view : ∀ col, cols[i]? = some col → (i = 0 ∧ cur.leftcol = 0) ∨
    (col.width ≤ width ∧ InView col width cur.leftcol) ∨
    (width < col.width ∧ cur.leftcol = col.start)

theorem press_went (hs : Started 1 cols) (hlen : row.length = cols.length)
    (hfit : Fits W cols row) (hne : cols ≠ []) (width : ℕ) (cur : Cursor) (p : Press) :
    ∃ i : ℕ, (i : ℤ) = ((columnAt cols cur.cell : ℤ) - 1 + turn p) % cols.length ∧
      Went cols width i (press W cols (rowLine (parts W cols row)) width cur p) := by
  obtain ⟨i, hlt, htarget, hi⟩ := target_eq hne cur.cell p
  have hcol : cols[i]? = some cols[i] := List.getElem?_eq_getElem hlt
  have hpress : press W cols (rowLine (parts W cols row)) width cur p =
      ⟨landing W (rowLine (parts W cols row)) cols[i].start,
        scrollTo (i + 1) cols[i] width p.auto, i + 1⟩ := by
    unfold press gotoColumn
    rw [if_neg hne, htarget, Nat.add_sub_cancel, hcol]
  refine ⟨i, hi, ?_⟩
  rw [hpress]
  constructor
  · exact landing_column hs hlen hfit hcol
  · rfl
  · intro col hc
    obtain rfl := Option.some.inj (hcol.symm.trans hc)
    rcases scrollTo_shows (i + 1) cols[i] width p.auto with ⟨hone, hzero⟩ | hshown
    · exact .inl ⟨by omega, hzero⟩
    · exact .inr hshown

/-- Whatever keys are pressed one after the other. -/
theorem presses_went (hs : Started 1 cols) (hlen : row.length = cols.length)
    (hfit : Fits W cols row) (hne : cols ≠ []) (width : ℕ) (cur : Cursor) (p : Press)
    (presses : List Press) :
    ∃ i : ℕ, (i : ℤ) =
        ((columnAt cols cur.cell : ℤ) - 1 + ((p :: presses).map turn).sum) % cols.length ∧
      Went cols width i
        ((p :: presses).foldl (press W cols (rowLine (parts W cols row)) width) cur) := by
  induction presses generalizing cur p with
  | nil =>
    rw [List.map_singleton, List.sum_singleton]
    exact press_went hs hlen hfit hne width cur p
  | cons q presses ih =>
    obtain ⟨j, hj, hwent⟩ := press_went (W := W) hs hlen hfit hne width cur p
    obtain ⟨i, hi, hlast⟩ := ih (press W cols (rowLine (parts W cols row)) width cur p) q
    refine ⟨i, ?_, hlast⟩
    have hat : (columnAt cols
        (press W cols (rowLine (parts W cols row)) width cur p).cell : ℤ) - 1 = j := by
      rw [hwent.column]
      omega
    have hsum : ((p :: q :: presses).map turn).sum = turn p + ((q :: presses).map turn).sum := by
      rw [List.map_cons, List.sum_cons]
    rw [hi, hat, hj, Int.emod_add_emod, hsum, add_assoc]

/-- On every page, after any edits that have room, in every line and from every place of the
cursor: keys that go to the next or the previous column, pressed one after the other, turn the
columns around. The cursor is then in the column that is marked active, and the window shows the
column whole where it is wide enough, else from its first cell on; at the first column it may go
back to the beginning of the lines instead. -/
theorem column_keys (W : Widths) (env : Env) (driver : String) (page : Page) (edits : List Edit)
    (hcols : page.columns ≠ []) (hroom : ∀ e ∈ edits, Roomy W env driver page e)
    (hrow : row ∈ tableAfter W env driver page edits) (width : ℕ) (cur : Cursor) (p : Press)
    (presses : List Press) :
    ∃ i : ℕ, (i : ℤ) = ((columnAt (gridColumns W env page) cur.cell : ℤ) - 1 +
        ((p :: presses).map turn).sum) % page.columns.length ∧
      Went (gridColumns W env page) width i ((p :: presses).foldl
        (press W (gridColumns W env page) (rowLine (parts W (gridColumns W env page) row)) width)
        cur) := by
  have hfit := (placed_edited_iff hcols edits).mp
    ((edits_placed_iff W env driver page edits).mpr hroom edits (List.prefix_refl _)) row hrow
  have hlen := (shown_tableAfter edits).size row hrow
  have hne : gridColumns W env page ≠ [] := by
    intro hnil
    have hcount := gridColumns_length W env page
    rw [hnil] at hcount
    exact hcols (List.length_eq_zero_iff.mp hcount.symm)
  rw [← gridColumns_length W env page]
  exact presses_went (started_gridColumns W env page) hlen hfit hne width cur p presses

/-- Back from the first of two columns, and on twice. -/
theorem column_keys_two : ∃ i : ℕ, (i : ℤ) = (0 + (-1 + (1 + (1 + 0)))) % 2 ∧
    Went (gridColumns oneCell Cell.bareEnv emptyPage) 80 i
      ([⟨false, 0⟩, ⟨true, 0⟩, ⟨true, 9⟩].foldl
        (press oneCell (gridColumns oneCell Cell.bareEnv emptyPage)
          (rowLine (parts oneCell (gridColumns oneCell Cell.bareEnv emptyPage) [[], []])) 80)
        ⟨0, 0, 1⟩) :=
  column_keys oneCell Cell.bareEnv "sqlite" emptyPage [] (List.cons_ne_nil _ _)
    (fun e he => by cases he) (by decide +kernel) 80 ⟨0, 0, 1⟩ ⟨false, 0⟩ [⟨true, 0⟩, ⟨true, 9⟩]

end LvimDb.Grid
