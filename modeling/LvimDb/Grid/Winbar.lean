import LvimDb.Grid.Layout

/-!
# The sticky header

`M.winbar` of ui/result.lua: the header line is emitted segment by segment, from the window's
left column on and up to its right edge. Against it stands the window on the whole line.
-/

namespace LvimDb.Grid
open Lib.CharWidth (strwidth_append cells_append cells_spaces cells_length view_append
  view_outside view_whole view_eq_seen)

/-- `out`, `used` and `skip`. -/
structure Bar where
  out : Text
  used : ℕ
  skip : ℕ

/-- A `%` is doubled. -/
def escape (s : Text) : Text := s.flatMap fun c => if c = '%' then ['%', '%'] else [c]

/-- A text in a highlight group, as statusline markup. -/
def markup (group : String) (s : Text) : Text := ['%', '#'] ++ group.toList ++ '#' :: escape s

def HEADER : String := "LvimDbHeader"

def HEADER_ACTIVE : String := "LvimDbHeaderActive"

section
variable (W : Widths) (width : ℕ)

/-- `emit` (528-545). -/
def emit (b : Bar) (text : Text) (group : String) : Bar :=
  if width ≤ b.used then b
  else if W.strwidth text ≤ b.skip then { b with skip := b.skip - W.strwidth text }
  else
    let text := if 0 < b.skip then dropCells W text b.skip else text
    let text :=
      if width < b.used + W.strwidth text then takeCells W text ((width : ℤ) - b.used) else text
    ⟨b.out ++ markup group text, b.used + W.strwidth text, 0⟩

/-- What is emitted for a column. -/
def columnSegments (active : ℕ) (col : GridColumn) (ci : ℕ) : List (Text × String) :=
  (if 0 < ci then [(SEP, HEADER)] else []) ++
    [(padCells W col.label col.width, if ci = active then HEADER_ACTIVE else HEADER)]

/-- The segments of the header and their groups. -/
def segments (cols : List GridColumn) (active : ℕ) : List (Text × String) :=
  [([' '], HEADER)] ++ (cols.zipIdx.flatMap fun col => columnSegments W active col.1 col.2) ++
    [([' '], HEADER)]

/-- `M.winbar` (509-563) of a valid window. -/
def winbar (cols : List GridColumn) (active leftcol : ℕ) : Text :=
  let b := (segments W cols active).foldl (fun b s => emit W width b s.1 s.2) ⟨[], 0, leftcol⟩
  if b.used < width then b.out ++ markup HEADER (spaces (width - b.used)) else b.out

end

/-- What a statusline displays: `%%` is a `%`, and `%#` up to the next `#` a group. -/
def display : Bool → Text → Text
  | _, [] => []
  | true, c :: s => display (c ≠ '#') s
  | false, '%' :: '%' :: s => '%' :: display false s
  | false, '%' :: '#' :: s => display true s
  | false, c :: s => c :: display false s

/-- The whole header line: a row of the labels. -/
def headerLine (W : Widths) (cols : List GridColumn) : Text :=
  rowLine (parts W cols (cols.map GridColumn.label))

variable {W : Widths} {width lo : ℕ} {cols : List GridColumn} {b : Bar} {s t : Text}
  {group : String}

/-! ### Markup -/

theorem display_escape (s rest : Text) :
    display false (escape s ++ rest) = s ++ display false rest := by
  induction s with
  | nil => rfl
  | cons c s ih =>
    rw [escape, List.flatMap_cons, List.append_assoc, ← escape]
    by_cases hc : c = '%'
    · rw [hc, if_pos rfl, List.cons_append, List.singleton_append, display, ih, List.cons_append]
    · rw [if_neg hc, List.singleton_append, display, ih, List.cons_append]
      · exact fun _ h => absurd h hc
      · exact fun _ h => absurd h hc

theorem display_group {g : Text} (h : '#' ∉ g) (rest : Text) :
    display true (g ++ '#' :: rest) = display false rest := by
  induction g with
  | nil => simp [display]
  | cons c g ih =>
    have hc : c ≠ '#' := fun he => h (he ▸ List.mem_cons_self ..)
    rw [List.cons_append, display, decide_eq_true hc, ih (fun hg => h (List.mem_cons_of_mem _ hg))]

theorem display_markup (h : '#' ∉ group.toList) (s rest : Text) :
    display false (markup group s ++ rest) = s ++ display false rest := by
  have hbegin : markup group s ++ rest =
      '%' :: '#' :: (group.toList ++ '#' :: (escape s ++ rest)) := by simp [markup]
  rw [hbegin, display, display_group h, display_escape]

/-! ### Emission -/

/-- The bar shows, of the texts emitted so far, what is in the window from `lo` on. -/
structure Shows (W : Widths) (width lo : ℕ) (b : Bar) (s : Text) : Prop where
  used : b.used = min (W.strwidth s) (lo + width) - lo
  skip : b.used < width → b.skip = lo - W.strwidth s
  shown : ∃ out, (∀ rest, display false (b.out ++ rest) = out ++ display false rest) ∧
    W.cells out = W.view lo (lo + width) 0 s

theorem shows_nothing (W : Widths) (width lo : ℕ) : Shows W width lo ⟨[], 0, lo⟩ [] where
  used := by simp
  skip := fun _ => rfl
  shown := ⟨[], fun _ => rfl, rfl⟩

/-- A text that begins left of the window is dropped up to it. -/
theorem view_left (W : Widths) (lo hi pos : ℕ) (t : Text) :
    W.view lo hi pos t =
      W.view lo hi (max pos lo) (if 0 < lo - pos then dropCells W t (lo - pos) else t) := by
  by_cases h : 0 < lo - pos
  · have hmax : max pos lo = lo := by omega
    rw [if_pos h, hmax]
    exact view_dropCells (by omega)
  · have hmax : max pos lo = pos := by omega
    rw [if_neg h, hmax]

theorem strwidth_left (lo pos : ℕ) (h : lo - pos < W.strwidth t) :
    W.strwidth (if 0 < lo - pos then dropCells W t (lo - pos) else t) =
      pos + W.strwidth t - max pos lo := by
  split
  · rw [strwidth_dropCells h]
    omega
  · omega

theorem view_right {hi pos : ℕ} (hlo : lo ≤ pos) (hhi : pos ≤ hi) :
    W.view lo hi pos t =
      W.cells (if hi < pos + W.strwidth t then takeCells W t ((hi - pos : ℕ) : ℤ) else t) := by
  split
  · next h => exact view_takeCells hlo hhi h
  · exact view_whole hlo (by omega)

theorem strwidth_right (hi pos : ℕ) (hhi : pos ≤ hi) :
    W.strwidth (if hi < pos + W.strwidth t then takeCells W t ((hi - pos : ℕ) : ℤ) else t) =
      min (pos + W.strwidth t) hi - pos := by
  split
  · rw [strwidth_takeCells (by omega)]
    omega
  · omega

/-- What a segment adds to the bar. -/
theorem shows_emit (h : Shows W width lo b s) (hg : '#' ∉ group.toList) (t : Text) :
    Shows W width lo (emit W width b t group) (s ++ t) := by
  obtain ⟨hused, hskip, out, hout, hcells⟩ := h
  have hview : W.view lo (lo + width) 0 (s ++ t) =
      W.cells out ++ W.view lo (lo + width) (W.strwidth s) t := by
    rw [view_append, hcells, Nat.zero_add]
  have houtside (hn : min (W.strwidth s + W.strwidth t) (lo + width) ≤ max (W.strwidth s) lo) :
      W.cells out = W.view lo (lo + width) 0 (s ++ t) := by
    rw [hview, view_outside hn, List.append_nil]
  unfold emit
  by_cases hfull : width ≤ b.used
  · rw [if_pos hfull]
    refine ⟨?_, fun hlt => absurd hlt (by omega), out, hout, houtside (by omega)⟩
    rw [strwidth_append]
    omega
  · have hskip := hskip (by omega)
    rw [if_neg hfull]
    by_cases hleft : W.strwidth t ≤ b.skip
    · rw [if_pos hleft]
      refine ⟨?_, fun _ => ?_, out, hout, houtside (by omega)⟩
      · rw [strwidth_append]
        show b.used = _
        omega
      · rw [strwidth_append]
        show b.skip - _ = _
        omega
    · rw [if_neg hleft, hskip]
      have hwidth := strwidth_left (W := W) (t := t) lo (W.strwidth s) (by omega)
      have hdrop := view_left W lo (lo + width) (W.strwidth s) t
      generalize (if 0 < lo - W.strwidth s then dropCells W t (lo - W.strwidth s) else t) = u at *
      have hcond : width < b.used + W.strwidth u ↔
          lo + width < max (W.strwidth s) lo + W.strwidth u := by omega
      have hroom : (width : ℤ) - b.used = ((lo + width - max (W.strwidth s) lo : ℕ) : ℤ) := by omega
      have hright := strwidth_right (W := W) (t := u) (lo + width)
        (max (W.strwidth s) lo) (by omega)
      have htake : W.view lo (lo + width) (max (W.strwidth s) lo) u = _ :=
        view_right (by omega) (by omega)
      simp only [hcond, hroom]
      generalize (if lo + width < max (W.strwidth s) lo + W.strwidth u
        then takeCells W u ((lo + width - max (W.strwidth s) lo : ℕ) : ℤ) else u) = v at *
      refine ⟨?_, fun _ => ?_, out ++ v, fun rest => ?_, ?_⟩
      · rw [strwidth_append]
        show b.used + W.strwidth v = _
        omega
      · rw [strwidth_append]
        show 0 = _
        omega
      · rw [List.append_assoc, hout, display_markup hg, List.append_assoc]
      · rw [cells_append, hview, hdrop, htake]

theorem shows_segments (segs : List (Text × String)) (h : Shows W width lo b s)
    (hg : ∀ seg ∈ segs, '#' ∉ seg.2.toList) :
    Shows W width lo (segs.foldl (fun b seg => emit W width b seg.1 seg.2) b)
      (s ++ segs.flatMap Prod.fst) := by
  induction segs generalizing b s with
  | nil => rwa [List.flatMap_nil, List.append_nil]
  | cons seg segs ih =>
    have hstep := shows_emit h (hg seg (List.mem_cons_self ..)) seg.1
    rw [List.foldl_cons, List.flatMap_cons, ← List.append_assoc]
    exact ih hstep fun seg hseg => hg seg (List.mem_cons_of_mem _ hseg)

/-! ### The header -/

theorem columnSegments_group {seg : Text × String} {active ci : ℕ} {col : GridColumn}
    (h : seg ∈ columnSegments W active col ci) : seg.2 = HEADER ∨ seg.2 = HEADER_ACTIVE := by
  rcases List.mem_append.mp h with h | h
  · split at h
    · exact .inl (by rw [List.mem_singleton.mp h])
    · exact absurd h List.not_mem_nil
  · rw [List.mem_singleton.mp h]
    dsimp only
    split
    · exact .inr rfl
    · exact .inl rfl

theorem segments_group {seg : Text × String} {active : ℕ} (h : seg ∈ segments W cols active) :
    '#' ∉ seg.2.toList := by
  have hgroup : seg.2 = HEADER ∨ seg.2 = HEADER_ACTIVE := by
    simp only [segments, List.mem_append, List.mem_singleton, List.mem_flatMap] at h
    rcases h with (rfl | ⟨col, _, h⟩) | rfl
    · exact .inl rfl
    · exact columnSegments_group h
    · exact .inl rfl
  rcases hgroup with hgroup | hgroup
  · rw [hgroup]
    decide
  · rw [hgroup]
    decide

theorem columnSegments_text {active ci : ℕ} {col : GridColumn} (hci : 0 < ci) :
    (columnSegments W active col ci).flatMap Prod.fst =
      SEP ++ padCells W col.label col.width := by
  rw [columnSegments, if_pos hci]
  simp

theorem rest_text (W : Widths) (active ci : ℕ) (cols : List GridColumn) :
    ((cols.zipIdx (ci + 1)).flatMap fun col => columnSegments W active col.1 col.2).flatMap
        Prod.fst =
      (cols.map fun col => padCells W col.label col.width).flatMap (SEP ++ ·) := by
  induction cols generalizing ci with
  | nil => rfl
  | cons col cols ih =>
    rw [List.zipIdx_cons, List.flatMap_cons, List.flatMap_append, ih, List.map_cons,
      List.flatMap_cons, columnSegments_text (Nat.succ_pos ci)]

theorem segments_line (W : Widths) (cols : List GridColumn) (active : ℕ) :
    (segments W cols active).flatMap Prod.fst = headerLine W cols := by
  have hparts : parts W cols (cols.map GridColumn.label) =
      cols.map fun col => padCells W col.label col.width := by
    rw [parts, List.zipWith_map_right, List.zipWith_self]
  have hcolumns : (cols.zipIdx.flatMap fun col => columnSegments W active col.1 col.2).flatMap
      Prod.fst = SEP.intercalate (parts W cols (cols.map GridColumn.label)) := by
    rw [hparts]
    cases cols with
    | nil => rfl
    | cons col cols =>
      rw [List.zipIdx_cons, List.flatMap_cons, List.flatMap_append, rest_text, List.map_cons,
        intercalate_cons]
      simp [columnSegments]
  rw [segments, headerLine, rowLine, List.flatMap_append, List.flatMap_append, hcolumns]
  rfl

/-- What the window shows of the header line, and spaces behind it. -/
theorem winbar_shows (W : Widths) (width : ℕ) (cols : List GridColumn) (active lo : ℕ) :
    W.cells (display false (winbar W width cols active lo)) =
      (List.range width).map fun j => W.seen lo (lo + width) (headerLine W cols) (lo + j) := by
  have h := shows_segments (segments W cols active) (shows_nothing W width lo)
    fun seg => segments_group
  rw [segments_line, List.nil_append] at h
  obtain ⟨hused, _, out, hout, hcells⟩ := h
  have hend := view_eq_seen (W := W.toCharWidth) lo (lo + width) (headerLine W cols)
  have hsize : lo + width - lo = width := by omega
  have hmissing : lo + width - lo - (min (W.strwidth (headerLine W cols)) (lo + width) - lo) =
      width - ((segments W cols active).foldl (fun b seg => emit W width b seg.1 seg.2)
        ⟨[], 0, lo⟩).used := by omega
  rw [hmissing, hsize, ← hcells, ← cells_spaces, ← cells_append] at hend
  rw [← hend, winbar]
  congr 1
  split
  · rw [hout, ← List.append_nil (markup _ _), display_markup (by decide)]
    simp [display, spaces]
  · next hfull =>
    have hzero : width - ((segments W cols active).foldl (fun b seg =>
        emit W width b seg.1 seg.2) ⟨[], 0, lo⟩).used = 0 := by omega
    have hnil := hout []
    rw [List.append_nil] at hnil
    rw [hnil, hzero]
    rfl

/-- There is a column for each of the page. The bar has the width of the window and shows the window's
cells of the header line, in which a label stands where its column starts in every row. -/
theorem header_follows (W : Widths) (env : Cell.Env) (page : Page) :
    (gridColumns W env page).map (fun col => ⟨col.name, col.typeName⟩) = page.columns ∧
    (∀ (cols : List GridColumn) (width active leftcol : ℕ),
        W.strwidth (display false (winbar W width cols active leftcol)) = width ∧
          W.cells (display false (winbar W width cols active leftcol)) =
            (List.range width).map fun j =>
              W.seen leftcol (leftcol + width) (headerLine W cols) (leftcol + j)) ∧
      ∀ (ci : ℕ) (col : GridColumn), (gridColumns W env page)[ci]? = some col →
        StandsAt W (parts W (gridColumns W env page) ((gridColumns W env page).map GridColumn.label))
            ci (padCells W col.label col.width) col.start ∧
          ∀ row ∈ texts W env page, ∀ text, row[ci]? = some text →
            StandsAt W (parts W (gridColumns W env page) row) ci (padCells W text col.width)
              col.start := by
  refine ⟨gridColumns_columns W env page,
    fun cols width active leftcol => ⟨?_, winbar_shows W width cols active leftcol⟩,
    fun ci col hcol => ⟨?_, fun row hrow text htext => ?_⟩⟩
  · rw [← cells_length, winbar_shows, List.length_map, List.length_range]
  · have hlabel : ((gridColumns W env page).map GridColumn.label)[ci]? = some col.label := by
      rw [List.getElem?_map, hcol]
      rfl
    refine (stand_iff (started_gridColumns W env page) (List.length_map _)).mpr ?_ ci col col.label
      hcol hlabel
    intro i c label hc hl _
    rw [List.getElem?_map, hc] at hl
    rw [← Option.some.inj hl]
    exact (fits_column hc).1
  · exact (stand_iff (started_gridColumns W env page) (length_of_texts hrow)).mpr (texts_fit hrow)
      ci col text hcol htext

end LvimDb.Grid
