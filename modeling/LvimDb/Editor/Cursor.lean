import LvimDb.Lib.Nearest
import LvimDb.Editor.Documents

/-!
# The statement under the cursor

`split_lines`, `split` and `statement_at` of ui/editor.lua. However a driver's buffer is cut, the
statements are pieces of it, one after the other, and the one that is run is the one at the
cursor.
-/

namespace LvimDb.Editor
open Lib (isSpace)
open Lib.Nearest (Apart Near nearest)

/-- `^#` and `^//`. -/
def isComment (t : String) : Bool :=
  ['#'].isPrefixOf t.toList || ['/', '/'].isPrefixOf t.toList

/-- The loop of `split_lines` (218-224) from the line `line` on. -/
def splitLinesFrom : ℕ → List (List Char) → List Statement
  | _, [] => []
  | line, l :: ls =>
    let t := trim (String.ofList l)
    (if t ≠ "" && !isComment t then [⟨t, line, line⟩] else []) ++ splitLinesFrom (line + 1) ls

/-- `split_lines` (215-226). -/
def splitLines (text : String) : List Statement :=
  splitLinesFrom 1 (text.toList.splitOn '\n')

/-- `split` (233-240). -/
def split (text : String) (driver : Option String) : List Statement :=
  if driver = some "mongodb" then splitJsonDocs text
  else if driver = some "redis" then splitLines text
  else splitStatements text

/-- `statement_at` (249-269), the statement it takes the text of. -/
def underCursor (text : String) (cursor : ℕ) (driver : Option String) : Option Statement :=
  nearest Statement.sline Statement.eline cursor (split text driver)

/-- `statement_at` (249-269). -/
def statementAtCursor (text : String) (cursor : ℕ) (driver : Option String) : Option String :=
  (underCursor text cursor driver).map Statement.sql

example : statementAtCursor "SELECT 1;\n\n\nSELECT\n2" 3 none = some "SELECT 1" := by
  decide +kernel

/-! ### Pieces of a text -/

/-- The statements are pieces of the text that follows `before`, in their order. -/
inductive Reads : List Char → List Char → List Statement → Prop
  | done (before rest : List Char) : Reads before rest []
  | skip {before w rest : List Char} {stmts : List Statement} :
      Reads (before ++ w) rest stmts → Reads before (w ++ rest) stmts
  | take {before p rest : List Char} {stmts : List Statement} :
      Reads (before ++ p) rest stmts → Reads before (p ++ rest) (statementAt before p ++ stmts)

variable {before p rest : List Char} {stmts : List Statement} {st : Statement}

theorem lineAt_append (a b : List Char) : lineAt a ≤ lineAt (a ++ b) := by
  rw [lineAt, lineAt, List.count_append]
  omega

theorem mem_statementAt (h : st ∈ statementAt before p) :
    statementAt before p = [st] ∧ lineAt before ≤ st.sline ∧ st.sline ≤ st.eline ∧
      st.eline = lineAt (before ++ p) := by
  have hone : statementAt before p = [st] := by
    unfold statementAt at h ⊢
    simp only at h ⊢
    split at h
    · exact absurd h List.not_mem_nil
    · next hne => rw [if_neg hne, List.mem_singleton.mp h]
  unfold statementAt at h
  simp only at h
  split at h
  · exact absurd h List.not_mem_nil
  · rw [List.mem_singleton.mp h]
    refine ⟨by rw [← List.mem_singleton.mp h]; exact hone, lineAt_append .., ?_, rfl⟩
    have hcut : before ++ p = before ++ p.takeWhile isSpace ++ p.dropWhile isSpace := by
      rw [List.append_assoc, List.takeWhile_append_dropWhile]
    show lineAt (before ++ p.takeWhile isSpace) ≤ lineAt (before ++ p)
    rw [hcut]
    exact lineAt_append _ _

/-- A statement that was read is a piece of the text, on lines of it. -/
theorem Reads.piece (h : Reads before rest stmts) (hst : st ∈ stmts) :
    lineAt before ≤ st.sline ∧ st.eline ≤ lineAt (before ++ rest) ∧
      ∃ pre p post, before ++ rest = pre ++ p ++ post ∧ statementAt pre p = [st] := by
  induction h with
  | done before rest => cases hst
  | @skip before w rest stmts _ ih =>
    obtain ⟨hfirst, hlast, hpiece⟩ := ih hst
    rw [List.append_assoc] at hlast hpiece
    exact ⟨(lineAt_append before w).trans hfirst, hlast, hpiece⟩
  | @take before p rest stmts _ ih =>
    rcases List.mem_append.mp hst with hst | hst
    · obtain ⟨hone, hfirst, -, hlast⟩ := mem_statementAt hst
      rw [← List.append_assoc]
      refine ⟨hfirst, ?_, before, p, rest, rfl, hone⟩
      rw [hlast]
      exact lineAt_append _ _
    · obtain ⟨hfirst, hlast, hpiece⟩ := ih hst
      rw [List.append_assoc] at hlast hpiece
      exact ⟨(lineAt_append before p).trans hfirst, hlast, hpiece⟩

/-- The lines of the statements come one after the other. -/
theorem Reads.apart (h : Reads before rest stmts) :
    Apart Statement.sline Statement.eline stmts := by
  induction h with
  | done before rest => exact Lib.Nearest.apart_nil
  | skip _ ih => exact ih
  | @take before p rest stmts hrest ih =>
    constructor
    · intro st hst
      rcases List.mem_append.mp hst with hst | hst
      · exact (mem_statementAt hst).2.2.1
      · exact ih.ordered st hst
    · rw [List.pairwise_append]
      refine ⟨?_, ih.apart, ?_⟩
      · unfold statementAt
        simp only
        split
        · exact List.Pairwise.nil
        · exact List.pairwise_singleton _ _
      · intro st hst st' hst'
        rw [(mem_statementAt hst).2.2.2]
        exact (hrest.piece hst').1

/-! ### The three ways to cut -/

/-- Statements of the segment that is being read and of the text after it. -/
def Goes (g : Segment) (s : List Char) (stmts : List Statement) : Prop :=
  ∀ before p, g = Segment.of before p → Reads before (p ++ s) stmts

variable {g : Segment} {s : List Char}

theorem goes_end : Goes g [] g.flush := by
  rintro before p rfl
  rw [Segment.of_flush, ← List.append_nil (statementAt before p)]
  exact .take (.done (before ++ p) [])

theorem Goes.push {c : Char} (h : Goes (g.push c) s stmts) : Goes g (c :: s) stmts := by
  rintro before p rfl
  have hpush := h before (p ++ [c]) (Segment.of_push before p c)
  rw [List.append_assoc] at hpush
  exact hpush

theorem Goes.flush (h : Goes g.next s stmts) : Goes g s (g.flush ++ stmts) := by
  rintro before p rfl
  rw [Segment.of_flush]
  exact .take (h _ _ (Segment.of_next before p))

/-- A character that belongs to no segment. -/
theorem Goes.drop {c : Char} (hc : c ≠ '\n') (h : Goes g.next s stmts) :
    Goes g.next (c :: s) stmts := by
  intro before p hg
  have hseg : p = [] := (congrArg Segment.seg hg).symm
  subst hseg
  have hnext : g.next = Segment.of (before ++ [c]) [] := by rw [hg, Segment.of_skip before hc]
  exact .skip (w := [c]) (h _ _ hnext)

theorem goes_statements (m : Inside) (g : Segment) (s : List Char) :
    Goes g s (splitFrom m g s) := by
  fun_induction splitFrom m g s with
  | case1 => exact goes_end
  | case2 _ _ _ ih => exact ih.push
  | case3 _ _ ih => exact ih.push.push
  | case4 _ _ _ _ ih => exact ih.push
  | case5 _ _ _ _ ih => exact ih.push
  | case6 _ _ ih => exact ih.push.push
  | case7 _ _ ih => exact ih.push.push
  | case8 _ _ _ _ _ _ _ ih => exact ih.push
  | case9 _ _ _ _ _ ih => exact (ih.drop (by decide)).flush
  | case10 _ _ _ _ _ _ _ ih => exact ih.push

theorem goes_json (instr esc : Bool) (depth : ℤ) (g : Segment) (s : List Char) :
    Goes g s (splitJsonFrom instr esc depth g s) := by
  fun_induction splitJsonFrom instr esc depth g s with
  | case1 => exact goes_end
  | case8 =>
    rename_i ih
    exact ih.flush.push
  | _ =>
    rename_i ih
    exact ih.push

/-! ### One statement a line -/

theorem lineAt_line {l : List Char} (hl : '\n' ∉ l) (before : List Char) :
    lineAt (before ++ l) = lineAt before := by
  rw [lineAt, lineAt, List.count_append, List.count_eq_zero.mpr hl, Nat.add_zero]

theorem statementAt_line {l : List Char} (hl : '\n' ∉ l) (hne : trim (String.ofList l) ≠ "")
    (before : List Char) :
    statementAt before l = [⟨trim (String.ofList l), lineAt before, lineAt before⟩] := by
  have hlead : '\n' ∉ l.takeWhile isSpace := fun h => hl ((List.takeWhile_prefix _).subset h)
  unfold statementAt
  simp only [if_neg hne, lineAt_line hl, lineAt_line hlead]

/-- A line is a statement, or it is blank or a comment. -/
theorem reads_line {l : List Char} (hl : '\n' ∉ l) (h : Reads (before ++ l) rest stmts) :
    Reads before (l ++ rest) ((if trim (String.ofList l) ≠ "" &&
      !isComment (trim (String.ofList l)) then
        [⟨trim (String.ofList l), lineAt before, lineAt before⟩] else []) ++ stmts) := by
  split
  · next hcond =>
    rw [Bool.and_eq_true, decide_eq_true_eq] at hcond
    rw [← statementAt_line hl hcond.1]
    exact .take h
  · exact .skip h

theorem reads_lines {ls : List (List Char)} (hls : ∀ l ∈ ls, '\n' ∉ l) (before : List Char) :
    Reads before (['\n'].intercalate ls) (splitLinesFrom (lineAt before) ls) := by
  induction ls generalizing before with
  | nil => exact .done before []
  | cons l ls ih =>
    obtain ⟨hl, hls⟩ := List.forall_mem_cons.mp hls
    cases ls with
    | nil =>
      rw [List.intercalate_singleton]
      have hline := reads_line hl (.done (before ++ l) [])
      rw [List.append_nil l] at hline
      exact hline
    | cons l' ls =>
      have hnext : lineAt (before ++ l ++ ['\n']) = lineAt before + 1 := by
        rw [lineAt_concat, if_pos rfl, lineAt_line hl]
      rw [List.intercalate_cons_cons, List.append_assoc]
      have hrest := ih hls (before ++ l ++ ['\n'])
      rw [hnext] at hrest
      exact reads_line hl (.skip hrest)

theorem splitOn_lines (s : List Char) : ∀ l ∈ s.splitOn '\n', '\n' ∉ l := by
  have hsep : (∀ l ∈ Lib.lines '\n' s, '\n' ∉ l) ∧ '\n' ∉ Lib.rest '\n' s := Lib.sep_not_mem s
  obtain ⟨hlines, hrest⟩ := hsep
  intro l hl
  rw [Lib.lines_rest] at hl
  rcases List.mem_append.mp hl with hl | hl
  · exact hlines l hl
  · rw [List.mem_singleton.mp hl]
    exact hrest

/-- Whatever the driver, the statements are pieces of the text. -/
theorem reads_split (text : String) (driver : Option String) :
    Reads [] text.toList (split text driver) := by
  unfold split
  split
  · exact goes_json false false 0 _ _ [] [] rfl
  · split
    · have h := reads_lines (splitOn_lines text.toList) []
      rw [List.intercalate_splitOn] at h
      exact h
    · exact goes_statements .code _ _ [] [] rfl

/-! ### The statement at the cursor -/

/-- For every text, driver and line of the cursor: there is a statement to run where the text has
one at all. It is a piece of the text on its own lines, and it is the first that the cursor is in;
else the cursor is behind it and before all that follow, or before all of them and it is the
first. -/
theorem statement_at_cursor (text : String) (driver : Option String) (cursor : ℕ) :
    (statementAtCursor text cursor driver = none ↔ split text driver = []) ∧
    ∀ sql, statementAtCursor text cursor driver = some sql →
      ∃ before st after, split text driver = before ++ st :: after ∧ st.sql = sql ∧
        (1 ≤ st.sline ∧ st.sline ≤ st.eline ∧ st.eline ≤ lineAt text.toList) ∧
        (∃ pre p post, text.toList = pre ++ p ++ post ∧ statementAt pre p = [st]) ∧
        Near Statement.sline Statement.eline cursor before st after := by
  have hreads := reads_split text driver
  constructor
  · rw [statementAtCursor, Option.map_eq_none_iff]
    exact Lib.Nearest.nearest_none_iff
  · intro sql hsql
    obtain ⟨st, hst, rfl⟩ := Option.map_eq_some_iff.mp hsql
    obtain ⟨before, after, hsplit, hnear⟩ := Lib.Nearest.nearest_near hreads.apart hst
    have hmem : st ∈ split text driver := by simp [hsplit]
    obtain ⟨hfirst, hlast, hpiece⟩ := hreads.piece hmem
    have hone : 1 ≤ st.sline := (Nat.le_add_left 1 _).trans hfirst
    exact ⟨before, st, after, hsplit, rfl, ⟨hone, hreads.apart.ordered st hmem, hlast⟩, hpiece,
      hnear⟩

/-- A cursor further down does not mean a statement further up. -/
theorem cursor_moves_on {text : String} {driver : Option String} {cursor cursor' : ℕ}
    {st st' : Statement} (hle : cursor ≤ cursor') (h : underCursor text cursor driver = some st)
    (h' : underCursor text cursor' driver = some st') :
    st' = st ∨ ∃ as bs cs, split text driver = as ++ st :: bs ++ st' :: cs :=
  Lib.Nearest.nearest_mono (reads_split text driver).apart hle h h'

end LvimDb.Editor
