import Mathlib.Logic.Function.Basic
import LvimDb.Cell.Value
import LvimDb.Engine.Call
import LvimDb.Grid.Cells

/-!
# The page as TSV

`yank_page` and `export_page` of ui/result.lua.
-/

namespace LvimDb.Grid
open Cell (Env cellDisplay)
open Daemon (Json)

abbrev Page := Engine.PageReply Json

def header (page : Page) : List Text := page.columns.map (·.name.toList)

/-- The texts of a row, one for each column. -/
def rowTexts (env : Env) (page : Page) (row : List Json) : List Text :=
  (List.range page.columns.length).map fun ci => (cellDisplay env (row.getD ci .null)).toList

/-- The names and, for each row, its texts. -/
def fields (env : Env) (page : Page) : List (List Text) :=
  header page :: page.rows.map (rowTexts env page)

/-- What `yank_page` joins. -/
def tsv (env : Env) (page : Page) : Text :=
  ['\n'].intercalate ((fields env page).map ['\t'].intercalate)

/-- What `setreg` has put into the registers. -/
abbrev Registers := Char → Text

def nul : Char := '\x00'

/-- `vim.fn.setreg`: a text with a NUL comes to it as a Blob, and it raises. -/
def setreg (reg : Char) (text : Text) (regs : Registers) : Option Registers :=
  if nul ∈ text then none else some (Function.update regs reg text)

/-- `yank_page` (685-707), where it does not raise; the second `setreg` is in a `pcall`. -/
def yankPage (env : Env) (page : Page) (regs : Registers) : Option Registers :=
  (setreg '"' (tsv env page) regs).map fun regs => (setreg '+' (tsv env page) regs).getD regs

/-- `export_page` (710-721), where it does not raise: the lines that `writefile` is given. -/
def exportPage (env : Env) (page : Page) (regs : Registers) : Option (List Text) :=
  (yankPage env page regs).map fun regs => (regs '"').splitOn '\n'

/-- What `writefile` writes: every line is ended. -/
def writefile (lines : List Text) : Text := lines.flatMap (· ++ ['\n'])

/-- The page is yanked, the lines of the text have the fields of the page, and those of the file
are the same. -/
def Faithful (env : Env) (page : Page) (regs : Registers) : Prop :=
  ∃ stored, yankPage env page regs = some stored ∧
    ((stored '"').splitOn '\n').map (·.splitOn '\t') = fields env page ∧
    ∃ ls, exportPage env page regs = some ls ∧
      Lib.lines '\n' (writefile ls) = (stored '"').splitOn '\n'

/-- No field holds a character that separates. -/
def Separate (fs : List (List Text)) : Prop := ∀ line ∈ fs, ∀ f ∈ line, '\t' ∉ f ∧ '\n' ∉ f

/-- No field makes a Blob of the text. -/
def Registrable (fs : List (List Text)) : Prop := ∀ line ∈ fs, ∀ f ∈ line, nul ∉ f

variable {env : Env} {page : Page} {regs : Registers} {fs : List (List Text)}

theorem not_mem_of_splitOn {s p : Text} {sep : Char} (h : p ∈ s.splitOn sep) : sep ∉ p := by
  rw [Lib.lines_rest] at h
  obtain ⟨hlines, hrest⟩ : (∀ l ∈ Lib.lines sep s, sep ∉ l) ∧ sep ∉ Lib.rest sep s :=
    Lib.sep_not_mem s
  rcases List.mem_append.mp h with h | h
  · exact hlines p h
  · rw [List.mem_singleton.mp h]
    exact hrest

theorem mem_intercalate {c x : Char} {ls : List Text} (h : x ∈ [c].intercalate ls) :
    x = c ∨ ∃ f ∈ ls, x ∈ f := by
  induction ls with
  | nil => exact absurd h List.not_mem_nil
  | cons l ls ih =>
    by_cases hls : ls = []
    · subst hls
      rw [List.intercalate_singleton] at h
      exact .inr ⟨l, List.mem_cons_self .., h⟩
    · rw [List.intercalate_cons_of_ne_nil hls, List.append_assoc] at h
      rcases List.mem_append.mp h with h | h
      · exact .inr ⟨l, List.mem_cons_self .., h⟩
      · rcases List.mem_cons.mp h with rfl | h
        · exact .inl rfl
        · rcases ih h with hc | ⟨f, hf, hx⟩
          · exact .inl hc
          · exact .inr ⟨f, List.mem_cons_of_mem _ hf, hx⟩

theorem mem_of_field {c x : Char} {f : Text} {ls : List Text} (hf : f ∈ ls) (hx : x ∈ f) :
    x ∈ [c].intercalate ls := by
  induction ls with
  | nil => exact absurd hf List.not_mem_nil
  | cons l ls ih =>
    by_cases hls : ls = []
    · subst hls
      rw [List.intercalate_singleton, ← List.mem_singleton.mp hf]
      exact hx
    · rw [List.intercalate_cons_of_ne_nil hls, List.append_assoc]
      rcases List.mem_cons.mp hf with rfl | hf
      · exact List.mem_append_left _ hx
      · exact List.mem_append_right _ (List.mem_cons_of_mem _ (ih hf))

/-- The text has a NUL exactly when a field has. -/
theorem nul_tsv (env : Env) (page : Page) :
    nul ∉ tsv env page ↔ Registrable (fields env page) := by
  constructor
  · intro h line hline f hf hx
    exact h (mem_of_field (List.mem_map_of_mem hline) (mem_of_field hf hx))
  · intro h hx
    rcases mem_intercalate hx with heq | ⟨l, hl, hx⟩
    · exact absurd heq (by decide)
    obtain ⟨line, hline, rfl⟩ := List.mem_map.mp hl
    rcases mem_intercalate hx with heq | ⟨f, hf, hx⟩
    · exact absurd heq (by decide)
    · exact h line hline f hf hx

theorem yankPage_some {stored : Registers} (h : yankPage env page regs = some stored) :
    nul ∉ tsv env page ∧ stored '"' = tsv env page := by
  obtain ⟨first, hfirst, rfl⟩ := Option.map_eq_some_iff.mp h
  unfold setreg at hfirst ⊢
  split at hfirst
  · cases hfirst
  · rename_i hno
    cases hfirst
    rw [if_neg hno, Option.getD_some, Function.update_of_ne (by decide), Function.update_self]
    exact ⟨hno, rfl⟩

theorem yankPage_isSome (regs : Registers) (h : nul ∉ tsv env page) :
    ∃ stored, yankPage env page regs = some stored :=
  ⟨_, by rw [yankPage, setreg, if_neg h, Option.map_some]⟩

theorem writefile_eq (ls : List Text) : writefile ls = ['\n'].intercalate (ls ++ [[]]) := by
  induction ls with
  | nil => rfl
  | cons l ls ih =>
    have hne : ls ++ [[]] ≠ ([] : List Text) :=
      List.append_ne_nil_of_right_ne_nil _ (List.cons_ne_nil _ _)
    rw [List.cons_append, List.intercalate_cons_of_ne_nil hne, ← ih]
    rfl

theorem lines_writefile {ls : List Text} (h : ∀ l ∈ ls, '\n' ∉ l) :
    Lib.lines '\n' (writefile ls) = ls := by
  have hall : ∀ l ∈ ls ++ [[]], '\n' ∉ l := by
    intro l hl
    rcases List.mem_append.mp hl with hl | hl
    · exact h l hl
    · rw [List.mem_singleton.mp hl]
      exact List.not_mem_nil
  have hne : ls ++ [[]] ≠ [] := List.append_ne_nil_of_right_ne_nil _ (List.cons_ne_nil _ _)
  rw [writefile_eq]
  exact (Lib.lines_rest_eq (List.splitOn_intercalate '\n' hall hne)).1

theorem split_joined (hne : ∀ line ∈ fs, line ≠ []) (hfs : fs ≠ []) (h : Separate fs) :
    ((['\n'].intercalate (fs.map ['\t'].intercalate)).splitOn '\n').map (·.splitOn '\t') = fs := by
  have hlines : ∀ l ∈ fs.map ['\t'].intercalate, '\n' ∉ l := by
    intro l hl hmem
    obtain ⟨line, hline, rfl⟩ := List.mem_map.mp hl
    rcases mem_intercalate hmem with heq | ⟨f, hf, hx⟩
    · exact absurd heq (by decide)
    · exact (h line hline f hf).2 hx
  have hmap : fs.map ['\t'].intercalate ≠ [] := fun hnil => hfs (List.map_eq_nil_iff.mp hnil)
  rw [List.splitOn_intercalate '\n' hlines hmap, List.map_map]
  calc fs.map ((·.splitOn '\t') ∘ ['\t'].intercalate) = fs.map id :=
        List.map_congr_left fun line hline =>
          List.splitOn_intercalate '\t' (fun f hf => (h line hline f hf).1) (hne line hline)
    _ = fs := List.map_id fs

/-- What is split on both separators holds neither. -/
theorem separate_of_split {s : Text} (h : (s.splitOn '\n').map (·.splitOn '\t') = fs) :
    Separate fs := by
  intro line hline f hf
  rw [← h] at hline
  obtain ⟨l, hl, rfl⟩ := List.mem_map.mp hline
  have hjoin : ['\t'].intercalate (l.splitOn '\t') = l := List.intercalate_splitOn '\t'
  refine ⟨not_mem_of_splitOn hf, fun hx => not_mem_of_splitOn hl ?_⟩
  have hmem : '\n' ∈ ['\t'].intercalate (l.splitOn '\t') := mem_of_field hf hx
  rwa [hjoin] at hmem

/-- The text of a page is split into its fields exactly when it has a column and no field holds a
character that separates. -/
theorem split_tsv_iff (env : Env) (page : Page) :
    ((tsv env page).splitOn '\n').map (·.splitOn '\t') = fields env page ↔
      page.columns ≠ [] ∧ Separate (fields env page) := by
  constructor
  · intro h
    refine ⟨fun hnil => ?_, separate_of_split h⟩
    have hmem : header page ∈ fields env page := List.mem_cons_self ..
    rw [← h] at hmem
    obtain ⟨l, -, hl⟩ := List.mem_map.mp hmem
    rw [header, hnil] at hl
    exact Lib.splitOn_ne_nil l hl
  · rintro ⟨hcols, hsep⟩
    refine split_joined (fun line hline => ?_) (List.cons_ne_nil _ _) hsep
    have hlen : line.length = page.columns.length := by
      rcases List.mem_cons.mp hline with rfl | hrow
      · exact List.length_map _
      · obtain ⟨row, -, rfl⟩ := List.mem_map.mp hrow
        rw [rowTexts, List.length_map, List.length_range]
    rintro rfl
    exact hcols (List.length_eq_zero_iff.mp hlen.symm)

/-- The page is read back from its TSV exactly when it has a column and no name and no displayed
text holds a tab, a newline or a NUL. -/
theorem tsv_faithful_iff (env : Env) (page : Page) (regs : Registers) :
    Faithful env page regs ↔
      page.columns ≠ [] ∧ Separate (fields env page) ∧ Registrable (fields env page) := by
  rw [← and_assoc, ← split_tsv_iff, ← nul_tsv]
  constructor
  · rintro ⟨stored, hyank, hsplit, -⟩
    obtain ⟨hno, htext⟩ := yankPage_some hyank
    exact ⟨htext ▸ hsplit, hno⟩
  · rintro ⟨hsplit, hno⟩
    obtain ⟨stored, hyank⟩ := yankPage_isSome regs hno
    have htext : stored '"' = tsv env page := (yankPage_some hyank).2
    have hexport : exportPage env page regs = some ((stored '"').splitOn '\n') := by
      rw [exportPage, hyank, Option.map_some]
    exact ⟨stored, hyank, htext.symm ▸ hsplit, _, hexport,
      lines_writefile fun l hl => not_mem_of_splitOn hl⟩

/-- A page of one text. -/
def noted (text : String) : Page where
  columns := [⟨"note", "text"⟩]
  rows := [[.str text]]
  from_ := 0
  hasMore := false
  total := none
  affected := none

/-- Three lines are yanked of a row whose text holds a tab and a newline, the second of them of two
fields, and nothing where it holds a NUL. -/
theorem torn_not_faithful :
    (yankPage Cell.bareEnv (noted "a\tb\nc") fun _ => []).map (fun regs =>
        ((regs '"').splitOn '\n').map (·.splitOn '\t')) =
          some [["note".toList], ["a".toList, "b".toList], ["c".toList]] ∧
      ¬ Faithful Cell.bareEnv (noted "a\tb\nc") (fun _ => []) ∧
      (yankPage Cell.bareEnv (noted "a\x00b") fun _ => []) = none ∧
      ¬ Faithful Cell.bareEnv (noted "a\x00b") fun _ => [] := by
  have hsep : Separate [["note".toList], ["a".toList, "b".toList], ["c".toList]] := by
    unfold Separate
    decide
  have hsplit := split_joined (by decide) (by decide) hsep
  have hno : nul ∉ tsv Cell.bareEnv (noted "a\tb\nc") := by decide
  obtain ⟨regs, hyank⟩ := yankPage_isSome (fun _ => []) hno
  have htext := (yankPage_some hyank).2
  have hnone : (yankPage Cell.bareEnv (noted "a\x00b") fun _ => []) = none := by
    rw [yankPage, setreg, if_pos (by decide), Option.map_none]
  refine ⟨?_, ?_, hnone, ?_⟩
  · rw [hyank, Option.map_some, htext]
    exact congrArg some hsplit
  · rintro ⟨stored, hyank', hfields, -⟩
    rw [(yankPage_some hyank').2] at hfields
    exact absurd (hsplit.symm.trans hfields) (by decide)
  · rintro ⟨stored, hyank', -⟩
    rw [hnone] at hyank'
    cases hyank'

end LvimDb.Grid
