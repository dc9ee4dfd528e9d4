import LvimDb.Editor.RunAll

/-!
# Statements of a text

`split_statements` of ui/editor.lua, with the lines a statement is on.
-/

namespace LvimDb.Editor
open Lib (isSpace)

inductive Quote
  | single
  | double
  | back
  deriving DecidableEq, Repr

def Quote.char : Quote → Char
  | single => '\''
  | double => '"'
  | back => '`'

def Quote.of (c : Char) : Option Quote :=
  [Quote.single, .double, .back].find? fun q => q.char = c

/-- What a character is inside of: `sq`, `dq`, `bq`, `lc` and `bc`. -/
inductive Inside
  | code
  | quoted (q : Quote)
  | line
  | block
  deriving DecidableEq, Repr

structure Statement where
  sql : String
  sline : ℕ
  eline : ℕ
  deriving DecidableEq, Repr

/-- The statement that is being read, and `line`. -/
structure Segment where
  seg : List Char
  segStart : Option ℕ
  line : ℕ
  deriving DecidableEq, Repr

namespace Segment

/-- `push` (81-86), with the count of the lines. -/
def push (g : Segment) (c : Char) : Segment where
  seg := g.seg ++ [c]
  segStart := if g.segStart.isNone && !isSpace c then some g.line else g.segStart
  line := if c = '\n' then g.line + 1 else g.line

/-- `flush` (87-94), what it adds. -/
def flush (g : Segment) : List Statement :=
  let sql := trim (String.ofList g.seg)
  if sql = "" then [] else [⟨sql, g.segStart.getD g.line, g.line⟩]

/-- `flush`, what it leaves. -/
def next (g : Segment) : Segment := ⟨[], none, g.line⟩

end Segment

/-- The loop of `split_statements` (97-156). -/
def splitFrom : Inside → Segment → List Char → List Statement
  | _, g, [] => g.flush
  | .line, g, c :: s => splitFrom (if c = '\n' then .code else .line) (g.push c) s
  | .block, g, '*' :: '/' :: s => splitFrom .code ((g.push '*').push '/') s
  | .block, g, c :: s => splitFrom .block (g.push c) s
  | .quoted q, g, c :: s => splitFrom (if c = q.char then .code else .quoted q) (g.push c) s
  | .code, g, '-' :: '-' :: s => splitFrom .line ((g.push '-').push '-') s
  | .code, g, '/' :: '*' :: s => splitFrom .block ((g.push '/').push '*') s
  | .code, g, c :: s =>
    match Quote.of c with
    | some q => splitFrom (.quoted q) (g.push c) s
    | none => if c = ';' then g.flush ++ splitFrom .code g.next s else splitFrom .code (g.push c) s

/-- `split_statements` (72-158). -/
def splitStatements (text : String) : List Statement :=
  splitFrom .code ⟨[], none, 1⟩ text.toList

example : splitStatements "a;\n-- b;\nc ';' ;" = [⟨"a", 1, 1⟩, ⟨"-- b;\nc ';'", 2, 3⟩] := by
  decide +kernel

/-! ### The segment that is being read -/

/-- The line on which a text goes on after `before`. -/
def lineAt (before : List Char) : ℕ := before.count '\n' + 1

/-- The statement that a segment is, if it is not blank, with the line of its first character
that is not blank and the line of its end. -/
def statementAt (before p : List Char) : List Statement :=
  let sql := trim (String.ofList p)
  if sql = "" then []
  else [⟨sql, lineAt (before ++ p.takeWhile isSpace), lineAt (before ++ p)⟩]

/-- What is known when `before` has been read, and `p` of the segment after it. -/
def Segment.of (before p : List Char) : Segment where
  seg := p
  segStart := if p.all isSpace then none else some (lineAt (before ++ p.takeWhile isSpace))
  line := lineAt (before ++ p)

theorem lineAt_concat (before : List Char) (c : Char) :
    lineAt (before ++ [c]) = if c = '\n' then lineAt before + 1 else lineAt before := by
  rw [lineAt, lineAt, List.count_append]
  split
  · next h =>
    subst h
    simp
  · next h => simp [h]

theorem takeWhile_concat {p : List Char} (hp : ¬ p.all isSpace = true) (c : Char) :
    (p ++ [c]).takeWhile isSpace = p.takeWhile isSpace := by
  rw [List.takeWhile_append, if_neg]
  intro hlen
  have hself := (List.takeWhile_prefix isSpace (l := p)).eq_of_length hlen
  exact hp (List.all_eq_true.mpr (List.takeWhile_eq_self_iff.mp hself))

theorem Segment.of_push (before p : List Char) (c : Char) :
    (Segment.of before p).push c = Segment.of before (p ++ [c]) := by
  have hline : ((Segment.of before p).push c).line = (Segment.of before (p ++ [c])).line := by
    simp only [Segment.of, Segment.push, ← List.append_assoc, lineAt_concat]
  have hstart : ((Segment.of before p).push c).segStart =
      (Segment.of before (p ++ [c])).segStart := by
    by_cases hp : p.all isSpace = true
    · have hblank : ∀ d ∈ p, isSpace d = true := List.all_eq_true.mp hp
      cases hc : isSpace c with
      | true => simp [Segment.of, Segment.push, hp, hc]
      | false =>
        have hnext : (p ++ [c]).takeWhile isSpace = p := by
          rw [List.takeWhile_append_of_pos hblank, List.takeWhile_cons_of_neg (by rw [hc]; nofun),
            List.append_nil]
        simp [Segment.of, Segment.push, hp, hc, hnext]
    · simp [Segment.of, Segment.push, hp, takeWhile_concat hp]
  calc (Segment.of before p).push c
      = ⟨p ++ [c], ((Segment.of before p).push c).segStart,
          ((Segment.of before p).push c).line⟩ := rfl
    _ = Segment.of before (p ++ [c]) := by
      rw [hline, hstart]
      rfl

theorem Segment.of_pushes (before p w : List Char) :
    w.foldl Segment.push (Segment.of before p) = Segment.of before (p ++ w) := by
  induction w generalizing p with
  | nil =>
    rw [List.append_nil]
    rfl
  | cons c w ih => rw [List.foldl_cons, Segment.of_push, ih, List.append_assoc, List.singleton_append]

theorem trim_blank {p : List Char} (hp : ∀ c ∈ p, isSpace c = true) :
    trim (String.ofList p) = "" := by
  have hstrip : Lib.strip isSpace p = [] := by
    rw [Lib.strip, List.dropWhile_eq_nil_iff.mpr hp]
    rfl
  rw [trim, String.toList_ofList, hstrip]

theorem statementAt_blank {p : List Char} (hp : ∀ c ∈ p, isSpace c = true) (before : List Char) :
    statementAt before p = [] := if_pos (trim_blank hp)

theorem Segment.of_flush (before p : List Char) :
    (Segment.of before p).flush = statementAt before p := by
  by_cases hp : p.all isSpace = true
  · rw [statementAt_blank (List.all_eq_true.mp hp)]
    exact if_pos (trim_blank (List.all_eq_true.mp hp))
  · unfold Segment.flush statementAt
    simp only [Segment.of, if_neg hp, Option.getD_some]

theorem Segment.of_next (before p : List Char) :
    (Segment.of before p).next = Segment.of (before ++ p) [] := by
  rw [Segment.of, Segment.of, List.append_nil]
  rfl

/-- What is between two segments and no end of a line does not count. -/
theorem Segment.of_skip (before : List Char) {c : Char} (hc : c ≠ '\n') :
    Segment.of before [] = Segment.of (before ++ [c]) [] := by
  rw [Segment.of, Segment.of, List.append_nil, List.append_nil, lineAt_concat, if_neg hc]
  rfl

theorem mem_flush {g : Segment} {st : Statement} (h : st ∈ g.flush) :
    ∃ text, st.sql = trim text := by
  rw [Segment.flush] at h
  split at h
  · exact (List.not_mem_nil h).elim
  · rw [List.mem_singleton.mp h]
    exact ⟨String.ofList g.seg, rfl⟩

/-- What `flush` adds has been trimmed. -/
theorem splitFrom_trimmed (m : Inside) (g : Segment) (s : List Char) :
    ∀ st ∈ splitFrom m g s, ∃ text, st.sql = trim text := by
  fun_induction splitFrom m g s with
  | case1 => exact fun st => mem_flush
  | case9 g s _ _ _ ih =>
    intro st hst
    rcases List.mem_append.mp hst with hst | hst
    · exact mem_flush hst
    · exact ih st hst
  | _ => assumption

end LvimDb.Editor
