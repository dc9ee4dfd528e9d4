import LvimDb.Secret.Template

/-!
# Redis command lines

`tokenize` of drivers/redis.rs and the words that a line makes the server be sent.
-/

namespace LvimDb.Driver
open Secret (Text isWhitespace trim)

/-- A token that has been read, unless it is empty. -/
def flush (cur : Text) : List Text := if cur = [] then [] else [cur]

/-- The loop of `tokenize` (211-225), with `in_q` and `cur`. -/
def tokenizeFrom : Bool → Text → Text → List Text
  | _, cur, [] => flush cur
  | q, cur, c :: cs =>
    if c = '"' then tokenizeFrom (!q) cur cs
    else if isWhitespace c && !q then flush cur ++ tokenizeFrom q [] cs
    else tokenizeFrom q (cur ++ [c]) cs

/-- `tokenize` (207-226). -/
def tokenize (line : Text) : List Text := tokenizeFrom false [] (trim line)

/-- The words of `command` (229-239). -/
def command (tokens : List Text) : Except String (List Text) :=
  if tokens = [] then .error "empty command" else .ok tokens

/-- `execute` (340-345), the words that are sent. -/
def execute (stmt : Text) : Except String (List Text) := command (tokenize stmt)

/-- An argument as it is written in quotes. -/
def quoted (a : Text) : Text := '"' :: (a ++ ['"'])

/-- The arguments in quotes, with single spaces between them. -/
def quotedLine (args : List Text) : Text := [' '].intercalate (args.map quoted)

variable {a cur : Text} {args : List Text}

theorem flush_eq_filter (a : Text) : flush a = [a].filter (· ≠ []) := by
  unfold flush
  by_cases h : a = []
  · rw [if_pos h, h]
    rfl
  · rw [if_neg h]
    simp [h]

/-- Between quotes every other character is one of the token. -/
theorem tokenizeFrom_inside (ha : '"' ∉ a) (cur rest : Text) :
    tokenizeFrom true cur (a ++ rest) = tokenizeFrom true (cur ++ a) rest := by
  induction a generalizing cur with
  | nil => rw [List.nil_append, List.append_nil]
  | cons c a ih =>
    have hc := List.ne_of_not_mem_cons ha
    have ha := List.not_mem_of_not_mem_cons ha
    have hcond : ¬ (isWhitespace c && !true) = true := by simp
    rw [List.cons_append, tokenizeFrom, if_neg (Ne.symm hc), if_neg hcond, ih ha,
      List.append_assoc, List.singleton_append]

theorem tokenizeFrom_quoted (ha : '"' ∉ a) (rest : Text) :
    tokenizeFrom false [] (quoted a ++ rest) = tokenizeFrom false a rest := by
  have hclose : tokenizeFrom true a ('"' :: rest) = tokenizeFrom false a rest := by
    rw [tokenizeFrom, if_pos rfl]
    rfl
  rw [quoted, List.cons_append, tokenizeFrom, if_pos rfl, List.append_assoc]
  show tokenizeFrom true [] (a ++ '"' :: rest) = _
  rw [tokenizeFrom_inside ha, List.nil_append, hclose]

theorem tokenizeFrom_space (cur rest : Text) :
    tokenizeFrom false cur (' ' :: rest) = flush cur ++ tokenizeFrom false [] rest := by
  rw [tokenizeFrom, if_neg (by decide), if_pos (by decide)]

theorem quotedLine_cons (a b : Text) (args : List Text) :
    quotedLine (a :: b :: args) = quoted a ++ ' ' :: quotedLine (b :: args) := by
  simp [quotedLine, List.intercalate]

theorem tokenizeFrom_quotedLine (hargs : ∀ a ∈ args, '"' ∉ a) :
    tokenizeFrom false [] (quotedLine args) = args.filter (· ≠ []) := by
  induction args with
  | nil => rfl
  | cons a args ih =>
    obtain ⟨ha, hargs⟩ := List.forall_mem_cons.mp hargs
    cases args with
    | nil =>
      have hone : quotedLine [a] = quoted a ++ [] := by simp [quotedLine, List.intercalate]
      rw [hone, tokenizeFrom_quoted ha]
      exact flush_eq_filter a
    | cons b args =>
      rw [quotedLine_cons, tokenizeFrom_quoted ha, tokenizeFrom_space, ih hargs, flush_eq_filter,
        ← List.filter_append]
      rfl

theorem quotedLine_head (hne : args ≠ []) : ∃ rest, quotedLine args = '"' :: rest := by
  cases args with
  | nil => exact absurd rfl hne
  | cons a args =>
    cases args with
    | nil => exact ⟨a ++ ['"'], by simp [quotedLine, List.intercalate, quoted]⟩
    | cons b args => exact ⟨_, quotedLine_cons a b args⟩

theorem quotedLine_last (hne : args ≠ []) : (quotedLine args).getLast? = some '"' := by
  induction args with
  | nil => exact absurd rfl hne
  | cons a args ih =>
    cases args with
    | nil =>
      have hone : quotedLine [a] = ('"' :: a) ++ ['"'] := by
        simp [quotedLine, List.intercalate, quoted]
      rw [hone, List.getLast?_concat]
    | cons b args =>
      obtain ⟨rest, hrest⟩ := quotedLine_head (List.cons_ne_nil b args)
      have hlast := ih (List.cons_ne_nil b args)
      rw [quotedLine_cons, List.getLast?_append_of_ne_nil _ (List.cons_ne_nil _ _), hrest,
        List.getLast?_cons_cons, ← hrest, hlast]

/-- The empty arguments are dropped, and no others. -/
theorem tokenize_quotedLine (hargs : ∀ a ∈ args, '"' ∉ a) :
    tokenize (quotedLine args) = args.filter (· ≠ []) := by
  by_cases hne : args = []
  · rw [hne]
    rfl
  · obtain ⟨rest, hrest⟩ := quotedLine_head hne
    have htrim : trim (quotedLine args) = quotedLine args := by
      refine Lib.strip_eq_self (fun c hc => ?_) fun c hc => ?_
      · rw [hrest] at hc
        cases hc
        decide
      · rw [quotedLine_last hne] at hc
        cases hc
        decide
    rw [tokenize, htrim, tokenizeFrom_quotedLine hargs]

/-- The line is read as the arguments, and they are sent. -/
def Sent (args : List Text) : Prop :=
  tokenize (quotedLine args) = args ∧ execute (quotedLine args) = .ok args

theorem quoted_line_sent_iff (hne : args ≠ []) (hargs : ∀ a ∈ args, '"' ∉ a) :
    Sent args ↔ [] ∉ args := by
  constructor
  · rintro ⟨htokens, -⟩ hmem
    rw [tokenize_quotedLine hargs, List.filter_eq_self] at htokens
    exact of_decide_eq_true (htokens [] hmem) rfl
  · intro hnil
    have htokens : tokenize (quotedLine args) = args := by
      rw [tokenize_quotedLine hargs, List.filter_eq_self]
      intro a ha
      refine decide_eq_true ?_
      rintro rfl
      exact hnil ha
    refine ⟨htokens, ?_⟩
    rw [execute, htokens, command, if_neg hne]

theorem quoted_line_sent_set : Sent ["SET".toList, "a b".toList] :=
  (quoted_line_sent_iff (by decide) (by decide)).mpr (by decide)

/-- `SET key ""` becomes `SET key`. -/
theorem empty_argument_dropped :
    tokenize (quotedLine ["SET".toList, "key".toList, []]) = ["SET".toList, "key".toList] ∧
      ¬ Sent ["SET".toList, "key".toList, []] := by
  refine ⟨by decide +kernel, fun h => absurd h.1 (by decide +kernel)⟩

end LvimDb.Driver
