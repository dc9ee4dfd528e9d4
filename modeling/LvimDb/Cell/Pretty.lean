import LvimDb.Editor.RunAll

/-!
# Formatted JSON

`pretty_json` of ui/result.lua, and what it keeps of any text: the tokens.
-/

namespace LvimDb.Cell

/-- What the loop of `pretty_json` knows: in a string, and after a backslash in one. -/
inductive Scan
  | outside
  | inside (esc : Bool)
  deriving DecidableEq, Repr

def Scan.string : Bool → Char → Scan
  | true, _ => .inside false
  | false, '\\' => .inside true
  | false, '"' => .outside
  | false, _ => .inside false

def isOpening (c : Char) : Bool := c == '{' || c == '['

def isClosing (c : Char) : Bool := c == '}' || c == ']'

/-- A new line. -/
def nl (indent : ℕ) : List Char := '\n' :: List.replicate (2 * indent) ' '

/-- The loop of `pretty_json` (185-231); an empty container stays on one line. -/
def prettyFrom : Scan → ℕ → List Char → List Char
  | _, _, [] => []
  | .inside esc, indent, c :: cs => c :: prettyFrom (Scan.string esc c) indent cs
  | .outside, indent, c :: cs =>
    if c = '"' then c :: prettyFrom (.inside false) indent cs
    else if isOpening c then
      match cs with
      | d :: rest =>
        if isClosing d then c :: d :: prettyFrom .outside indent rest
        else c :: nl (indent + 1) ++ prettyFrom .outside (indent + 1) (d :: rest)
      | [] => c :: nl (indent + 1)
    else if isClosing c then nl (indent - 1) ++ c :: prettyFrom .outside (indent - 1) cs
    else if c = ',' then c :: nl indent ++ prettyFrom .outside indent cs
    else if c = ':' then c :: ' ' :: prettyFrom .outside indent cs
    else c :: prettyFrom .outside indent cs

/-- `pretty_json`. -/
def prettyJson (s : String) : String := String.ofList (prettyFrom .outside 0 s.toList)

/-! ### Tokens -/

def isBlank (c : Char) : Bool := c == ' ' || c == '\n' || c == '\t' || c == '\r'

def isStructural (c : Char) : Bool := isOpening c || isClosing c || c == ',' || c == ':'

/-- A word that ends. -/
def word (w : List Char) : List (List Char) := if w = [] then [] else [w]

/-- The tokens of a JSON text, with what has been read of the one it is in: brackets and
separators, strings with their quotes, and what else stands between blanks. -/
def tokensFrom : Scan → List Char → List Char → List (List Char)
  | _, w, [] => word w
  | .inside esc, w, c :: cs =>
    match Scan.string esc c with
    | .outside => (w ++ [c]) :: tokensFrom .outside [] cs
    | st => tokensFrom st (w ++ [c]) cs
  | .outside, w, c :: cs =>
    if c = '"' then word w ++ tokensFrom (.inside false) [c] cs
    else if isStructural c then word w ++ [c] :: tokensFrom .outside [] cs
    else if isBlank c then word w ++ tokensFrom .outside [] cs
    else tokensFrom .outside (w ++ [c]) cs

def tokens (s : String) : List (List Char) := tokensFrom .outside [] s.toList

variable {w cs ds : List Char} {c : Char} {indent : ℕ}

theorem tokensFrom_blank (h : isBlank c = true) :
    tokensFrom .outside w (c :: cs) = word w ++ tokensFrom .outside [] cs := by
  have hq : c ≠ '"' := by
    rintro rfl
    exact absurd h (by decide)
  have hs : isStructural c = false := by
    unfold isBlank at h
    simp only [Bool.or_eq_true, beq_iff_eq] at h
    rcases h with ((rfl | rfl) | rfl) | rfl <;> rfl
  rw [tokensFrom, if_neg hq, hs, if_neg Bool.false_ne_true, if_pos h]

/-- Blanks end a word and are no token. -/
theorem tokensFrom_nl : tokensFrom .outside w (nl indent ++ cs) =
    word w ++ tokensFrom .outside [] cs := by
  have hspaces : ∀ n, tokensFrom .outside [] (List.replicate n ' ' ++ cs) =
      tokensFrom .outside [] cs := by
    intro n
    induction n with
    | zero => rfl
    | succ n ih =>
      rw [List.replicate_succ, List.cons_append, tokensFrom_blank rfl, ih]
      rfl
  rw [nl, List.cons_append, tokensFrom_blank rfl, hspaces]

theorem tokensFrom_structural (h : isStructural c = true) :
    tokensFrom .outside w (c :: cs) = word w ++ [c] :: tokensFrom .outside [] cs := by
  have hq : c ≠ '"' := by
    rintro rfl
    exact absurd h (by decide)
  rw [tokensFrom, if_neg hq, if_pos h]

theorem isStructural_of_opening (h : isOpening c = true) : isStructural c = true := by
  simp [isStructural, h]

theorem isStructural_of_closing (h : isClosing c = true) : isStructural c = true := by
  simp [isStructural, h]

/-- A structural character with blanks after it. -/
theorem tokensFrom_structural_nl (indent : ℕ) (h : isStructural c = true) :
    tokensFrom .outside w (c :: nl indent ++ cs) =
      word w ++ [c] :: tokensFrom .outside [] cs := by
  rw [List.cons_append, tokensFrom_structural h, tokensFrom_nl]
  rfl

theorem tokensFrom_nl_structural (h : isStructural c = true) :
    tokensFrom .outside w (nl indent ++ c :: cs) =
      word w ++ [c] :: tokensFrom .outside [] cs := by
  rw [tokensFrom_nl, tokensFrom_structural h]
  rfl

/-- The text keeps its tokens: what is added are blanks beside structural characters. -/
theorem tokensFrom_pretty (st : Scan) (indent : ℕ) (cs w : List Char) :
    tokensFrom st w (prettyFrom st indent cs) = tokensFrom st w cs := by
  induction st, indent, cs using prettyFrom.induct generalizing w with
  | case1 st indent => rw [prettyFrom]
  | case2 esc indent c cs ih =>
    rw [prettyFrom]
    simp only [tokensFrom]
    cases hst : Scan.string esc c with
    | outside =>
      rw [hst] at ih
      rw [ih]
    | inside esc' =>
      rw [hst] at ih
      exact ih (w ++ [c])
  | case3 indent cs ih =>
    rw [prettyFrom.eq_def]
    simp only [if_true, tokensFrom, ih]
  | case4 indent c hq ho d rest hd ih =>
    rw [prettyFrom, if_neg hq, if_pos ho]
    simp only [if_pos hd]
    rw [tokensFrom_structural (isStructural_of_opening ho),
      tokensFrom_structural (isStructural_of_opening ho),
      tokensFrom_structural (isStructural_of_closing hd),
      tokensFrom_structural (isStructural_of_closing hd), ih]
  | case5 indent c hq ho d rest hd ih =>
    rw [prettyFrom, if_neg hq, if_pos ho]
    simp only [if_neg hd]
    rw [tokensFrom_structural_nl _ (isStructural_of_opening ho),
      tokensFrom_structural (isStructural_of_opening ho), ih]
  | case6 indent c hq ho =>
    rw [prettyFrom, if_neg hq, if_pos ho]
    have hnl : tokensFrom .outside w (c :: nl (indent + 1) ++ []) =
        word w ++ [c] :: tokensFrom .outside [] [] :=
      tokensFrom_structural_nl _ (isStructural_of_opening ho)
    rw [List.append_nil] at hnl
    rw [hnl, tokensFrom_structural (isStructural_of_opening ho)]
  | case7 indent c cs hq ho hc ih =>
    rw [prettyFrom.eq_def]
    simp only [if_neg hq, if_neg ho, if_pos hc]
    rw [tokensFrom_nl_structural (isStructural_of_closing hc),
      tokensFrom_structural (isStructural_of_closing hc), ih]
  | case8 indent cs hq ho hc ih =>
    rw [prettyFrom.eq_def]
    simp only [if_neg hq, if_neg ho, if_neg hc, if_true]
    rw [tokensFrom_structural_nl _ rfl, tokensFrom_structural rfl, ih]
  | case9 indent cs hq ho hc hcomma ih =>
    rw [prettyFrom.eq_def]
    simp only [if_neg hq, if_neg ho, if_neg hc, if_neg hcomma, if_true]
    have hcolon : isStructural ':' = true := rfl
    rw [tokensFrom_structural hcolon, tokensFrom_structural hcolon, tokensFrom_blank rfl, ih]
    rfl
  | case10 indent c cs hq ho hc hcomma hcolon ih =>
    rw [prettyFrom.eq_def]
    simp only [if_neg hq, if_neg ho, if_neg hc, if_neg hcomma, if_neg hcolon, tokensFrom, ih]

theorem tokens_prettyJson (s : String) : tokens (prettyJson s) = tokens s := by
  unfold tokens prettyJson
  rw [String.toList_ofList]
  exact tokensFrom_pretty .outside 0 s.toList []

example : prettyFrom .outside 0 ['[', '1', ',', '2', ']'] =
    ['[', '\n', ' ', ' ', '1', ',', '\n', ' ', ' ', '2', '\n', ']'] := by decide

end LvimDb.Cell
