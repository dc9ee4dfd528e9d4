import LvimDb.Lib.Cut
import LvimDb.Editor.Split

/-!
# The lexemes of SQL

A text is a sequence of characters, strings and comments. Its statements stand between those
`;` that are characters of it, and `split_statements` finds these.
-/

namespace LvimDb.Editor

/-- What a lexeme of several characters is. -/
inductive Span
  | quoted (q : Quote)
  | line
  | block
  deriving DecidableEq, Repr

namespace Span

def opener : Span → List Char
  | quoted q => [q.char]
  | line => ['-', '-']
  | block => ['/', '*']

def closer : Span → List Char
  | quoted q => [q.char]
  | line => ['\n']
  | block => ['*', '/']

def inside : Span → Inside
  | quoted q => .quoted q
  | line => .line
  | block => .block

end Span

/-- A character of its own, or a string or a comment, which the end of the text may leave
open. -/
inductive Lexeme
  | char (c : Char)
  | span (m : Span) (body : List Char) (closed : Bool)
  deriving DecidableEq, Repr

namespace Lexeme

def text : Lexeme → List Char
  | char c => [c]
  | span m body closed => m.opener ++ (body ++ if closed then m.closer else [])

/-- The lexeme stands before `rest`: a character opens nothing there, and a span goes on to the
first closer. -/
def Stands (rest : List Char) : Lexeme → Prop
  | char c => ∀ m : Span, ¬ m.opener <+: c :: rest
  | span m body true => Lib.FirstAt m.closer body
  | span m body false => ¬ m.closer <:+: body ∧ rest = []

end Lexeme

/-- The text is read as the lexemes. -/
inductive Lexed : List Lexeme → List Char → Prop
  | nil : Lexed [] []
  | cons {x : Lexeme} {xs : List Lexeme} {s : List Char} (stands : x.Stands s) (rest : Lexed xs s) :
    Lexed (x :: xs) (x.text ++ s)

/-- The texts between the separators. -/
def segments (xs : List Lexeme) : List (List Char) :=
  (xs.splitOnP (· = .char ';')).map (·.flatMap Lexeme.text)

/-- The statements of the segments; `before` is the text before them. -/
def statementsOf : List Char → List (List Char) → List Statement
  | _, [] => []
  | before, p :: ps => statementAt before p ++ statementsOf (before ++ p ++ [';']) ps

variable {x : Lexeme} {xs ys : List Lexeme} {s before p : List Char} {m m' : Span}

/-! ### A text has one reading -/

theorem Span.opener_ne (m : Span) : m.opener ≠ [] := by cases m <;> exact List.cons_ne_nil _ _

theorem Span.closer_ne (m : Span) : m.closer ≠ [] := by cases m <;> exact List.cons_ne_nil _ _

theorem Quote.char_inj {q q' : Quote} (h : q.char = q'.char) : q = q' := by
  cases q <;> cases q' <;> first | rfl | exact absurd h (by decide)

/-- Two spans do not begin in one place. -/
theorem Span.eq_of_opener (h : m.opener <+: s) (h' : m'.opener <+: s) : m = m' := by
  obtain ⟨t, rfl⟩ := h
  obtain ⟨t', ht⟩ := h'
  have hhead := congrArg List.head? ht
  cases m with
  | quoted q =>
    cases m' with
    | quoted q' => rw [Quote.char_inj (Option.some.inj hhead)]
    | line => cases q <;> cases hhead
    | block => cases q <;> cases hhead
  | line =>
    cases m' with
    | quoted q' => cases q' <;> cases hhead
    | line => rfl
    | block => cases hhead
  | block =>
    cases m' with
    | quoted q' => cases q' <;> cases hhead
    | line => cases hhead
    | block => rfl

theorem exists_lexed (s : List Char) : ∃ xs, Lexed xs s := by
  generalize hn : s.length = n
  induction n using Nat.strong_induction_on generalizing s with
  | _ n ih =>
    subst hn
    cases s with
    | nil => exact ⟨[], .nil⟩
    | cons c s =>
      by_cases hopen : ∃ m : Span, m.opener <+: c :: s
      · obtain ⟨m, t, ht⟩ := hopen
        have hlen := congrArg List.length ht
        have hpos := List.length_pos_iff.mpr m.opener_ne
        rw [List.length_append] at hlen
        rcases Lib.exists_firstAt m.closer_ne t with ⟨body, rest, hbody, hfirst⟩ | hno
        · have hle : rest.length < (c :: s).length := by
            have htail := congrArg List.length hbody
            rw [List.length_append, List.length_append] at htail
            omega
          obtain ⟨xs, hxs⟩ := ih rest.length hle rest rfl
          refine ⟨.span m body true :: xs, ?_⟩
          have hcons := Lexed.cons (x := .span m body true) hfirst hxs
          rw [← ht, hbody]
          simpa [Lexeme.text] using hcons
        · refine ⟨[.span m t false], ?_⟩
          have hcons := Lexed.cons (x := .span m t false) ⟨hno, rfl⟩ .nil
          rw [← ht]
          simpa [Lexeme.text] using hcons
      · obtain ⟨xs, hxs⟩ := ih s.length (Nat.lt_succ_self _) s rfl
        exact ⟨.char c :: xs, .cons (x := .char c) (fun m hm => hopen ⟨m, hm⟩) hxs⟩

theorem Lexeme.text_ne (x : Lexeme) : x.text ≠ [] := by
  cases x with
  | char c => exact List.cons_ne_nil _ _
  | span m body closed => exact List.append_ne_nil_of_left_ne_nil m.opener_ne _

/-- One text begins with one lexeme. -/
theorem Lexeme.unique {x y : Lexeme} {s t : List Char} (hx : x.Stands s) (hy : y.Stands t)
    (h : x.text ++ s = y.text ++ t) : x = y ∧ s = t := by
  have hspan : ∀ {m : Span} {body : List Char} {closed : Bool} {c : Char} {s t : List Char},
      (Lexeme.char c).Stands t → (Lexeme.span m body closed).text ++ s ≠ [c] ++ t := by
    intro m body closed c s t hc heq
    rw [text, List.append_assoc] at heq
    refine hc m ?_
    have hstart := List.prefix_append m.opener ((body ++ if closed then m.closer else []) ++ s)
    rwa [heq] at hstart
  cases x with
  | char c =>
    cases y with
    | char d =>
      obtain ⟨rfl, rfl⟩ := List.cons.inj h
      exact ⟨rfl, rfl⟩
    | span m body closed => exact absurd h.symm (hspan hx)
  | span m body closed =>
    cases y with
    | char d => exact absurd h (hspan hy)
    | span m' body' closed' =>
      have hm : m = m' := by
        refine Span.eq_of_opener (s := (span m body closed).text ++ s) ?_ ?_
        · rw [text, List.append_assoc]
          exact List.prefix_append _ _
        · rw [h, text, List.append_assoc]
          exact List.prefix_append _ _
      subst hm
      rw [text, text, List.append_assoc] at h
      have h := List.append_cancel_left (h.trans (List.append_assoc ..))
      cases closed with
      | true =>
        cases closed' with
        | true =>
          obtain ⟨rfl, rfl⟩ := Lib.FirstAt.unique hx hy h
          exact ⟨rfl, rfl⟩
        | false =>
          obtain ⟨hno, rfl⟩ := hy
          refine absurd ?_ hno
          have hbody : body ++ m.closer ++ s = body' := by simpa using h
          exact ⟨body, s, hbody⟩
      | false =>
        obtain ⟨hno, rfl⟩ := hx
        cases closed' with
        | true =>
          refine absurd ?_ hno
          have hbody : body' ++ m.closer ++ t = body := by simpa using h.symm
          exact ⟨body', t, hbody⟩
        | false =>
          obtain ⟨-, rfl⟩ := hy
          have hbody : body = body' := by simpa using h
          exact ⟨by rw [hbody], rfl⟩

theorem Lexed.unique (h : Lexed xs s) (h' : Lexed ys s) : xs = ys := by
  induction h generalizing ys with
  | nil =>
    generalize hs : ([] : List Char) = s at h'
    cases h' with
    | nil => rfl
    | cons _ _ => exact absurd hs.symm (List.append_ne_nil_of_left_ne_nil (Lexeme.text_ne _) _)
  | @cons x xs s hx hxs ih =>
    generalize hs : x.text ++ s = t at h'
    cases h' with
    | nil => exact absurd hs (List.append_ne_nil_of_left_ne_nil (Lexeme.text_ne _) _)
    | cons hy hys =>
      obtain ⟨rfl, rfl⟩ := Lexeme.unique hx hy hs
      rw [ih hys]

/-! ### The scan reads the lexemes -/

theorem segments_split (xs : List Lexeme) : segments (.char ';' :: xs) = [] :: segments xs := by
  rw [segments, List.splitOnP_cons_eq_if_modifyHead, if_pos (decide_eq_true rfl)]
  rfl

theorem segments_cons (hx : x ≠ .char ';') (xs : List Lexeme) :
    segments (x :: xs) = (segments xs).modifyHead (x.text ++ ·) := by
  have hno : ¬ decide (x = .char ';') = true := by simpa using hx
  rw [segments, segments, List.splitOnP_cons_eq_if_modifyHead, if_neg hno]
  cases xs.splitOnP (· = .char ';') with
  | nil => rfl
  | cons y ys => rfl

theorem splitFrom_open (m : Span) (g : Segment) (s : List Char) :
    splitFrom .code g (m.opener ++ s) = splitFrom m.inside (m.opener.foldl Segment.push g) s := by
  cases m with
  | quoted q => cases q <;> rfl
  | line => rfl
  | block => rfl

theorem splitFrom_stay {c : Char} (h : ¬ m.closer <+: c :: s) (g : Segment) :
    splitFrom m.inside g (c :: s) = splitFrom m.inside (g.push c) s := by
  cases m with
  | quoted q =>
    have hc : c ≠ q.char := fun heq => h ⟨s, by rw [heq]; rfl⟩
    rw [Span.inside, splitFrom, if_neg hc]
  | line =>
    have hc : c ≠ '\n' := fun heq => h ⟨s, by rw [heq]; rfl⟩
    rw [Span.inside, splitFrom, if_neg hc]
  | block =>
    rw [Span.inside, splitFrom]
    rintro t rfl rfl
    exact h ⟨t, rfl⟩

theorem splitFrom_close (m : Span) (g : Segment) (s : List Char) :
    splitFrom m.inside g (m.closer ++ s) = splitFrom .code (m.closer.foldl Segment.push g) s := by
  cases m with
  | quoted q => cases q <;> rfl
  | line => rfl
  | block => rfl

theorem splitFrom_body {body : List Char} (h : Lib.FirstAt m.closer body) (g : Segment)
    (s : List Char) :
    splitFrom m.inside g (body ++ m.closer ++ s) =
      splitFrom m.inside (body.foldl Segment.push g) (m.closer ++ s) := by
  induction body generalizing g with
  | nil => rfl
  | cons c body ih =>
    calc splitFrom m.inside g (c :: (body ++ m.closer ++ s))
        = splitFrom m.inside (g.push c) (body ++ m.closer ++ s) :=
          splitFrom_stay (h.not_prefix s) g
      _ = splitFrom m.inside ((c :: body).foldl Segment.push g) (m.closer ++ s) := ih h.tail _

theorem splitFrom_rest {body : List Char} (h : ¬ m.closer <:+: body) (g : Segment) :
    splitFrom m.inside g body = (body.foldl Segment.push g).flush := by
  induction body generalizing g with
  | nil => cases m <;> rfl
  | cons c body ih =>
    have hhere : ¬ m.closer <+: c :: body := fun hp => h hp.isInfix
    have hlater : ¬ m.closer <:+: body := fun hin => h (List.infix_cons hin)
    rw [splitFrom_stay hhere, ih hlater]
    rfl

theorem splitFrom_char {c : Char} (h : (Lexeme.char c).Stands s) (hc : c ≠ ';') (g : Segment) :
    splitFrom .code g (c :: s) = splitFrom .code (g.push c) s := by
  have hq : Quote.of c = none := by
    rw [Quote.of, List.find?_eq_none]
    intro q _ hqc
    refine h (.quoted q) ⟨s, ?_⟩
    rw [Span.opener, of_decide_eq_true hqc]
    rfl
  rw [splitFrom, hq]
  · exact if_neg hc
  · rintro t rfl rfl
    exact h .line ⟨t, rfl⟩
  · rintro t rfl rfl
    exact h .block ⟨t, rfl⟩

/-- Every lexeme but a separator is read into the segment. -/
theorem splitFrom_lexeme (hx : x.Stands s) (hsplit : x ≠ .char ';') (g : Segment) :
    splitFrom .code g (x.text ++ s) = splitFrom .code (x.text.foldl Segment.push g) s := by
  cases x with
  | char c => exact splitFrom_char hx (fun heq => hsplit (congrArg Lexeme.char heq)) g
  | span m body closed =>
    rw [Lexeme.text, List.append_assoc, splitFrom_open, List.foldl_append, List.foldl_append]
    cases closed with
    | true => rw [if_pos rfl, splitFrom_body hx, splitFrom_close]
    | false =>
      obtain ⟨hno, rfl⟩ := hx
      rw [if_neg Bool.false_ne_true, List.append_nil, List.append_nil, splitFrom_rest hno]
      rfl

theorem splitFrom_lexed (h : Lexed xs s) (before p : List Char) :
    splitFrom .code (Segment.of before p) s =
      statementsOf before ((segments xs).modifyHead (p ++ ·)) := by
  induction h generalizing before p with
  | nil =>
    have hone : (segments []).modifyHead (p ++ ·) = [p] := congrArg (· :: []) (List.append_nil p)
    rw [splitFrom, Segment.of_flush, hone]
    exact (List.append_nil _).symm
  | @cons x xs s hx hxs ih =>
    by_cases hsplit : x = .char ';'
    · subst hsplit
      have hhead : (segments (.char ';' :: xs)).modifyHead (p ++ ·) = p :: segments xs := by
        rw [segments_split, List.modifyHead_cons, List.append_nil]
      have hself : (segments xs).modifyHead ([] ++ ·) = segments xs := Lib.complete_nil _
      have hrest := ih (before ++ p ++ [';']) []
      rw [hself] at hrest
      have hnl : ';' ≠ '\n' := by decide
      calc splitFrom .code (Segment.of before p) (';' :: s)
          = (Segment.of before p).flush ++ splitFrom .code (Segment.of before p).next s := rfl
        _ = statementAt before p ++ statementsOf (before ++ p ++ [';']) (segments xs) := by
          rw [Segment.of_next, Segment.of_skip (before ++ p) hnl, hrest, Segment.of_flush]
        _ = _ := by
          rw [hhead]
          rfl
    · have hhead : (segments (x :: xs)).modifyHead (p ++ ·) =
          (segments xs).modifyHead (p ++ x.text ++ ·) := by
        rw [segments_cons hsplit, List.modifyHead_modifyHead]
        congr 1
        funext t
        exact (List.append_assoc p x.text t).symm
      rw [hhead, splitFrom_lexeme hx hsplit, Segment.of_pushes]
      exact ih before (p ++ x.text)

/-- Every text has one reading, and its statements are the segments between the separators of
it. -/
theorem split_statements_lexed (text : String) :
    (∃! xs, Lexed xs text.toList) ∧
      ∀ xs, Lexed xs text.toList → splitStatements text = statementsOf [] (segments xs) := by
  obtain ⟨xs, hxs⟩ := exists_lexed text.toList
  refine ⟨⟨xs, hxs, fun ys hys => hys.unique hxs⟩, fun ys hys => ?_⟩
  have hself : (segments ys).modifyHead ([] ++ ·) = segments ys := Lib.complete_nil _
  have hsplit := splitFrom_lexed hys [] []
  rwa [hself] at hsplit

end LvimDb.Editor
