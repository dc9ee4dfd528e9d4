import Mathlib.Data.List.Chain
import Mathlib.Tactic.Cases

/-!
# JSON texts

The grammar of JSON over tokens. A tree keeps what its numbers and strings are spelled like, so
that a text is its tree up to the blanks between tokens.
-/

namespace Lib.Json

def IsBlank (c : Char) : Prop := c = ' ' ∨ c = '\n' ∨ c = '\t' ∨ c = '\r'

/-! ### Tokens -/

def IsDigits (w : List Char) : Prop := w ≠ [] ∧ ∀ c ∈ w, c.isDigit = true

/-- `int`: there is no zero in front. -/
def IsInt (w : List Char) : Prop := IsDigits w ∧ (w.head? = some '0' → w = ['0'])

/-- `frac`. -/
def IsFrac (w : List Char) : Prop := w = [] ∨ ∃ ds, IsDigits ds ∧ w = '.' :: ds

/-- `exp`. -/
def IsExp (w : List Char) : Prop :=
  w = [] ∨ ∃ e sign ds, (e = 'e' ∨ e = 'E') ∧ (sign = [] ∨ sign = ['+'] ∨ sign = ['-']) ∧
    IsDigits ds ∧ w = e :: (sign ++ ds)

def IsNumber (w : List Char) : Prop :=
  ∃ minus int frac exp, (minus = [] ∨ minus = ['-']) ∧ IsInt int ∧ IsFrac frac ∧ IsExp exp ∧
    w = minus ++ (int ++ (frac ++ exp))

def IsLiteral (w : List Char) : Prop :=
  w = ['t', 'r', 'u', 'e'] ∨ w = ['f', 'a', 'l', 's', 'e'] ∨ w = ['n', 'u', 'l', 'l']

def IsHex (c : Char) : Prop := c.isDigit = true ∨ 'a' ≤ c ∧ c ≤ 'f' ∨ 'A' ≤ c ∧ c ≤ 'F'

/-- What stands between the quotes of a string. -/
inductive IsBody : List Char → Prop
  | nil : IsBody []
  | char {c : Char} {w : List Char} (plain : c ≠ '"' ∧ c ≠ '\\' ∧ ' ' ≤ c) (rest : IsBody w) :
    IsBody (c :: w)
  | escape {c : Char} {w : List Char} (known : c ∈ ['"', '\\', '/', 'b', 'f', 'n', 'r', 't'])
    (rest : IsBody w) : IsBody ('\\' :: c :: w)
  | unicode {a b c d : Char} {w : List Char} (hex : ∀ x ∈ [a, b, c, d], IsHex x)
    (rest : IsBody w) : IsBody ('\\' :: 'u' :: a :: b :: c :: d :: w)

/-- A number or a literal. -/
structure Word where
  text : List Char
  valid : IsNumber text ∨ IsLiteral text

structure Str where
  body : List Char
  valid : IsBody body

def Str.text (b : Str) : List Char := '"' :: (b.body ++ ['"'])

inductive Mark
  | openArr
  | closeArr
  | openObj
  | closeObj
  | comma
  | colon
  deriving DecidableEq, Repr

def Mark.char : Mark → Char
  | openArr => '['
  | closeArr => ']'
  | openObj => '{'
  | closeObj => '}'
  | comma => ','
  | colon => ':'

inductive Token
  | word (w : Word)
  | str (b : Str)
  | mark (m : Mark)

def Token.text : Token → List Char
  | word w => w.text
  | str b => b.text
  | mark m => [m.char]

/-! ### Trees -/

inductive Part
  | value
  | items
  | members

/-- A derivation in the grammar. -/
inductive Tree : Part → Type
  | word (w : Word) : Tree .value
  | str (b : Str) : Tree .value
  | emptyArr : Tree .value
  | arr (items : Tree .items) : Tree .value
  | emptyObj : Tree .value
  | obj (members : Tree .members) : Tree .value
  | item (v : Tree .value) : Tree .items
  | itemMore (v : Tree .value) (rest : Tree .items) : Tree .items
  | member (key : Str) (v : Tree .value) : Tree .members
  | memberMore (key : Str) (v : Tree .value) (rest : Tree .members) : Tree .members

abbrev Value := Tree .value

namespace Tree

def tokens {p : Part} : Tree p → List Token
  | word w => [.word w]
  | str b => [.str b]
  | emptyArr => [.mark .openArr, .mark .closeArr]
  | arr items => .mark .openArr :: (items.tokens ++ [.mark .closeArr])
  | emptyObj => [.mark .openObj, .mark .closeObj]
  | obj members => .mark .openObj :: (members.tokens ++ [.mark .closeObj])
  | item v => v.tokens
  | itemMore v rest => v.tokens ++ .mark .comma :: rest.tokens
  | member key v => .str key :: .mark .colon :: v.tokens
  | memberMore key v rest => .str key :: .mark .colon :: (v.tokens ++ .mark .comma :: rest.tokens)

end Tree

/-- The text is the words with blanks before, between and after them. -/
inductive Spaced : List (List Char) → List Char → Prop
  | nil {pad : List Char} (blank : ∀ c ∈ pad, IsBlank c) : Spaced [] pad
  | cons {pad w s : List Char} {ws : List (List Char)} (blank : ∀ c ∈ pad, IsBlank c)
    (rest : Spaced ws s) : Spaced (w :: ws) (pad ++ (w ++ s))

/-- The text is JSON, and this is its value. -/
def IsText (s : List Char) (v : Value) : Prop := Spaced (v.tokens.map Token.text) s

variable {p : Part} {c : Char} {ts us : List Token}

/-! ### The characters of words -/

/-- The characters of numbers and literals. -/
def IsWordChar (c : Char) : Prop :=
  c.isDigit = true ∨
    c ∈ ['+', '-', '.', 'e', 'E', 't', 'r', 'u', 'f', 'a', 'l', 's', 'n']

theorem IsDigits.wordChar {w : List Char} (h : IsDigits w) : ∀ c ∈ w, IsWordChar c :=
  fun c hc => .inl (h.2 c hc)

theorem IsFrac.wordChar {w : List Char} (h : IsFrac w) : ∀ c ∈ w, IsWordChar c := by
  obtain rfl | ⟨ds, hds, rfl⟩ := h
  · exact fun c hc => absurd hc List.not_mem_nil
  · exact List.forall_mem_cons.mpr ⟨.inr (by decide), hds.wordChar⟩

theorem IsExp.wordChar {w : List Char} (h : IsExp w) : ∀ c ∈ w, IsWordChar c := by
  obtain rfl | ⟨e, sign, ds, he, hsign, hds, rfl⟩ := h
  · exact fun c hc => absurd hc List.not_mem_nil
  · have hE : IsWordChar e := by rcases he with rfl | rfl <;> exact .inr (by decide)
    have hS : ∀ c ∈ sign, IsWordChar c := by
      rcases hsign with rfl | rfl | rfl <;> intro c hc
      · exact absurd hc List.not_mem_nil
      · exact .inr (by rw [List.mem_singleton.mp hc]; decide)
      · exact .inr (by rw [List.mem_singleton.mp hc]; decide)
    exact List.forall_mem_cons.mpr ⟨hE, List.forall_mem_append.mpr ⟨hS, hds.wordChar⟩⟩

theorem Word.wordChar (w : Word) : ∀ c ∈ w.text, IsWordChar c := by
  rcases w.valid with ⟨minus, int, frac, exp, hminus, hint, hfrac, hexp, htext⟩ | hlit
  · have hM : ∀ c ∈ minus, IsWordChar c := by
      rcases hminus with rfl | rfl <;> intro c hc
      · exact absurd hc List.not_mem_nil
      · exact .inr (by rw [List.mem_singleton.mp hc]; decide)
    rw [htext]
    exact List.forall_mem_append.mpr ⟨hM, List.forall_mem_append.mpr ⟨hint.1.wordChar,
      List.forall_mem_append.mpr ⟨hfrac.wordChar, hexp.wordChar⟩⟩⟩
  · have hsub : w.text ⊆ ['+', '-', '.', 'e', 'E', 't', 'r', 'u', 'f', 'a', 'l', 's', 'n'] := by
      rcases hlit with h | h | h <;> rw [h] <;> decide
    exact fun c hc => .inr (hsub hc)

theorem Word.ne (w : Word) : w.text ≠ [] := by
  rcases w.valid with ⟨minus, int, frac, exp, -, hint, -, -, htext⟩ | hlit
  · rw [htext]
    exact List.append_ne_nil_of_right_ne_nil _ (List.append_ne_nil_of_left_ne_nil hint.1.1 _)
  · rcases hlit with h | h | h <;> rw [h] <;> exact List.cons_ne_nil _ _

theorem not_wordChar_mark (m : Mark) : ¬ IsWordChar m.char := by
  cases m <;> simp [IsWordChar, Mark.char]

theorem not_wordChar_quote : ¬ IsWordChar '"' := by simp [IsWordChar]

theorem IsHex.plain (h : IsHex c) : c ≠ '"' ∧ c ≠ '\\' := by
  constructor <;> rintro rfl <;> revert h <;> simp [IsHex]

/-- A token is known from its text. -/
theorem Token.text_inj {t u : Token} (h : t.text = u.text) : t = u := by
  have hword : ∀ {w : Word} {c : Char} {cs : List Char}, ¬ IsWordChar c → w.text ≠ c :: cs :=
    fun {w} {c} {cs} hc heq => hc (w.wordChar c (by rw [heq]; exact List.mem_cons_self ..))
  have hmark : ∀ m : Mark, m.char ≠ '"' := fun m => by cases m <;> decide
  cases t with
  | word w =>
    cases u with
    | word w' =>
      obtain ⟨_, _⟩ := w
      obtain ⟨_, _⟩ := w'
      cases h
      rfl
    | str b => exact absurd h (hword not_wordChar_quote)
    | mark m => exact absurd h (hword (not_wordChar_mark m))
  | str b =>
    cases u with
    | word w => exact absurd h.symm (hword not_wordChar_quote)
    | str b' =>
      obtain ⟨body, _⟩ := b
      obtain ⟨body', _⟩ := b'
      obtain rfl : body = body' := List.append_cancel_right (List.cons.inj h).2
      rfl
    | mark m => exact absurd (List.cons.inj h).1.symm (hmark m)
  | mark m =>
    cases u with
    | word w => exact absurd h.symm (hword (not_wordChar_mark m))
    | str b => exact absurd (List.cons.inj h).1 (hmark m)
    | mark m' =>
      have hchar := (List.cons.inj h).1
      cases m <;> cases m' <;> first | rfl | exact absurd hchar (by decide)

theorem Spaced.blank {ws : List (List Char)} {s : List Char} (hc : IsBlank c) (h : Spaced ws s) :
    Spaced ws (c :: s) := by
  cases h with
  | nil blank => exact .nil (List.forall_mem_cons.mpr ⟨hc, blank⟩)
  | cons blank rest => exact .cons (List.forall_mem_cons.mpr ⟨hc, blank⟩) rest

theorem Spaced.next {ws : List (List Char)} {s : List Char} (h : Spaced ws s) (w : List Char) :
    Spaced (w :: ws) (w ++ s) := by
  have hnone : ∀ c ∈ ([] : List Char), IsBlank c := fun c hc => absurd hc List.not_mem_nil
  exact .cons hnone h

/-! ### A tree is known from its tokens -/

namespace Tree

theorem tokens_head (t : Tree p) :
    ∃ x xs, t.tokens = x :: xs ∧ x ≠ .mark .closeArr ∧ x ≠ .mark .closeObj := by
  induction t with
  | word w => exact ⟨_, _, rfl, nofun, nofun⟩
  | str b => exact ⟨_, _, rfl, nofun, nofun⟩
  | emptyArr => exact ⟨_, _, rfl, nofun, nofun⟩
  | arr items _ => exact ⟨_, _, rfl, nofun, nofun⟩
  | emptyObj => exact ⟨_, _, rfl, nofun, nofun⟩
  | obj members _ => exact ⟨_, _, rfl, nofun, nofun⟩
  | item v ih => exact ih
  | itemMore v rest ih _ =>
    obtain ⟨x, xs, hx, hne⟩ := ih
    exact ⟨x, xs ++ .mark .comma :: rest.tokens, by rw [tokens, hx]; rfl, hne⟩
  | member key v _ => exact ⟨_, _, rfl, nofun, nofun⟩
  | memberMore key v rest _ _ => exact ⟨_, _, rfl, nofun, nofun⟩

theorem tokens_not_close {m : Mark} (hm : m = .closeArr ∨ m = .closeObj) (t : Tree p) :
    .mark m :: ts ≠ t.tokens ++ us := by
  obtain ⟨x, xs, hx, harr, hobj⟩ := t.tokens_head
  intro h
  rw [hx] at h
  obtain ⟨rfl, -⟩ := List.cons.inj h
  rcases hm with rfl | rfl
  · exact harr rfl
  · exact hobj rfl

/-- Items and members end where no comma follows. -/
def Ends : Part → List Token → Prop
  | .value, _ => True
  | _, ts => ts.head? ≠ some (.mark .comma)

/-- No tree is the beginning of another one. -/
theorem tokens_append_inj {t t' : Tree p} (hts : Ends p ts) (hus : Ends p us)
    (h : t.tokens ++ ts = t'.tokens ++ us) : t = t' ∧ ts = us := by
  induction t generalizing ts us with
  | word w =>
    cases t' <;> simp [tokens] at h
    exact ⟨by rw [h.1], h.2⟩
  | str b =>
    cases t' <;> simp [tokens] at h
    exact ⟨by rw [h.1], h.2⟩
  | emptyArr =>
    cases t' <;> simp [tokens] at h
    · exact ⟨rfl, h⟩
    · exact absurd h (tokens_not_close (.inl rfl) _)
  | arr items ih =>
    cases t' <;> simp [tokens] at h
    · exact absurd h.symm (tokens_not_close (.inl rfl) _)
    · obtain ⟨rfl, htail⟩ := ih (by simp [Ends]) (by simp [Ends]) h
      exact ⟨rfl, (List.cons.inj htail).2⟩
  | emptyObj =>
    cases t' <;> simp [tokens] at h
    · exact ⟨rfl, h⟩
    · exact absurd h (tokens_not_close (.inr rfl) _)
  | obj members ih =>
    cases t' <;> simp [tokens] at h
    · exact absurd h.symm (tokens_not_close (.inr rfl) _)
    · obtain ⟨rfl, htail⟩ := ih (by simp [Ends]) (by simp [Ends]) h
      exact ⟨rfl, (List.cons.inj htail).2⟩
  | item v ih =>
    cases t' with
    | item v' =>
      obtain ⟨rfl, htail⟩ := ih trivial trivial h
      exact ⟨rfl, htail⟩
    | itemMore v' rest' =>
      rw [tokens, tokens, List.append_assoc] at h
      obtain ⟨rfl, rfl⟩ := ih trivial trivial h
      exact absurd rfl hts
  | itemMore v rest ihv ihr =>
    cases t' with
    | item v' =>
      rw [tokens, tokens, List.append_assoc] at h
      obtain ⟨rfl, rfl⟩ := ihv trivial trivial h
      exact absurd rfl hus
    | itemMore v' rest' =>
      rw [tokens, tokens, List.append_assoc, List.append_assoc] at h
      obtain ⟨rfl, htail⟩ := ihv trivial trivial h
      obtain ⟨rfl, hrest⟩ := ihr hts hus (List.cons.inj htail).2
      exact ⟨rfl, hrest⟩
  | member key v ih =>
    cases t' with
    | member key' v' =>
      simp only [tokens, List.cons_append, List.cons.injEq, Token.str.injEq, true_and] at h
      obtain ⟨rfl, hv⟩ := h
      obtain ⟨rfl, hrest⟩ := ih trivial trivial hv
      exact ⟨rfl, hrest⟩
    | memberMore key' v' rest' =>
      simp only [tokens, List.cons_append, List.append_assoc, List.cons.injEq, true_and] at h
      obtain ⟨rfl, rfl⟩ := ih trivial trivial h.2
      exact absurd rfl hts
  | memberMore key v rest ihv ihr =>
    cases t' with
    | member key' v' =>
      simp only [tokens, List.cons_append, List.append_assoc, List.cons.injEq, true_and] at h
      obtain ⟨rfl, rfl⟩ := ihv trivial trivial h.2
      exact absurd rfl hus
    | memberMore key' v' rest' =>
      simp only [tokens, List.cons_append, List.append_assoc, List.cons.injEq, Token.str.injEq,
        true_and] at h
      obtain ⟨rfl, hv⟩ := h
      obtain ⟨rfl, hmore⟩ := ihv trivial trivial hv
      obtain ⟨rfl, hrest⟩ := ihr hts hus (List.cons.inj hmore).2
      exact ⟨rfl, hrest⟩

theorem tokens_inj {t t' : Tree p} (h : t.tokens = t'.tokens) : t = t' := by
  have hends : Ends p [] := by cases p <;> first | trivial | nofun
  exact (tokens_append_inj hends hends (congrArg (· ++ []) h)).1

end Tree

/-! ### Nesting -/

/-- How deep in braces one is after the tokens, unless they close a brace that is not theirs. -/
def depth : ℕ → List Token → Option ℕ
  | d, [] => some d
  | d, .mark .openObj :: ts => depth (d + 1) ts
  | 0, .mark .closeObj :: _ => none
  | d + 1, .mark .closeObj :: ts => depth d ts
  | d, _ :: ts => depth d ts

theorem Tree.depth_tokens (t : Tree p) (d : ℕ) (ts : List Token) :
    depth d (t.tokens ++ ts) = depth d ts := by
  induction t generalizing d ts with
  | word w => rfl
  | str b => rfl
  | emptyArr => rfl
  | arr items ih =>
    rw [tokens, List.cons_append, List.append_assoc]
    exact ih d _
  | emptyObj => rfl
  | obj members ih =>
    rw [tokens, List.cons_append, List.append_assoc]
    exact ih (d + 1) _
  | item v ih => exact ih d ts
  | itemMore v rest ihv ihr =>
    rw [tokens, List.append_assoc, ihv]
    exact ihr d ts
  | member key v ih => exact ih d ts
  | memberMore key v rest ihv ihr =>
    rw [tokens, List.cons_append, List.cons_append, List.append_assoc]
    exact (ihv d _).trans (ihr d ts)

/-! ### Words stand apart -/

def Token.IsWord : Token → Prop
  | .word _ => True
  | _ => False

/-- No word comes directly after another one. -/
def Apart (ts : List Token) : Prop := ts.IsChain fun a b => ¬ (a.IsWord ∧ b.IsWord)

theorem Apart.mark (hts : Apart ts) (hus : Apart us) (m : Mark) :
    Apart (ts ++ .mark m :: us) := by
  refine List.isChain_append.mpr ⟨hts, List.isChain_cons.mpr ⟨?_, hus⟩, ?_⟩
  · exact fun y _ hword => hword.1
  · rintro x - y hy ⟨-, hword⟩
    cases hy
    exact hword

theorem Tree.apart (t : Tree p) : Apart t.tokens := by
  induction t with
  | word w => exact List.isChain_singleton _
  | str b => exact List.isChain_singleton _
  | emptyArr => exact @Apart.mark [] _ .nil (.singleton _) .openArr
  | arr items ih => exact @Apart.mark [] _ .nil (ih.mark .nil .closeArr) .openArr
  | emptyObj => exact @Apart.mark [] _ .nil (.singleton _) .openObj
  | obj members ih => exact @Apart.mark [] _ .nil (ih.mark .nil .closeObj) .openObj
  | item v ih => exact ih
  | itemMore v rest ihv ihr => exact ihv.mark ihr .comma
  | member key v ih => exact @Apart.mark [.str key] _ (.singleton _) ih .colon
  | memberMore key v rest ihv ihr =>
    exact @Apart.mark [.str key] _ (.singleton _) (ihv.mark ihr .comma) .colon

end Lib.Json
