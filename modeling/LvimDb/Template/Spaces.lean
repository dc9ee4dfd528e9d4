import LvimDb.Editor.RunAll
import LvimDb.Lib.Replace

/-!
# Filling a template, its spaces

`plain` and `collapse_spaces` of proto.lua, on texts whose elements are read as characters.
-/

namespace LvimDb.Template
open Lib (isSpace)

/-- `plain` (176-188). -/
def plain (s needle repl : String) : String :=
  String.ofList (Lib.replace id needle.toList repl.toList s.toList)

def isQuote (c : Char) : Bool := c == '\'' || c == '"'

section
variable {α : Type*} (f : α → Char) (ink : Char → α)

/-- The loop of `collapse_spaces` (199-221), with the open quote and `last_space`. -/
def squeeze : Option Char → Bool → List α → List α
  | _, _, [] => []
  | some q, last, c :: s => c :: squeeze (if f c = q then none else some q) last s
  | none, last, c :: s =>
    if isQuote (f c) then c :: squeeze (some (f c)) false s
    else if f c = ' ' then
      if last then squeeze none true s else c :: squeeze none true s
    else c :: squeeze none false s

/-- `collapse_spaces`. -/
def collapse (s : List α) : List α :=
  Lib.strip (fun c => isSpace (f c))
    (Lib.replace f [' ', ';'] [ink ';'] (squeeze f none false s))

end

/-- `collapse_spaces` (198-224). -/
def collapseSpaces (s : String) : String := String.ofList (collapse id id s.toList)

/-! ### Quoted segments -/

/-- The open quote behind a character. -/
def quoteStep (q : Option Char) (c : Char) : Option Char :=
  match q with
  | some q => if c = q then none else some q
  | none => if isQuote c then some c else none

/-- No quote is open at the end. -/
def Balanced (s : List Char) : Prop := s.foldl quoteStep none = none

instance (s : List Char) : Decidable (Balanced s) := inferInstanceAs (Decidable (_ = _))

/-- A character outside the quotes, or a quoted segment. -/
inductive Piece
  | bare (c : Char) (hc : isQuote c = false)
  | quoted (q : Char) (body : List Char) (hq : isQuote q = true) (hbody : q ∉ body)

namespace Piece

def text : Piece → List Char
  | bare c _ => [c]
  | quoted q body _ _ => q :: (body ++ [q])

/-- A quoted segment, quotes included. -/
def literal : Piece → Option (List Char)
  | bare .. => none
  | p@(quoted ..) => some p.text

/-- A character outside the quotes. -/
def outside : Piece → Option Char
  | bare c _ => some c
  | quoted .. => none

end Piece

def spell (ps : List Piece) : List Char := ps.flatMap Piece.text

theorem spell_cons (p : Piece) (ps : List Piece) : spell (p :: ps) = p.text ++ spell ps := rfl

def literals (ps : List Piece) : List (List Char) := ps.filterMap Piece.literal

/-- The text outside the quotes, with a mark for every quoted segment. -/
def outline (ps : List Piece) : List (Option Char) := ps.map Piece.outside

/-- The one without some of the spaces of the other. -/
inductive Despaced : List (Option Char) → List (Option Char) → Prop
  | nil : Despaced [] []
  | keep {a b : List (Option Char)} (x : Option Char) : Despaced a b → Despaced (x :: a) (x :: b)
  | drop {a b : List (Option Char)} : Despaced a b → Despaced (some ' ' :: a) b

/-- Whitespace, and no quoted segment. -/
def Blank (a : List (Option Char)) : Prop := ∀ x ∈ a, ∃ c, x = some c ∧ isSpace c = true

/-- The quoted segments stay, and what is outside loses spaces and the whitespace at its ends. -/
def Kept (ps : List Piece) (out : List Char) : Prop :=
  ∃ ps', spell ps' = out ∧ literals ps' = literals ps ∧
    ∃ lead mid trail, outline ps = lead ++ mid ++ trail ∧ Blank lead ∧ Blank trail ∧
      Despaced mid (outline ps')

/-- No quoted segment has a space before a semicolon. -/
def Safe (ps : List Piece) : Prop := ∀ t ∈ literals ps, ¬ [' ', ';'] <:+: t

theorem balanced_from (s : List Char) :
    (s.foldl quoteStep none = none → ∃ ps, spell ps = s) ∧
      ∀ q, isQuote q = true → s.foldl quoteStep (some q) = none →
        ∃ body ps, s = body ++ q :: spell ps ∧ q ∉ body := by
  induction s with
  | nil => exact ⟨fun _ => ⟨[], rfl⟩, fun q _ h => by cases h⟩
  | cons c s ih =>
    refine ⟨fun h => ?_, fun q hq h => ?_⟩
    · rw [List.foldl_cons, quoteStep] at h
      by_cases hc : isQuote c = true
      · rw [if_pos hc] at h
        obtain ⟨body, ps, rfl, hbody⟩ := ih.2 c hc h
        exact ⟨.quoted c body hc hbody :: ps, by simp [spell, Piece.text]⟩
      · rw [if_neg hc] at h
        obtain ⟨ps, rfl⟩ := ih.1 h
        exact ⟨.bare c (Bool.eq_false_iff.mpr hc) :: ps, rfl⟩
    · rw [List.foldl_cons, quoteStep] at h
      by_cases hc : c = q
      · subst hc
        rw [if_pos rfl] at h
        obtain ⟨ps, rfl⟩ := ih.1 h
        exact ⟨[], ps, rfl, List.not_mem_nil⟩
      · rw [if_neg hc] at h
        obtain ⟨body, ps, rfl, hbody⟩ := ih.2 q hq h
        refine ⟨c :: body, ps, rfl, fun hmem => ?_⟩
        rcases List.mem_cons.mp hmem with rfl | hmem
        · exact hc rfl
        · exact hbody hmem

/-- What balances is made of pieces. -/
theorem Balanced.pieces {s : List Char} (h : Balanced s) : ∃ ps, spell ps = s :=
  (balanced_from s).1 h

theorem cons_inj_quote {q : Char} {x y u v : List Char} (hx : q ∉ x) (hu : q ∉ u)
    (h : x ++ q :: y = u ++ q :: v) : x = u ∧ y = v := by
  have hxu : x = u := Lib.cons_inj_of_not_mem hx hu h
  subst hxu
  exact ⟨rfl, (List.cons.inj (List.append_cancel_left h)).2⟩

/-- A text is cut into pieces in one way. -/
theorem spell_injective {ps ps' : List Piece} (h : spell ps = spell ps') : ps = ps' := by
  induction ps generalizing ps' with
  | nil =>
    cases ps' with
    | nil => rfl
    | cons p ps' => cases p <;> cases h
  | cons p ps ih =>
    cases ps' with
    | nil => cases p <;> cases h
    | cons p' ps' =>
      rw [spell_cons, spell_cons] at h
      cases p with
      | bare c hc =>
        cases p' with
        | bare d hd =>
          obtain ⟨rfl, htail⟩ := List.cons.inj h
          rw [ih htail]
        | quoted q body hq hbody =>
          obtain ⟨rfl, _⟩ := List.cons.inj h
          rw [hc] at hq
          cases hq
      | quoted q body hq hbody =>
        cases p' with
        | bare d hd =>
          obtain ⟨rfl, _⟩ := List.cons.inj h
          rw [hd] at hq
          cases hq
        | quoted q' body' hq' hbody' =>
          simp only [Piece.text, List.cons_append, List.append_assoc, List.cons.injEq,
            List.nil_append] at h
          obtain ⟨rfl, hrest⟩ := h
          obtain ⟨rfl, htail⟩ := cons_inj_quote hbody hbody' hrest
          rw [ih htail]

/-! ### The squeeze on pieces -/

def squeezed : Bool → List Piece → List Piece
  | _, [] => []
  | _, p@(.quoted ..) :: ps => p :: squeezed false ps
  | last, p@(.bare c _) :: ps =>
    if c = ' ' then if last then squeezed true ps else p :: squeezed true ps
    else p :: squeezed false ps

theorem squeeze_body {q : Char} {body : List Char} (h : q ∉ body) (last : Bool) (s : List Char) :
    squeeze id (some q) last (body ++ q :: s) = body ++ q :: squeeze id none last s := by
  induction body with
  | nil => simp [squeeze]
  | cons c body ih =>
    have hc : c ≠ q := fun heq => h (heq ▸ List.mem_cons_self)
    rw [List.cons_append, squeeze, id_eq, if_neg hc, ih fun hmem => h (List.mem_cons_of_mem c hmem)]
    rfl

theorem squeeze_spell (last : Bool) (ps : List Piece) :
    squeeze id none last (spell ps) = spell (squeezed last ps) := by
  induction ps generalizing last with
  | nil => rfl
  | cons p ps ih =>
    cases p with
    | bare c hc =>
      have hc' : ¬ isQuote (id c) = true := Bool.eq_false_iff.mp hc
      have hspell : spell (.bare c hc :: ps) = c :: spell ps := rfl
      rw [hspell, squeeze, if_neg hc', squeezed, id_eq]
      by_cases hsp : c = ' '
      · rw [if_pos hsp, if_pos hsp]
        cases last with
        | true => exact ih true
        | false =>
          rw [if_neg Bool.false_ne_true, if_neg Bool.false_ne_true, ih true]
          rfl
      · rw [if_neg hsp, if_neg hsp, ih false]
        rfl
    | quoted q body hq hbody =>
      have hspell : ∀ ps, spell (.quoted q body hq hbody :: ps) = q :: (body ++ q :: spell ps) := by
        intro ps
        simp [spell, Piece.text]
      have hq' : isQuote (id q) = true := hq
      rw [hspell, squeeze, if_pos hq', squeezed, hspell, ← ih false]
      exact congrArg (q :: ·) (squeeze_body hbody false (spell ps))

theorem literals_squeezed (last : Bool) (ps : List Piece) : literals (squeezed last ps) = literals ps := by
  induction ps generalizing last with
  | nil => rfl
  | cons p ps ih =>
    cases p with
    | bare c hc =>
      rw [squeezed]
      split
      · split
        · exact ih true
        · exact ih true
      · exact ih false
    | quoted q body hq hbody =>
      rw [squeezed]
      exact congrArg (Piece.text _ :: ·) (ih false)

theorem Despaced.refl (a : List (Option Char)) : Despaced a a := by
  induction a with
  | nil => exact .nil
  | cons x a ih => exact .keep x ih

theorem despaced_squeezed (last : Bool) (ps : List Piece) :
    Despaced (outline ps) (outline (squeezed last ps)) := by
  induction ps generalizing last with
  | nil => exact .nil
  | cons p ps ih =>
    cases p with
    | bare c hc =>
      rw [squeezed]
      split
      · rename_i hsp
        subst hsp
        split
        · exact .drop (ih true)
        · exact .keep _ (ih true)
      · exact .keep _ (ih false)
    | quoted q body hq hbody =>
      rw [squeezed]
      exact .keep _ (ih false)

/-! ### The semicolons -/

/-- No space before a semicolon. -/
def tighten : List Char → List Char
  | [] => []
  | c :: s => if c = ' ' ∧ s.head? = some ';' then tighten s else c :: tighten s

theorem replace_tighten (s : List Char) : Lib.replace id [' ', ';'] [';'] s = tighten s := by
  induction hn : s.length using Nat.strong_induction_on generalizing s with
  | _ n ih =>
    cases s with
    | nil => rfl
    | cons c s =>
      rw [List.length_cons] at hn
      by_cases hc : c = ' ' ∧ s.head? = some ';'
      · rw [tighten, if_pos hc]
        obtain ⟨rfl, hs⟩ := hc
        cases s with
        | nil => cases hs
        | cons d s =>
          obtain rfl : d = ';' := Option.some.inj hs
          rw [List.length_cons] at hn
          have hsemi : tighten (';' :: s) = ';' :: tighten s := by
            rw [tighten, if_neg fun h => absurd h.1 (by decide)]
          have hhit : Lib.replace id [' ', ';'] [';'] ([' ', ';'] ++ s) =
              [';'] ++ Lib.replace id [' ', ';'] [';'] s :=
            Lib.replace_hit (List.cons_ne_nil _ _) rfl [';'] s
          rw [hsemi, ← ih s.length (by omega) s rfl]
          exact hhit
      · rw [tighten, if_neg hc, ← ih s.length (by omega) s rfl]
        refine Lib.replace_miss (fun hp => hc ?_) _
        rw [List.map_id] at hp
        obtain ⟨t, ht⟩ := hp
        obtain ⟨rfl, rfl⟩ := List.cons.inj ht
        exact ⟨rfl, rfl⟩

theorem tighten_sublist (s : List Char) : (tighten s).Sublist s := by
  induction s with
  | nil => exact List.Sublist.refl _
  | cons c s ih =>
    rw [tighten]
    split
    · exact ih.cons c
    · exact ih.cons_cons c

/-- A character that is no semicolon parts the text. -/
theorem tighten_append {c : Char} (hc : c ≠ ';') (hsp : c ≠ ' ') (a b : List Char) :
    tighten (a ++ c :: b) = tighten a ++ c :: tighten b := by
  induction a with
  | nil =>
    have hcons : tighten (c :: b) = c :: tighten b := by
      rw [tighten, if_neg fun h => hsp h.1]
    exact hcons
  | cons d a ih =>
    have hhead : (a ++ c :: b).head? = some ';' ↔ a.head? = some ';' := by
      cases a with
      | nil => simp [hc]
      | cons e a => simp
    rw [List.cons_append, tighten, tighten, ih]
    simp only [hhead]
    split
    · rfl
    · rfl

theorem tighten_eq_iff (s : List Char) : tighten s = s ↔ ¬ [' ', ';'] <:+: s := by
  induction s with
  | nil => simp [tighten]
  | cons c s ih =>
    rw [List.infix_cons_iff, tighten]
    by_cases hc : c = ' ' ∧ s.head? = some ';'
    · rw [if_pos hc]
      refine iff_of_false (fun heq => ?_) (not_not_intro (.inl ?_))
      · have hlen := (tighten_sublist s).length_le
        have := congrArg List.length heq
        rw [List.length_cons] at this
        omega
      · obtain ⟨rfl, hs⟩ := hc
        obtain ⟨t, rfl⟩ := List.head?_eq_some_iff.mp hs
        exact ⟨t, rfl⟩
    · rw [if_neg hc, List.cons_inj_right, ih, not_or]
      refine (and_iff_right ?_).symm
      rintro ⟨t, ht⟩
      obtain ⟨rfl, rfl⟩ := List.cons.inj ht
      exact hc ⟨rfl, rfl⟩

/-- A semicolon stands first. -/
def semicolon (ps : List Piece) : Bool := (spell ps).head? == some ';'

/-- The space before a semicolon goes, within the quotes too. -/
def tightened : List Piece → List Piece
  | [] => []
  | p@(.bare c _) :: ps =>
    if c = ' ' ∧ semicolon ps = true then tightened ps else p :: tightened ps
  | .quoted q body hq hbody :: ps =>
    .quoted q (tighten body) hq (fun h => hbody ((tighten_sublist body).subset h)) :: tightened ps

theorem quote_ne {q : Char} (hq : isQuote q = true) : q ≠ ';' ∧ q ≠ ' ' := by
  refine ⟨?_, ?_⟩ <;> rintro rfl <;> revert hq <;> decide

theorem tighten_quoted {q : Char} (hq : isQuote q = true) (body s : List Char) :
    tighten (q :: (body ++ q :: s)) = q :: (tighten body ++ q :: tighten s) := by
  obtain ⟨hsemi, hsp⟩ := quote_ne hq
  have hhead := tighten_append hsemi hsp [] (body ++ q :: s)
  rw [List.nil_append] at hhead
  rw [hhead, tighten_append hsemi hsp body s]
  rfl

theorem tighten_spell (ps : List Piece) : tighten (spell ps) = spell (tightened ps) := by
  induction ps with
  | nil => rfl
  | cons p ps ih =>
    cases p with
    | bare c hc =>
      have hspell : spell (.bare c hc :: ps) = c :: spell ps := rfl
      have hsemi : semicolon ps = true ↔ (spell ps).head? = some ';' := beq_iff_eq
      rw [hspell, tighten, tightened, ih]
      simp only [hsemi]
      split
      · rfl
      · rfl
    | quoted q body hq hbody =>
      have hspell : ∀ (b : List Char) (hb : q ∉ b) (ps : List Piece),
          spell (.quoted q b hq hb :: ps) = q :: (b ++ q :: spell ps) := by
        intro b hb ps
        simp [spell, Piece.text]
      rw [tightened, hspell, hspell, tighten_quoted hq, ih]

theorem literals_tightened (ps : List Piece) :
    literals (tightened ps) = (literals ps).map tighten := by
  induction ps with
  | nil => rfl
  | cons p ps ih =>
    cases p with
    | bare c hc =>
      rw [tightened]
      split
      · exact ih
      · exact ih
    | quoted q body hq hbody =>
      have htext : tighten (q :: (body ++ [q])) = q :: (tighten body ++ [q]) :=
        tighten_quoted hq body []
      have hcons : ∀ (b : List Char) (hb : q ∉ b) (ps : List Piece),
          literals (.quoted q b hq hb :: ps) = (q :: (b ++ [q])) :: literals ps :=
        fun _ _ _ => rfl
      rw [tightened, hcons, hcons, List.map_cons, htext, ih]

theorem despaced_tightened (ps : List Piece) : Despaced (outline ps) (outline (tightened ps)) := by
  induction ps with
  | nil => exact .nil
  | cons p ps ih =>
    cases p with
    | bare c hc =>
      rw [tightened]
      split
      · rename_i hsp
        obtain ⟨rfl, _⟩ := hsp
        exact .drop ih
      · exact .keep _ ih
    | quoted q body hq hbody => exact .keep _ ih

/-! ### The ends -/

def Piece.blank (p : Piece) : Bool := p.outside.any isSpace

theorem quote_not_space {q : Char} (hq : isQuote q = true) : isSpace q = false := by
  have hcases : q = '\'' ∨ q = '"' := by
    simpa [isQuote] using hq
  rcases hcases with rfl | rfl <;> decide

theorem dropWhile_spell (ps : List Piece) :
    (spell ps).dropWhile isSpace = spell (ps.dropWhile Piece.blank) := by
  induction ps with
  | nil => rfl
  | cons p ps ih =>
    cases p with
    | bare c hc =>
      have hspell : spell (.bare c hc :: ps) = c :: spell ps := rfl
      have hblank : (Piece.bare c hc).blank = isSpace c := rfl
      rw [hspell, List.dropWhile_cons, List.dropWhile_cons, hblank]
      split
      · exact ih
      · exact hspell.symm
    | quoted q body hq hbody =>
      have hspell : spell (.quoted q body hq hbody :: ps) = q :: (body ++ [q] ++ spell ps) := rfl
      have hblank : (Piece.quoted q body hq hbody).blank = false := rfl
      rw [hspell, List.dropWhile_cons, List.dropWhile_cons, hblank, quote_not_space hq,
        if_neg Bool.false_ne_true, if_neg Bool.false_ne_true, hspell]

theorem rdropWhile_spell (ps : List Piece) :
    (spell ps).rdropWhile isSpace = spell (ps.rdropWhile Piece.blank) := by
  induction ps using List.reverseRecOn with
  | nil => rfl
  | append_singleton ps p ih =>
    have hspell : spell (ps ++ [p]) = spell ps ++ p.text := by
      simp [spell]
    cases p with
    | bare c hc =>
      have hblank : (Piece.bare c hc).blank = isSpace c := rfl
      have htext : (Piece.bare c hc).text = [c] := rfl
      rw [hspell, htext, List.rdropWhile_concat, List.rdropWhile_concat, hblank]
      split
      · exact ih
      · rw [hspell, htext]
    | quoted q body hq hbody =>
      have hblank : (Piece.quoted q body hq hbody).blank = false := rfl
      have htext : spell ps ++ (Piece.quoted q body hq hbody).text =
          (spell ps ++ q :: body) ++ [q] := by
        simp [Piece.text]
      rw [hspell, htext, List.rdropWhile_concat, List.rdropWhile_concat, hblank,
        quote_not_space hq, if_neg Bool.false_ne_true, if_neg Bool.false_ne_true, hspell, htext]

theorem strip_spell (ps : List Piece) :
    Lib.strip isSpace (spell ps) = spell (Lib.strip Piece.blank ps) := by
  rw [Lib.strip, Lib.strip, dropWhile_spell, rdropWhile_spell]

theorem Despaced.trans {a b c : List (Option Char)} (h : Despaced a b) (h' : Despaced b c) :
    Despaced a c := by
  induction h generalizing c with
  | nil => exact h'
  | keep x _ ih =>
    cases h' with
    | keep _ h' => exact .keep x (ih h')
    | drop h' => exact .drop (ih h')
  | drop _ ih => exact .drop (ih h')

theorem Despaced.split {a x y : List (Option Char)} (h : Despaced a (x ++ y)) :
    ∃ x' y', a = x' ++ y' ∧ Despaced x' x ∧ Despaced y' y := by
  generalize hb : x ++ y = b at h
  induction h generalizing x y with
  | nil =>
    obtain ⟨rfl, rfl⟩ := List.append_eq_nil_iff.mp hb
    exact ⟨[], [], rfl, .nil, .nil⟩
  | @keep a b c h ih =>
    cases x with
    | nil =>
      rw [List.nil_append] at hb
      subst hb
      exact ⟨[], c :: a, rfl, .nil, .keep c h⟩
    | cons d x =>
      obtain ⟨rfl, htail⟩ := List.cons.inj hb
      obtain ⟨x', y', rfl, hx, hy⟩ := ih htail
      exact ⟨d :: x', y', rfl, .keep d hx, hy⟩
  | drop h ih =>
    obtain ⟨x', y', rfl, hx, hy⟩ := ih hb
    exact ⟨some ' ' :: x', y', rfl, .drop hx, hy⟩

theorem Despaced.blank {a b : List (Option Char)} (h : Despaced a b) (hb : Blank b) : Blank a := by
  induction h with
  | nil => exact hb
  | keep x _ ih =>
    intro y hy
    rcases List.mem_cons.mp hy with rfl | hy
    · exact hb y List.mem_cons_self
    · exact ih (fun z hz => hb z (List.mem_cons_of_mem x hz)) y hy
  | drop _ ih =>
    intro y hy
    rcases List.mem_cons.mp hy with rfl | hy
    · exact ⟨' ', rfl, by decide⟩
    · exact ih hb y hy

theorem blank_outline {ps : List Piece} (h : ∀ p ∈ ps, p.blank = true) : Blank (outline ps) := by
  intro x hx
  obtain ⟨p, hp, rfl⟩ := List.mem_map.mp hx
  have hblank := h p hp
  cases p with
  | bare c hc => exact ⟨c, rfl, hblank⟩
  | quoted q body hq hbody => cases hblank

theorem literals_blank {ps : List Piece} (h : ∀ p ∈ ps, p.blank = true) : literals ps = [] := by
  rw [literals, List.filterMap_eq_nil_iff]
  intro p hp
  have hblank := h p hp
  cases p with
  | bare c hc => rfl
  | quoted q body hq hbody => cases hblank

/-! ### What the squeeze keeps -/

theorem collapse_spell (ps : List Piece) :
    collapse id id (spell ps) = spell (Lib.strip Piece.blank (tightened (squeezed false ps))) := by
  rw [← strip_spell, ← tighten_spell, ← squeeze_spell, ← replace_tighten]
  rfl

theorem kept_iff_safe (ps : List Piece) : Kept ps (collapse id id (spell ps)) ↔ Safe ps := by
  obtain ⟨lead, trail, hparts, hlead, htrail⟩ :=
    Lib.strip_parts Piece.blank (tightened (squeezed false ps))
  have hlits : literals (Lib.strip Piece.blank (tightened (squeezed false ps))) =
      (literals ps).map tighten := by
    have happ : ∀ a b, literals (a ++ b) = literals a ++ literals b :=
      fun _ _ => List.filterMap_append
    have hall := congrArg literals hparts
    rw [happ, happ, literals_blank hlead, literals_blank htrail, List.nil_append, List.append_nil,
      literals_tightened, literals_squeezed] at hall
    exact hall.symm
  have hsafe : (literals ps).map tighten = literals ps ↔ Safe ps := by
    have hmap := List.map_inj_left (l := literals ps) (f := tighten) (g := id)
    rw [List.map_id] at hmap
    exact hmap.trans (forall_congr' fun t => forall_congr' fun _ => tighten_eq_iff t)
  rw [← hsafe, ← hlits, collapse_spell]
  constructor
  · rintro ⟨ps', hspell, hsame, _⟩
    rw [← spell_injective hspell, hsame]
  · intro hsame
    have hdesp : Despaced (outline ps) (outline (tightened (squeezed false ps))) :=
      (despaced_squeezed false ps).trans (despaced_tightened _)
    rw [hparts] at hdesp
    simp only [outline, List.map_append, List.append_assoc] at hdesp
    obtain ⟨lead', rest, hsplit, hl, hrest⟩ := hdesp.split
    obtain ⟨mid, trail', rfl, hm, ht⟩ := hrest.split
    refine ⟨_, rfl, hsame, lead', mid, trail', ?_, hl.blank (blank_outline hlead),
      ht.blank (blank_outline htrail), hm⟩
    rw [List.append_assoc]
    exact hsplit

/-- For every text whose quotes balance. -/
theorem quoted_segments_kept (s : String) (h : Balanced s.toList) :
    ∃ ps, spell ps = s.toList ∧ (Kept ps (collapseSpaces s).toList ↔ Safe ps) := by
  obtain ⟨ps, hps⟩ := h.pieces
  refine ⟨ps, hps, ?_⟩
  rw [collapseSpaces, String.toList_ofList, ← hps]
  exact kept_iff_safe ps

theorem quoted_segments_kept_runs :
    ∃ ps, spell ps = "SELECT 'a  b'   FROM t ;".toList ∧
      (Kept ps (collapseSpaces "SELECT 'a  b'   FROM t ;").toList ↔ Safe ps) :=
  quoted_segments_kept "SELECT 'a  b'   FROM t ;" (by decide)

/-- The space before the semicolon is lost. -/
theorem semicolon_tightened : Balanced "'a ;b'".toList ∧ collapseSpaces "'a ;b'" = "'a;b'" ∧
    ¬ ∃ ps, spell ps = "'a ;b'".toList ∧ Kept ps (collapseSpaces "'a ;b'").toList := by
  refine ⟨by decide, by decide, ?_⟩
  rintro ⟨ps, hps, hkept⟩
  have hquoted : ps = [.quoted '\'' "a ;b".toList (by decide) (by decide)] :=
    spell_injective (hps.trans (by decide))
  have hmem : "'a ;b'".toList ∈ literals ps := by
    rw [hquoted]
    decide
  rw [collapseSpaces, String.toList_ofList, ← hps] at hkept
  exact (kept_iff_safe ps).mp hkept _ hmem (by decide)

end LvimDb.Template
