import LvimDb.Cell.Pretty
import LvimDb.Lib.Json

/-!
# The value of a formatted text

What `pretty_json` makes of a JSON text is JSON again, and of the same value.
-/

namespace LvimDb.Cell
open Lib.Json (IsBlank IsBody IsText IsWordChar Spaced Token)

/-- The text without the blanks outside its strings. -/
def squeeze : Scan → List Char → List Char
  | _, [] => []
  | .inside esc, c :: cs => c :: squeeze (Scan.string esc c) cs
  | .outside, c :: cs =>
    if c = '"' then c :: squeeze (.inside false) cs
    else if isBlank c then squeeze .outside cs
    else c :: squeeze .outside cs

variable {s t w cs : List Char} {ts : List Token} {v v' : Lib.Json.Value} {c : Char}

theorem isBlank_iff : isBlank c = true ↔ IsBlank c := by
  simp [isBlank, IsBlank, or_assoc]

theorem word_flatten (w : List Char) : (word w).flatten = w := by
  unfold word
  split
  · next h => exact h.symm
  · exact List.append_nil w

theorem structural_not_blank (h : isStructural c = true) : ¬ isBlank c = true := by
  intro hb
  rcases isBlank_iff.mp hb with rfl | rfl | rfl | rfl <;> exact absurd h (by decide)

theorem tokensFrom_flatten (st : Scan) (w cs : List Char) :
    (tokensFrom st w cs).flatten = w ++ squeeze st cs := by
  induction cs generalizing st w with
  | nil => rw [tokensFrom, squeeze, word_flatten, List.append_nil]
  | cons c cs ih =>
    cases st with
    | inside esc =>
      rw [tokensFrom, squeeze]
      cases hst : Scan.string esc c with
      | outside => rw [List.flatten_cons, ih, List.append_assoc, List.nil_append, List.singleton_append]
      | inside esc' => rw [ih, List.append_assoc, List.singleton_append]
    | outside =>
      rw [tokensFrom, squeeze]
      by_cases hq : c = '"'
      · rw [if_pos hq, if_pos hq, List.flatten_append, word_flatten, ih]
        rfl
      · rw [if_neg hq, if_neg hq]
        by_cases hs : isStructural c = true
        · rw [if_pos hs, if_neg (structural_not_blank hs), List.flatten_append, word_flatten,
            List.flatten_cons, ih]
          rfl
        · rw [if_neg hs]
          by_cases hb : isBlank c = true
          · rw [if_pos hb, if_pos hb, List.flatten_append, word_flatten, ih]
            rfl
          · rw [if_neg hb, if_neg hb, ih, List.append_assoc]
            rfl

theorem spaced_word {ws : List (List Char)} (h : Spaced ws cs) (w : List Char) :
    Spaced (word w ++ ws) (w ++ cs) := by
  unfold word
  split
  · next hw =>
    rw [hw]
    exact h
  · exact h.next w

theorem spaced_tokensFrom (st : Scan) (w cs : List Char) :
    Spaced (tokensFrom st w cs) (w ++ cs) := by
  induction cs generalizing st w with
  | nil =>
    have hend := spaced_word (.nil fun c hc => absurd hc List.not_mem_nil) w
    rwa [List.append_nil] at hend
  | cons c cs ih =>
    have hnext : w ++ c :: cs = (w ++ [c]) ++ cs := by rw [List.append_assoc, List.singleton_append]
    cases st with
    | inside esc =>
      rw [tokensFrom]
      cases hst : Scan.string esc c with
      | outside =>
        rw [hnext]
        exact (ih .outside []).next (w ++ [c])
      | inside esc' =>
        rw [hnext]
        exact ih (.inside esc') (w ++ [c])
    | outside =>
      rw [tokensFrom]
      by_cases hq : c = '"'
      · rw [if_pos hq]
        exact spaced_word (ih (.inside false) [c]) w
      · rw [if_neg hq]
        by_cases hs : isStructural c = true
        · rw [if_pos hs]
          exact spaced_word ((ih .outside []).next [c]) w
        · rw [if_neg hs]
          by_cases hb : isBlank c = true
          · rw [if_pos hb]
            exact spaced_word ((ih .outside []).blank (isBlank_iff.mp hb)) w
          · rw [if_neg hb, hnext]
            exact ih .outside (w ++ [c])

/-! ### The tokens of a JSON text -/

/-- The character is none of a word. -/
def Cuts (c : Char) : Prop := c = '"' ∨ isStructural c = true ∨ isBlank c = true

theorem not_cuts (h : IsWordChar c) : ¬ Cuts c := by
  rintro (rfl | hs | hb)
  · exact Lib.Json.not_wordChar_quote h
  · simp only [isStructural, isOpening, isClosing, Bool.or_eq_true, beq_iff_eq] at hs
    rcases hs with (((rfl | rfl) | rfl | rfl) | rfl) | rfl <;> simp [IsWordChar] at h
  · rcases isBlank_iff.mp hb with rfl | rfl | rfl | rfl <;> simp [IsWordChar] at h

theorem tokensFrom_cut (h : ∀ c ∈ cs.head?, Cuts c) (w : List Char) :
    tokensFrom .outside w cs = word w ++ tokensFrom .outside [] cs := by
  cases cs with
  | nil => exact (List.append_nil _).symm
  | cons c cs =>
    rcases h c rfl with hq | hs | hb
    · rw [tokensFrom, tokensFrom, if_pos hq, if_pos hq]
      rfl
    · rw [tokensFrom_structural hs, tokensFrom_structural hs]
      rfl
    · rw [tokensFrom_blank hb, tokensFrom_blank hb]
      rfl

theorem tokensFrom_wordChars (h : ∀ c ∈ t, IsWordChar c) (w cs : List Char) :
    tokensFrom .outside w (t ++ cs) = tokensFrom .outside (w ++ t) cs := by
  induction t generalizing w with
  | nil => rw [List.append_nil, List.nil_append]
  | cons c t ih =>
    obtain ⟨hc, ht⟩ := List.forall_mem_cons.mp h
    have hno := not_cuts hc
    simp only [Cuts, not_or] at hno
    rw [List.cons_append, tokensFrom, if_neg hno.1, if_neg hno.2.1, if_neg hno.2.2, ih ht,
      List.append_assoc, List.singleton_append]

theorem tokensFrom_inside {esc esc' : Bool} (h : Scan.string esc c = .inside esc')
    (w cs : List Char) :
    tokensFrom (.inside esc) w (c :: cs) = tokensFrom (.inside esc') (w ++ [c]) cs := by
  rw [tokensFrom, h]

theorem string_plain (hq : c ≠ '"') (hb : c ≠ '\\') : Scan.string false c = .inside false := by
  unfold Scan.string
  split <;> simp_all

theorem tokensFrom_body (h : IsBody t) (w cs : List Char) :
    tokensFrom (.inside false) w (t ++ '"' :: cs) =
      (w ++ t ++ ['"']) :: tokensFrom .outside [] cs := by
  induction h generalizing w with
  | nil =>
    rw [List.append_nil]
    rfl
  | @char c t plain _ ih =>
    rw [List.cons_append, tokensFrom_inside (string_plain plain.1 plain.2.1), ih]
    simp
  | @escape c t _ _ ih =>
    have hopen : Scan.string false '\\' = .inside true := rfl
    have hnext : Scan.string true c = .inside false := rfl
    rw [List.cons_append, List.cons_append, tokensFrom_inside hopen, tokensFrom_inside hnext, ih]
    simp
  | @unicode a b c d t hex _ ih =>
    have hopen : Scan.string false '\\' = .inside true := rfl
    have hu : Scan.string true 'u' = .inside false := rfl
    have hhex : ∀ x ∈ [a, b, c, d], Scan.string false x = .inside false := fun x hx =>
      string_plain (hex x hx).plain.1 (hex x hx).plain.2
    simp only [List.forall_mem_cons] at hhex
    obtain ⟨ha, hb, hc, hd, -⟩ := hhex
    simp only [List.cons_append]
    rw [tokensFrom_inside hopen, tokensFrom_inside hu, tokensFrom_inside ha, tokensFrom_inside hb,
      tokensFrom_inside hc, tokensFrom_inside hd, ih]
    simp

theorem tokensFrom_blanks (h : ∀ c ∈ t, IsBlank c) (cs : List Char) :
    tokensFrom .outside [] (t ++ cs) = tokensFrom .outside [] cs := by
  induction t with
  | nil => rfl
  | cons c t ih =>
    obtain ⟨hc, ht⟩ := List.forall_mem_cons.mp h
    rw [List.cons_append, tokensFrom_blank (isBlank_iff.mpr hc), ih ht]
    rfl

/-- What comes after a word is not taken for a part of it. -/
theorem spaced_cuts (h : Spaced (ts.map Token.text) s) (hts : ∀ t ∈ ts.head?, ¬ t.IsWord) :
    ∀ c ∈ s.head?, Cuts c := by
  intro c hc
  generalize hws : ts.map Token.text = ws at h
  cases h with
  | nil blank => exact .inr (.inr (isBlank_iff.mpr (blank c (List.mem_of_mem_head? hc))))
  | @cons pad w s ws blank rest =>
    cases pad with
    | cons d pad =>
      cases hc
      exact .inr (.inr (isBlank_iff.mpr (blank c (List.mem_cons_self ..))))
    | nil =>
      cases ts with
      | nil => cases hws
      | cons t ts =>
        obtain ⟨rfl, -⟩ := List.cons.inj hws
        cases t with
        | word w => exact absurd trivial (hts _ rfl)
        | str b =>
          cases hc
          exact .inl rfl
        | mark m =>
          cases hc
          exact .inr (.inl (by cases m <;> rfl))

theorem tokensFrom_spaced (h : Spaced (ts.map Token.text) s) (hts : Lib.Json.Apart ts) :
    tokensFrom .outside [] s = ts.map Token.text := by
  induction ts generalizing s with
  | nil =>
    cases h with
    | nil blank =>
      have hend := tokensFrom_blanks blank []
      rwa [List.append_nil] at hend
  | cons t ts ih =>
    obtain ⟨hfirst, hrest⟩ := List.isChain_cons.mp hts
    cases h with
    | @cons pad _ s _ blank rest =>
      rw [tokensFrom_blanks blank, List.map_cons]
      cases t with
      | mark m =>
        have hm : isStructural m.char = true := by cases m <;> rfl
        show tokensFrom .outside [] (m.char :: s) = _
        rw [tokensFrom_structural hm, ih rest hrest]
        rfl
      | str b =>
        show tokensFrom .outside [] ('"' :: (b.body ++ ['"'] ++ s)) = _
        rw [tokensFrom, if_pos rfl, List.append_assoc]
        show [] ++ tokensFrom (.inside false) ['"'] (b.body ++ '"' :: s) = _
        rw [tokensFrom_body b.valid, ih rest hrest]
        rfl
      | word w =>
        have hcut := spaced_cuts rest fun u hu hw => hfirst u hu ⟨trivial, hw⟩
        show tokensFrom .outside [] (w.text ++ s) = _
        rw [tokensFrom_wordChars w.wordChar, List.nil_append, tokensFrom_cut hcut, ih rest hrest,
          word, if_neg w.ne]
        rfl

theorem isText_iff {s : String} : IsText s.toList v ↔ tokens s = v.tokens.map Token.text := by
  constructor
  · exact fun h => tokensFrom_spaced h v.apart
  · intro h
    rw [IsText, ← h]
    exact spaced_tokensFrom .outside [] s.toList

/-- What is formatted is a text of the same value and of no other, with the same tokens; only
blanks outside the strings are different. -/
theorem pretty_json_same {s : String} {v : Lib.Json.Value} (h : IsText s.toList v) :
    (∀ u, IsText (prettyJson s).toList u ↔ u = v) ∧
      tokens (prettyJson s) = tokens s ∧ tokens s = v.tokens.map Token.text ∧
      squeeze .outside (prettyJson s).toList = squeeze .outside s.toList := by
  have htokens := isText_iff.mp h
  have hsame := tokens_prettyJson s
  refine ⟨fun u => ⟨fun hu => ?_, ?_⟩, hsame, htokens, ?_⟩
  · have hu := isText_iff.mp hu
    rw [hsame, htokens] at hu
    have hinj : Function.Injective Token.text := fun _ _ => Lib.Json.Token.text_inj
    exact Lib.Json.Tree.tokens_inj (List.map_injective_iff.mpr hinj hu.symm)
  · rintro rfl
    exact isText_iff.mpr (hsame.trans htokens)
  · have hflat := congrArg List.flatten hsame
    rwa [tokens, tokens, tokensFrom_flatten, tokensFrom_flatten] at hflat

/-- `{"a": []}`. -/
def nested : Lib.Json.Value := .obj (.member ⟨['a'], .char (by decide) .nil⟩ .emptyArr)

theorem pretty_json_same_nested :
    IsText "\x7b\"a\": []\x7d".toList nested ∧
      squeeze .outside (prettyJson "\x7b\"a\": []\x7d").toList = "\x7b\"a\":[]\x7d".toList := by
  have htext : IsText "\x7b\"a\": []\x7d".toList nested := isText_iff.mpr (by decide)
  exact ⟨htext, (pretty_json_same htext).2.2.2.trans (by decide)⟩

end LvimDb.Cell
