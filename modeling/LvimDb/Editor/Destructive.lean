import LvimDb.Editor.Split
import LvimDb.Lib.Pattern
import LvimDb.Lib.Words

/-!
# Destructive statements

`is_destructive` of init.lua on the statements of the editor. What it is to find is said with
the tokens of a statement that are outside of its strings, quoted identifiers and comments;
what it does find is up to the text.
-/

namespace LvimDb.Editor
open Lib (Pattern isSpace)
open Lib.Pattern (Item Reads word)

structure Config where
  confirmDestructive : Bool
  destructivePatterns : List (Pattern Char)

/-- `^%s*w%s`. -/
def opening (w : String) : Pattern Char :=
  ⟨true, .star isSpace :: (word w.toList ++ [.one isSpace])⟩

/-- `confirm_destructive` and `destructive_patterns` of config.lua (121-132). -/
def Config.default : Config := ⟨true, [opening "drop", opening "truncate"]⟩

/-- `[%s%(]`. -/
def isBreak (c : Char) : Bool := isSpace c || c == '('

/-- `%swhere[%s%(]`. -/
def wherePattern : Pattern Char :=
  ⟨false, .one isSpace :: (word "where".toList ++ [.one isBreak])⟩

/-- `^%s*delete%s+from%s`. -/
def deletePattern : Pattern Char :=
  ⟨true, .star isSpace ::
    (word "delete".toList ++ .plus isSpace :: (word "from".toList ++ [.one isSpace]))⟩

/-- `^%s*update%s+.-%sset%s`. -/
def updatePattern : Pattern Char :=
  ⟨true, .star isSpace :: (word "update".toList ++ .plus isSpace :: .least (fun _ => true) ::
    .one isSpace :: (word "set".toList ++ [.one isSpace]))⟩

def lower (s : String) : List Char := s.toList.map Char.toLower

/-- `M.is_destructive` (338-361). -/
def isDestructive (config : Config) (statement : String) : Bool :=
  if !config.confirmDestructive then false
  else
    let s := lower statement
    if config.destructivePatterns.any fun pat => pat.find s then true
    else if !wherePattern.find s then deletePattern.find s || updatePattern.find s
    else false

/-! ### What a character is inside of -/

/-- Read as `split_statements` reads it; the marks of a string or a comment are inside. -/
def lex : Inside → List Char → List (Char × Inside)
  | _, [] => []
  | .line, c :: s => (c, .line) :: lex (if c = '\n' then .code else .line) s
  | .block, '*' :: '/' :: s => ('*', .block) :: ('/', .block) :: lex .code s
  | .block, c :: s => (c, .block) :: lex .block s
  | .quoted q, c :: s => (c, .quoted q) :: lex (if c = q.char then .code else .quoted q) s
  | .code, '-' :: '-' :: s => ('-', .line) :: ('-', .line) :: lex .line s
  | .code, '/' :: '*' :: s => ('/', .block) :: ('*', .block) :: lex .block s
  | .code, c :: s =>
    match Quote.of c with
    | some q => (c, .quoted q) :: lex (.quoted q) s
    | none => (c, .code) :: lex .code s

theorem lex_text (m : Inside) (s : List Char) : (lex m s).map Prod.fst = s := by
  fun_induction lex m s <;> simp_all

/-- A character that opens and closes nothing. -/
def isSteady (c : Char) : Bool := c ∉ ['-', '/', '*', '\n', '\'', '"', '`']

theorem lex_steady {c : Char} (hc : isSteady c = true) (m : Inside) (s : List Char) :
    lex m (c :: s) = (c, m) :: lex m s := by
  simp only [isSteady, List.mem_cons, List.not_mem_nil, or_false, not_or, decide_eq_true_eq] at hc
  obtain ⟨hdash, hslash, hstar, hline, hsingle, hdouble, hback⟩ := hc
  cases m with
  | code =>
    have hq : Quote.of c = none := by
      simp [Quote.of, Quote.char, Ne.symm hsingle, Ne.symm hdouble, Ne.symm hback]
    rw [lex, hq]
    · exact fun s' h _ => hdash h
    · exact fun s' h _ => hslash h
  | line => rw [lex, if_neg hline]
  | block =>
    rw [lex]
    exact fun s' h _ => hstar h
  | quoted q =>
    have hq : c ≠ q.char := by cases q <;> assumption
    rw [lex, if_neg hq]

theorem lex_newline (m : Inside) (s : List Char) :
    lex m ('\n' :: s) = ('\n', m) :: lex (if m = .line then .code else m) s := by
  cases m with
  | quoted q => cases q <;> rfl
  | _ => rfl


theorem isSteady_of_space {c : Char} (hc : isSpace c = true) : isSteady c = true ∨ c = '\n' := by
  by_cases hline : c = '\n'
  · exact .inr hline
  · refine .inl (decide_eq_true ?_)
    rintro (h : c ∈ ['-', '/', '*', '\n', '\'', '"', '`'])
    simp only [List.mem_cons, List.not_mem_nil, or_false] at h
    rcases h with rfl | rfl | rfl | rfl | rfl | rfl | rfl <;> first | exact hline rfl | cases hc

theorem lex_space {c : Char} (hc : isSpace c = true) (m : Inside) (s : List Char) :
    ∃ m', lex m (c :: s) = (c, m) :: lex m' s ∧ (m' = m ∨ m = .line ∧ m' = .code) := by
  rcases isSteady_of_space hc with hsteady | rfl
  · exact ⟨m, lex_steady hsteady m s, .inl rfl⟩
  · refine ⟨_, lex_newline m s, ?_⟩
    by_cases hm : m = .line
    · exact .inr ⟨hm, if_pos hm⟩
    · exact .inl (if_neg hm)

theorem cons_of_append_space {c e : Char} (hc : isSpace c = true) (he : isSpace e = false)
    {a s s' : List Char} (h : a ++ c :: s = e :: s') : ∃ a', a = e :: a' := by
  cases a with
  | nil =>
    rw [(List.cons.inj h).1, he] at hc
    cases hc
  | cons d a => exact ⟨a, by rw [(List.cons.inj h).1]⟩

/-- White space is inside of something as the lexer has come to it; after it a line comment may
have ended. -/
theorem lex_append_space {c : Char} (hc : isSpace c = true) (m : Inside) (a s : List Char) :
    ∃ l m₁ m₂, lex m (a ++ c :: s) = l ++ (c, m₁) :: lex m₂ s ∧
      (m₂ = m₁ ∨ m₁ = .line ∧ m₂ = .code) := by
  fun_induction lex m a with
  | case1 m =>
    obtain ⟨m', hlex, hm'⟩ := lex_space hc m s
    exact ⟨[], m, m', hlex, hm'⟩
  | case2 d a ih =>
    obtain ⟨l, m₁, m₂, h, hm⟩ := ih
    refine ⟨(d, .line) :: l, m₁, m₂, ?_, hm⟩
    rw [List.cons_append, lex, h, List.cons_append]
  | case3 a ih =>
    obtain ⟨l, m₁, m₂, h, hm⟩ := ih
    exact ⟨('*', .block) :: ('/', .block) :: l, m₁, m₂, by simp [lex, h], hm⟩
  | case4 d a hno ih =>
    obtain ⟨l, m₁, m₂, h, hm⟩ := ih
    refine ⟨(d, .block) :: l, m₁, m₂, ?_, hm⟩
    rw [List.cons_append, lex, h, List.cons_append]
    intro s' hd ha
    obtain ⟨a', ha'⟩ := cons_of_append_space hc rfl ha
    exact hno a' hd ha'
  | case5 q d a ih =>
    obtain ⟨l, m₁, m₂, h, hm⟩ := ih
    refine ⟨(d, .quoted q) :: l, m₁, m₂, ?_, hm⟩
    rw [List.cons_append, lex, h, List.cons_append]
  | case6 a ih =>
    obtain ⟨l, m₁, m₂, h, hm⟩ := ih
    exact ⟨('-', .line) :: ('-', .line) :: l, m₁, m₂, by simp [lex, h], hm⟩
  | case7 a ih =>
    obtain ⟨l, m₁, m₂, h, hm⟩ := ih
    exact ⟨('/', .block) :: ('*', .block) :: l, m₁, m₂, by simp [lex, h], hm⟩
  | case8 d a hdash hslash q hq ih =>
    obtain ⟨l, m₁, m₂, h, hm⟩ := ih
    refine ⟨(d, .quoted q) :: l, m₁, m₂, ?_, hm⟩
    rw [List.cons_append, lex, hq]
    · exact congrArg _ h
    · intro s' hd ha
      obtain ⟨a', ha'⟩ := cons_of_append_space hc rfl ha
      exact hdash a' hd ha'
    · intro s' hd ha
      obtain ⟨a', ha'⟩ := cons_of_append_space hc rfl ha
      exact hslash a' hd ha'
  | case9 d a hdash hslash hq ih =>
    obtain ⟨l, m₁, m₂, h, hm⟩ := ih
    refine ⟨(d, .code) :: l, m₁, m₂, ?_, hm⟩
    rw [List.cons_append, lex, hq]
    · exact congrArg _ h
    · intro s' hd ha
      obtain ⟨a', ha'⟩ := cons_of_append_space hc rfl ha
      exact hdash a' hd ha'
    · intro s' hd ha
      obtain ⟨a', ha'⟩ := cons_of_append_space hc rfl ha
      exact hslash a' hd ha'

/-! ### Tokens -/

/-- A string and a quoted identifier are marks, a comment is blank. -/
def outside : Char × Inside → Char
  | (c, .code) => c
  | (_, .quoted _) => '"'
  | (_, .line) => ' '
  | (_, .block) => ' '

/-- What a name is written with. -/
def isWord (c : Char) : Bool := c.isAlphanum || c == '_' || c == '$' || decide (128 ≤ c.toNat)

def tokens (s : List Char) : List String :=
  (Lib.tokens isWord isSpace ((lex .code s).map outside)).map String.ofList

/-- `DROP` or `TRUNCATE` comes first, or it is `DELETE FROM` or `UPDATE` and `SET`, with no
`WHERE`. -/
def Destroys : List String → Prop
  | [] => False
  | t :: ts => t = "drop" ∨ t = "truncate" ∨
      "where" ∉ ts ∧ (t = "delete" ∧ ts.head? = some "from" ∨ t = "update" ∧ "set" ∈ ts)

instance : DecidablePred Destroys
  | [] => inferInstanceAs (Decidable False)
  | t :: ts => inferInstanceAs (Decidable (t = "drop" ∨ t = "truncate" ∨
      "where" ∉ ts ∧ (t = "delete" ∧ ts.head? = some "from" ∨ t = "update" ∧ "set" ∈ ts)))

def Destructive (sql : String) : Prop := Destroys (tokens (lower sql))

instance (sql : String) : Decidable (Destructive sql) := inferInstanceAs (Decidable (Destroys _))

theorem toNat_of_space {c : Char} (hc : isSpace c = true) : c.toNat ≤ 32 := by
  simp only [isSpace, Bool.or_eq_true, beq_iff_eq, decide_eq_true_eq] at hc
  rcases hc with rfl | ⟨-, hc⟩
  · decide
  · exact le_trans hc (by decide)

theorem toNat_of_word {c : Char} (hc : isWord c = true) : 32 < c.toNat := by
  have halpha : c.isAlpha = (c.isUpper || c.isLower) := rfl
  have hupper : c.isUpper = decide (c.val ≥ 'A'.val ∧ c.val ≤ 'Z'.val) := rfl
  have hlower : c.isLower = (decide (c.val ≥ 'a'.val) && decide (c.val ≤ 'z'.val)) := rfl
  simp only [isWord, Bool.or_eq_true, beq_iff_eq, decide_eq_true_eq, Char.isAlphanum, halpha,
    hupper, hlower, Char.isDigit, Bool.and_eq_true] at hc
  have hbase {n : UInt32} (h : c.val ≥ n) (hn : 32 < n.toNat) : 32 < c.toNat := lt_of_lt_of_le hn h
  rcases hc with (((h | h) | h) | h) | h
  · rcases h with h | h
    · exact hbase h.1 (by decide)
    · exact hbase h.1 (by decide)
  · exact hbase h.1 (by decide)
  · rw [h]
    decide
  · rw [h]
    decide
  · omega

theorem isSpace_toLower {c : Char} (hc : isSpace c.toLower = true) : isSpace c = true := by
  unfold Char.toLower at hc
  split at hc
  case isTrue h =>
    have hle : (c.val + ('a'.val - 'A'.val)).toNat ≤ 32 := toNat_of_space hc
    have hlow : 65 ≤ c.val.toNat := h.1
    have hup : c.val.toNat ≤ 90 := h.2
    rw [UInt32.toNat_add, show ('a'.val - 'A'.val).toNat = 32 from rfl] at hle
    omega
  case isFalse => exact hc

theorem not_word_of_space (c : Char) (hc : isSpace c = true) : isWord c = false := by
  by_contra hne
  have hspace := toNat_of_space hc
  have hword := toNat_of_word (Bool.of_not_eq_false hne)
  omega

structure Keyword (w : String) : Prop where
  nonempty : w.toList ≠ []
  steady : ∀ c ∈ w.toList, isSteady c = true
  word : ∀ c ∈ w.toList, isWord c = true

namespace Keyword

theorem delete : Keyword "delete" :=
  ⟨by decide, List.all_eq_true.mp (by decide +kernel), List.all_eq_true.mp (by decide +kernel)⟩

theorem update : Keyword "update" :=
  ⟨by decide, List.all_eq_true.mp (by decide +kernel), List.all_eq_true.mp (by decide +kernel)⟩

theorem where_ : Keyword "where" :=
  ⟨by decide, List.all_eq_true.mp (by decide +kernel), List.all_eq_true.mp (by decide +kernel)⟩

end Keyword

theorem lex_word {w : List Char} (hw : ∀ c ∈ w, isSteady c = true) (m : Inside) (s : List Char) :
    lex m (w ++ s) = w.map (·, m) ++ lex m s := by
  induction w with
  | nil => rfl
  | cons c w ih =>
    obtain ⟨hc, hw⟩ := List.forall_mem_cons.mp hw
    rw [List.cons_append, lex_steady hc, ih hw]
    rfl

/-! ### What the patterns find -/

/-- The word starts the text and white space comes after it. -/
def Opens (w : String) (s : List Char) : Prop :=
  ∃ c r, s = w.toList ++ c :: r ∧ isSpace c = true

/-- `DELETE` starts the text, with white space up to `FROM` and after it. -/
def DeleteFrom (s : List Char) : Prop :=
  ∃ b c r, s = "delete".toList ++ (b ++ ("from".toList ++ c :: r)) ∧ b ≠ [] ∧
    (∀ x ∈ b, isSpace x = true) ∧ isSpace c = true

/-- `UPDATE` and white space start the text, and `SET` is somewhere between white space. -/
def UpdateSet (s : List Char) : Prop :=
  ∃ c a d e r, s = "update".toList ++ c :: (a ++ d :: ("set".toList ++ e :: r)) ∧
    isSpace c = true ∧ isSpace d = true ∧ isSpace e = true

/-- `WHERE` is somewhere between white space and white space or a parenthesis. -/
def ShowsWhere (s : List Char) : Prop :=
  ∃ a c d b, s = a ++ c :: ("where".toList ++ d :: b) ∧ isSpace c = true ∧ isBreak d = true

theorem reads_last {w : List Char} {p : Char → Bool} {a : List Char} :
    Reads (word w ++ [.one p]) a ↔ ∃ c, a = w ++ [c] ∧ p c = true := by
  rw [Lib.Pattern.reads_word]
  constructor
  · rintro ⟨b, rfl, hb⟩
    obtain ⟨c, d, rfl, hc, rfl⟩ := Lib.Pattern.reads_one.mp hb
    exact ⟨c, rfl, hc⟩
  · rintro ⟨c, rfl, hc⟩
    exact ⟨[c], rfl, Lib.Pattern.reads_one.mpr ⟨c, [], rfl, hc, rfl⟩⟩

theorem find_where {s : List Char} : wherePattern.find s = true ↔ ShowsWhere s := by
  rw [wherePattern, Lib.Pattern.find_anywhere]
  constructor
  · rintro ⟨a, t, b, rfl, ht⟩
    obtain ⟨c, u, rfl, hc, hu⟩ := Lib.Pattern.reads_one.mp ht
    obtain ⟨d, rfl, hd⟩ := reads_last.mp hu
    exact ⟨a, c, d, b, by simp, hc, hd⟩
  · rintro ⟨a, c, d, b, rfl, hc, hd⟩
    refine ⟨a, c :: ("where".toList ++ [d]), b, by simp, ?_⟩
    exact Lib.Pattern.reads_one.mpr ⟨c, _, rfl, hc, reads_last.mpr ⟨d, rfl, hd⟩⟩

section
variable {s : List Char} (hs : ∀ c ∈ s.head?, isSpace c = false)
include hs

/-- `^%s*` reads nothing of a trimmed text. -/
theorem find_lead {is : List (Item Char)} :
    Pattern.find ⟨true, .star isSpace :: is⟩ s = true ↔ ∃ a b, s = a ++ b ∧ Reads is a := by
  rw [Lib.Pattern.find_anchored]
  constructor
  · rintro ⟨_, b, h, lead, a, rfl, hlead, ha⟩
    cases lead with
    | nil => exact ⟨a, b, h, ha⟩
    | cons c lead =>
      have hc : isSpace c = true := (List.forall_mem_cons.mp hlead).1
      rw [hs c (by rw [h]; rfl)] at hc
      cases hc
  · rintro ⟨a, b, h, ha⟩
    exact ⟨a, b, h, [], a, rfl, fun _ hx => (List.not_mem_nil hx).elim, ha⟩

theorem find_opening {w : String} : (opening w).find s = true ↔ Opens w s := by
  rw [opening, find_lead hs]
  constructor
  · rintro ⟨a, r, rfl, ha⟩
    obtain ⟨c, rfl, hc⟩ := reads_last.mp ha
    exact ⟨c, r, by simp, hc⟩
  · rintro ⟨c, r, rfl, hc⟩
    exact ⟨w.toList ++ [c], r, by simp, reads_last.mpr ⟨c, rfl, hc⟩⟩

theorem find_delete : deletePattern.find s = true ↔ DeleteFrom s := by
  rw [deletePattern, find_lead hs]
  constructor
  · rintro ⟨a, r, rfl, ha⟩
    obtain ⟨_, rfl, b, t, rfl, ⟨hne, hb⟩, ht⟩ := Lib.Pattern.reads_word.mp ha
    obtain ⟨c, rfl, hc⟩ := reads_last.mp ht
    exact ⟨b, c, r, by simp, hne, hb, hc⟩
  · rintro ⟨b, c, r, rfl, hne, hb, hc⟩
    refine ⟨"delete".toList ++ (b ++ ("from".toList ++ [c])), r, by simp, ?_⟩
    exact Lib.Pattern.reads_word.mpr ⟨_, rfl, b, _, rfl, ⟨hne, hb⟩, reads_last.mpr ⟨c, rfl, hc⟩⟩

theorem find_update : updatePattern.find s = true ↔ UpdateSet s := by
  rw [updatePattern, find_lead hs]
  constructor
  · rintro ⟨t, r, rfl, ht⟩
    obtain ⟨_, rfl, b, _, rfl, ⟨hne, hb⟩, a, u, rfl, -, hu⟩ := Lib.Pattern.reads_word.mp ht
    obtain ⟨d, v, rfl, hd, hv⟩ := Lib.Pattern.reads_one.mp hu
    obtain ⟨e, rfl, he⟩ := reads_last.mp hv
    cases b with
    | nil => exact absurd rfl hne
    | cons c b => exact ⟨c, b ++ a, d, e, r, by simp, (List.forall_mem_cons.mp hb).1, hd, he⟩
  · rintro ⟨c, a, d, e, r, rfl, hc, hd, he⟩
    refine ⟨"update".toList ++ ([c] ++ (a ++ d :: ("set".toList ++ [e]))), r, by simp, ?_⟩
    refine Lib.Pattern.reads_word.mpr ⟨_, rfl, [c], _, rfl, ⟨List.cons_ne_nil c [], ?_⟩, ?_⟩
    · exact List.forall_mem_singleton.mpr hc
    · exact ⟨a, _, rfl, fun _ _ => rfl,
        Lib.Pattern.reads_one.mpr ⟨d, _, rfl, hd, reads_last.mpr ⟨e, rfl, he⟩⟩⟩

end

/-! ### What the patterns take for a word -/

/-- `WHERE` between white space and white space or a parenthesis, inside of a string, a quoted
identifier or a comment. -/
def Veiled (s : List Char) : Prop :=
  ∃ m l c d r, m ≠ .code ∧ lex .code s = l ++ (c, m) :: ("where".toList.map (·, m) ++ (d, m) :: r) ∧
    isSpace c = true ∧ isBreak d = true

theorem Veiled.shows {s : List Char} (h : Veiled s) : ShowsWhere s := by
  obtain ⟨m, l, c, d, r, -, hlex, hc, hd⟩ := h
  refine ⟨l.map Prod.fst, c, d, r.map Prod.fst, ?_, hc, hd⟩
  rw [← lex_text .code s, hlex]
  simp

theorem lex_break {d : Char} (hd : isBreak d = true) (m : Inside) (s : List Char) :
    ∃ r, lex m (d :: s) = (d, m) :: r := by
  rcases Bool.or_eq_true_iff.mp hd with h | h
  · obtain ⟨m', hlex, -⟩ := lex_space h m s
    exact ⟨_, hlex⟩
  · rw [eq_of_beq h]
    exact ⟨_, lex_steady (by decide) m s⟩

theorem not_word_of_break {d : Char} (hd : isBreak d = true) : isWord d = false := by
  rcases Bool.or_eq_true_iff.mp hd with h | h
  · exact not_word_of_space d h
  · rw [eq_of_beq h]
    decide

/-- What is shown of a keyword outside of everything is a token. -/
theorem tokens_keyword {w : String} (hw : Keyword w) {d : Char} (hd : isBreak d = true)
    (s : List Char) : ∃ ts, Lib.tokens isWord isSpace
      ((lex .code (w.toList ++ d :: s)).map outside) = w.toList :: ts := by
  obtain ⟨r, hr⟩ := lex_break hd .code s
  have hshown : (lex .code (w.toList ++ d :: s)).map outside =
      w.toList ++ d :: r.map outside := by
    rw [lex_word hw.steady, hr, List.map_append, List.map_map]
    exact congrArg (· ++ _) (List.map_id w.toList)
  have hblank : ∃ c ∈ w.toList, isSpace c = false := by
    obtain ⟨c, hc⟩ := List.exists_mem_of_ne_nil _ hw.nonempty
    refine ⟨c, hc, ?_⟩
    by_contra hne
    have hnot := not_word_of_space c (Bool.of_not_eq_false hne)
    rw [hw.word c hc] at hnot
    cases hnot
  rw [hshown, Lib.tokens_word_append hw.nonempty hw.word hblank]
  · exact ⟨_, rfl⟩
  · intro y hy
    rw [← Option.mem_some.mp hy]
    exact not_word_of_break hd

theorem Opens.tokens {w : String} {s : List Char} (h : Opens w s) (hw : Keyword w) :
    ∃ ts, tokens s = w :: ts := by
  obtain ⟨c, r, rfl, hc⟩ := h
  obtain ⟨ts, hts⟩ := tokens_keyword hw (d := c) (Bool.or_eq_true_iff.mpr (.inl hc)) r
  rw [Editor.tokens, hts]
  exact ⟨_, by rw [List.map_cons, String.ofList_toList]⟩

/-- A `WHERE` that the pattern finds is a token, or else it is inside of something. -/
theorem ShowsWhere.token_or_veiled {s : List Char} (h : ShowsWhere s) :
    "where" ∈ tokens s ∨ Veiled s := by
  obtain ⟨a, c, d, b, rfl, hc, hd⟩ := h
  obtain ⟨l, m₁, m₂, hlex, hm⟩ := lex_append_space hc .code a ("where".toList ++ d :: b)
  by_cases hcode : m₂ = .code
  · left
    have hblank : isSpace (outside (c, m₁)) = true := by
      rcases hm with rfl | ⟨rfl, -⟩
      · rw [hcode]
        exact hc
      · rfl
    obtain ⟨ts, hts⟩ := tokens_keyword .where_ hd b
    rw [tokens, hlex, List.map_append, List.map_cons,
      Lib.tokens_after_blank not_word_of_space hblank, hcode, hts, List.map_append, List.map_cons]
    exact List.mem_append_right _ (List.mem_cons.mpr (.inl (String.ofList_toList ..).symm))
  · right
    have hsame : m₂ = m₁ := hm.resolve_right fun h => hcode h.2
    obtain ⟨r, hr⟩ := lex_break hd m₂ b
    refine ⟨m₂, l, c, d, r, hcode, ?_, hc, hd⟩
    rw [hlex, lex_word Keyword.where_.steady, hr, hsame]

theorem DeleteFrom.opens {s : List Char} (h : DeleteFrom s) : Opens "delete" s := by
  obtain ⟨b, c, r, rfl, hne, hb, -⟩ := h
  cases b with
  | nil => exact absurd rfl hne
  | cons d b => exact ⟨d, _, rfl, (List.forall_mem_cons.mp hb).1⟩

theorem UpdateSet.opens {s : List Char} (h : UpdateSet s) : Opens "update" s := by
  obtain ⟨c, a, d, e, r, rfl, hc, -⟩ := h
  exact ⟨c, _, rfl, hc⟩

theorem Destroys.no_where {t : String} {ts : List String} (h : Destroys (t :: ts))
    (ht : t = "delete" ∨ t = "update") : "where" ∉ t :: ts := by
  rcases h with rfl | rfl | ⟨hno, -⟩
  · exact absurd ht (by decide)
  · exact absurd ht (by decide)
  · rcases ht with rfl | rfl <;> exact List.not_mem_cons_of_ne_of_not_mem (by decide) hno

/-! ### The statements of the editor -/

theorem sql_head {text : String} {st : Statement} (h : st ∈ splitStatements text) :
    ∀ c ∈ (lower st.sql).head?, isSpace c = false := by
  obtain ⟨t, ht⟩ := splitFrom_trimmed _ _ _ st h
  rw [lower, ht, trim, String.toList_ofList, List.head?_map]
  intro c hc
  obtain ⟨d, hd, rfl⟩ := Option.map_eq_some_iff.mp hc
  by_contra hne
  have hspace : isSpace d = true := isSpace_toLower (Bool.of_not_eq_false hne)
  rw [Lib.strip_head d hd] at hspace
  cases hspace

theorem isDestructive_iff {sql : String} (hs : ∀ c ∈ (lower sql).head?, isSpace c = false) :
    isDestructive .default sql = true ↔ Opens "drop" (lower sql) ∨ Opens "truncate" (lower sql) ∨
      ¬ ShowsWhere (lower sql) ∧ (DeleteFrom (lower sql) ∨ UpdateSet (lower sql)) := by
  rw [← find_opening hs, ← find_opening hs, ← find_where, ← find_delete hs, ← find_update hs]
  by_cases hdrop : (opening "drop").find (lower sql) = true
  · simp [isDestructive, Config.default, hdrop]
  · by_cases htruncate : (opening "truncate").find (lower sql) = true
    · simp [isDestructive, Config.default, htruncate]
    · by_cases hwhere : wherePattern.find (lower sql) = true
      · simp [isDestructive, Config.default, hdrop, htruncate, hwhere]
      · simp [isDestructive, Config.default, hdrop, htruncate, hwhere]

/-- What the patterns ask of the text of a statement. -/
def Legible (s : List Char) : Prop :=
  Opens "drop" s ∨ Opens "truncate" s ∨ ¬ Veiled s ∧ (DeleteFrom s ∨ UpdateSet s)

theorem destructive_found_iff {text : String} {st : Statement} (hst : st ∈ splitStatements text)
    (hd : Destructive st.sql) :
    isDestructive .default st.sql = true ↔ Legible (lower st.sql) := by
  rw [isDestructive_iff (sql_head hst)]
  constructor
  · rintro (h | h | ⟨hno, h⟩)
    · exact .inl h
    · exact .inr (.inl h)
    · exact .inr (.inr ⟨fun hveiled => hno hveiled.shows, h⟩)
  · rintro (h | h | ⟨hno, h⟩)
    · exact .inl h
    · exact .inr (.inl h)
    · refine .inr (.inr ⟨fun hshows => ?_, h⟩)
      -- What looks like a `WHERE` would be a token, which such a statement does not have.
      have htoken : "where" ∈ tokens (lower st.sql) := hshows.token_or_veiled.resolve_right hno
      obtain ⟨t, ts, hts, ht⟩ : ∃ t ts, tokens (lower st.sql) = t :: ts ∧
          (t = "delete" ∨ t = "update") := by
        rcases h with h | h
        · obtain ⟨ts, hts⟩ := h.opens.tokens .delete
          exact ⟨_, ts, hts, .inl rfl⟩
        · obtain ⟨ts, hts⟩ := h.opens.tokens .update
          exact ⟨_, ts, hts, .inr rfl⟩
      rw [Destructive, hts] at hd
      rw [hts] at htoken
      exact hd.no_where ht htoken

theorem destructive_found_iff_delete : Legible (lower "DELETE FROM t") :=
  (@destructive_found_iff "DELETE FROM t;" ⟨"DELETE FROM t", 1, 1⟩ (by decide +kernel)
    (by decide +kernel)).mp (by decide +kernel)

/-- A comment comes first. -/
theorem commented_drop_missed :
    ⟨"-- note\nDROP TABLE t", 1, 2⟩ ∈ splitStatements "-- note\nDROP TABLE t" ∧
      Destructive "-- note\nDROP TABLE t" ∧
      isDestructive .default "-- note\nDROP TABLE t" = false := by
  decide +kernel

end LvimDb.Editor
