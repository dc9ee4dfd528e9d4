import LvimDb.Lib.Lines

/-!
# Credential templates

`Secret::resolve` (secret.rs:38-87) over the characters of a text, and the test by which the
client finds the secrets that are stored in the clear (keyring.lua:20-22). The two read the
template syntax apart: a Lua pattern looks at the beginning only, and knows the ASCII blanks.
-/

namespace LvimDb.Secret
open Lib (isSpace)

abbrev Text := List Char

/-! ### Blanks -/

/-- `char::is_whitespace`: the Unicode property White_Space. -/
def isWhitespace (c : Char) : Bool :=
  isSpace c || c.toNat == 0x85 || c.toNat == 0xA0 || c.toNat == 0x1680 ||
    decide (0x2000 ≤ c.toNat ∧ c.toNat ≤ 0x200A) || c.toNat == 0x2028 || c.toNat == 0x2029 ||
    c.toNat == 0x202F || c.toNat == 0x205F || c.toNat == 0x3000

/-- `str::trim`. -/
def trim (s : Text) : Text := Lib.strip isWhitespace s

theorem isWhitespace_of_isSpace {c : Char} (h : isSpace c = true) : isWhitespace c = true := by
  simp [isWhitespace, h]

/-! ### The engine -/

def stripPrefix (p s : Text) : Option Text := if p <+: s then some (s.drop p.length) else none

def stripSuffix (p s : Text) : Option Text :=
  if p <:+ s then some (s.take (s.length - p.length)) else none

def opening : Text := ['{', '{']

def closing : Text := ['}', '}']

/-- `strip_template`. -/
def stripTemplate (s : Text) : Option Text :=
  ((stripPrefix opening (trim s)).bind (stripSuffix closing)).map trim

/-- `split_verb`. -/
def splitVerb (inner : Text) : Except String (Text × Text) :=
  let inner := trim inner
  match inner.dropWhile (!isWhitespace ·) with
  | [] => .error ("secret: malformed template '" ++ String.ofList inner ++ "'")
  | _ :: rest =>
    match (stripPrefix ['"'] (trim rest)).bind (stripSuffix ['"']) with
    | some arg => .ok (inner.takeWhile (!isWhitespace ·), arg)
    | none => .error "secret: template argument must be double-quoted"

/-- What a text is to `resolve`. -/
inductive Reading
  | empty
  | template (inner : Text)
  | literal (raw : Text)
  deriving DecidableEq

def read (v : Text) : Reading :=
  if trim v = [] then .empty
  else
    match stripTemplate (trim v) with
    | some inner => .template inner
    | none => .literal (trim v)

/-- What a template is resolved with: the environment, the shell, and the agent of the wallet. -/
structure Sources where
  env : Text → Option Text
  cmd : Text → Except String Text
  vault : Text → Except String Text

/-- `Secret::resolve`. -/
def resolve (src : Sources) (v : Text) : Except String Text :=
  match read v with
  | .empty => .ok []
  | .literal raw => .ok raw
  | .template inner =>
    match splitVerb inner with
    | .error e => .error e
    | .ok (verb, arg) =>
      if verb = "env".toList then
        match src.env arg with
        | some value => .ok value
        | none =>
          .error ("secret: environment variable '" ++ String.ofList arg ++ "' is not set")
      else if verb = "cmd".toList then src.cmd arg
      else if verb = "vault".toList then src.vault arg
      else .error ("secret: unknown template verb '" ++ String.ofList verb ++ "'")

/-! ### The client -/

/-- `v:match("^%s*{{")`: the text opens as a template. -/
def opens (v : Text) : Bool := opening.isPrefixOf (v.dropWhile isSpace)

/-- `is_plaintext`. -/
def isPlaintext (v : Text) : Bool := !v.isEmpty && !opens v

/-! ### Trimming -/

theorem isWhitespace_brace : isWhitespace '{' = false := by decide

theorem rdropWhile_cons {c : Char} (hc : isWhitespace c = false) (rest : Text) :
    (c :: rest).rdropWhile isWhitespace = c :: rest.rdropWhile isWhitespace := by
  rw [List.rdropWhile, List.rdropWhile, List.reverse_cons, List.dropWhile_append]
  split
  · next hnil =>
    rw [List.isEmpty_iff.mp hnil]
    simp [List.dropWhile, hc]
  · rw [List.reverse_append]
    rfl

/-- Trimming stops at the first character that is not blank. -/
theorem trim_cons {c : Char} (hc : isWhitespace c = false) (rest : Text) :
    trim (c :: rest) = c :: rest.rdropWhile isWhitespace := by
  have hdrop : (c :: rest).dropWhile isWhitespace = c :: rest := by
    rw [List.dropWhile_cons_of_neg]
    rw [hc]
    exact Bool.false_ne_true
  rw [trim, Lib.strip, hdrop, rdropWhile_cons hc]

theorem trim_blank {pre : Text} (hpre : ∀ c ∈ pre, isWhitespace c = true) (rest : Text) :
    trim (pre ++ rest) = trim rest := by
  rw [trim, Lib.strip, List.dropWhile_append_of_pos hpre]
  rfl

/-- A text that trimming leaves alone does not begin with a blank. -/
theorem head_of_trim {c : Char} {rest : Text} (h : trim (c :: rest) = c :: rest) :
    isWhitespace c = false := by
  by_contra hc
  rw [Bool.not_eq_false] at hc
  have hlen := congrArg List.length h
  have hdrop : (c :: rest).dropWhile isWhitespace = rest.dropWhile isWhitespace :=
    List.dropWhile_cons_of_pos hc
  rw [trim, Lib.strip, hdrop] at hlen
  have hle := (List.rdropWhile_prefix isWhitespace (rest.dropWhile isWhitespace)).length_le
  have hle' := (List.dropWhile_suffix isWhitespace (l := rest)).length_le
  rw [List.length_cons] at hlen
  omega

theorem trim_trim (s : Text) : trim (trim s) = trim s :=
  Lib.strip_eq_self Lib.strip_head Lib.strip_last

/-! ### Prefixes and suffixes -/

theorem stripPrefix_eq_some {p s r : Text} : stripPrefix p s = some r ↔ s = p ++ r := by
  constructor
  · intro h
    rw [stripPrefix] at h
    split at h
    · next hp =>
      cases h
      exact (List.prefix_iff_eq_append.mp hp).symm
    · cases h
  · rintro rfl
    rw [stripPrefix, if_pos (List.prefix_append p r), List.drop_left]

theorem stripSuffix_eq_some {p s r : Text} : stripSuffix p s = some r ↔ s = r ++ p := by
  constructor
  · intro h
    rw [stripSuffix] at h
    split at h
    · next hp =>
      cases h
      obtain ⟨t, rfl⟩ := hp
      have hlen : (t ++ p).length - p.length = t.length := by
        rw [List.length_append]
        omega
      rw [hlen, List.take_left]
    · cases h
  · rintro rfl
    have hlen : (r ++ p).length - p.length = r.length := by
      rw [List.length_append]
      omega
    rw [stripSuffix, if_pos (List.suffix_append r p), hlen, List.take_left]

/-- What stands between the braces of a template. -/
theorem stripTemplate_eq_some {v inner : Text} :
    stripTemplate v = some inner ↔ ∃ mid, trim v = opening ++ mid ++ closing ∧ trim mid = inner := by
  rw [stripTemplate, Option.map_eq_some_iff]
  constructor
  · rintro ⟨mid, hmid, htrim⟩
    obtain ⟨r, hopen, hclose⟩ := Option.bind_eq_some_iff.mp hmid
    refine ⟨mid, ?_, htrim⟩
    rw [stripPrefix_eq_some.mp hopen, stripSuffix_eq_some.mp hclose, List.append_assoc]
  · rintro ⟨mid, hmid, htrim⟩
    refine ⟨mid, ?_, htrim⟩
    rw [hmid, List.append_assoc, stripPrefix_eq_some.mpr rfl, Option.bind_some,
      stripSuffix_eq_some.mpr rfl]

theorem read_delimited {v mid : Text} (h : trim v = opening ++ mid ++ closing) :
    read v = .template (trim mid) := by
  have hne : trim v ≠ [] := by
    rw [h]
    exact List.cons_ne_nil _ _
  have hstrip : stripTemplate (trim v) = some (trim mid) :=
    stripTemplate_eq_some.mpr ⟨mid, by rw [trim_trim, h], rfl⟩
  rw [read, if_neg hne, hstrip]

/-- What opens as a template to the client begins with two braces once it is trimmed. -/
theorem trim_opens {v : Text} (h : opens v = true) : ∃ rest, trim v = '{' :: '{' :: rest := by
  obtain ⟨rest, hrest⟩ := List.isPrefixOf_iff_prefix.mp h
  have hsplit : v = v.takeWhile isSpace ++ ('{' :: '{' :: rest) := by
    have hcut := List.takeWhile_append_dropWhile (p := isSpace) (l := v)
    rw [← hrest] at hcut
    exact hcut.symm
  have hblank : ∀ c ∈ v.takeWhile isSpace, isWhitespace c = true := fun c hc =>
    isWhitespace_of_isSpace (List.mem_takeWhile_imp hc)
  exact ⟨rest.rdropWhile isWhitespace, by
    rw [hsplit, trim_blank hblank, trim_cons isWhitespace_brace, rdropWhile_cons isWhitespace_brace]⟩

/-- A text without blanks around it that does not open as a template is no template. -/
theorem stripTemplate_none {v : Text} (htrim : trim v = v) (h : opens v = false) :
    stripTemplate v = none := by
  have hno : ¬ opening <+: v := by
    rintro ⟨rest, rfl⟩
    have hhead : isSpace '{' = false := by decide
    have hdrop : (opening ++ rest).dropWhile isSpace = opening ++ rest :=
      List.dropWhile_cons_of_neg (by rw [hhead]; exact Bool.false_ne_true)
    rw [opens, hdrop] at h
    exact absurd (List.isPrefixOf_iff_prefix.mpr (List.prefix_append _ _)) (by rw [h]; nofun)
  rw [stripTemplate, htrim, stripPrefix, if_neg hno]
  rfl

/-! ### The two readings -/

/-- The client and the engine agree on a text: the one takes it for a secret in the clear where
the other reads a literal, and the literal is the text itself. -/
structure Agree (v : Text) : Prop where
  classified : isPlaintext v = true ↔ ∃ raw, read v = .literal raw
  itself : ∀ raw, read v = .literal raw → raw = v

/-- The text is empty, or opens as a template and is closed as one, or does not open as one and
has no blanks around it. -/
def Plain (v : Text) : Prop :=
  v = [] ∨ (opens v = true ∧ (stripTemplate (trim v)).isSome = true) ∨
    (opens v = false ∧ trim v = v)

theorem read_opens {v : Text} (h : opens v = true) :
    read v = match stripTemplate (trim v) with
      | some inner => .template inner
      | none => .literal (trim v) := by
  obtain ⟨rest, hrest⟩ := trim_opens h
  rw [read, if_neg]
  rw [hrest]
  exact List.cons_ne_nil _ _

theorem literal_trim {v raw : Text} (h : read v = .literal raw) : raw = trim v := by
  unfold read at h
  split at h
  · cases h
  · split at h
    · cases h
    · cases h
      rfl

/-- The client's test and the engine agree on a text exactly when it is plain. -/
theorem plaintext_agrees_iff (v : Text) : Agree v ↔ Plain v := by
  cases hopens : opens v with
  | true =>
    have hne : v ≠ [] := by
      rintro rfl
      cases hopens
    have hplain : isPlaintext v = false := by
      rw [isPlaintext, hopens]
      exact Bool.and_false _
    have hread := read_opens hopens
    have hcond : Plain v ↔ (stripTemplate (trim v)).isSome = true := by
      simp only [Plain, hne, hopens, true_and, false_or, Bool.true_eq_false, false_and, or_false]
    rw [hcond]
    cases hstrip : stripTemplate (trim v) with
    | some inner =>
      rw [hstrip] at hread
      refine ⟨fun _ => rfl, fun _ => ⟨?_, fun raw hraw => ?_⟩⟩
      · rw [hplain, hread]
        exact ⟨nofun, nofun⟩
      · rw [hread] at hraw
        cases hraw
    | none =>
      rw [hstrip] at hread
      refine ⟨fun h => ?_, nofun⟩
      have hsecret := h.classified.mpr ⟨_, hread⟩
      rw [hplain] at hsecret
      cases hsecret
  | false =>
    by_cases hnil : v = []
    · subst hnil
      exact ⟨fun _ => .inl rfl, fun _ => ⟨⟨nofun, nofun⟩, nofun⟩⟩
    · have hplain : isPlaintext v = true := by
        rw [isPlaintext, hopens]
        simpa using hnil
      have hcond : Plain v ↔ trim v = v := by
        simp only [Plain, hnil, hopens, true_and, false_or, Bool.false_eq_true, false_and]
      rw [hcond]
      constructor
      · intro h
        obtain ⟨raw, hraw⟩ := h.classified.mp hplain
        rw [← literal_trim hraw]
        exact h.itself raw hraw
      · intro htrim
        have hread : read v = .literal v := by
          rw [read, htrim, if_neg hnil, stripTemplate_none htrim hopens]
        refine ⟨⟨fun _ => ⟨v, hread⟩, fun _ => hplain⟩, fun raw hraw => ?_⟩
        rw [hread] at hraw
        cases hraw
        rfl

/-- Four texts the two disagree on: one that is not closed, a blank, a template after a blank
that is not ASCII, and a secret with a blank at its end. -/
theorem plaintext_disagrees :
    (isPlaintext (opening ++ "abc".toList) = false ∧
        read (opening ++ "abc".toList) = .literal (opening ++ "abc".toList)) ∧
      (isPlaintext [' '] = true ∧ read [' '] = .empty) ∧
      (isPlaintext ('\u00a0' :: (opening ++ " env \"A\" ".toList ++ closing)) = true ∧
        read ('\u00a0' :: (opening ++ " env \"A\" ".toList ++ closing)) =
          .template "env \"A\"".toList) ∧
      (isPlaintext "pw ".toList = true ∧ read "pw ".toList = .literal "pw".toList) ∧
      ¬ ∀ v, Agree v := by
  refine ⟨by decide, by decide, by decide, by decide, fun h => ?_⟩
  obtain ⟨raw, hraw⟩ := (h [' ']).classified.mp (by decide)
  have hempty : read [' '] = .empty := by decide
  rw [hempty] at hraw
  cases hraw

end LvimDb.Secret
