import LvimDb.Secret.Template

/-!
# The grammar of the templates

`{{ verb "arg" }}` with blanks around and between its parts, read by `strip_template` and
`split_verb`, and what `Secret::resolve` makes of every other text.
-/

namespace LvimDb.Secret

/-- A run of blanks. -/
structure Pad where
  text : Text
  blank : ∀ c ∈ text, isWhitespace c = true

/-- A verb: it is not empty and has no blanks. -/
structure Verb where
  text : Text
  ne : text ≠ []
  solid : ∀ c ∈ text, isWhitespace c = false

/-- The blanks of a template; the verb and the argument are kept apart. -/
structure Layout where
  before : Pad
  left : Pad
  gap : Pad
  apart : gap.text ≠ []
  right : Pad
  after : Pad

def quote (arg : Text) : Text := '"' :: (arg ++ ['"'])

/-- `{{ verb "arg" }}`. -/
def Layout.write (l : Layout) (verb : Verb) (arg : Text) : Text :=
  l.before.text ++
    (opening ++ (l.left.text ++ (verb.text ++ (l.gap.text ++ quote arg)) ++ l.right.text) ++
      closing) ++ l.after.text

/-- The text is resolved by what stands for its verb, given its argument. -/
structure Dispatched (s verb arg : Text) : Prop where
  split : ∃ inner, read s = .template inner ∧ splitVerb inner = .ok (verb, arg)
  env : verb = "env".toList → ∀ (src : Sources) (value : Text),
    src.env arg = some value → resolve src s = .ok value
  unset : verb = "env".toList → ∀ src : Sources, src.env arg = none →
    resolve src s =
      .error ("secret: environment variable '" ++ String.ofList arg ++ "' is not set")
  cmd : verb = "cmd".toList → ∀ src, resolve src s = src.cmd arg
  vault : verb = "vault".toList → ∀ src, resolve src s = src.vault arg
  unknown : verb ∉ ["env".toList, "cmd".toList, "vault".toList] → ∀ src,
    resolve src s =
      .error ("secret: unknown template verb '" ++ String.ofList verb ++ "'")

/-- The text is of the template form. -/
def IsForm (s : Text) : Prop := ∃ (l : Layout) (verb : Verb) (arg : Text), s = l.write verb arg

/-- The text opens and closes as a template, whatever is between. -/
def Delimited (s : Text) : Prop := ∃ mid, trim s = opening ++ mid ++ closing

def Verbatim (s : Text) : Prop := ∀ src, resolve src s = .ok s

variable {s verb arg inner : Text}

/-! ### A template is read as its parts -/

theorem quote_ends (arg : Text) :
    (∀ c ∈ (quote arg).head?, isWhitespace c = false) ∧
      ∀ c ∈ (quote arg).getLast?, isWhitespace c = false := by
  have hlast : (quote arg).getLast? = some '"' := by
    rw [quote, ← List.cons_append, List.getLast?_concat]
  constructor
  · intro c hc
    cases hc
    decide
  · intro c hc
    rw [hlast] at hc
    cases hc
    decide

theorem trim_parts (verb : Verb) (gap arg : Text) :
    trim (verb.text ++ (gap ++ quote arg)) = verb.text ++ (gap ++ quote arg) := by
  refine Lib.strip_eq_self (fun c hc => ?_) fun c hc => ?_
  · obtain ⟨v, vs, hv⟩ := List.exists_cons_of_ne_nil verb.ne
    rw [hv] at hc
    cases hc
    exact verb.solid c (by rw [hv]; exact List.mem_cons_self ..)
  · have hne : quote arg ≠ [] := List.cons_ne_nil _ _
    rw [← List.append_assoc, List.getLast?_append_of_ne_nil _ hne] at hc
    exact (quote_ends arg).2 c hc

theorem splitVerb_parts (verb : Verb) {gap : Pad} (apart : gap.text ≠ []) (arg : Text) :
    splitVerb (verb.text ++ (gap.text ++ quote arg)) = .ok (verb.text, arg) := by
  obtain ⟨g, gs, hgap⟩ := List.exists_cons_of_ne_nil apart
  have hblank : ∀ c ∈ g :: gs, isWhitespace c = true := hgap ▸ gap.blank
  have hsolid : ∀ c ∈ verb.text, (!isWhitespace c) = true := fun c hc => by
    rw [verb.solid c hc]
    rfl
  have hg : ¬ (!isWhitespace g) = true := by
    rw [hblank g (List.mem_cons_self ..)]
    exact Bool.false_ne_true
  have hdrop : (verb.text ++ (gap.text ++ quote arg)).dropWhile (!isWhitespace ·) =
      g :: (gs ++ quote arg) := by
    rw [List.dropWhile_append_of_pos hsolid, hgap, List.cons_append,
      List.dropWhile_cons_of_neg (p := (!isWhitespace ·)) hg]
  have htake : (verb.text ++ (gap.text ++ quote arg)).takeWhile (!isWhitespace ·) = verb.text := by
    rw [List.takeWhile_append_of_pos hsolid, hgap, List.cons_append,
      List.takeWhile_cons_of_neg (p := (!isWhitespace ·)) hg, List.append_nil]
  have harg : trim (gs ++ quote arg) = quote arg := by
    rw [trim_blank fun c hc => hblank c (List.mem_cons_of_mem _ hc)]
    exact Lib.strip_eq_self (quote_ends arg).1 (quote_ends arg).2
  have hopen : stripPrefix ['"'] (quote arg) = some (arg ++ ['"']) :=
    stripPrefix_eq_some.mpr rfl
  have hclose : stripSuffix ['"'] (arg ++ ['"']) = some arg := stripSuffix_eq_some.mpr rfl
  simp only [splitVerb, trim_parts, hdrop, htake, harg, hopen, Option.bind_some, hclose]

/-- What is between two blanks that it does not begin or end with. -/
theorem trim_pads (p q : Pad) {core : Text} (hhead : ∀ c ∈ core.head?, isWhitespace c = false)
    (hlast : ∀ c ∈ core.getLast?, isWhitespace c = false) :
    trim (p.text ++ core ++ q.text) = core :=
  Lib.strip_between p.blank q.blank hhead hlast

theorem dispatched_of_split (hread : read s = .template inner)
    (hsplit : splitVerb inner = .ok (verb, arg)) : Dispatched s verb arg := by
  have hcmd : "cmd".toList ≠ "env".toList := by decide
  have hvault : "vault".toList ≠ "env".toList ∧ "vault".toList ≠ "cmd".toList := by decide
  constructor
  case split => exact ⟨inner, hread, hsplit⟩
  case env =>
    rintro rfl src value hvalue
    simp only [resolve, hread, hsplit, if_true, hvalue]
  case unset =>
    rintro rfl src hvalue
    simp only [resolve, hread, hsplit, if_true, hvalue]
  case cmd =>
    rintro rfl src
    simp only [resolve, hread, hsplit, if_neg hcmd, if_true]
  case vault =>
    rintro rfl src
    simp only [resolve, hread, hsplit, if_neg hvault.1, if_neg hvault.2, if_true]
  case unknown =>
    intro hother src
    simp only [List.mem_cons, List.not_mem_nil, or_false, not_or] at hother
    simp only [resolve, hread, hsplit, if_neg hother.1, if_neg hother.2.1, if_neg hother.2.2]

theorem dispatched_write (l : Layout) (verb : Verb) (arg : Text) :
    Dispatched (l.write verb arg) verb.text arg := by
  let parts := verb.text ++ (l.gap.text ++ quote arg)
  let mid := l.left.text ++ parts ++ l.right.text
  have hparts : trim mid = parts := by
    have hself : trim parts = parts := trim_parts verb l.gap.text arg
    refine trim_pads l.left l.right (fun c hc => ?_) fun c hc => ?_
    · rw [← hself] at hc
      exact Lib.strip_head c hc
    · rw [← hself] at hc
      exact Lib.strip_last c hc
  have hcore : trim (l.write verb arg) = opening ++ mid ++ closing := by
    refine trim_pads l.before l.after (fun c hc => ?_) fun c hc => ?_
    · cases hc
      exact isWhitespace_brace
    · have hne : closing ≠ [] := List.cons_ne_nil _ _
      rw [List.getLast?_append_of_ne_nil _ hne] at hc
      cases hc
      decide
  refine dispatched_of_split ?_ (splitVerb_parts verb l.apart arg)
  rw [read_delimited hcore, hparts]

/-! ### What is read as a verb and an argument is a template -/

theorem splitVerb_ok (htrim : trim inner = inner) (h : splitVerb inner = .ok (verb, arg)) :
    ∃ (v : Verb) (gap right : Pad), gap.text ≠ [] ∧ v.text = verb ∧
      inner = verb ++ (gap.text ++ quote arg) ++ right.text := by
  rw [splitVerb, htrim] at h
  split at h
  · cases h
  · next g rest hdrop =>
    have hwhole := List.takeWhile_append_dropWhile (p := (!isWhitespace ·)) (l := inner)
    have hg : isWhitespace g = true := by
      have hnot := List.head?_dropWhile_not (!isWhitespace ·) inner
      rw [hdrop] at hnot
      simpa using hnot
    have hsolid : ∀ c ∈ inner.takeWhile (!isWhitespace ·), isWhitespace c = false :=
      fun c hc => by simpa using List.mem_takeWhile_imp hc
    -- the trimmed text does not begin with a blank, so that there is a verb
    have hne : inner.takeWhile (!isWhitespace ·) ≠ [] := by
      intro hnil
      rw [hnil, List.nil_append, hdrop] at hwhole
      rw [← hwhole] at htrim
      rw [head_of_trim htrim] at hg
      cases hg
    obtain ⟨lead, trail, hrest, hlead, htrail⟩ := Lib.strip_parts isWhitespace rest
    split at h
    · next a harg =>
      cases h
      obtain ⟨r, hopen, hclose⟩ := Option.bind_eq_some_iff.mp harg
      have hquote : Lib.strip isWhitespace rest = quote arg := by
        rw [show Lib.strip isWhitespace rest = trim rest from rfl, stripPrefix_eq_some.mp hopen,
          stripSuffix_eq_some.mp hclose]
        rfl
      refine ⟨⟨_, hne, hsolid⟩, ⟨g :: lead, List.forall_mem_cons.mpr ⟨hg, hlead⟩⟩,
        ⟨trail, htrail⟩, List.cons_ne_nil _ _, rfl, ?_⟩
      conv_lhs => rw [← hwhole, hdrop, hrest, hquote]
      simp only [List.append_assoc, List.cons_append]
    · cases h

theorem form_of_splitVerb {mid : Text} (hs : trim s = opening ++ mid ++ closing)
    (hsplit : splitVerb (trim mid) = .ok (verb, arg)) : IsForm s := by
  obtain ⟨before, after, hcut, hbefore, hafter⟩ := Lib.strip_parts isWhitespace s
  obtain ⟨left, trail, hmid, hleft, htrail⟩ := Lib.strip_parts isWhitespace mid
  obtain ⟨v, gap, right, apart, rfl, hinner⟩ := splitVerb_ok (trim_trim mid) hsplit
  let blank : Pad := ⟨right.text ++ trail, List.forall_mem_append.mpr ⟨right.blank, htrail⟩⟩
  refine ⟨⟨⟨before, hbefore⟩, ⟨left, hleft⟩, gap, apart, blank, ⟨after, hafter⟩⟩, v, arg, ?_⟩
  calc s = before ++ trim s ++ after := hcut
    _ = before ++ (opening ++ (left ++ trim mid ++ trail) ++ closing) ++ after := by
      rw [hs]
      exact congrArg (fun m => before ++ (opening ++ m ++ closing) ++ after) hmid
    _ = _ := by
      rw [hinner]
      simp only [Layout.write, blank, List.append_assoc]

/-! ### Every text -/

theorem delimited_of_template (h : read s = .template inner) : Delimited s := by
  rw [read] at h
  split at h
  · cases h
  · split at h
    · next i hstrip =>
      obtain ⟨mid, hmid, -⟩ := stripTemplate_eq_some.mp hstrip
      exact ⟨mid, by rw [← trim_trim, hmid]⟩
    · cases h

/-- Braces around what is not a verb and a quoted argument are an error. -/
theorem resolve_malformed (hform : ¬ IsForm s) (hs : Delimited s) (src : Sources) :
    ∃ e, resolve src s = .error e := by
  obtain ⟨mid, hmid⟩ := hs
  have hread := read_delimited hmid
  cases hsplit : splitVerb (trim mid) with
  | error e => exact ⟨e, by simp only [resolve, hread, hsplit]⟩
  | ok p => exact absurd (form_of_splitVerb hmid hsplit) hform

theorem resolve_literal (hs : ¬ Delimited s) (src : Sources) : resolve src s = .ok (trim s) := by
  cases hread : read s with
  | empty =>
    rw [read] at hread
    split at hread
    · next hnil => simp only [resolve, read, hnil, if_true]
    · split at hread <;> cases hread
  | template inner => exact absurd (delimited_of_template hread) hs
  | literal raw =>
    rw [← literal_trim hread]
    simp only [resolve, hread]

/-- A template is resolved by its verb, given its argument; braces around anything else are an
error, and a text without them and without blanks at its ends is used as it is. -/
theorem template_grammar (s : Text) :
    (∀ (l : Layout) (verb : Verb) (arg : Text), s = l.write verb arg →
      Dispatched s verb.text arg) ∧
    (¬ IsForm s → Delimited s → ∀ src, ∃ e, resolve src s = .error e) ∧
    (¬ IsForm s → ¬ Delimited s → trim s = s → Verbatim s) := by
  refine ⟨?_, resolve_malformed, fun _ hs htrim src => ?_⟩
  · rintro l verb arg rfl
    exact dispatched_write l verb arg
  · rw [resolve_literal hs, htrim]

/-- A literal in braces is an error. -/
theorem braces_not_verbatim :
    (∀ src, ∃ e, resolve src "{{x}}".toList = .error e) ∧
      ¬ ((∀ (l : Layout) (verb : Verb) (arg : Text),
          Dispatched (l.write verb arg) verb.text arg) ∧
        ∀ s, ¬ IsForm s → Verbatim s) := by
  have hread : read "{{x}}".toList = .template ['x'] := by decide
  have hsplit : splitVerb ['x'] =
      .error ("secret: malformed template '" ++ String.ofList ['x'] ++ "'") := rfl
  have hmalformed (src : Sources) : ∃ e, resolve src "{{x}}".toList = .error e := by
    refine ⟨"secret: malformed template '" ++ String.ofList ['x'] ++ "'", ?_⟩
    simp only [resolve, hread, hsplit]
  refine ⟨hmalformed, fun ⟨hform, hother⟩ => ?_⟩
  by_cases hx : IsForm "{{x}}".toList
  · obtain ⟨l, verb, arg, heq⟩ := hx
    obtain ⟨inner, hinner, hok⟩ := (hform l verb arg).split
    rw [← heq, hread] at hinner
    cases hinner
    rw [hsplit] at hok
    cases hok
  · obtain ⟨e, he⟩ := hmalformed ⟨fun _ => none, fun _ => .ok [], fun _ => .ok []⟩
    rw [hother _ hx] at he
    cases he

end LvimDb.Secret
