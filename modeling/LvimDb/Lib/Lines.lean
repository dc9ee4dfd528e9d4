import Mathlib.Data.List.DropRight

/-!
# Lines of a stream

A stream that arrives in chunks, each cut at its separators. The first piece of a chunk
completes what was carried over, the last is carried on.
-/

namespace Lib
variable {α : Type*}

/-- An ASCII blank. -/
def isSpace (c : Char) : Bool := c == ' ' || decide ('\t' ≤ c ∧ c ≤ '\r')

/-- The list without what `p` holds for at both ends. -/
def strip (p : α → Bool) (xs : List α) : List α := (xs.dropWhile p).rdropWhile p

theorem strip_parts (p : α → Bool) (xs : List α) :
    ∃ lead trail, xs = lead ++ strip p xs ++ trail ∧ (∀ x ∈ lead, p x = true) ∧
      ∀ x ∈ trail, p x = true := by
  refine ⟨xs.takeWhile p, (xs.dropWhile p).rtakeWhile p, ?_,
    fun x hx => List.mem_takeWhile_imp hx, fun x hx => List.mem_rtakeWhile_imp hx⟩
  rw [List.append_assoc, strip, List.rdropWhile_append_rtakeWhile, List.takeWhile_append_dropWhile]

theorem strip_head {p : α → Bool} {xs : List α} : ∀ x ∈ (strip p xs).head?, p x = false := by
  intro x hx
  obtain ⟨trail, htrail⟩ : strip p xs <+: xs.dropWhile p := List.rdropWhile_prefix p _
  have hdrop : (xs.dropWhile p).head? = some x := by
    rw [← htrail, List.head?_append, hx]
    rfl
  have hnot := List.head?_dropWhile_not p xs
  rw [hdrop] at hnot
  exact hnot

theorem strip_between {p : α → Bool} {lead core trail : List α} (hlead : ∀ x ∈ lead, p x = true)
    (htrail : ∀ x ∈ trail, p x = true) (hhead : ∀ x ∈ core.head?, p x = false)
    (hlast : ∀ x ∈ core.getLast?, p x = false) : strip p (lead ++ core ++ trail) = core := by
  have hdrop : (lead ++ core ++ trail).dropWhile p = (core ++ trail).dropWhile p := by
    rw [List.append_assoc, List.dropWhile_append_of_pos hlead]
  rw [strip, hdrop]
  cases core with
  | nil => rw [List.nil_append, List.dropWhile_eq_nil_iff.mpr htrail, List.rdropWhile_nil]
  | cons c core =>
    have hc : ¬ p c = true := by
      rw [hhead c rfl]
      exact Bool.false_ne_true
    have htrail' : ∀ x ∈ trail.reverse, p x = true := fun x hx => htrail x (List.mem_reverse.mp hx)
    rw [List.cons_append, List.dropWhile_cons_of_neg hc, ← List.cons_append, List.rdropWhile,
      List.reverse_append, List.dropWhile_append_of_pos htrail']
    have hkeep : (c :: core).reverse.dropWhile p = (c :: core).reverse := by
      cases hrev : (c :: core).reverse with
      | nil => rfl
      | cons d rest =>
        have hd : (c :: core).getLast? = some d := by
          rw [List.getLast?_eq_head?_reverse, hrev]
          rfl
        rw [List.dropWhile_cons_of_neg]
        rw [hlast d hd]
        exact Bool.false_ne_true
    rw [hkeep, List.reverse_reverse]

/-- What does not begin or end with `p` stays. -/
theorem strip_eq_self {p : α → Bool} {xs : List α} (hhead : ∀ x ∈ xs.head?, p x = false)
    (hlast : ∀ x ∈ xs.getLast?, p x = false) : strip p xs = xs := by
  have h : strip p ([] ++ xs ++ []) = xs :=
    strip_between (fun _ hx => (List.not_mem_nil hx).elim) (fun _ hx => (List.not_mem_nil hx).elim)
      hhead hlast
  rwa [List.nil_append, List.append_nil] at h

theorem strip_last {p : α → Bool} {xs : List α} : ∀ x ∈ (strip p xs).getLast?, p x = false := by
  intro x hx
  have hne : (strip p xs) ≠ [] := by
    rintro hnil
    rw [hnil] at hx
    cases hx
  rw [List.getLast?_eq_some_getLast hne, Option.mem_some_iff] at hx
  rw [← hx]
  exact Bool.eq_false_iff.mpr (List.rdropWhile_last_not p _ hne)

/-- The pieces of a chunk, the first one completing `carried`. -/
def complete (carried : List α) (pieces : List (List α)) : List (List α) :=
  pieces.modifyHead (carried ++ ·)

theorem complete_nil (pieces : List (List α)) : complete [] pieces = pieces := by
  cases pieces with
  | nil => rfl
  | cons p ps => rfl

variable [BEq α] (nl : α)

/-- The complete lines of a stream. -/
def lines (xs : List α) : List (List α) := (xs.splitOn nl).dropLast

/-- What comes after the last separator. -/
def rest (xs : List α) : List α := (xs.splitOn nl).getLastD []

variable {nl}

theorem splitOn_ne_nil (xs : List α) : xs.splitOn nl ≠ [] := List.splitOnP_ne_nil _ xs

theorem splitOn_cons (x : α) (xs : List α) :
    (x :: xs).splitOn nl =
      if x == nl then [] :: xs.splitOn nl else (xs.splitOn nl).modifyHead (x :: ·) :=
  List.splitOnP_cons_eq_if_modifyHead x xs

theorem lines_rest (xs : List α) : xs.splitOn nl = lines nl xs ++ [rest nl xs] := by
  unfold lines rest
  rw [List.getLastD_eq_getLast?, List.getLast?_eq_some_getLast (splitOn_ne_nil xs)]
  exact (List.dropLast_append_getLast _).symm

/-- Where the cut is known, the lines and the rest are. -/
theorem lines_rest_eq {xs r : List α} {ls : List (List α)} (h : xs.splitOn nl = ls ++ [r]) :
    lines nl xs = ls ∧ rest nl xs = r := by
  rw [lines_rest] at h
  obtain ⟨hls, hr⟩ := List.append_inj' h rfl
  exact ⟨hls, List.singleton_inj.mp hr⟩

theorem cons_sep {x : α} (hx : (x == nl) = true) (xs : List α) :
    lines nl (x :: xs) = [] :: lines nl xs ∧ rest nl (x :: xs) = rest nl xs := by
  apply lines_rest_eq
  rw [splitOn_cons, if_pos hx, lines_rest]
  rfl

theorem cons_last {x : α} (hx : ¬ (x == nl) = true) {xs : List α} (h : lines nl xs = []) :
    lines nl (x :: xs) = [] ∧ rest nl (x :: xs) = x :: rest nl xs := by
  apply lines_rest_eq
  rw [splitOn_cons, if_neg hx, lines_rest, h]
  rfl

theorem cons_first {x : α} (hx : ¬ (x == nl) = true) {xs l : List α} {ls : List (List α)}
    (h : lines nl xs = l :: ls) :
    lines nl (x :: xs) = (x :: l) :: ls ∧ rest nl (x :: xs) = rest nl xs := by
  apply lines_rest_eq
  rw [splitOn_cons, if_neg hx, lines_rest, h]
  rfl

theorem splitOn_append (xs ys : List α) :
    (xs ++ ys).splitOn nl = lines nl xs ++ complete (rest nl xs) (ys.splitOn nl) := by
  induction xs with
  | nil => exact (complete_nil _).symm
  | cons x xs ih =>
    rw [List.cons_append, splitOn_cons, ih]
    by_cases hx : (x == nl) = true
    · obtain ⟨hl, hr⟩ := cons_sep hx xs
      rw [if_pos hx, hl, hr]
      rfl
    · rw [if_neg hx]
      cases hlines : lines nl xs with
      | nil =>
        obtain ⟨hl, hr⟩ := cons_last hx hlines
        rw [hl, hr]
        cases hys : ys.splitOn nl with
        | nil => exact absurd hys (splitOn_ne_nil ys)
        | cons p ps => rfl
      | cons l ls =>
        obtain ⟨hl, hr⟩ := cons_first hx hlines
        rw [hl, hr]
        rfl

/-- The lines that a chunk completes come after those of the stream before it. -/
theorem lines_append (xs ys : List α) :
    lines nl (xs ++ ys) = lines nl xs ++ (complete (rest nl xs) (ys.splitOn nl)).dropLast := by
  have hne : complete (rest nl xs) (ys.splitOn nl) ≠ [] := by
    cases hys : ys.splitOn nl with
    | nil => exact absurd hys (splitOn_ne_nil ys)
    | cons p ps => exact List.cons_ne_nil _ _
  unfold lines
  rw [splitOn_append, List.dropLast_append_of_ne_nil hne]
  rfl

/-- What a chunk leaves to be carried on is what comes after the last separator so far. -/
theorem rest_append (xs ys : List α) :
    rest nl (xs ++ ys) = (complete (rest nl xs) (ys.splitOn nl)).getLastD [] := by
  have hne : complete (rest nl xs) (ys.splitOn nl) ≠ [] := by
    cases hys : ys.splitOn nl with
    | nil => exact absurd hys (splitOn_ne_nil ys)
    | cons p ps => exact List.cons_ne_nil _ _
  unfold rest
  rw [splitOn_append, List.getLastD_eq_getLast?, List.getLastD_eq_getLast?,
    List.getLast?_append_of_ne_nil _ hne]
  rfl

/-- A stream is its complete lines and what comes after them. -/
theorem lines_flatten [LawfulBEq α] (xs : List α) :
    ((lines nl xs).map (· ++ [nl])).flatten ++ rest nl xs = xs := by
  induction xs with
  | nil => rfl
  | cons x xs ih =>
    by_cases hx : (x == nl) = true
    · obtain ⟨hl, hr⟩ := cons_sep hx xs
      rw [hl, hr, eq_of_beq hx]
      simpa using ih
    · cases hlines : lines nl xs with
      | nil =>
        obtain ⟨hl, hr⟩ := cons_last hx hlines
        rw [hlines] at ih
        rw [hl, hr]
        simpa using ih
      | cons l ls =>
        obtain ⟨hl, hr⟩ := cons_first hx hlines
        rw [hlines] at ih
        rw [hl, hr]
        simpa using ih

/-- Neither a line nor the rest holds a separator. -/
theorem sep_not_mem [LawfulBEq α] (xs : List α) :
    (∀ l ∈ lines nl xs, nl ∉ l) ∧ nl ∉ rest nl xs := by
  induction xs with
  | nil => exact ⟨fun l hl => (List.not_mem_nil hl).elim, List.not_mem_nil⟩
  | cons x xs ih =>
    by_cases hx : (x == nl) = true
    · obtain ⟨hl, hr⟩ := cons_sep hx xs
      rw [hl, hr]
      refine ⟨fun l hm => ?_, ih.2⟩
      rcases List.mem_cons.mp hm with rfl | hm
      · exact List.not_mem_nil
      · exact ih.1 l hm
    · have hne : nl ≠ x := fun heq => hx (heq ▸ beq_self_eq_true nl)
      cases hlines : lines nl xs with
      | nil =>
        obtain ⟨hl, hr⟩ := cons_last hx hlines
        rw [hl, hr]
        exact ⟨fun l hm => (List.not_mem_nil hm).elim, List.not_mem_cons_of_ne_of_not_mem hne ih.2⟩
      | cons l ls =>
        obtain ⟨hl, hr⟩ := cons_first hx hlines
        rw [hlines] at ih
        rw [hl, hr]
        refine ⟨fun k hm => ?_, ih.2⟩
        rcases List.mem_cons.mp hm with rfl | hm
        · exact List.not_mem_cons_of_ne_of_not_mem hne (ih.1 l (List.mem_cons_self ..))
        · exact ih.1 k (List.mem_cons_of_mem _ hm)

theorem of_not_mem [LawfulBEq α] {xs : List α} (h : nl ∉ xs) :
    lines nl xs = [] ∧ rest nl xs = xs := by
  have hlines : lines nl xs = [] := by
    have hno : ∀ x ∈ xs, (x == nl) = false := by
      intro x hx
      apply beq_false_of_ne
      rintro rfl
      exact h hx
    unfold lines List.splitOn
    rw [List.splitOnP_eq_singleton hno]
    rfl
  have hwhole : ((lines nl xs).map (· ++ [nl])).flatten ++ rest nl xs = xs := lines_flatten xs
  rw [hlines] at hwhole
  exact ⟨hlines, hwhole⟩

/-- A stream is cut as what is carried on and the next chunk are. -/
theorem resume [LawfulBEq α] (xs ys : List α) :
    lines nl (xs ++ ys) = lines nl xs ++ lines nl (rest nl xs ++ ys) ∧
      rest nl (xs ++ ys) = rest nl (rest nl xs ++ ys) := by
  obtain ⟨hl, hr⟩ := of_not_mem (sep_not_mem xs).2
  constructor
  · rw [lines_append, lines_append (rest nl xs), hl, hr]
    rfl
  · rw [rest_append, rest_append (rest nl xs), hr]

/-- What a chunk completes, and what it leaves. -/
theorem complete_eq [LawfulBEq α] {carried : List α} (h : nl ∉ carried) (chunk : List α) :
    (complete carried (chunk.splitOn nl)).dropLast = lines nl (carried ++ chunk) ∧
      (complete carried (chunk.splitOn nl)).getLastD [] = rest nl (carried ++ chunk) := by
  obtain ⟨hl, hr⟩ := of_not_mem h
  constructor
  · rw [lines_append, hl, hr]
    rfl
  · rw [rest_append, hr]

end Lib
