import Mathlib.Data.List.Basic

/-!
# String literals with backslashes

Literals between single quotes, in which a doubled quote is a quote and a backslash begins an
escape, except before those characters that leave it as it is. A text is written as a literal by
doubling its quotes.
-/

namespace Lib

/-- What a backslash does in the literals of an engine: before `keeps` it stands for itself,
else it denotes at most one character with the character after it and so many more. -/
structure Escapes where
  keeps : Char → Bool
  escape : Char → List Char → Option Char × ℕ
  quote : keeps '\'' = false

/-- The text of a literal and what comes after it, read after the opening quote; so many
characters are skipped first. -/
def Escapes.literal (e : Escapes) : ℕ → List Char → Option (List Char × List Char)
  | _, [] => none
  | k + 1, _ :: t => e.literal k t
  | 0, c :: t =>
    if c = '\'' then
      if t.head? = some '\'' then (e.literal 1 t).map fun x => ('\'' :: x.1, x.2)
      else some ([], t)
    else if c = '\\' then
      match t with
      | [] => none
      | d :: u =>
        if e.keeps d then (e.literal 0 (d :: u)).map fun x => ('\\' :: x.1, x.2)
        else
          (e.literal ((e.escape d u).2 + 1) (d :: u)).map fun x =>
            ((e.escape d u).1.toList ++ x.1, x.2)
    else (e.literal 0 t).map fun x => (c :: x.1, x.2)

/-- The text with its quotes doubled. -/
def doubled (n : List Char) : List Char :=
  n.flatMap fun c => if c = '\'' then ['\'', '\''] else [c]

/-- Every backslash stands before a character that leaves it as it is. -/
def Escapes.Keeps (e : Escapes) (n : List Char) : Prop :=
  ∀ a b, n = a ++ '\\' :: b → ∃ d, b.head? = some d ∧ e.keeps d = true

variable {e : Escapes} {n w t r post : List Char} {c : Char} {k : ℕ}

theorem doubled_cons (c : Char) (n : List Char) :
    doubled (c :: n) = (if c = '\'' then ['\'', '\''] else [c]) ++ doubled n :=
  List.flatMap_cons

theorem doubled_plain (hc : c ≠ '\'') (n : List Char) : doubled (c :: n) = c :: doubled n := by
  rw [doubled_cons, if_neg hc]
  rfl

theorem doubled_length (c : Char) (n : List Char) :
    (doubled (c :: n)).length = (if c = '\'' then 2 else 1) + (doubled n).length := by
  rw [doubled_cons, List.length_append]
  split <;> rfl

namespace Escapes

theorem keeps_cons : e.Keeps (c :: n) ↔
    (c = '\\' → ∃ d, n.head? = some d ∧ e.keeps d = true) ∧ e.Keeps n := by
  constructor
  · intro h
    refine ⟨?_, fun a b hn => h (c :: a) b (congrArg (c :: ·) hn)⟩
    rintro rfl
    exact h [] n rfl
  · rintro ⟨hhead, htail⟩ a b hn
    cases a with
    | nil =>
      obtain ⟨rfl, rfl⟩ := List.cons.inj hn
      exact hhead rfl
    | cons x a => exact htail a b (List.cons.inj hn).2

theorem literal_quote (t : List Char) :
    e.literal 0 ('\'' :: '\'' :: t) = (e.literal 0 t).map fun x => ('\'' :: x.1, x.2) := by
  rw [literal, if_pos rfl]
  exact if_pos rfl

theorem literal_close (h : t.head? ≠ some '\'') : e.literal 0 ('\'' :: t) = some ([], t) := by
  rw [literal.eq_def]
  exact (if_pos rfl).trans (if_neg h)

theorem literal_keep {d : Char} (h : e.keeps d = true) (t : List Char) :
    e.literal 0 ('\\' :: d :: t) =
      (e.literal 0 (d :: t)).map fun x => ('\\' :: x.1, x.2) := by
  rw [literal, if_neg (by decide), if_pos rfl]
  exact if_pos h

theorem literal_escape {d : Char} (h : ¬ e.keeps d = true) (t : List Char) :
    e.literal 0 ('\\' :: d :: t) =
      (e.literal (e.escape d t).2 t).map fun x => ((e.escape d t).1.toList ++ x.1, x.2) := by
  rw [literal, if_neg (by decide), if_pos rfl]
  exact if_neg h

theorem literal_plain (hq : c ≠ '\'') (hb : c ≠ '\\') (t : List Char) :
    e.literal 0 (c :: t) = (e.literal 0 t).map fun x => (c :: x.1, x.2) := by
  rw [literal.eq_def]
  exact (if_neg hq).trans (if_neg hb)

/-- What a literal denotes begins with what its first characters do. -/
theorem of_map {x : Option (List Char × List Char)} (f : List Char → List Char)
    (h : x.map (fun y => (f y.1, y.2)) = some (w, r)) : ∃ v, x = some (v, r) ∧ f v = w := by
  obtain ⟨⟨v, r'⟩, hx, hv⟩ := Option.map_eq_some_iff.mp h
  obtain ⟨rfl, rfl⟩ := Prod.mk.inj hv
  exact ⟨v, hx, rfl⟩

theorem doubled_option (x : Option Char) (n : List Char) :
    (doubled (x.toList ++ n)).length ≤ 2 + (doubled n).length := by
  cases x with
  | none => exact Nat.le_add_left _ _
  | some c =>
    show (doubled (c :: n)).length ≤ _
    rw [doubled_length]
    split <;> omega

/-- A literal is not shorter than what it denotes when that is written with doubled quotes. -/
theorem literal_length (h : e.literal k t = some (w, r)) :
    k + (doubled w).length + 1 + r.length ≤ t.length := by
  induction hn : t.length using Nat.strongRecOn generalizing k t w with
  | _ n ih =>
    subst hn
    cases t with
    | nil =>
      rw [literal] at h
      cases h
    | cons c t =>
      have hlt : t.length < (c :: t).length := Nat.lt_succ_self _
      have hcons : (c :: t).length = t.length + 1 := rfl
      cases k with
      | succ k =>
        have hread : e.literal k t = some (w, r) := h
        have hle := ih _ hlt hread rfl
        omega
      | zero =>
        by_cases hq : c = '\''
        · subst hq
          by_cases hd : t.head? = some '\''
          · obtain ⟨u, rfl⟩ : ∃ u, t = '\'' :: u := by
              cases t with
              | nil => cases hd
              | cons d u => exact ⟨u, by rw [Option.some.inj hd]⟩
            rw [literal_quote] at h
            obtain ⟨w', hread, rfl⟩ := of_map ('\'' :: ·) h

            have hle := ih u.length (Nat.lt_succ_of_lt (Nat.lt_succ_self _)) hread rfl
            simp only [doubled_length, if_true, List.length_cons]
            omega
          · rw [literal_close hd] at h
            cases h
            simp only [doubled, List.flatMap_nil, List.length_nil, List.length_cons]
            omega
        · by_cases hb : c = '\\'
          · subst hb
            cases t with
            | nil => cases h
            | cons d u =>
              by_cases hk : e.keeps d = true
              · rw [literal_keep hk] at h
                obtain ⟨w', hread, rfl⟩ := of_map ('\\' :: ·) h

                have hle := ih _ hlt hread rfl
                rw [doubled_plain (by decide), List.length_cons]
                omega
              · rw [literal_escape hk] at h
                obtain ⟨w', hread, rfl⟩ := of_map ((e.escape d u).1.toList ++ ·) h

                have hle := ih u.length (Nat.lt_succ_of_lt (Nat.lt_succ_self _)) hread rfl
                have hshort := doubled_option (e.escape d u).1 w'
                simp only [List.length_cons] at hcons ⊢
                omega
          · rw [literal_plain hq hb] at h
            obtain ⟨w', hread, rfl⟩ := of_map (c :: ·) h

            have hle := ih _ hlt hread rfl
            rw [doubled_plain hq, List.length_cons]
            omega

theorem literal_doubled (h : e.Keeps n) (hpost : post.head? ≠ some '\'') :
    e.literal 0 (doubled n ++ '\'' :: post) = some (n, post) := by
  induction n with
  | nil => exact literal_close hpost
  | cons c n ih =>
    obtain ⟨hhead, htail⟩ := keeps_cons.mp h
    have hrest := ih htail
    by_cases hq : c = '\''
    · subst hq
      rw [doubled_cons, if_pos rfl, List.append_assoc]
      show e.literal 0 ('\'' :: '\'' :: (doubled n ++ '\'' :: post)) = _
      rw [literal_quote, hrest]
      rfl
    · rw [doubled_plain hq, List.cons_append]
      by_cases hb : c = '\\'
      · subst hb
        obtain ⟨d, hd, hk⟩ := hhead rfl
        have hne : d ≠ '\'' := by
          rintro rfl
          rw [e.quote] at hk
          cases hk
        obtain ⟨m, rfl⟩ : ∃ m, n = d :: m := by
          cases n with
          | nil => cases hd
          | cons x m => exact ⟨m, by rw [Option.some.inj hd]⟩
        rw [doubled_plain hne, List.cons_append] at hrest ⊢
        rw [literal_keep hk, hrest]
        rfl
      · rw [literal_plain hq hb, hrest]
        rfl

/-- A character that keeps a backslash is no quote, so that it is one of the text. -/
theorem head_of_doubled {d : Char} {u : List Char} (h : doubled n ++ '\'' :: post = d :: u)
    (hk : e.keeps d = true) : n.head? = some d := by
  have hne : d ≠ '\'' := by
    rintro rfl
    rw [e.quote] at hk
    cases hk
  cases n with
  | nil => exact absurd (List.cons.inj h).1.symm hne
  | cons x m =>
    by_cases hx : x = '\''
    · rw [doubled_cons, if_pos hx] at h
      exact absurd (List.cons.inj h).1.symm hne
    · rw [doubled_plain hx] at h
      exact congrArg some (List.cons.inj h).1

theorem keeps_of_literal (h : e.literal 0 (doubled n ++ '\'' :: post) = some (n, post)) :
    e.Keeps n := by
  induction n with
  | nil =>
    intro a b hn
    cases a <;> cases hn
  | cons c n ih =>
    by_cases hq : c = '\''
    · subst hq
      rw [doubled_cons, if_pos rfl, List.append_assoc] at h
      have hread := (literal_quote _).symm.trans h
      obtain ⟨w, hrest, hw⟩ := of_map ('\'' :: ·) hread
      obtain rfl := (List.cons.inj hw).2
      exact keeps_cons.mpr ⟨fun heq => absurd heq (by decide), ih hrest⟩
    · rw [doubled_plain hq, List.cons_append] at h
      by_cases hb : c = '\\'
      · subst hb
        cases hd : doubled n ++ '\'' :: post with
        | nil => exact absurd hd (List.append_ne_nil_of_right_ne_nil _ (List.cons_ne_nil _ _))
        | cons d u =>
          rw [hd] at h ih
          by_cases hk : e.keeps d = true
          · rw [literal_keep hk] at h
            obtain ⟨w, hrest, hw⟩ := of_map ('\\' :: ·) h
            obtain rfl := (List.cons.inj hw).2
            exact keeps_cons.mpr ⟨fun _ => ⟨d, head_of_doubled hd hk, hk⟩, ih hrest⟩
          · -- an escape denotes less than what it takes
            rw [literal_escape hk] at h
            obtain ⟨w, hrest, hw⟩ := of_map ((e.escape d u).1.toList ++ ·) h
            have hle := literal_length hrest
            have hlen := congrArg List.length hd
            rw [List.length_append, List.length_cons, List.length_cons] at hlen
            cases hx : (e.escape d u).1 with
            | none =>
              rw [hx] at hw
              obtain rfl : w = '\\' :: n := hw
              rw [doubled_plain (by decide), List.length_cons] at hle
              omega
            | some x =>
              rw [hx] at hw
              obtain rfl : w = n := (List.cons.inj hw).2
              omega
      · rw [literal_plain hq hb] at h
        obtain ⟨w, hrest, hw⟩ := of_map (c :: ·) h
        obtain rfl := (List.cons.inj hw).2
        exact keeps_cons.mpr ⟨fun heq => absurd heq hb, ih hrest⟩

/-- The literal is read as the text, and ends at its own quote, exactly when none of its
backslashes begins an escape. -/
theorem literal_iff (hpost : post.head? ≠ some '\'') :
    e.literal 0 (doubled n ++ '\'' :: post) = some (n, post) ↔ e.Keeps n :=
  ⟨keeps_of_literal, fun h => literal_doubled h hpost⟩

end Escapes
end Lib
