import Mathlib.Data.List.Infix

/-!
# Literal replacement

A text is a list whose elements are read through `f`. `replace` writes one text for every
occurrence of a needle, left to right, `fill` several of them in one pass. The results relate a
sequence of replacements to the pass.
-/

namespace Lib
variable {α β γ : Type*} [DecidableEq γ]

section
variable (f : α → γ)

/-- `k` elements are still part of the occurrence that was replaced last. -/
def replaceFrom (needle : List γ) (repl : List α) : ℕ → List α → List α
  | _, [] => []
  | k + 1, _ :: s => replaceFrom needle repl k s
  | 0, c :: s =>
    if needle <+: (c :: s).map f then repl ++ replaceFrom needle repl (needle.length - 1) s
    else c :: replaceFrom needle repl 0 s

/-- Every occurrence of the needle is replaced. -/
def replace (needle : List γ) (repl s : List α) : List α := replaceFrom f needle repl 0 s

/-- The first of the holes that starts here. -/
def first (σ : List (List γ × List α)) (s : List α) : Option (List γ × List α) :=
  σ.find? fun h => h.1 <+: s.map f

def fillFrom (σ : List (List γ × List α)) : ℕ → List α → List α
  | _, [] => []
  | k + 1, _ :: s => fillFrom σ k s
  | 0, c :: s =>
    match first f σ (c :: s) with
    | some h => h.2 ++ fillFrom σ (h.1.length - 1) s
    | none => c :: fillFrom σ 0 s

/-- Every hole of the text is filled, and what is written is not read again. -/
def fill (σ : List (List γ × List α)) (s : List α) : List α := fillFrom f σ 0 s

/-- One replacement after the other. -/
def fills (hs : List (List γ × List α)) (s : List α) : List α :=
  hs.foldl (fun s h => replace f h.1 h.2 s) s

/-- No hole is empty. -/
def Proper (σ : List (List γ × List α)) : Prop := ∀ h ∈ σ, h.1 ≠ []

/-- Every occurrence of the needle in the filled text is one of the text's own. -/
def Clean (σ : List (List γ × List α)) (needle : List γ) (s : List α) : Prop :=
  ∀ pre o post, fill f σ s = pre ++ o ++ post → o.map f = needle →
    ∃ a b, s = a ++ o ++ b ∧ fill f σ a = pre ∧ fill f σ b = post

end

/-- No occurrence of the one overlaps one of the other. -/
def Apart (n h t : List γ) : Prop :=
  ∀ a b a' b', t = a ++ n ++ b → t = a' ++ h ++ b' →
    a.length + n.length ≤ a'.length ∨ a'.length + h.length ≤ a.length

variable {f : α → γ} {σ : List (List γ × List α)} {h : List γ × List α} {n needle t : List γ}
  {repl s o a b : List α} {c : α}

/-! ### The pass -/

theorem fillFrom_drop (k : ℕ) (s : List α) : fillFrom f σ k s = fill f σ (s.drop k) := by
  induction k generalizing s with
  | zero => rfl
  | succ k ih =>
    cases s with
    | nil => rfl
    | cons c s => exact ih s

@[simp] theorem fill_nil : fill f σ [] = [] := rfl

theorem first_starts (h' : first f σ s = some h) : h ∈ σ ∧ h.1 <+: s.map f :=
  ⟨List.mem_of_find?_eq_some h', by simpa using List.find?_some h'⟩

theorem first_none : first f σ s = none ↔ ∀ h ∈ σ, ¬ h.1 <+: s.map f := by
  simp [first]

theorem fill_miss (h' : first f σ (c :: s) = none) : fill f σ (c :: s) = c :: fill f σ s := by
  rw [fill, fillFrom, h']
  rfl

theorem fill_hit (hne : h.1 ≠ []) (h' : first f σ (o ++ s) = some h) (ho : o.map f = h.1) :
    fill f σ (o ++ s) = h.2 ++ fill f σ s := by
  have hlen : o.length = h.1.length := by rw [← ho, List.length_map]
  cases o with
  | nil => exact absurd ho.symm hne
  | cons c o =>
    rw [List.cons_append] at h' ⊢
    rw [fill, fillFrom, h']
    dsimp only
    rw [fillFrom_drop, ← hlen, List.length_cons, Nat.add_sub_cancel, List.drop_left]

/-- What a hole that starts here takes of the text. -/
theorem first_split (h' : first f σ s = some h) : ∃ o rest, s = o ++ rest ∧ o.map f = h.1 := by
  obtain ⟨rest, hrest⟩ := (first_starts h').2
  obtain ⟨o, rest, rfl, ho, _⟩ := List.append_eq_map_iff.mp hrest
  exact ⟨o, rest, rfl, ho⟩

/-- A text is scanned from hole to hole. -/
theorem fill_induction {P : List α → Prop} (hσ : Proper σ) (nil : P [])
    (hit : ∀ h o s, first f σ (o ++ s) = some h → o.map f = h.1 → P s → P (o ++ s))
    (miss : ∀ c s, first f σ (c :: s) = none → P s → P (c :: s)) (s : List α) : P s := by
  induction hn : s.length using Nat.strong_induction_on generalizing s with
  | _ n ih =>
    cases s with
    | nil => exact nil
    | cons c s =>
      rw [List.length_cons] at hn
      cases h' : first f σ (c :: s) with
      | none => exact miss c s h' (ih s.length (by omega) s rfl)
      | some h =>
        obtain ⟨o, rest, heq, ho⟩ := first_split h'
        have hne : o ≠ [] := by
          rintro rfl
          exact hσ h (first_starts h').1 ho.symm
        have hpos : 0 < o.length := List.length_pos_of_ne_nil hne
        have hlen : s.length + 1 = o.length + rest.length := by
          rw [← List.length_append, ← heq, List.length_cons]
        rw [heq] at h' ⊢
        exact hit h o rest h' ho (ih rest.length (by omega) rest rfl)

theorem mem_fill (hσ : Proper σ) (hc : c ∈ fill f σ s) : c ∈ s ∨ ∃ h ∈ σ, c ∈ h.2 := by
  induction s using fill_induction (f := f) hσ with
  | nil => exact .inl hc
  | hit h o s h' ho ih =>
    have hmem := (first_starts h').1
    rw [fill_hit (hσ h hmem) h' ho] at hc
    rcases List.mem_append.mp hc with hc | hc
    · exact .inr ⟨h, hmem, hc⟩
    · exact (ih hc).imp_left fun hs => List.mem_append_right o hs
  | miss d s h' ih =>
    rw [fill_miss h'] at hc
    rcases List.mem_cons.mp hc with rfl | hc
    · exact .inl List.mem_cons_self
    · exact (ih hc).imp_left fun hs => List.mem_cons_of_mem d hs

theorem first_append_none (h' : first f σ (a ++ b) = none) : first f σ a = none := by
  rw [first_none] at h' ⊢
  intro h hh hp
  refine h' h hh (hp.trans ?_)
  rw [List.map_append]
  exact List.prefix_append _ _

/-- A hole that starts and ends in the first of two texts starts there without the second. -/
theorem first_of_append (h' : first f σ (a ++ b) = some h) (hle : h.1.length ≤ a.length) :
    first f σ a = some h := by
  rw [first, List.find?_eq_some_iff_append] at h' ⊢
  obtain ⟨hp, as, bs, rfl, hnone⟩ := h'
  have hpre : h.1 <+: a.map f := by
    have hp : h.1 <+: (a ++ b).map f := of_decide_eq_true hp
    rw [List.map_append] at hp
    exact List.prefix_of_prefix_length_le hp (List.prefix_append _ _)
      (by rwa [List.length_map])
  refine ⟨decide_eq_true hpre, as, bs, rfl, fun x hx => ?_⟩
  have hx := hnone x hx
  simp only [Bool.not_eq_true', decide_eq_false_iff_not] at hx ⊢
  intro hp
  refine hx (hp.trans ?_)
  rw [List.map_append]
  exact List.prefix_append _ _

/-- Where no hole starts, the text stays. -/
theorem fill_keep (h' : ∀ x y, o = x ++ y → y ≠ [] → first f σ (y ++ s) = none) :
    fill f σ (o ++ s) = o ++ fill f σ s := by
  induction o with
  | nil => rfl
  | cons c o ih =>
    have hc : first f σ (c :: (o ++ s)) = none := h' [] (c :: o) rfl (List.cons_ne_nil c o)
    rw [List.cons_append, fill_miss hc, ih fun x y hxy hy => h' (c :: x) y (by rw [hxy]; rfl) hy]
    rfl

/-! ### Holes apart from another -/

omit [DecidableEq γ] in
theorem Apart.middle {x y : List γ} (hap : Apart n needle (x ++ t ++ y)) : Apart n needle t := by
  rintro a b a' b' rfl ht
  have hcases := hap (x ++ a) (b ++ y) (x ++ a') (b' ++ y) (by simp) (by rw [ht]; simp)
  simp only [List.length_append] at hcases
  omega

omit [DecidableEq γ] in
theorem Apart.symm (hap : Apart n needle t) : Apart needle n t :=
  fun a b a' b' h h' => (hap a' b' a b h' h).symm

def ApartFrom (f : α → γ) (σ : List (List γ × List α)) (needle : List γ) (s : List α) : Prop :=
  ∀ h ∈ σ, Apart h.1 needle (s.map f)

omit [DecidableEq γ] in
theorem ApartFrom.middle (hap : ApartFrom f σ needle (a ++ s ++ b)) : ApartFrom f σ needle s := by
  intro h hh
  have := hap h hh
  rw [List.map_append, List.map_append] at this
  exact this.middle

omit [DecidableEq γ] in
theorem ApartFrom.tail (hap : ApartFrom f σ needle (a ++ s)) : ApartFrom f σ needle s := by
  refine ApartFrom.middle (a := a) (b := []) ?_
  rwa [List.append_nil]

/-- A hole that starts before an occurrence of the needle ends before it. -/
theorem ApartFrom.ends (hap : ApartFrom f σ needle (a ++ o ++ b)) (ho : o.map f = needle)
    (hne : needle ≠ []) (h' : first f σ (a ++ o ++ b) = some h) :
    h.1.length ≤ a.length := by
  obtain ⟨hmem, rest, hrest⟩ := first_starts h'
  have hcases := hap h hmem [] rest (a.map f) (b.map f) (by rw [List.nil_append, hrest])
    (by rw [List.map_append, List.map_append, ho])
  have hpos : 0 < needle.length := List.length_pos_of_ne_nil hne
  simp only [List.length_nil, List.length_map] at hcases
  omega

/-- No hole starts in an occurrence of the needle. -/
theorem ApartFrom.starts (hap : ApartFrom f σ needle (o ++ b)) (hσ : Proper σ)
    (ho : o.map f = needle) (x y : List α) (hxy : o = x ++ y) (hy : y ≠ []) :
    first f σ (y ++ b) = none := by
  rw [first_none]
  rintro h hmem ⟨rest, hrest⟩
  have hsplit : (o ++ b).map f = x.map f ++ h.1 ++ rest := by
    rw [hxy, List.append_assoc, List.map_append, ← hrest, List.append_assoc]
  have hcases := hap h hmem _ rest [] (b.map f) hsplit (by rw [List.map_append, ho, List.nil_append])
  have hlen : needle.length = x.length + y.length := by
    rw [← ho, hxy, List.length_map, List.length_append]
  have hy : 0 < y.length := List.length_pos_of_ne_nil hy
  have hh : 0 < h.1.length := List.length_pos_of_ne_nil (hσ h hmem)
  simp only [List.length_map, List.length_nil] at hcases
  omega

theorem ApartFrom.keep (hap : ApartFrom f σ needle (o ++ b)) (hσ : Proper σ) (ho : o.map f = needle) :
    fill f σ (o ++ b) = o ++ fill f σ b :=
  fill_keep (hap.starts hσ ho)

/-- The pass goes on anew at an occurrence of a needle that no hole overlaps. -/
theorem fill_split (hσ : Proper σ) (hne : needle ≠ []) (ho : o.map f = needle) :
    ∀ {a b : List α}, ApartFrom f σ needle (a ++ o ++ b) →
      fill f σ (a ++ o ++ b) = fill f σ a ++ o ++ fill f σ b := by
  intro a
  induction hn : a.length using Nat.strong_induction_on generalizing a with
  | _ n ih =>
    intro b hap
    cases a with
    | nil => exact hap.keep hσ ho
    | cons c a =>
      rw [List.length_cons] at hn
      cases h' : first f σ (c :: a ++ o ++ b) with
      | none =>
        have ha : first f σ (c :: a) = none := by
          rw [List.append_assoc] at h'
          exact first_append_none h'
        have htail : ApartFrom f σ needle (a ++ o ++ b) := ApartFrom.tail (a := [c]) hap
        rw [List.cons_append, List.cons_append] at h' ⊢
        rw [fill_miss h', fill_miss ha, ih a.length (by omega) rfl htail]
        rfl
      | some h =>
        have hle : h.1.length ≤ (c :: a).length :=
          hap.ends ho hne h'
        have ha : first f σ (c :: a) = some h := by
          rw [List.append_assoc] at h'
          exact first_of_append h' hle
        obtain ⟨p, rest, heq, hp⟩ := first_split ha
        have hh : h.1 ≠ [] := hσ h (first_starts ha).1
        have hpos : 0 < p.length := by
          rw [← List.length_map f, hp]
          exact List.length_pos_of_ne_nil hh
        have hlen : a.length + 1 = p.length + rest.length := by
          rw [← List.length_append, ← heq, List.length_cons]
        rw [heq] at h' ha hap ⊢
        have htail : ApartFrom f σ needle (rest ++ o ++ b) := by
          rw [List.append_assoc, List.append_assoc] at hap
          rw [List.append_assoc]
          exact hap.tail
        rw [List.append_assoc, List.append_assoc] at h' ⊢
        rw [fill_hit hh h' hp, fill_hit hh ha hp, ← List.append_assoc rest,
          ih rest.length (by omega) rfl htail]
        simp only [List.append_assoc]

/-! ### A replacement after the pass -/

theorem replaceFrom_eq_fillFrom (needle : List γ) (repl : List α) (k : ℕ) (s : List α) :
    replaceFrom f needle repl k s = fillFrom f [(needle, repl)] k s := by
  induction s generalizing k with
  | nil => cases k <;> rfl
  | cons c s ih =>
    cases k with
    | succ k => exact ih k
    | zero =>
      unfold replaceFrom fillFrom
      by_cases hp : needle <+: (c :: s).map f
      · have hfirst : first f [(needle, repl)] (c :: s) = some (needle, repl) := by
          simp only [first, List.find?_cons, decide_eq_true hp]
        rw [if_pos hp, hfirst, ih]
      · have hfirst : first f [(needle, repl)] (c :: s) = none := by
          simp only [first, List.find?_cons, decide_eq_false hp, List.find?_nil]
        rw [if_neg hp, hfirst, ih]

theorem replace_eq_fill (needle : List γ) (repl s : List α) :
    replace f needle repl s = fill f [(needle, repl)] s :=
  replaceFrom_eq_fillFrom needle repl 0 s

theorem first_single (needle : List γ) (repl s : List α) : first f [(needle, repl)] s =
    if needle <+: s.map f then some (needle, repl) else none := by
  by_cases hp : needle <+: s.map f
  · simp only [first, List.find?_cons, decide_eq_true hp, if_pos hp]
  · simp only [first, List.find?_cons, decide_eq_false hp, List.find?_nil, if_neg hp]

@[simp] theorem replace_nil (needle : List γ) (repl : List α) : replace f needle repl [] = [] := rfl

theorem replace_hit (hne : needle ≠ []) (ho : o.map f = needle) (repl s : List α) :
    replace f needle repl (o ++ s) = repl ++ replace f needle repl s := by
  rw [replace_eq_fill, replace_eq_fill]
  refine fill_hit (h := (needle, repl)) hne ?_ ho
  rw [first_single, if_pos]
  rw [List.map_append, ho]
  exact List.prefix_append _ _

theorem replace_miss (hp : ¬ needle <+: (c :: s).map f) (repl : List α) :
    replace f needle repl (c :: s) = c :: replace f needle repl s := by
  rw [replace_eq_fill, replace_eq_fill]
  exact fill_miss (by rw [first_single, if_neg hp])

/-- Where the needle does not start, the text stays. -/
theorem replace_keep (h' : ∀ x y, o = x ++ y → y ≠ [] → ¬ needle <+: (y ++ s).map f)
    (repl : List α) : replace f needle repl (o ++ s) = o ++ replace f needle repl s := by
  rw [replace_eq_fill, replace_eq_fill]
  exact fill_keep fun x y hxy hy => by rw [first_single, if_neg (h' x y hxy hy)]

theorem first_snoc_some (h' : first f σ s = some h) (x : List γ × List α) :
    first f (σ ++ [x]) s = some h := by
  rw [first, List.find?_append, ← first, h']
  rfl

theorem first_snoc_none (h' : first f σ s = none) (needle : List γ) (repl : List α) :
    first f (σ ++ [(needle, repl)]) s = if needle <+: s.map f then some (needle, repl) else none := by
  rw [first, List.find?_append, ← first, h', Option.none_or, ← first, first_single]

/-- What is before an occurrence of the needle begins with the hole the text begins with. -/
theorem ApartFrom.behind {p : List α} (hap : ApartFrom f σ needle (p ++ s)) (hne : needle ≠ [])
    (hh : h.1 ≠ []) (h' : first f σ (p ++ s) = some h) (hp : p.map f = h.1)
    (hs : p ++ s = a ++ o ++ b) (ho : o.map f = needle) :
    ∃ a', a = p ++ a' ∧ fill f σ a = h.2 ++ fill f σ a' := by
  rw [hs] at h' hap
  have hle : h.1.length ≤ a.length := hap.ends ho hne h'
  have hpa : p <+: a := by
    rw [← hp, List.length_map] at hle
    refine List.prefix_of_prefix_length_le ⟨s, hs⟩ ?_ hle
    rw [List.append_assoc]
    exact List.prefix_append _ _
  have hfirst : first f σ a = some h := by
    rw [List.append_assoc] at h'
    exact first_of_append h' hle
  obtain ⟨a', rfl⟩ := hpa
  exact ⟨a', rfl, fill_hit hh hfirst hp⟩

theorem Clean.hit {p : List α} (hc : Clean f σ needle (p ++ s)) (hap : ApartFrom f σ needle (p ++ s))
    (hne : needle ≠ []) (hh : h.1 ≠ []) (h' : first f σ (p ++ s) = some h) (hp : p.map f = h.1) :
    Clean f σ needle s := by
  intro pre o post hpre ho
  obtain ⟨a, b, hs, ha, hb⟩ := hc (h.2 ++ pre) o post
    (by rw [fill_hit hh h' hp, hpre]; simp only [List.append_assoc]) ho
  obtain ⟨a', rfl, hfill⟩ := hap.behind hne hh h' hp hs ho
  refine ⟨a', b, ?_, ?_, hb⟩
  · rw [List.append_assoc, List.append_assoc, List.append_cancel_left_eq] at hs
    rw [hs, List.append_assoc]
  · rw [hfill, List.append_cancel_left_eq] at ha
    exact ha

/-- The needle does not start in what fills the hole. -/
theorem Clean.skips {p : List α} (hc : Clean f σ needle (p ++ s))
    (hap : ApartFrom f σ needle (p ++ s)) (hne : needle ≠ []) (hh : h.1 ≠ [])
    (h' : first f σ (p ++ s) = some h) (hp : p.map f = h.1) (repl : List α) :
    replace f needle repl (h.2 ++ fill f σ s) = h.2 ++ replace f needle repl (fill f σ s) := by
  refine replace_keep (fun x y hxy hy hstart => ?_) repl
  obtain ⟨post, hpost⟩ := hstart
  obtain ⟨o, post, hsplit, ho, rfl⟩ := List.append_eq_map_iff.mp hpost
  obtain ⟨a, b, hs, ha, _⟩ := hc x o post
    (by rw [fill_hit hh h' hp, hxy, List.append_assoc, hsplit, List.append_assoc]) ho
  obtain ⟨a', _, hfill⟩ := hap.behind hne hh h' hp hs ho
  have hlt : 0 < y.length := List.length_pos_of_ne_nil hy
  have hle : h.2.length ≤ x.length := by
    rw [← ha, hfill, List.length_append]
    omega
  rw [hxy, List.length_append] at hle
  omega

/-- What is before an occurrence, and is not empty, begins with what the text begins with. -/
theorem fill_head (h' : first f σ (c :: s) = none) (hs : c :: s = a ++ b) (ha : a ≠ []) :
    ∃ a', a = c :: a' ∧ fill f σ a = c :: fill f σ a' := by
  cases a with
  | nil => exact absurd rfl ha
  | cons x a' =>
    obtain ⟨rfl, _⟩ := List.cons.inj hs
    rw [hs] at h'
    exact ⟨a', rfl, fill_miss (first_append_none h')⟩

theorem Clean.miss (hc : Clean f σ needle (c :: s)) (h' : first f σ (c :: s) = none) :
    Clean f σ needle s := by
  intro pre o post hpre ho
  obtain ⟨a, b, hs, ha, hb⟩ := hc (c :: pre) o post
    (by rw [fill_miss h', hpre]; rfl) ho
  have hne : a ≠ [] := by
    rintro rfl
    cases ha
  rw [List.append_assoc] at hs
  obtain ⟨a', rfl, hfill⟩ := fill_head h' hs hne
  refine ⟨a', b, ?_, ?_, hb⟩
  · rw [List.append_assoc]
    exact (List.cons.inj hs).2
  · rw [hfill] at ha
    exact (List.cons.inj ha).2

theorem Clean.keep (hc : Clean f σ needle (o ++ s))
    (h' : ∀ x y, o = x ++ y → y ≠ [] → first f σ (y ++ s) = none) : Clean f σ needle s := by
  induction o with
  | nil => exact hc
  | cons c o ih =>
    have hc' : Clean f σ needle (o ++ s) := hc.miss (h' [] (c :: o) rfl (List.cons_ne_nil c o))
    exact ih hc' fun x y hxy hy => h' (c :: x) y (by rw [hxy]; rfl) hy

/-- A needle that does not start here does not start here in the filled text. -/
theorem Clean.starts (hc : Clean f σ needle (c :: s)) (h' : first f σ (c :: s) = none)
    (hp : ¬ needle <+: (c :: s).map f) : ¬ needle <+: (c :: fill f σ s).map f := by
  rintro ⟨rest, hrest⟩
  obtain ⟨o, post, hsplit, ho, _⟩ := List.append_eq_map_iff.mp hrest
  obtain ⟨a, b, hs, ha, _⟩ := hc [] o post (by rw [fill_miss h', hsplit]; rfl) ho
  have hnil : a = [] := by
    by_contra hne
    rw [List.append_assoc] at hs
    obtain ⟨a', _, hfill⟩ := fill_head h' hs hne
    rw [hfill] at ha
    cases ha
  refine hp ?_
  rw [hs, hnil, List.nil_append, List.map_append, ho]
  exact List.prefix_append _ _

/-- Filling the holes and then one more is filling them all, when the filled text has the last
hole only where the text itself has it. -/
theorem replace_fill (hσ : Proper σ) (hne : needle ≠ []) (repl : List α) (hap : ApartFrom f σ needle s)
    (hc : Clean f σ needle s) :
    replace f needle repl (fill f σ s) = fill f (σ ++ [(needle, repl)]) s := by
  induction hn : s.length using Nat.strong_induction_on generalizing s with
  | _ n ih =>
    cases s with
    | nil => rfl
    | cons c s =>
      rw [List.length_cons] at hn
      cases h' : first f σ (c :: s) with
      | some h =>
        obtain ⟨p, rest, heq, hp⟩ := first_split h'
        have hh : h.1 ≠ [] := hσ h (first_starts h').1
        have hpos : 0 < p.length := by
          rw [← List.length_map f, hp]
          exact List.length_pos_of_ne_nil hh
        have hlen : s.length + 1 = p.length + rest.length := by
          rw [← List.length_append, ← heq, List.length_cons]
        rw [heq] at h' hap hc ⊢
        have hrest : Clean f σ needle rest := hc.hit hap hne hh h' hp
        rw [fill_hit hh h' hp, hc.skips hap hne hh h' hp, ih rest.length (by omega) hap.tail hrest rfl,
          fill_hit hh (first_snoc_some h' _) hp]
      | none =>
        by_cases hp : needle <+: (c :: s).map f
        · have hsnoc := first_snoc_none h' needle repl
          rw [if_pos hp] at hsnoc
          obtain ⟨o, rest, heq, ho⟩ := first_split hsnoc
          have hpos : 0 < o.length := by
            rw [← List.length_map f, ho]
            exact List.length_pos_of_ne_nil hne
          have hlen : s.length + 1 = o.length + rest.length := by
            rw [← List.length_append, ← heq, List.length_cons]
          rw [heq] at hsnoc hap hc ⊢
          have hrest : Clean f σ needle rest := hc.keep (hap.starts hσ ho)
          rw [hap.keep hσ ho, replace_hit hne ho, ih rest.length (by omega) hap.tail hrest rfl,
            fill_hit (h := (needle, repl)) hne hsnoc ho]
        · have hsnoc := first_snoc_none h' needle repl
          rw [if_neg hp] at hsnoc
          have htail : ApartFrom f σ needle s := ApartFrom.tail (a := [c]) hap
          rw [fill_miss h', replace_miss (hc.starts h' hp), ih s.length (by omega) htail (hc.miss h') rfl,
            fill_miss hsnoc]

/-! ### A sequence of replacements -/

@[simp] theorem fill_none (s : List α) : fill f [] s = s := by
  induction s with
  | nil => rfl
  | cons c s ih => rw [fill_miss (first_none.mpr fun h hh => (List.not_mem_nil hh).elim), ih]

theorem fills_snoc (σ : List (List γ × List α)) (h : List γ × List α) (s : List α) :
    fills f (σ ++ [h]) s = replace f h.1 h.2 (fills f σ s) := by
  rw [fills, List.foldl_append]
  rfl

/-- One replacement after the other is one pass, when no text that is written is read. -/
theorem fills_eq_fill (hσ : Proper σ)
    (hap : ∀ τ h rest, σ = τ ++ h :: rest → ApartFrom f τ h.1 s)
    (hc : ∀ τ h rest, σ = τ ++ h :: rest → Clean f τ h.1 s) : fills f σ s = fill f σ s := by
  induction σ using List.reverseRecOn with
  | nil => rw [fill_none]; rfl
  | append_singleton σ h ih =>
    have hσ' : Proper σ := fun x hx => hσ x (List.mem_append_left _ hx)
    have hne : h.1 ≠ [] := hσ h (List.mem_append_right _ (List.mem_singleton_self h))
    rw [fills_snoc, ih hσ' (fun τ x rest hx => hap τ x (rest ++ [h]) (by rw [hx]; simp))
      (fun τ x rest hx => hc τ x (rest ++ [h]) (by rw [hx]; simp))]
    exact replace_fill hσ' hne h.2 (hap σ h [] rfl) (hc σ h [] rfl)

/-- The order of the holes does not matter where no two start together. -/
theorem first_perm {τ : List (List γ × List α)} (hperm : σ.Perm τ)
    (hone : ∀ h ∈ σ, ∀ h' ∈ σ, h.1 <+: s.map f → h'.1 <+: s.map f → h = h') :
    first f σ s = first f τ s := by
  cases h' : first f σ s with
  | none =>
    rw [first_none] at h'
    exact (first_none.mpr fun h hh => h' h (hperm.mem_iff.mpr hh)).symm
  | some h =>
    obtain ⟨hmem, hp⟩ := first_starts h'
    cases h'' : first f τ s with
    | none =>
      rw [first_none] at h''
      exact absurd hp (h'' h (hperm.mem_iff.mp hmem))
    | some k =>
      obtain ⟨hmem', hp'⟩ := first_starts h''
      rw [hone h hmem k (hperm.mem_iff.mpr hmem') hp hp']

theorem fill_perm {τ : List (List γ × List α)} (hperm : σ.Perm τ) (hσ : Proper σ)
    (hap : ∀ h ∈ σ, ∀ h' ∈ σ, h ≠ h' → Apart h.1 h'.1 (s.map f)) : fill f σ s = fill f τ s := by
  have hone : ∀ {s : List α}, (∀ h ∈ σ, ∀ h' ∈ σ, h ≠ h' → Apart h.1 h'.1 (s.map f)) →
      first f σ s = first f τ s := by
    intro s hap
    refine first_perm hperm fun h hh h' hh' ⟨x, hx⟩ ⟨y, hy⟩ => ?_
    by_contra hne
    have hcases := hap h hh h' hh' hne [] x [] y hx.symm hy.symm
    have hpos : 0 < h.1.length := List.length_pos_of_ne_nil (hσ h hh)
    have hpos' : 0 < h'.1.length := List.length_pos_of_ne_nil (hσ h' hh')
    simp only [List.length_nil] at hcases
    omega
  have htail : ∀ {a b : List α}, (∀ h ∈ σ, ∀ h' ∈ σ, h ≠ h' → Apart h.1 h'.1 ((a ++ b).map f)) →
      ∀ h ∈ σ, ∀ h' ∈ σ, h ≠ h' → Apart h.1 h'.1 (b.map f) := by
    intro a b hap h hh h' hh' hne
    refine Apart.middle (x := a.map f) (y := []) ?_
    rw [List.append_nil, ← List.map_append]
    exact hap h hh h' hh' hne
  induction s using fill_induction (f := f) hσ with
  | nil => rfl
  | hit h o s h' ho ih =>
    have hh : h.1 ≠ [] := hσ h (first_starts h').1
    rw [fill_hit hh h' ho, fill_hit hh ((hone hap).symm.trans h') ho, ih (htail hap)]
  | miss c s h' ih =>
    rw [fill_miss h', fill_miss ((hone hap).symm.trans h'), ih (htail (a := [c]) hap)]

/-! ### Texts read through a map -/

theorem first_map (g : α → β) (f : β → γ) (σ : List (List γ × List α)) (s : List α) :
    first f (σ.map fun h => (h.1, h.2.map g)) (s.map g) =
      (first (fun a => f (g a)) σ s).map fun h => (h.1, h.2.map g) := by
  simp only [first, List.find?_map, List.map_map, Function.comp_def]

theorem fill_map (g : α → β) (f : β → γ) (hσ : Proper σ) (s : List α) :
    (fill (fun a => f (g a)) σ s).map g =
      fill f (σ.map fun h => (h.1, h.2.map g)) (s.map g) := by
  induction s using fill_induction (f := fun a => f (g a)) hσ with
  | nil => rfl
  | hit h o s h' ho ih =>
    have hh : h.1 ≠ [] := hσ h (first_starts h').1
    have hmap := first_map g f σ (o ++ s)
    rw [h', Option.map_some, List.map_append] at hmap
    have hog : (o.map g).map f = h.1 := List.map_map.trans ho
    rw [fill_hit hh h' ho, List.map_append, List.map_append, ih,
      fill_hit (h := (h.1, h.2.map g)) hh hmap hog]
  | miss c s h' ih =>
    have hmap := first_map g f σ (c :: s)
    rw [h', Option.map_none, List.map_cons] at hmap
    rw [fill_miss h', List.map_cons, List.map_cons, ih, fill_miss hmap]

/-- The texts may be read through a map. -/
theorem clean_map_iff (g : α → β) (f : β → γ) (hσ : Proper σ) (hne : needle ≠ [])
    (hap : ApartFrom (fun a => f (g a)) σ needle s) :
    Clean f (σ.map fun h => (h.1, h.2.map g)) needle (s.map g) ↔
      Clean (fun a => f (g a)) σ needle s := by
  constructor
  · intro hc pre o post hpre ho
    obtain ⟨a, b, hs, ha, hb⟩ := hc (pre.map g) (o.map g) (post.map g)
      (by rw [← fill_map g f hσ, hpre, List.map_append, List.map_append])
      (List.map_map.trans ho)
    obtain ⟨x, y, rfl, hx, rfl⟩ := List.map_eq_append_iff.mp hs
    obtain ⟨a, z, rfl, rfl, hz⟩ := List.map_eq_append_iff.mp hx
    have hzn : z.map (fun a => f (g a)) = needle := by
      have hmm : (z.map g).map f = needle := by
        rw [hz]
        exact List.map_map.trans ho
      exact List.map_map.symm.trans hmm
    rw [fill_split hσ hne hzn hap] at hpre
    rw [← fill_map g f hσ] at ha hb
    have hla : (fill (fun a => f (g a)) σ a).length = pre.length := by
      rw [← List.length_map g, ha, List.length_map]
    have hlz : z.length = o.length := by
      rw [← List.length_map g, hz, List.length_map]
    have hsplit := List.append_inj hpre (by rw [List.length_append, List.length_append, hla, hlz])
    have hsplit' := List.append_inj hsplit.1 hla
    exact ⟨a, y, by rw [hsplit'.2], hsplit'.1, hsplit.2⟩
  · intro hc pre o post hpre ho
    rw [← fill_map g f hσ] at hpre
    obtain ⟨x, post, hsplit, hx, rfl⟩ := List.map_eq_append_iff.mp hpre
    obtain ⟨pre, o, rfl, rfl, rfl⟩ := List.map_eq_append_iff.mp hx
    rw [List.map_map] at ho
    obtain ⟨a, b, rfl, ha, hb⟩ := hc pre o post hsplit ho
    refine ⟨a.map g, b.map g, by rw [List.map_append, List.map_append], ?_, ?_⟩
    · rw [← fill_map g f hσ, ha]
    · rw [← fill_map g f hσ, hb]

theorem replace_map (g : α → β) (f : β → γ) (hne : needle ≠ []) (repl s : List α) :
    (replace (fun a => f (g a)) needle repl s).map g = replace f needle (repl.map g) (s.map g) := by
  rw [replace_eq_fill, replace_eq_fill]
  exact fill_map g f (σ := [(needle, repl)]) (fun h hh => by rwa [List.mem_singleton.mp hh]) s

theorem fills_map (g : α → β) (f : β → γ) (hσ : Proper σ) (s : List α) :
    (fills (fun a => f (g a)) σ s).map g =
      fills f (σ.map fun h => (h.1, h.2.map g)) (s.map g) := by
  induction σ using List.reverseRecOn with
  | nil => rfl
  | append_singleton σ h ih =>
    have hne : h.1 ≠ [] := hσ h (List.mem_append_right _ (List.mem_singleton_self h))
    rw [fills_snoc, replace_map g f hne, ih fun x hx => hσ x (List.mem_append_left _ hx),
      List.map_append, List.map_singleton, fills_snoc]

/-! ### Holes in brackets -/

/-- A bracket at either end and none between. -/
def Bracketed (l r : γ) (n : List γ) : Prop :=
  ∃ body, n = l :: (body ++ [r]) ∧ l ∉ body ∧ r ∉ body

section
variable {l r : γ} {x y u v a' b' : List γ}

omit [DecidableEq γ] in
theorem Bracketed.ne_nil (hn : Bracketed l r n) : n ≠ [] := by
  obtain ⟨body, rfl, _⟩ := hn
  exact List.cons_ne_nil _ _

omit [DecidableEq γ] in
/-- A bracketed hole does not start within another. -/
theorem Bracketed.not_within (hlr : l ≠ r) (hn : Bracketed l r n) (hh : Bracketed l r t)
    (hx : x ≠ []) (heq : n ++ y = x ++ t ++ u) : n.length ≤ x.length := by
  obtain ⟨body, rfl, hl, _⟩ := hn
  obtain ⟨body', rfl, _, _⟩ := hh
  by_contra hlt
  have hat : (l :: (body ++ [r]))[x.length]? = some l := by
    have hleft : (l :: (body ++ [r]) ++ y)[x.length]? = (l :: (body ++ [r]))[x.length]? :=
      List.getElem?_append_left (by omega)
    rw [← hleft, heq, List.append_assoc, List.getElem?_append_right (le_refl _), Nat.sub_self]
    rfl
  cases x with
  | nil => exact hx rfl
  | cons c x =>
    have hmem : l ∈ body ++ [r] := List.mem_of_getElem? hat
    rcases List.mem_append.mp hmem with hmem | hmem
    · exact hl hmem
    · exact hlr (List.mem_singleton.mp hmem)

omit [DecidableEq γ] in
theorem cons_inj_of_not_mem (hx : r ∉ x) (hu : r ∉ u) (heq : x ++ r :: y = u ++ r :: v) : x = u := by
  induction x generalizing u with
  | nil =>
    cases u with
    | nil => rfl
    | cons c u =>
      obtain ⟨rfl, _⟩ := List.cons.inj heq
      exact absurd List.mem_cons_self hu
  | cons c x ih =>
    cases u with
    | nil =>
      obtain ⟨rfl, _⟩ := List.cons.inj heq
      exact absurd List.mem_cons_self hx
    | cons d u =>
      obtain ⟨rfl, htail⟩ := List.cons.inj heq
      rw [ih (fun hmem => hx (List.mem_cons_of_mem c hmem))
        (fun hmem => hu (List.mem_cons_of_mem c hmem)) htail]

omit [DecidableEq γ] in
/-- Bracketed holes overlap only where they are one. -/
theorem Bracketed.overlap (hlr : l ≠ r) (hn : Bracketed l r n) (hh : Bracketed l r t)
    (heq : x ++ n ++ y = u ++ t ++ v) :
    x.length + n.length ≤ u.length ∨ u.length + t.length ≤ x.length ∨
      (x.length = u.length ∧ n = t) := by
  rcases lt_trichotomy x.length u.length with hlt | hlen | hlt
  · have hpre : x <+: u := by
      refine List.prefix_of_prefix_length_le ⟨n ++ y, by rw [← List.append_assoc, heq]⟩ ?_ hlt.le
      rw [List.append_assoc]
      exact List.prefix_append _ _
    obtain ⟨w, rfl⟩ := hpre
    have hw : w ≠ [] := by
      rintro rfl
      simp at hlt
    simp only [List.append_assoc, List.append_cancel_left_eq] at heq
    have hle := hn.not_within hlr hh hw (by rw [heq, List.append_assoc])
    rw [List.length_append]
    omega
  · rw [List.append_assoc, List.append_assoc] at heq
    obtain ⟨_, heq⟩ := List.append_inj heq hlen
    obtain ⟨body, rfl, _, hr⟩ := hn
    obtain ⟨body', rfl, _, hr'⟩ := hh
    rw [List.cons_append, List.cons_append, List.append_assoc, List.append_assoc] at heq
    have hbody : body = body' := cons_inj_of_not_mem hr hr' (List.cons.inj heq).2
    exact .inr (.inr ⟨hlen, by rw [hbody]⟩)
  · have hpre : u <+: x := by
      refine List.prefix_of_prefix_length_le ⟨t ++ v, by rw [← List.append_assoc]⟩ ?_ hlt.le
      rw [← heq, List.append_assoc]
      exact List.prefix_append _ _
    obtain ⟨w, rfl⟩ := hpre
    have hw : w ≠ [] := by
      rintro rfl
      simp at hlt
    simp only [List.append_assoc, List.append_cancel_left_eq] at heq
    have hle := hh.not_within hlr hn hw (by rw [← heq, List.append_assoc])
    rw [List.length_append]
    omega

omit [DecidableEq γ] in
theorem Bracketed.apart (hlr : l ≠ r) (hn : Bracketed l r n) (hh : Bracketed l r needle)
    (hne : n ≠ needle) : Apart n needle t := by
  rintro a b a' b' rfl heq
  rcases hn.overlap hlr hh heq with h | h | ⟨_, h⟩
  · exact .inl h
  · exact .inr h
  · exact absurd h hne

end

end Lib
