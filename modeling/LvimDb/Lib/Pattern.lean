import Mathlib.Data.List.Infix

/-!
# Text patterns

Patterns of items that are read one after another, with a matcher that backtracks. An item
reads one element of a class or as many as its repetition says; a pattern is looked for at the
start of the text or anywhere in it.
-/

namespace Lib.Pattern
variable {α : Type*}

/-- An element, or as many as `*`, `+` and `-` read: any number, one at least, and any number
with the least tried first. -/
inductive Rep
  | one
  | star
  | plus
  | least
  deriving DecidableEq, Repr

structure Item (α : Type*) where
  test : α → Bool
  rep : Rep

def Item.one (p : α → Bool) : Item α := ⟨p, .one⟩
def Item.star (p : α → Bool) : Item α := ⟨p, .star⟩
def Item.plus (p : α → Bool) : Item α := ⟨p, .plus⟩
def Item.least (p : α → Bool) : Item α := ⟨p, .least⟩

def word [BEq α] (w : List α) : List (Item α) := w.map fun x => .one (· == x)

/-- The longest run first, then one element less each time. -/
def expandMost (p : α → Bool) (k : List α → Bool) : List α → Bool
  | [] => k []
  | x :: xs => p x && expandMost p k xs || k (x :: xs)

/-- The empty run first, then one element more each time. -/
def expandLeast (p : α → Bool) (k : List α → Bool) : List α → Bool
  | [] => k []
  | x :: xs => k (x :: xs) || p x && expandLeast p k xs

/-- One element and then `k`. -/
def single (p : α → Bool) (k : List α → Bool) : List α → Bool
  | [] => false
  | x :: xs => p x && k xs

def matchHere : List (Item α) → List α → Bool
  | [] => fun _ => true
  | ⟨p, .one⟩ :: is => single p (matchHere is)
  | ⟨p, .star⟩ :: is => expandMost p (matchHere is)
  | ⟨p, .plus⟩ :: is => single p (expandMost p (matchHere is))
  | ⟨p, .least⟩ :: is => expandLeast p (matchHere is)

/-! ### What is read -/

def Item.Reads : Item α → List α → Prop
  | ⟨p, .one⟩, a => ∃ x, a = [x] ∧ p x = true
  | ⟨p, .plus⟩, a => a ≠ [] ∧ ∀ x ∈ a, p x = true
  | ⟨p, .star⟩, a => ∀ x ∈ a, p x = true
  | ⟨p, .least⟩, a => ∀ x ∈ a, p x = true

/-- The items read `a`, each of them a part. -/
def Reads : List (Item α) → List α → Prop
  | [], a => a = []
  | i :: is, a => ∃ b c, a = b ++ c ∧ i.Reads b ∧ Reads is c

theorem single_iff {p : α → Bool} {k : List α → Bool} {s : List α} :
    single p k s = true ↔ ∃ x b, s = x :: b ∧ p x = true ∧ k b = true := by
  cases s with
  | nil => simp [single]
  | cons x s => simp [single]

theorem expandMost_iff {p : α → Bool} {k : List α → Bool} {s : List α} :
    expandMost p k s = true ↔ ∃ a b, s = a ++ b ∧ (∀ x ∈ a, p x = true) ∧ k b = true := by
  induction s with
  | nil => simp [expandMost]
  | cons x s ih =>
    rw [expandMost, Bool.or_eq_true, Bool.and_eq_true, ih]
    constructor
    · rintro (⟨hx, a, b, rfl, ha, hb⟩ | hk)
      · exact ⟨x :: a, b, rfl, List.forall_mem_cons.mpr ⟨hx, ha⟩, hb⟩
      · exact ⟨[], x :: s, rfl, by simp, hk⟩
    · rintro ⟨a, b, h, ha, hb⟩
      cases a with
      | nil => exact .inr (h ▸ hb)
      | cons y a =>
        obtain ⟨rfl, rfl⟩ := List.cons.inj h
        obtain ⟨hx, ha⟩ := List.forall_mem_cons.mp ha
        exact .inl ⟨hx, a, b, rfl, ha, hb⟩

/-- In which order the runs are tried does not decide whether one fits. -/
theorem expandLeast_eq {p : α → Bool} {k : List α → Bool} (s : List α) :
    expandLeast p k s = expandMost p k s := by
  induction s with
  | nil => rfl
  | cons x s ih => rw [expandLeast, expandMost, ih, Bool.or_comm]

/-- The matcher misses nothing: it succeeds where the items read a start of the text. -/
theorem matchHere_iff {is : List (Item α)} {s : List α} :
    matchHere is s = true ↔ ∃ a b, s = a ++ b ∧ Reads is a := by
  induction is generalizing s with
  | nil => simp [matchHere, Reads]
  | cons i is ih =>
    have part : (∃ a c, s = a ++ c ∧ i.Reads a ∧ matchHere is c = true) ↔
        ∃ a b, s = a ++ b ∧ Reads (i :: is) a := by
      constructor
      · rintro ⟨a, c, rfl, ha, hc⟩
        obtain ⟨c, b, rfl, hreads⟩ := ih.mp hc
        exact ⟨a ++ c, b, (List.append_assoc ..).symm, a, c, rfl, ha, hreads⟩
      · rintro ⟨_, b, rfl, a, c, rfl, ha, hc⟩
        exact ⟨a, c ++ b, List.append_assoc .., ha, ih.mpr ⟨c, b, rfl, hc⟩⟩
    rw [← part]
    obtain ⟨p, r⟩ := i
    cases r with
    | one =>
      rw [matchHere, single_iff]
      constructor
      · rintro ⟨x, b, rfl, hx, hb⟩
        exact ⟨[x], b, rfl, ⟨x, rfl, hx⟩, hb⟩
      · rintro ⟨_, b, rfl, ⟨x, rfl, hx⟩, hb⟩
        exact ⟨x, b, rfl, hx, hb⟩
    | star => exact expandMost_iff
    | plus =>
      rw [matchHere, single_iff]
      constructor
      · rintro ⟨x, c, rfl, hx, hc⟩
        obtain ⟨a, b, rfl, ha, hb⟩ := expandMost_iff.mp hc
        exact ⟨x :: a, b, rfl, ⟨List.cons_ne_nil x a, List.forall_mem_cons.mpr ⟨hx, ha⟩⟩, hb⟩
      · rintro ⟨a, b, rfl, ⟨hne, ha⟩, hb⟩
        cases a with
        | nil => exact absurd rfl hne
        | cons x a =>
          obtain ⟨hx, ha⟩ := List.forall_mem_cons.mp ha
          exact ⟨x, a ++ b, rfl, hx, expandMost_iff.mpr ⟨a, b, rfl, ha, hb⟩⟩
    | least =>
      rw [matchHere, expandLeast_eq]
      exact expandMost_iff

theorem reads_one {p : α → Bool} {is : List (Item α)} {a : List α} :
    Reads (.one p :: is) a ↔ ∃ x b, a = x :: b ∧ p x = true ∧ Reads is b := by
  constructor
  · rintro ⟨_, b, rfl, ⟨x, rfl, hx⟩, hb⟩
    exact ⟨x, b, rfl, hx, hb⟩
  · rintro ⟨x, b, rfl, hx, hb⟩
    exact ⟨[x], b, rfl, ⟨x, rfl, hx⟩, hb⟩

theorem reads_word [BEq α] [LawfulBEq α] {w : List α} {is : List (Item α)} {a : List α} :
    Reads (word w ++ is) a ↔ ∃ b, a = w ++ b ∧ Reads is b := by
  induction w generalizing a with
  | nil => simp [word]
  | cons x w ih =>
    show Reads (.one (· == x) :: (word w ++ is)) a ↔ _
    rw [reads_one]
    constructor
    · rintro ⟨y, c, rfl, hy, hc⟩
      obtain ⟨b, rfl, hb⟩ := ih.mp hc
      exact ⟨b, by rw [eq_of_beq hy, List.cons_append], hb⟩
    · rintro ⟨b, rfl, hb⟩
      exact ⟨x, w ++ b, rfl, beq_self_eq_true x, ih.mpr ⟨b, rfl, hb⟩⟩

end Pattern

/-- Items that are looked for at the start of a text, or anywhere in it. -/
structure Pattern (α : Type*) where
  anchored : Bool
  items : List (Pattern.Item α)

namespace Pattern
variable {α : Type*}

def find (p : Pattern α) (s : List α) : Bool :=
  if p.anchored then matchHere p.items s else s.tails.any (matchHere p.items)

theorem find_anchored {is : List (Item α)} {s : List α} :
    find ⟨true, is⟩ s = true ↔ ∃ a b, s = a ++ b ∧ Reads is a := matchHere_iff

theorem find_anywhere {is : List (Item α)} {s : List α} :
    find ⟨false, is⟩ s = true ↔ ∃ l a b, s = l ++ a ++ b ∧ Reads is a := by
  show s.tails.any (matchHere is) = true ↔ _
  rw [List.any_eq_true]
  constructor
  · rintro ⟨t, ht, hm⟩
    obtain ⟨l, rfl⟩ := List.mem_tails t s |>.mp ht
    obtain ⟨a, b, rfl, ha⟩ := matchHere_iff.mp hm
    exact ⟨l, a, b, (List.append_assoc ..).symm, ha⟩
  · rintro ⟨l, a, b, rfl, ha⟩
    refine ⟨a ++ b, List.mem_tails _ _ |>.mpr ⟨l, (List.append_assoc ..).symm⟩, ?_⟩
    exact matchHere_iff.mpr ⟨a, b, rfl, ha⟩

end Lib.Pattern
