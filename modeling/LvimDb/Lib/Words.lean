import Mathlib.Data.List.SplitBy

/-!
# The tokens of a text

Maximal runs of word elements, and every other element for itself; blanks only separate.
-/

namespace Lib
variable {α : Type*}

def tokens (word blank : α → Bool) (s : List α) : List (List α) :=
  (s.splitBy fun x y => word x && word y).filter fun t => !t.all blank

variable {word blank : α → Bool}

theorem tokens_append {s t : List α}
    (h : ∀ x ∈ s.getLast?, ∀ y ∈ t.head?, (word x && word y) = false) :
    tokens word blank (s ++ t) = tokens word blank s ++ tokens word blank t := by
  rw [tokens, List.splitBy_append h, List.filter_append]
  rfl

theorem tokens_word {w : List α} (hne : w ≠ []) (hword : ∀ x ∈ w, word x = true)
    (hshown : ∃ x ∈ w, blank x = false) : tokens word blank w = [w] := by
  have hchain : w.IsChain fun x y => (word x && word y) = true := by
    refine List.Pairwise.isChain (List.pairwise_of_forall_mem_list fun x hx y hy => ?_)
    rw [hword x hx, hword y hy]
    rfl
  obtain ⟨x, hx, hbx⟩ := hshown
  have hall : w.all blank = false := List.all_eq_false.mpr ⟨x, hx, by simp [hbx]⟩
  rw [tokens, List.splitBy_of_isChain hne hchain, List.filter_singleton, hall]
  rfl

/-- A word is a token where a word ends before it and none goes on after it. -/
theorem tokens_word_append {w t : List α} (hne : w ≠ []) (hword : ∀ x ∈ w, word x = true)
    (hshown : ∃ x ∈ w, blank x = false) (hend : ∀ y ∈ t.head?, word y = false) :
    tokens word blank (w ++ t) = w :: tokens word blank t := by
  rw [tokens_append, tokens_word hne hword hshown]
  · rfl
  · intro x _ y hy
    rw [hend y hy, Bool.and_false]

variable (hsep : ∀ x, blank x = true → word x = false)
include hsep

theorem tokens_after_blank {s t : List α} {x : α} (hx : blank x = true) :
    tokens word blank (s ++ x :: t) = tokens word blank s ++ tokens word blank t := by
  have hword : word x = false := hsep x hx
  have hone : [x].splitBy (fun x y => word x && word y) = [[x]] := rfl
  have hnone : tokens word blank [x] = [] := by simp [tokens, hone, hx]
  have hsplit : s ++ x :: t = (s ++ [x]) ++ t := by rw [List.append_assoc]; rfl
  rw [hsplit, tokens_append, tokens_append, hnone, List.append_nil]
  · intro y _ z hz
    rw [← Option.mem_some.mp hz, hword, Bool.and_false]
  · intro y hy z _
    rw [List.getLast?_concat] at hy
    rw [← Option.mem_some.mp hy, hword, Bool.false_and]

end Lib
