import Mathlib.Algebra.BigOperators.Group.List.Basic
import Mathlib.Data.List.GetD
import Mathlib.Algebra.GroupWithZero.Nat

/-!
# Display cells

Characters cover display cells, as many as they are wide. A window shows the cells of a line
between two of them; a character that is not wholly in the window is shown as spaces.
-/

namespace Lib

/-- How wide characters are; a space covers one cell. -/
structure CharWidth where
  width : Char → ℕ
  space : width ' ' = 1

namespace CharWidth
variable (W : CharWidth)

def strwidth (s : List Char) : ℕ := (s.map W.width).sum

/-- A cell: the character that covers it, and which of its cells it is. -/
abbrev Cell := Char × ℕ

def blank : Cell := (' ', 0)

/-- The cells of a text; characters of no width cover none. -/
def cells (s : List Char) : List Cell := s.flatMap fun c => (List.range (W.width c)).map (c, ·)

/-- The cell at a place. -/
def charAt : ℕ → List Char → Option Cell
  | _, [] => none
  | k, c :: s => if k < W.width c then some (c, k) else charAt (k - W.width c) s

/-- What the window from `lo` to `hi` shows at its place `k` of a line that begins at `pos`. -/
def seenFrom (lo hi pos : ℕ) (s : List Char) (k : ℕ) : Cell :=
  match W.charAt (k - pos) s with
  | some (c, i) => if lo ≤ k - i ∧ k - i + W.width c ≤ hi then (c, i) else blank
  | none => blank

def seen (lo hi : ℕ) (s : List Char) (k : ℕ) : Cell := W.seenFrom lo hi 0 s k

/-- What the window shows of a line that begins at `pos`, character by character. -/
def view (lo hi : ℕ) : ℕ → List Char → List Cell
  | _, [] => []
  | pos, c :: s =>
    (if lo ≤ pos ∧ pos + W.width c ≤ hi then (List.range (W.width c)).map (c, ·)
      else List.replicate (min (pos + W.width c) hi - max pos lo) blank) ++
      view lo hi (pos + W.width c) s

variable {W} {lo hi pos k n : ℕ} {c : Char} {s t : List Char}

@[simp] theorem strwidth_nil : W.strwidth [] = 0 := rfl

@[simp] theorem strwidth_cons : W.strwidth (c :: s) = W.width c + W.strwidth s := by
  simp [strwidth]

@[simp] theorem strwidth_append : W.strwidth (s ++ t) = W.strwidth s + W.strwidth t := by
  simp [strwidth]

@[simp] theorem strwidth_spaces (n : ℕ) : W.strwidth (List.replicate n ' ') = n := by
  simp [strwidth, W.space]

theorem cells_cons : W.cells (c :: s) = (List.range (W.width c)).map (c, ·) ++ W.cells s :=
  List.flatMap_cons

theorem cells_append : W.cells (s ++ t) = W.cells s ++ W.cells t := List.flatMap_append

theorem cells_length (s : List Char) : (W.cells s).length = W.strwidth s := by
  induction s with
  | nil => rfl
  | cons c s ih =>
    rw [cells_cons, List.length_append, List.length_map, List.length_range, ih, strwidth_cons]

theorem charAt_append (s t : List Char) (k : ℕ) :
    W.charAt (W.strwidth s + k) (s ++ t) = W.charAt k t := by
  induction s with
  | nil => simp
  | cons c s ih =>
    have hskip : ¬ W.strwidth (c :: s) + k < W.width c := by
      rw [strwidth_cons]
      omega
    have hrest : W.strwidth (c :: s) + k - W.width c = W.strwidth s + k := by
      rw [strwidth_cons]
      omega
    rw [List.cons_append, charAt, if_neg hskip, hrest, ih]

/-- The first cell of a text that covers cells is the first of a character of it. -/
theorem charAt_zero (h : 0 < W.strwidth s) (t : List Char) :
    ∃ c, W.charAt 0 (s ++ t) = some (c, 0) ∧ 0 < W.width c ∧ W.width c ≤ W.strwidth s := by
  induction s with
  | nil => simp at h
  | cons c s ih =>
    rw [strwidth_cons] at h ⊢
    by_cases hc : 0 < W.width c
    · exact ⟨c, by rw [List.cons_append, charAt, if_pos hc], hc, by omega⟩
    · obtain ⟨d, hd, hpos, hle⟩ := ih (by omega)
      refine ⟨d, ?_, hpos, by omega⟩
      rw [List.cons_append, charAt, if_neg hc, Nat.zero_sub]
      exact hd

theorem cells_spaces (n : ℕ) : W.cells (List.replicate n ' ') = List.replicate n blank := by
  induction n with
  | zero => rfl
  | succ n ih =>
    rw [List.replicate_succ, cells_cons, W.space, ih]
    rfl

theorem view_part_length (lo hi pos : ℕ) (c : Char) :
    (if lo ≤ pos ∧ pos + W.width c ≤ hi then (List.range (W.width c)).map (c, ·)
      else List.replicate (min (pos + W.width c) hi - max pos lo) blank).length =
      min (pos + W.width c) hi - max pos lo := by
  split
  · next h =>
    rw [List.length_map, List.length_range]
    omega
  · exact List.length_replicate

theorem view_length (lo hi pos : ℕ) (s : List Char) :
    (W.view lo hi pos s).length = min (pos + W.strwidth s) hi - max pos lo := by
  induction s generalizing pos with
  | nil =>
    rw [view, strwidth_nil, List.length_nil]
    omega
  | cons c s ih =>
    rw [view, List.length_append, view_part_length, ih, strwidth_cons]
    omega

theorem view_append (lo hi pos : ℕ) (s t : List Char) :
    W.view lo hi pos (s ++ t) = W.view lo hi pos s ++ W.view lo hi (pos + W.strwidth s) t := by
  induction s generalizing pos with
  | nil => rfl
  | cons c s ih =>
    rw [List.cons_append, view, view, ih, strwidth_cons, List.append_assoc, Nat.add_assoc]

/-- A line shows at every place of the window what covers that place. -/
theorem view_getD (hpos : max pos lo ≤ k) (hk : k < hi) (s : List Char) :
    (W.view lo hi pos s).getD (k - max pos lo) blank = W.seenFrom lo hi pos s k := by
  induction s generalizing pos with
  | nil => rfl
  | cons c s ih =>
    have hlen := view_part_length (W := W) lo hi pos c
    rw [view]
    by_cases hin : k < pos + W.width c
    · have hchar : W.charAt (k - pos) (c :: s) = some (c, k - pos) := by
        rw [charAt, if_pos (by omega)]
      have hstart : k - (k - pos) = pos := by omega
      rw [List.getD_append _ _ _ _ (by omega), seenFrom, hchar]
      simp only [hstart]
      by_cases hwhole : lo ≤ pos ∧ pos + W.width c ≤ hi
      · rw [if_pos hwhole, if_pos hwhole]
        have hmax : max pos lo = pos := by omega
        rw [hmax, List.getD_eq_getElem _ _ (by simp; omega)]
        simp
      · rw [if_neg hwhole, if_neg hwhole, List.getD_replicate]
        omega
    · have hchar : W.charAt (k - pos) (c :: s) = W.charAt (k - (pos + W.width c)) s := by
        rw [charAt, if_neg (by omega), Nat.sub_sub]
      have hindex : k - max pos lo - (min (pos + W.width c) hi - max pos lo) =
          k - max (pos + W.width c) lo := by omega
      have hrest : (W.view lo hi (pos + W.width c) s).getD (k - max (pos + W.width c) lo) blank =
          W.seenFrom lo hi (pos + W.width c) s k := ih (by omega)
      rw [List.getD_append_right _ _ _ _ (by omega), hlen, hindex, hrest, seenFrom, seenFrom, hchar]

theorem getD_blanks (l : List Cell) (n j : ℕ) :
    (l ++ List.replicate n blank).getD j blank = l.getD j blank := by
  by_cases hj : j < l.length
  · exact List.getD_append _ _ _ _ hj
  · rw [List.getD_append_right _ _ _ _ (by omega), List.getD_eq_default l _ (by omega)]
    by_cases hn : j - l.length < n
    · exact List.getD_replicate _ hn
    · exact List.getD_eq_default _ _ (by rw [List.length_replicate]; omega)

/-- The window shows its cells of a line, and spaces where the line has none. -/
theorem view_eq_seen (lo hi : ℕ) (s : List Char) :
    W.view lo hi 0 s ++ List.replicate (hi - lo - (min (W.strwidth s) hi - lo)) blank =
      (List.range (hi - lo)).map fun j => W.seen lo hi s (lo + j) := by
  have hlen := view_length (W := W) lo hi 0 s
  refine List.ext_getElem ?_ fun j hj hj' => ?_
  · rw [List.length_append, List.length_replicate, List.length_map, List.length_range, hlen]
    omega
  · rw [List.length_map, List.length_range] at hj'
    have hplace : lo + j - max 0 lo = j := by omega
    have hseen : (W.view lo hi 0 s).getD (lo + j - max 0 lo) blank =
        W.seenFrom lo hi 0 s (lo + j) := view_getD (by omega) (by omega) s
    rw [hplace] at hseen
    rw [← List.getD_eq_getElem _ blank hj, getD_blanks, hseen, List.getElem_map, List.getElem_range]
    rfl

theorem view_whole (hlo : lo ≤ pos) (hhi : pos + W.strwidth s ≤ hi) :
    W.view lo hi pos s = W.cells s := by
  induction s generalizing pos with
  | nil => rfl
  | cons c s ih =>
    rw [strwidth_cons] at hhi
    rw [view, if_pos ⟨hlo, by omega⟩, cells_cons, ih (by omega) (by omega)]

theorem view_outside (h : min (pos + W.strwidth s) hi ≤ max pos lo) : W.view lo hi pos s = [] := by
  apply List.eq_nil_of_length_eq_zero
  rw [view_length]
  omega

theorem view_spaces (lo hi pos n : ℕ) :
    W.view lo hi pos (List.replicate n ' ') =
      List.replicate (min (pos + n) hi - max pos lo) blank := by
  have hall : ∀ x ∈ W.view lo hi pos (List.replicate n ' '), x = blank := by
    induction n generalizing pos with
    | zero => exact fun x hx => absurd hx List.not_mem_nil
    | succ n ih =>
      intro x hx
      rw [List.replicate_succ, view, W.space] at hx
      rcases List.mem_append.mp hx with hx | hx
      · split at hx
        · exact List.mem_singleton.mp hx
        · exact (List.mem_replicate.mp hx).2
      · exact ih _ x hx
  refine List.eq_replicate_iff.mpr ⟨?_, hall⟩
  rw [view_length, strwidth_spaces]

end CharWidth
end Lib
