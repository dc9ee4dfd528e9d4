import LvimDb.Lib.Display

/-!
# Display cells of the grid

`take_cells`, `cut_cells`, `drop_cells` and `pad_cells` of ui/result.lua.
-/

namespace LvimDb.Grid
open Lib (CharWidth)
open Lib.CharWidth (strwidth_cons strwidth_append strwidth_spaces cells_cons cells_spaces
  view_append view_outside view_spaces)

abbrev Text := List Char

/-- Neovim's widths of the characters the grid draws itself. -/
structure Widths extends CharWidth where
  bar : width '│' = 1
  ellipsis : width '…' = 1

def spaces (n : ℕ) : Text := List.replicate n ' '

def SEP : Text := [' ', '│', ' ']

def SEP_CELLS : ℕ := 3

def MAX_CELL : ℕ := 60

section
variable (W : Widths)

/-- The loop of `take_cells` (120-131), with `w`. -/
def takeFrom (n : ℕ) : ℕ → Text → Text
  | _, [] => []
  | w, c :: s => if n < w + W.width c then spaces (n - w) else c :: takeFrom n (w + W.width c) s

/-- `take_cells` (113-132). -/
def takeCells (s : Text) (n : ℤ) : Text :=
  if n ≤ 0 then []
  else if W.strwidth s ≤ n then s
  else takeFrom W n.toNat 0 s

/-- `cut_cells` (139-144), its text. -/
def cutCells (s : Text) (max : ℕ) : Text :=
  if W.strwidth s ≤ max then s else takeCells W s ((max : ℤ) - 1) ++ ['…']

/-- The loop of `drop_cells` (155-168), with `w`. -/
def dropFrom (n : ℕ) : ℕ → Text → Text
  | _, [] => []
  | w, c :: s =>
    if n ≤ w then c :: s
    else if n < w + W.width c then spaces (w + W.width c - n) ++ s
    else dropFrom n (w + W.width c) s

/-- `drop_cells` (151-169). -/
def dropCells (s : Text) (n : ℕ) : Text := if n ≤ 0 then s else dropFrom W n 0 s

/-- `pad_cells` (175-177). -/
def padCells (s : Text) (w : ℕ) : Text := s ++ spaces (w - W.strwidth s)

end

variable {W : Widths} {s : Text} {n w lo hi pos : ℕ}

theorem strwidth_SEP : W.strwidth SEP = SEP_CELLS := by
  simp [SEP, W.space, W.bar, SEP_CELLS]

theorem strwidth_pad (h : W.strwidth s ≤ n) : W.strwidth (padCells W s n) = n := by
  rw [padCells, strwidth_append, spaces, strwidth_spaces]
  omega

theorem strwidth_pad_iff : W.strwidth (padCells W s n) = n ↔ W.strwidth s ≤ n := by
  refine ⟨fun h => ?_, strwidth_pad⟩
  rw [padCells, strwidth_append] at h
  omega

theorem strwidth_takeFrom (h : n < w + W.strwidth s) (hw : w ≤ n) :
    W.strwidth (takeFrom W n w s) = n - w := by
  induction s generalizing w with
  | nil =>
    rw [Lib.CharWidth.strwidth_nil] at h
    omega
  | cons c s ih =>
    rw [strwidth_cons] at h
    rw [takeFrom]
    split
    · exact strwidth_spaces _
    · rw [strwidth_cons, ih (by omega) (by omega)]
      omega

theorem strwidth_takeCells (h : n < W.strwidth s) : W.strwidth (takeCells W s n) = n := by
  unfold takeCells
  split
  · rw [Lib.CharWidth.strwidth_nil]
    omega
  · rw [if_neg (by omega), strwidth_takeFrom] <;> omega

/-- A cut text has its place, unless that has no cells. -/
theorem strwidth_cutCells (hn : n ≠ 0) : W.strwidth (cutCells W s n) ≤ n := by
  unfold cutCells
  split
  · assumption
  · have hpred : ((n : ℤ) - 1) = ((n - 1 : ℕ) : ℤ) := by omega
    rw [strwidth_append, hpred, strwidth_takeCells (by omega), strwidth_cons, W.ellipsis,
      Lib.CharWidth.strwidth_nil]
    omega

theorem strwidth_cutCells_eq_zero : W.strwidth (cutCells W s n) = 0 ↔ W.strwidth s = 0 := by
  unfold cutCells
  split
  · rfl
  · rw [strwidth_append, strwidth_cons, W.ellipsis]
    omega

/-- In no cells there is still the ellipsis. -/
theorem strwidth_cutCells_le_iff :
    W.strwidth (cutCells W s n) ≤ n ↔ (n = 0 → W.strwidth s = 0) := by
  by_cases hn : n = 0
  · subst hn
    rw [Nat.le_zero, strwidth_cutCells_eq_zero]
    exact ⟨fun h _ => h, fun h => h rfl⟩
  · exact iff_of_true (strwidth_cutCells hn) fun h => absurd h hn

/-! ### A window on a text -/

/-- At the right edge of a window the cells of a cut character are spaces. -/
theorem view_takeFrom (hlo : lo ≤ pos + w) (hw : w ≤ n) :
    W.view lo (pos + n) (pos + w) s = W.cells (takeFrom W n w s) := by
  induction s generalizing w with
  | nil => rfl
  | cons c s ih =>
    rw [CharWidth.view, takeFrom]
    by_cases hcut : n < w + W.width c
    · have hsize : min (pos + w + W.width c) (pos + n) - max (pos + w) lo = n - w := by omega
      rw [if_neg (by omega), if_pos hcut, view_outside (by omega), hsize, List.append_nil, spaces,
        cells_spaces]
    · rw [if_pos (by omega), if_neg hcut, cells_cons, Nat.add_assoc, ih (by omega) (by omega)]

theorem view_dropFrom (hlo : lo = pos + n) (hw : w ≤ n) :
    W.view lo hi (pos + w) s = W.view lo hi lo (dropFrom W n w s) := by
  induction s generalizing w with
  | nil => rfl
  | cons c s ih =>
    rw [dropFrom]
    by_cases hend : n ≤ w
    · rw [if_pos hend, hlo, Nat.le_antisymm hw hend]
    · rw [if_neg hend, CharWidth.view, if_neg (by omega)]
      by_cases hcut : n < w + W.width c
      · have hnext : lo + (w + W.width c - n) = pos + w + W.width c := by omega
        have hmax : max (pos + w) lo = max lo lo := by omega
        rw [if_pos hcut, spaces, view_append, view_spaces, strwidth_spaces, hnext, hmax]
      · have hnone : min (pos + w + W.width c) hi - max (pos + w) lo = 0 := by omega
        rw [if_neg hcut, hnone, List.replicate_zero, List.nil_append, Nat.add_assoc,
          ih (by omega)]

theorem view_takeCells (hlo : lo ≤ pos) (hhi : pos ≤ hi) (h : hi < pos + W.strwidth s) :
    W.view lo hi pos s = W.cells (takeCells W s ((hi - pos : ℕ) : ℤ)) := by
  obtain ⟨n, rfl⟩ : ∃ n, hi = pos + n := ⟨hi - pos, by omega⟩
  have hn : pos + n - pos = n := by omega
  rw [hn, takeCells]
  by_cases hzero : (n : ℤ) ≤ 0
  · rw [if_pos hzero, view_outside (by omega)]
    rfl
  · rw [if_neg hzero, if_neg (by omega)]
    exact view_takeFrom (w := 0) hlo (Nat.zero_le n)

theorem view_dropCells (h : pos < lo) :
    W.view lo hi pos s = W.view lo hi lo (dropCells W s (lo - pos)) := by
  rw [dropCells, if_neg (by omega)]
  exact view_dropFrom (w := 0) (by omega) (Nat.zero_le _)

theorem strwidth_dropFrom (hw : w ≤ n) (h : n < w + W.strwidth s) :
    W.strwidth (dropFrom W n w s) = w + W.strwidth s - n := by
  induction s generalizing w with
  | nil =>
    rw [Lib.CharWidth.strwidth_nil] at h
    omega
  | cons c s ih =>
    rw [strwidth_cons] at h
    rw [dropFrom]
    split
    · rw [strwidth_cons]
      omega
    · split
      · rw [strwidth_append, spaces, strwidth_spaces, strwidth_cons]
        omega
      · rw [ih (by omega) (by omega), strwidth_cons]
        omega

theorem strwidth_dropCells (h : n < W.strwidth s) :
    W.strwidth (dropCells W s n) = W.strwidth s - n := by
  unfold dropCells
  split
  · omega
  · rw [strwidth_dropFrom (Nat.zero_le _) (by omega)]
    omega

end LvimDb.Grid
