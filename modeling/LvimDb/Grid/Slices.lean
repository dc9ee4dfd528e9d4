import LvimDb.Grid.Layout

/-!
# Slices of a line

`take_cells`, `cut_cells`, `drop_cells` and `pad_cells` of ui/result.lua as they are written, on
the bytes of a string. On the bytes of a text they give the bytes of what the functions on texts
give.
-/

namespace LvimDb.Grid
open Lib.CharWidth (strwidth_nil strwidth_cons strwidth_append strwidth_spaces cells_cons
  cells_append cells_spaces blank)

abbrev LuaString := List UInt8

namespace LuaString

/-- `s:sub(i, j)`, the places counted from 1. -/
def sub (s : LuaString) (i j : ℕ) : LuaString := (s.take j).drop (i - 1)

/-- `string.rep(s, n)`. -/
def rep (s : LuaString) (n : ℤ) : LuaString := (List.replicate n.toNat s).flatten

end LuaString

open LuaString

/-- Where the characters of a text begin that itself begins at byte `p`. -/
def starts : ℕ → Text → List ℕ
  | _, [] => []
  | p, c :: s => p :: starts (p + c.utf8Size) s

/-- What Neovim says of a string that is the bytes of a text. -/
structure Nvim (W : Widths) where
  strUtfPos : LuaString → List ℕ
  strwidth : LuaString → ℕ
  strUtfPos_utf8 (s : Text) : strUtfPos (utf8 s) = starts 1 s
  strwidth_utf8 (s : Text) : strwidth (utf8 s) = W.strwidth s

namespace Nvim
variable {W : Widths} (N : Nvim W)

/-- The loop of `take_cells` (122-131) over the positions that are left, with `w`. -/
def takeLoop (s : LuaString) (n : ℤ) : ℕ → List ℕ → LuaString
  | _, [] => s
  | w, b :: pos =>
    let e := pos.head?.getD (s.length + 1) - 1
    let cw := N.strwidth (s.sub b e)
    if n < w + cw then s.sub 1 (b - 1) ++ rep (utf8 [' ']) (n - w)
    else takeLoop s n (w + cw) pos

/-- `take_cells` (114-133). -/
def takeCells (s : LuaString) (n : ℤ) : LuaString :=
  if n ≤ 0 then []
  else if N.strwidth s ≤ n then s
  else N.takeLoop s n 0 (N.strUtfPos s)

/-- `cut_cells` (139-144): the text, and whether it was cut. -/
def cutCells (s : LuaString) (max : ℤ) : LuaString × Bool :=
  if N.strwidth s ≤ max then (s, false) else (N.takeCells s (max - 1) ++ utf8 ['…'], true)

/-- The loop of `drop_cells` (157-167) over the positions that are left, with `w`. -/
def dropLoop (s : LuaString) (n : ℤ) : ℕ → List ℕ → LuaString
  | _, [] => []
  | w, b :: pos =>
    if n ≤ w then s.sub b s.length
    else
      let e := pos.head?.getD (s.length + 1) - 1
      let w := w + N.strwidth (s.sub b e)
      if n < w then rep (utf8 [' ']) (w - n) ++ s.sub (e + 1) s.length else dropLoop s n w pos

/-- `drop_cells` (151-169). -/
def dropCells (s : LuaString) (n : ℤ) : LuaString :=
  if n ≤ 0 then s else N.dropLoop s n 0 (N.strUtfPos s)

/-- `pad_cells` (175-177). -/
def padCells (s : LuaString) (w : ℤ) : LuaString :=
  s ++ rep (utf8 [' ']) (max 0 (w - N.strwidth s))

end Nvim

variable {W : Widths} {N : Nvim W} {a b s t d : Text} {c : Char} {n w m : ℕ}

/-! ### Bytes -/

theorem utf8_length_snoc (s : Text) (c : Char) :
    (utf8 (s ++ [c])).length = (utf8 s).length + c.utf8Size := by
  simp [utf8]

theorem sub_utf8 (a s b : Text) :
    sub (utf8 (a ++ s ++ b)) ((utf8 a).length + 1) (utf8 (a ++ s)).length = utf8 s := by
  rw [LuaString.sub, utf8_append (a ++ s), List.take_left, utf8_append, Nat.add_sub_cancel,
    List.drop_left]

theorem sub_left (a b : Text) : sub (utf8 (a ++ b)) 1 (utf8 a).length = utf8 a :=
  sub_utf8 [] a b

theorem sub_right (a b : Text) :
    sub (utf8 (a ++ b)) ((utf8 a).length + 1) (utf8 (a ++ b)).length = utf8 b := by
  have h := sub_utf8 a b []
  rwa [List.append_nil] at h

theorem rep_space (n : ℤ) : rep (utf8 [' ']) n = utf8 (spaces n.toNat) := by
  rw [rep, spaces, utf8, utf8, List.flatMap_replicate, List.flatMap_singleton]

theorem starts_cons (a : Text) (c : Char) (s : Text) :
    starts ((utf8 a).length + 1) (c :: s) =
      ((utf8 a).length + 1) :: starts ((utf8 (a ++ [c])).length + 1) s := by
  rw [starts, utf8_length_snoc, Nat.add_right_comm]

/-- A character ends before the next one begins, or with the string. -/
theorem ends (a s : Text) :
    (starts ((utf8 a).length + 1) s).head?.getD ((utf8 (a ++ s)).length + 1) - 1 =
      (utf8 a).length := by
  cases s with
  | nil => rw [List.append_nil, starts, List.head?_nil, Option.getD_none, Nat.add_sub_cancel]
  | cons c s => rw [starts, List.head?_cons, Option.getD_some, Nat.add_sub_cancel]

/-! ### The functions on bytes do what the functions on texts do -/

theorem Nvim.strwidth_char (N : Nvim W) (c : Char) : N.strwidth (utf8 [c]) = W.width c := by
  rw [N.strwidth_utf8, strwidth_cons, strwidth_nil, Nat.add_zero]

theorem Nvim.takeLoop_utf8 (N : Nvim W) (a s : Text) :
    N.takeLoop (utf8 (a ++ s)) n w (starts ((utf8 a).length + 1) s) =
      utf8 (a ++ takeFrom W n w s) := by
  induction s generalizing a w with
  | nil => rfl
  | cons c s ih =>
    have hrest : a ++ c :: s = a ++ [c] ++ s := by rw [List.append_assoc, List.singleton_append]
    rw [starts_cons, takeLoop, takeFrom, hrest, ends (a ++ [c]) s, sub_utf8, N.strwidth_char]
    by_cases hcut : n < w + W.width c
    · rw [if_pos (by omega), if_pos hcut, Nat.add_sub_cancel, rep_space, List.append_assoc,
        sub_left, ← utf8_append, show ((n : ℤ) - w).toNat = n - w by omega]
    · rw [if_neg (by omega), if_neg hcut, ih (a ++ [c]), List.append_assoc, List.singleton_append]

theorem Nvim.dropLoop_utf8 (N : Nvim W) (a s : Text) :
    N.dropLoop (utf8 (a ++ s)) n w (starts ((utf8 a).length + 1) s) =
      utf8 (dropFrom W n w s) := by
  induction s generalizing a w with
  | nil => rfl
  | cons c s ih =>
    have hrest : a ++ c :: s = a ++ [c] ++ s := by rw [List.append_assoc, List.singleton_append]
    rw [starts_cons, dropLoop, dropFrom]
    by_cases hend : n ≤ w
    · rw [if_pos (by omega), if_pos hend, sub_right]
    · rw [if_neg (by omega), if_neg hend, hrest, ends (a ++ [c]) s]
      dsimp only
      rw [sub_utf8, N.strwidth_char]
      by_cases hcut : n < w + W.width c
      · rw [if_pos (by omega), if_pos hcut, rep_space, sub_right, ← utf8_append,
          show (((w + W.width c : ℕ) : ℤ) - n).toNat = w + W.width c - n by omega]
      · rw [if_neg (by omega), if_neg hcut, ih (a ++ [c])]

theorem Nvim.takeCells_utf8 (N : Nvim W) (s : Text) (n : ℤ) :
    N.takeCells (utf8 s) n = utf8 (Grid.takeCells W s n) := by
  rw [takeCells, Grid.takeCells, N.strwidth_utf8]
  by_cases hzero : n ≤ 0
  · rw [if_pos hzero, if_pos hzero]
    rfl
  · rw [if_neg hzero, if_neg hzero]
    by_cases hfits : (W.strwidth s : ℤ) ≤ n
    · rw [if_pos hfits, if_pos hfits]
    · rw [if_neg hfits, if_neg hfits, N.strUtfPos_utf8]
      obtain ⟨m, rfl⟩ := Int.eq_ofNat_of_zero_le (by omega : 0 ≤ n)
      exact N.takeLoop_utf8 [] s

theorem Nvim.dropCells_utf8 (N : Nvim W) (s : Text) (n : ℕ) :
    N.dropCells (utf8 s) n = utf8 (Grid.dropCells W s n) := by
  rw [dropCells, Grid.dropCells]
  by_cases hzero : n ≤ 0
  · rw [if_pos (by omega), if_pos hzero]
  · rw [if_neg (by omega), if_neg hzero, N.strUtfPos_utf8]
    exact N.dropLoop_utf8 [] s

theorem Nvim.cutCells_utf8 (N : Nvim W) (s : Text) (n : ℕ) :
    N.cutCells (utf8 s) n = (utf8 (Grid.cutCells W s n), decide (n < W.strwidth s)) := by
  rw [cutCells, Grid.cutCells, N.strwidth_utf8]
  by_cases hfits : W.strwidth s ≤ n
  · rw [if_pos (by omega), if_pos hfits, decide_eq_false (by omega)]
  · rw [if_neg (by omega), if_neg hfits, N.takeCells_utf8, utf8_append, decide_eq_true (by omega)]

/-! ### The two sides of a text -/

/-- The cells of a text that begins at `pos`; a character that covers cells on both sides of cell
`n` is shown as spaces. -/
def cellsApart (W : Widths) (n : ℕ) : ℕ → Text → List Lib.CharWidth.Cell
  | _, [] => []
  | pos, c :: s =>
    (if pos < n ∧ n < pos + W.width c then List.replicate (W.width c) blank
      else (List.range (W.width c)).map (c, ·)) ++ cellsApart W n (pos + W.width c) s

/-- The characters on the two sides of cell `n`. Either the text is divided between two characters,
and what has no width there is on both sides, or in a character, which gives its place to spaces. -/
inductive Parted (W : Widths) (n : ℕ) : Text → Text → Text → Prop
  | between (a z b : Text) : W.strwidth z = 0 → Parted W n (a ++ z ++ b) (a ++ z) (z ++ b)
  | inside (a b : Text) (c : Char) : W.strwidth a < n → n < W.strwidth a + W.width c →
    Parted W n (a ++ c :: b) (a ++ spaces (n - W.strwidth a))
      (spaces (W.strwidth a + W.width c - n) ++ b)

theorem Parted.cons (c : Char) (h : Parted W m s t d) :
    Parted W (W.width c + m) (c :: s) (c :: t) d := by
  rcases h with ⟨a, z, b, hz⟩ | ⟨a, b, c', hbefore, hafter⟩
  · exact .between (c :: a) z b hz
  · have hcons : W.strwidth (c :: a) = W.width c + W.strwidth a := strwidth_cons
    have h : Parted W (W.width c + m) _ _ _ := .inside (c :: a) b c' (by omega) (by omega)
    rw [hcons, Nat.add_sub_add_left, Nat.add_assoc, Nat.add_sub_add_left] at h
    exact h

theorem Parted.left (h : Parted W n s t d) : ∃ a k, a <+: s ∧ t = a ++ spaces k := by
  rcases h with ⟨a, z, b, hz⟩ | ⟨a, b, c, hbefore, hafter⟩
  · exact ⟨a ++ z, 0, List.prefix_append _ _, (List.append_nil _).symm⟩
  · exact ⟨a, n - W.strwidth a, List.prefix_append _ _, rfl⟩

theorem dropFrom_end (W : Widths) (n : ℕ) (s : Text) : dropFrom W n n s = s := by
  cases s with
  | nil => rfl
  | cons c s => rw [dropFrom, if_pos le_rfl]

/-- When its cells are there, `take_cells` still takes the characters of no width. -/
theorem takeFrom_end (W : Widths) (n : ℕ) (s : Text) :
    ∃ z b, s = z ++ b ∧ W.strwidth z = 0 ∧ takeFrom W n n s = z := by
  induction s with
  | nil => exact ⟨[], [], rfl, rfl, rfl⟩
  | cons c s ih =>
    rw [takeFrom]
    by_cases hwide : n < n + W.width c
    · rw [if_pos hwide, Nat.sub_self]
      exact ⟨[], c :: s, rfl, rfl, rfl⟩
    · obtain ⟨z, b, hs, hz, htake⟩ := ih
      have hzero : W.width c = 0 := by omega
      rw [if_neg hwide, hzero, Nat.add_zero, htake]
      exact ⟨c :: z, b, congrArg (c :: ·) hs, by rw [strwidth_cons, hzero, hz], rfl⟩

theorem takeFrom_whole (h : w + W.strwidth s ≤ n) : takeFrom W n w s = s := by
  induction s generalizing w with
  | nil => rfl
  | cons c s ih =>
    rw [strwidth_cons] at h
    rw [takeFrom, if_neg (by omega), ih (by omega)]

theorem parted_from (hn : n = w + m) : Parted W m s (takeFrom W n w s) (dropFrom W n w s) := by
  induction s generalizing w m with
  | nil => exact .between [] [] [] rfl
  | cons c s ih =>
    by_cases hend : m = 0
    · subst hend
      obtain ⟨z, b, hs, hz, htake⟩ := takeFrom_end W w (c :: s)
      rw [hn, Nat.add_zero, dropFrom_end, htake, hs]
      exact .between [] z b hz
    · have hbefore : ¬n ≤ w := by omega
      rw [takeFrom, dropFrom, if_neg hbefore]
      by_cases hcut : n < w + W.width c
      · have hleft : n - w = m - W.strwidth [] := by rw [strwidth_nil]; omega
        have hright : w + W.width c - n = W.strwidth [] + W.width c - m := by
          rw [strwidth_nil]
          omega
        rw [if_pos hcut, if_pos hcut, hleft, hright]
        exact .inside [] s c (by rw [strwidth_nil]; omega) (by rw [strwidth_nil]; omega)
      · have hm : m = W.width c + (m - W.width c) := by omega
        rw [if_neg hcut, if_neg hcut, hm]
        exact (ih (by omega)).cons c

theorem takeCells_from (W : Widths) (s : Text) (h : n ≠ 0) :
    takeCells W s n = takeFrom W n 0 s := by
  rw [takeCells, if_neg (by omega)]
  split
  · rw [takeFrom_whole (by omega)]
  · rfl

theorem dropCells_from (W : Widths) (s : Text) (n : ℕ) :
    dropCells W s n = dropFrom W n 0 s := by
  rw [dropCells]
  split
  · next h => rw [Nat.le_zero.mp h, dropFrom_end]
  · rfl

theorem parted (W : Widths) (s : Text) (n : ℕ) :
    Parted W n s (takeCells W s n) (dropCells W s n) := by
  by_cases hzero : n = 0
  · subst hzero
    exact .between [] [] s rfl
  · rw [takeCells_from W s hzero, dropCells_from]
    exact parted_from (Nat.zero_add n).symm

theorem cellsApart_past {pos : ℕ} (h : n ≤ pos) : cellsApart W n pos s = W.cells s := by
  induction s generalizing pos with
  | nil => rfl
  | cons c s ih => rw [cellsApart, if_neg (by omega), cells_cons, ih (by omega)]

theorem cellsApart_length (W : Widths) (n pos : ℕ) (s : Text) :
    (cellsApart W n pos s).length = W.strwidth s := by
  induction s generalizing pos with
  | nil => rfl
  | cons c s ih =>
    rw [cellsApart, List.length_append, ih, strwidth_cons]
    split
    · rw [List.length_replicate]
    · rw [List.length_map, List.length_range]

theorem cells_of_zero (h : W.strwidth s = 0) : W.cells s = [] := by
  rw [← Lib.CharWidth.cells_length] at h
  exact List.eq_nil_of_length_eq_zero h

theorem cells_from (hw : w ≤ n) :
    W.cells (takeFrom W n w s) ++ W.cells (dropFrom W n w s) = cellsApart W n w s := by
  induction s generalizing w with
  | nil => rfl
  | cons c s ih =>
    by_cases hend : n = w
    · subst hend
      obtain ⟨z, b, -, hz, htake⟩ := takeFrom_end W n (c :: s)
      rw [dropFrom_end, htake, cells_of_zero hz, List.nil_append, cellsApart_past le_rfl]
    · have hbefore : ¬n ≤ w := by omega
      rw [takeFrom, dropFrom, if_neg hbefore, cellsApart]
      by_cases hcut : n < w + W.width c
      · have hwidth : W.width c = n - w + (w + W.width c - n) := by omega
        rw [if_pos hcut, if_pos hcut, if_pos ⟨by omega, hcut⟩, cells_append, spaces, spaces,
          cells_spaces, cells_spaces, cellsApart_past (by omega), ← List.append_assoc,
          List.replicate_append_replicate, ← hwidth]
      · rw [if_neg hcut, if_neg hcut, if_neg (by omega), cells_cons, List.append_assoc,
          ih (by omega)]

theorem cells_apart (W : Widths) (s : Text) (n : ℕ) :
    W.cells (takeCells W s n) ++ W.cells (dropCells W s n) = cellsApart W n 0 s := by
  by_cases hzero : n = 0
  · subst hzero
    exact (cellsApart_past le_rfl).symm
  · rw [takeCells_from W s hzero, dropCells_from]
    exact cells_from (Nat.zero_le n)

theorem strwidth_takeCells_min (W : Widths) (s : Text) (n : ℕ) :
    W.strwidth (takeCells W s n) = min n (W.strwidth s) := by
  by_cases h : n < W.strwidth s
  · rw [strwidth_takeCells h]
    omega
  · by_cases hzero : n = 0
    · subst hzero
      exact (Nat.zero_min _).symm
    · rw [takeCells_from W s hzero, takeFrom_whole (by omega)]
      omega

theorem strwidth_dropCells_min (W : Widths) (s : Text) (n : ℕ) :
    W.strwidth (dropCells W s n) = W.strwidth s - min n (W.strwidth s) := by
  have hcells := congrArg List.length (cells_apart W s n)
  rw [List.length_append, Lib.CharWidth.cells_length, Lib.CharWidth.cells_length,
    cellsApart_length, strwidth_takeCells_min] at hcells
  omega

/-- Whole characters: the text, or characters from its beginning, spaces and the ellipsis. -/
def Whole (s t : Text) : Prop := t = s ∨ ∃ a k, a <+: s ∧ t = a ++ spaces k ++ ['…']

theorem whole_cutCells (W : Widths) (s : Text) (h : n ≠ 0) : Whole s (cutCells W s n) := by
  unfold cutCells
  split
  · exact .inl rfl
  · have hpred : ((n : ℤ) - 1) = ((n - 1 : ℕ) : ℤ) := by omega
    obtain ⟨a, k, ha, htake⟩ := (parted W s (n - 1)).left
    exact .inr ⟨a, k, ha, by rw [hpred, htake]⟩

/-- The left side has `n` cells or all, the right side the others. Side by side they show the cells
of the text, and no character is lost or on both sides but for the one in which the text is divided
and those of no width. A cut text has its place and is whole characters. -/
theorem cells_sliced (N : Nvim W) (s : Text) (n : ℕ) :
    N.strwidth (N.takeCells (utf8 s) n) = min n (N.strwidth (utf8 s)) ∧
    N.strwidth (N.dropCells (utf8 s) n) =
      N.strwidth (utf8 s) - min n (N.strwidth (utf8 s)) ∧
    (∃ left right, N.takeCells (utf8 s) n = utf8 left ∧ N.dropCells (utf8 s) n = utf8 right ∧
      W.cells left ++ W.cells right = cellsApart W n 0 s ∧ Parted W n s left right) ∧
    ∀ max : ℤ, 1 ≤ max → N.strwidth (N.cutCells (utf8 s) max).1 ≤ max ∧
      ∃ t, (N.cutCells (utf8 s) max).1 = utf8 t ∧ Whole s t := by
  have htake : N.takeCells (utf8 s) n = utf8 (takeCells W s n) := N.takeCells_utf8 s n
  have hdrop : N.dropCells (utf8 s) n = utf8 (dropCells W s n) := N.dropCells_utf8 s n
  refine ⟨?_, ?_, ⟨takeCells W s n, dropCells W s n, htake, hdrop, cells_apart W s n,
    parted W s n⟩, fun max hmax => ?_⟩
  · rw [htake, N.strwidth_utf8, N.strwidth_utf8, strwidth_takeCells_min]
  · rw [hdrop, N.strwidth_utf8, N.strwidth_utf8, strwidth_dropCells_min]
  · obtain ⟨m, rfl⟩ := Int.eq_ofNat_of_zero_le (by omega : 0 ≤ max)
    have hm : m ≠ 0 := by omega
    have hcut : (N.cutCells (utf8 s) m).1 = utf8 (cutCells W s m) := by rw [N.cutCells_utf8]
    refine ⟨?_, cutCells W s m, hcut, whole_cutCells W s hm⟩
    rw [hcut, N.strwidth_utf8]
    exact Int.ofNat_le.mpr (strwidth_cutCells hm)

/-! ### Neovim reads the bytes -/

/-- The text of a string, nothing of bytes that are none. -/
def decode (b : LuaString) : Text := (b.toByteArray.utf8Decode?.getD #[]).toList

theorem decode_utf8 (s : Text) : decode (utf8 s) = s := by
  have h : (utf8 s).toByteArray.utf8Decode? = some s.toArray := List.utf8Decode?_utf8Encode
  rw [decode, h, Option.getD_some]

def decoding (W : Widths) : Nvim W where
  strUtfPos b := starts 1 (decode b)
  strwidth b := W.strwidth (decode b)
  strUtfPos_utf8 s := congrArg (starts 1) (decode_utf8 s)
  strwidth_utf8 s := congrArg W.strwidth (decode_utf8 s)

def oneWide : Widths := ⟨⟨fun c => if c = '漢' then 2 else 1, rfl⟩, rfl, rfl⟩

/-- Two cells of `a漢` are `a` and a space. -/
theorem cells_sliced_wide :
    (decoding oneWide).strwidth ((decoding oneWide).takeCells (utf8 ['a', '漢']) 2) = 2 ∧
    (decoding oneWide).strwidth ((decoding oneWide).cutCells (utf8 ['a', '漢']) 2).1 ≤ (2 : ℤ) := by
  have h := cells_sliced (decoding oneWide) ['a', '漢'] 2
  refine ⟨h.1.trans ?_, (h.2.2.2 2 (by decide)).1⟩
  rw [Nvim.strwidth_utf8]
  rfl

example : takeCells oneWide ['a', '漢', 'b'] 2 = ['a', ' '] := rfl

example : dropCells oneWide ['a', '漢', 'b'] 2 = [' ', 'b'] := rfl

end LvimDb.Grid
