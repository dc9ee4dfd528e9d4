import LvimDb.Lib.Numeral

/-!
# Integers in decimal

Integers as they are formatted in decimal: with a minus sign where they are negative, and with
zeros in front of the digits where a width is to be filled.
-/

namespace Lib

/-- Digits with zeros in front, up to the width. -/
def filled (w : ℕ) (ds : List Char) : List Char := List.replicate (w - ds.length) '0' ++ ds

/-- The sign is part of the width. -/
def decimal (w : ℕ) (i : ℤ) : List Char :=
  if i < 0 then '-' :: filled (w - 1) (Nat.toDigits 10 i.natAbs)
  else filled w (Nat.toDigits 10 i.natAbs)

/-- The integer that is written. -/
def readDecimal (cs : List Char) : ℤ :=
  let (neg, ds) := readSign cs
  if neg then -(Nat.ofDigitChars 10 ds 0 : ℤ) else Nat.ofDigitChars 10 ds 0

variable {w n : ℕ} {i j : ℤ} {c : Char}

theorem filled_length (hw : 0 < w) (h : n < 10 ^ w) :
    (filled w (Nat.toDigits 10 n)).length = w := by
  have hle : (Nat.toDigits 10 n).length ≤ w := (Nat.length_toDigits_le_iff (by decide) hw).mpr h
  rw [filled, List.length_append, List.length_replicate]
  omega

theorem filled_digits (h : c ∈ filled w (Nat.toDigits 10 n)) : c.isDigit = true := by
  rcases List.mem_append.mp h with h | h
  · rw [List.eq_of_mem_replicate h]
    rfl
  · exact isDigit_toDigits h

theorem filled_value (w n : ℕ) : Nat.ofDigitChars 10 (filled w (Nat.toDigits 10 n)) 0 = n := by
  rw [filled, Nat.ofDigitChars_append, Nat.ofDigitChars_replicate_zero, Nat.mul_zero,
    Nat.ofDigitChars_ten_toDigits]

theorem filled_ne_nil : filled w (Nat.toDigits 10 n) ≠ [] :=
  List.append_ne_nil_of_right_ne_nil _ Nat.toDigits_ne_nil

theorem decimal_chars (h : c ∈ decimal w i) : c = '-' ∨ c.isDigit = true := by
  unfold decimal at h
  split at h
  · exact (List.mem_cons.mp h).imp_right filled_digits
  · exact .inr (filled_digits h)

/-- An integer that is not negative is its digits. -/
theorem decimal_nonneg (h : 0 ≤ i) : decimal 0 i = Nat.toDigits 10 i.natAbs := by
  rw [decimal, if_neg (by omega), filled, Nat.zero_sub]
  rfl

theorem readSign_filled (neg : Bool) (w n : ℕ) :
    readSign ((if neg then ['-'] else []) ++ filled w (Nat.toDigits 10 n)) =
      (neg, filled w (Nat.toDigits 10 n)) := by
  have h : readSign ((if neg then ['-'] else []) ++ filled w (Nat.toDigits 10 n) ++ []) =
      (neg, filled w (Nat.toDigits 10 n) ++ []) :=
    readSign_digits neg filled_ne_nil fun c hc => filled_digits hc
  rwa [List.append_nil, List.append_nil] at h

theorem readDecimal_decimal (w : ℕ) (i : ℤ) : readDecimal (decimal w i) = i := by
  unfold readDecimal
  by_cases hi : i < 0
  · have hsign : readSign (decimal w i) = (true, filled (w - 1) (Nat.toDigits 10 i.natAbs)) := by
      rw [decimal, if_pos hi]
      exact readSign_filled true (w - 1) i.natAbs
    simp only [hsign, filled_value, if_true]
    omega
  · have hsign : readSign (decimal w i) = (false, filled w (Nat.toDigits 10 i.natAbs)) := by
      rw [decimal, if_neg hi]
      exact readSign_filled false w i.natAbs
    simp only [hsign, filled_value, Bool.false_eq_true, if_false]
    omega

theorem decimal_inj (h : decimal w i = decimal w j) : i = j :=
  calc i = readDecimal (decimal w i) := (readDecimal_decimal w i).symm
    _ = readDecimal (decimal w j) := congrArg readDecimal h
    _ = j := readDecimal_decimal w j

/-! ### Truncated division -/

theorem tdiv_nonpos {a b : ℤ} (ha : a ≤ 0) (hb : 0 ≤ b) : a.tdiv b ≤ 0 := by
  have h := Int.tdiv_nonneg (Int.neg_nonneg_of_nonpos ha) hb
  rw [Int.neg_tdiv] at h
  omega

theorem tmod_nonpos {a : ℤ} (b : ℤ) (ha : a ≤ 0) : a.tmod b ≤ 0 := by
  have h := Int.tmod_nonneg b (Int.neg_nonneg_of_nonpos ha)
  rw [Int.neg_tmod] at h
  omega

/-- A quotient that is not zero has the sign of the remainder; a zero says nothing of it. -/
theorem eq_or_eq_neg {a b k : ℤ} (hk : 0 < k) (hq : a.tdiv k = b.tdiv k)
    (hr : (a.tmod k).natAbs = (b.tmod k).natAbs) : a = b ∨ a = -b ∧ b.natAbs < k.natAbs := by
  have ha : k * a.tdiv k + a.tmod k = a := Int.mul_tdiv_add_tmod a k
  have hb : k * b.tdiv k + b.tmod k = b := Int.mul_tdiv_add_tmod b k
  rcases Int.natAbs_eq_natAbs_iff.mp hr with hsame | hneg
  · left
    rw [← ha, ← hb, hq, hsame]
  · rcases lt_trichotomy (b.tdiv k) 0 with hlt | hzero | hgt
    · have hapos : a ≤ 0 := by
        by_contra h
        exact absurd (Int.tdiv_nonneg (not_le.mp h).le hk.le) (by omega)
      have hbpos : b ≤ 0 := by
        by_contra h
        exact absurd (Int.tdiv_nonneg (not_le.mp h).le hk.le) (by omega)
      have h1 := tmod_nonpos k hapos
      have h2 := tmod_nonpos k hbpos
      have hsame : a.tmod k = b.tmod k := by omega
      left
      rw [← ha, ← hb, hq, hsame]
    · right
      rw [hq, hzero, mul_zero, zero_add] at ha
      rw [hzero, mul_zero, zero_add] at hb
      refine ⟨by rw [← ha, ← hb, hneg], ?_⟩
      rw [← hb, Int.natAbs_tmod]
      exact Nat.mod_lt _ (by omega)
    · have hapos : 0 ≤ a := by
        by_contra h
        exact absurd (tdiv_nonpos (not_le.mp h).le hk.le) (by omega)
      have hbpos : 0 ≤ b := by
        by_contra h
        exact absurd (tdiv_nonpos (not_le.mp h).le hk.le) (by omega)
      have h1 := Int.tmod_nonneg k hapos
      have h2 := Int.tmod_nonneg k hbpos
      have hsame : a.tmod k = b.tmod k := by omega
      left
      rw [← ha, ← hb, hq, hsame]

end Lib
