import LvimDb.Lib.Numeral

/-!
# Doubles

The double next to a rational number, as a rational number: 53 significant bits, or a multiple
of `2 ^ -1074` where that is coarser. Numbers from `2 ^ 1024` on are not looked at.
-/

namespace Lib

/-- The exponent of the last bit of the doubles around `q`. -/
def lastBit (q : ℚ) : ℤ := max (Int.log 2 |q| - 52) (-1074)

/-- The nearest double, of two the even one. -/
def toDouble (q : ℚ) : ℚ := roundEven (q / 2 ^ lastBit q) * 2 ^ lastBit q

/-- A multiple of the last bit is a double. -/
theorem toDouble_eq {q : ℚ} {m : ℤ} (h : q = m * 2 ^ lastBit q) : toDouble q = q := by
  have hdiv : q / 2 ^ lastBit q = m := by
    rw [div_eq_iff (zpow_ne_zero _ two_ne_zero)]
    exact h
  unfold toDouble
  rw [hdiv, roundEven_int]
  exact h.symm

/-- The integers below `2 ^ 53` are doubles. -/
theorem toDouble_int {i : ℤ} (h : i.natAbs < 2 ^ 53) : toDouble (i : ℚ) = i := by
  have habs : |(i : ℚ)| = (i.natAbs : ℚ) := by
    rw [← Int.cast_abs, Int.abs_eq_natAbs, Int.cast_natCast]
  have hlog : Nat.log 2 i.natAbs ≤ 52 := by
    by_cases hi : i.natAbs = 0
    · rw [hi, Nat.log_zero_right]
      exact Nat.zero_le _
    · exact Nat.lt_succ_iff.mp (Nat.log_lt_of_lt_pow hi h)
  have hbit : lastBit (i : ℚ) = -((52 - Nat.log 2 i.natAbs : ℕ) : ℤ) := by
    unfold lastBit
    rw [habs, Int.log_natCast]
    omega
  refine toDouble_eq (m := i * 2 ^ (52 - Nat.log 2 i.natAbs)) ?_
  rw [hbit, zpow_neg, zpow_natCast]
  push_cast
  rw [mul_assoc, mul_inv_cancel₀ (by positivity), mul_one]

theorem lastBit_int (i : ℤ) : lastBit (i : ℚ) = Nat.log 2 i.natAbs - 52 := by
  have habs : |(i : ℚ)| = (i.natAbs : ℚ) := by
    rw [← Int.cast_abs, Int.abs_eq_natAbs, Int.cast_natCast]
  unfold lastBit
  rw [habs, Int.log_natCast]
  omega

/-- An integer of 53 significant bits, as an absolute value. -/
def Significant (n : ℕ) : Prop := ∃ m e : ℕ, m < 2 ^ 53 ∧ n = m * 2 ^ e

/-- From `2 ^ 53` on the doubles are the multiples of their last bit. -/
theorem toDouble_eq_iff_dvd {i : ℤ} (h : 2 ^ 53 ≤ i.natAbs) :
    toDouble (i : ℚ) = i ↔ 2 ^ (Nat.log 2 i.natAbs - 52) ∣ i.natAbs := by
  have hlog : 53 ≤ Nat.log 2 i.natAbs := Nat.le_log_of_pow_le (by decide) h
  have hbit : lastBit (i : ℚ) = ((Nat.log 2 i.natAbs - 52 : ℕ) : ℤ) := by
    rw [lastBit_int]
    omega
  constructor
  · intro heq
    have hmul : i = roundEven ((i : ℚ) / 2 ^ lastBit i) * 2 ^ (Nat.log 2 i.natAbs - 52) := by
      have hq : (i : ℚ) = roundEven ((i : ℚ) / 2 ^ lastBit i) *
          2 ^ (Nat.log 2 i.natAbs - 52) := by
        conv_lhs => rw [← heq]
        unfold toDouble
        rw [hbit, zpow_natCast]
      exact_mod_cast hq
    have hdvd : ((2 ^ (Nat.log 2 i.natAbs - 52) : ℕ) : ℤ) ∣ i := by
      refine Dvd.intro_left (roundEven ((i : ℚ) / 2 ^ lastBit i)) ?_
      push_cast
      exact hmul.symm
    exact Int.natCast_dvd.mp hdvd
  · intro hdvd
    obtain ⟨m, hm⟩ := Int.natCast_dvd.mpr hdvd
    refine toDouble_eq (m := m) ?_
    rw [hbit, zpow_natCast]
    conv_lhs => rw [hm]
    push_cast
    ring

theorem log_mul_two_pow {m : ℕ} (hm : m ≠ 0) (e : ℕ) : Nat.log 2 (m * 2 ^ e) = Nat.log 2 m + e := by
  induction e with
  | zero => rw [pow_zero, mul_one, Nat.add_zero]
  | succ e ih =>
    have hne : m * 2 ^ e ≠ 0 := Nat.mul_ne_zero hm (by positivity)
    rw [pow_succ, ← mul_assoc, Nat.log_mul_base (by decide) hne, ih, Nat.add_assoc]

/-- The integers that are doubles. -/
theorem toDouble_int_iff (i : ℤ) : toDouble (i : ℚ) = i ↔ Significant i.natAbs := by
  by_cases hsmall : i.natAbs < 2 ^ 53
  · exact iff_of_true (toDouble_int hsmall) ⟨i.natAbs, 0, hsmall, by rw [pow_zero, mul_one]⟩
  · rw [toDouble_eq_iff_dvd (not_lt.mp hsmall)]
    have hpos : i.natAbs ≠ 0 := by omega
    have hlog : 53 ≤ Nat.log 2 i.natAbs := Nat.le_log_of_pow_le (by decide) (not_lt.mp hsmall)
    constructor
    · rintro ⟨m, hm⟩
      refine ⟨m, Nat.log 2 i.natAbs - 52, ?_, by rw [mul_comm]; exact hm⟩
      have hlt : i.natAbs < 2 ^ (Nat.log 2 i.natAbs + 1) := Nat.lt_pow_succ_log_self (by decide) _
      have hsplit : Nat.log 2 i.natAbs + 1 = (Nat.log 2 i.natAbs - 52) + 53 := by omega
      rw [hsplit, pow_add] at hlt
      conv_lhs at hlt => rw [hm]
      exact Nat.lt_of_mul_lt_mul_left hlt
    · rintro ⟨m, e, hm, hn⟩
      have hm0 : m ≠ 0 := by
        rintro rfl
        rw [zero_mul] at hn
        exact hpos hn
      have hlogm : Nat.log 2 m ≤ 52 := Nat.lt_succ_iff.mp (Nat.log_lt_of_lt_pow hm0 hm)
      have hsum : Nat.log 2 i.natAbs = Nat.log 2 m + e := by
        rw [hn, log_mul_two_pow hm0]
      rw [hn]
      refine Dvd.dvd.mul_left (pow_dvd_pow 2 ?_) m
      rw [← hn]
      omega

end Lib
