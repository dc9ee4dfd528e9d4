import LvimDb.Engine.Stream
import LvimDb.Lib.Decimal

/-!
# Decimals of SQL Server

`numeric_text` of drivers/mssql.rs. A decimal is held as an `i128` and a scale; the text is made of
what `tiberius` says its integer part and its remainder are.
-/

namespace LvimDb.Driver
open Engine (Build)
open Lib (Numeral decimal filled)

/-- `tiberius::numeric::Numeric`, by what `scale`, `int_part` and `dec_part` return. -/
structure Numeric where
  scale : ℕ
  intPart : BitVec 128
  decPart : BitVec 128
  deriving DecidableEq, Repr

/-- The number is `n / 10 ^ s`: its integer part is truncated, and the remainder has its sign. -/
structure Numeric.Holds (num : Numeric) (n : BitVec 128) (s : ℕ) : Prop where
  scale : num.scale = s
  int : num.intPart.toInt = n.toInt.tdiv (10 ^ s)
  dec : num.decPart.toInt = n.toInt.tmod (10 ^ s)

/-- `i128::abs`; of the least integer it overflows. -/
def i128Abs : Build → BitVec 128 → Option (BitVec 128)
  | .checked, i => if i = BitVec.intMin 128 then none else some i.abs
  | .wrapping, i => some i.abs

/-- `numeric_text` (145-160); a panic is `none`. -/
def numericText (bld : Build) (n : Numeric) : Option (List Char) :=
  if n.scale = 0 then some (decimal 0 n.intPart.toInt)
  else
    let ip := n.intPart.toInt
    let frac := n.decPart.toInt.natAbs
    let neg := ip < 0 ∨ ip = 0 ∧ n.decPart.toInt < 0
    (i128Abs bld n.intPart).map fun a =>
      (if neg then ['-'] else []) ++ decimal 0 a.toInt ++
        '.' :: filled n.scale (Nat.toDigits 10 frac)

variable {num : Numeric} {n : BitVec 128} {s : ℕ}

theorem i128Abs_of_ne (bld : Build) {i : BitVec 128} (h : i ≠ BitVec.intMin 128) :
    ∃ a, i128Abs bld i = some a ∧ a.toInt = i.toInt.natAbs := by
  refine ⟨i.abs, ?_, ?_⟩
  · cases bld with
    | checked => exact if_neg h
    | wrapping => rfl
  · exact BitVec.toInt_abs_eq_natAbs_of_ne_intMin h

theorem pow_natAbs (s : ℕ) : ((10 : ℤ) ^ s).natAbs = 10 ^ s := by
  rw [Int.natAbs_pow]
  rfl

theorem Numeric.Holds.int_natAbs (h : num.Holds n s) :
    num.intPart.toInt.natAbs = n.toInt.natAbs / 10 ^ s := by
  rw [h.int, Int.natAbs_tdiv, pow_natAbs]
  rfl

theorem Numeric.Holds.dec_natAbs (h : num.Holds n s) :
    num.decPart.toInt.natAbs = n.toInt.natAbs % 10 ^ s := by
  rw [h.dec, Int.natAbs_tmod, pow_natAbs]

/-- Where the integer part is zero, the sign is that of the remainder. -/
theorem Numeric.Holds.neg_iff (h : num.Holds n s) :
    num.intPart.toInt < 0 ∨ num.intPart.toInt = 0 ∧ num.decPart.toInt < 0 ↔ n.toInt < 0 := by
  have hpos : (0 : ℤ) ≤ 10 ^ s := by positivity
  have hsum : 10 ^ s * n.toInt.tdiv (10 ^ s) + n.toInt.tmod (10 ^ s) = n.toInt :=
    Int.mul_tdiv_add_tmod _ _
  rw [h.int, h.dec]
  constructor
  · rintro (hlt | ⟨-, hlt⟩)
    · by_contra hn
      exact absurd (Int.tdiv_nonneg (not_lt.mp hn) hpos) (not_le.mpr hlt)
    · by_contra hn
      exact absurd (Int.tmod_nonneg _ (not_lt.mp hn)) (not_le.mpr hlt)
  · intro hn
    have hle : n.toInt.tdiv (10 ^ s) ≤ 0 := Lib.tdiv_nonpos hn.le hpos
    rcases hle.lt_or_eq with hlt | heq
    · exact .inl hlt
    · refine .inr ⟨heq, ?_⟩
      rw [heq, mul_zero, zero_add] at hsum
      rw [hsum]
      exact hn

/-- With a scale the integer part is not the least integer. -/
theorem Numeric.Holds.int_ne (h : num.Holds n s) (hs : s ≠ 0) :
    num.intPart ≠ BitVec.intMin 128 := by
  intro heq
  have habs := h.int_natAbs
  have hn : n.toInt.natAbs ≤ 2 ^ 127 := by
    have hlo := BitVec.le_toInt n
    have hhi := BitVec.toInt_lt (x := n)
    omega
  have hten : 10 ≤ 10 ^ s := Nat.le_self_pow hs 10
  have hdiv : n.toInt.natAbs / 10 ^ s ≤ n.toInt.natAbs / 10 := Nat.div_le_div_left hten (by decide)
  rw [heq, show (BitVec.intMin 128).toInt.natAbs = 2 ^ 127 from by decide] at habs
  omega

/-- The number with its `s` digits after the point. -/
def exactly (n : ℤ) (s : ℕ) : Numeral :=
  ⟨decide (n < 0), n.natAbs / 10 ^ s,
    if s = 0 then [] else filled s (Nat.toDigits 10 (n.natAbs % 10 ^ s)), none⟩

theorem exactly_length (n : ℤ) (s : ℕ) : (exactly n s).frac.length = s := by
  unfold exactly
  split
  · next hs => exact hs.symm
  · next hs =>
    exact Lib.filled_length (Nat.pos_of_ne_zero hs) (Nat.mod_lt _ (by positivity))

theorem exactly_digits {n : ℤ} : ∀ c ∈ (exactly n s).frac, c.isDigit = true := by
  intro c hc
  unfold exactly at hc
  split at hc
  · cases hc
  · exact Lib.filled_digits hc

theorem exactly_frac (n : ℤ) (s : ℕ) :
    Nat.ofDigitChars 10 (exactly n s).frac 0 = n.natAbs % 10 ^ s := by
  unfold exactly
  split
  · next hs =>
    rw [hs, pow_zero, Nat.mod_one]
    rfl
  · exact Lib.filled_value _ _

theorem exactly_value (n : ℤ) (s : ℕ) : (exactly n s).value = n / 10 ^ s := by
  have hsplit :
      ((n.natAbs : ℕ) : ℚ) = (n.natAbs / 10 ^ s : ℕ) * 10 ^ s + (n.natAbs % 10 ^ s : ℕ) := by
    have h := Nat.div_add_mod' n.natAbs (10 ^ s)
    exact_mod_cast h.symm
  have hmag : ((n.natAbs / 10 ^ s : ℕ) : ℚ) + (n.natAbs % 10 ^ s : ℕ) / 10 ^ s =
      (n.natAbs : ℚ) / 10 ^ s := by
    rw [eq_div_iff (by positivity), add_mul, div_mul_cancel₀ _ (by positivity)]
    exact hsplit.symm
  unfold Numeral.value
  rw [exactly_frac, exactly_length]
  simp only [exactly, Option.getD_none, zpow_zero, mul_one, decide_eq_true_eq]
  rw [hmag]
  by_cases hn : n < 0
  · have habs : (n.natAbs : ℚ) = -n := by
      rw [← Int.cast_natCast, Int.ofNat_natAbs_of_nonpos hn.le, Int.cast_neg]
    rw [if_pos hn, habs, neg_div, neg_one_mul, neg_neg]
  · have habs : (n.natAbs : ℚ) = n := by
      rw [← Int.cast_natCast, Int.natAbs_of_nonneg (not_lt.mp hn)]
    rw [if_neg hn, habs, one_mul]

/-- A decimal is written as the number that it is. -/
theorem numericText_exactly (bld : Build) (h : num.Holds n s) :
    numericText bld num = some (exactly n.toInt s).chars := by
  unfold numericText Numeral.chars exactly
  rw [h.scale]
  by_cases hs : s = 0
  · have hint : num.intPart.toInt = n.toInt := by rw [h.int, hs, pow_zero, Int.tdiv_one]
    rw [if_pos hs, hint, hs, pow_zero, Nat.div_one]
    by_cases hn : n.toInt < 0
    · simp [decimal, hn, filled, Numeral.expChars]
    · simp [decimal, hn, filled, Numeral.expChars]
  · obtain ⟨a, habs, ha⟩ := i128Abs_of_ne bld (h.int_ne hs)
    have hnil : filled s (Nat.toDigits 10 (n.toInt.natAbs % 10 ^ s)) ≠ [] := Lib.filled_ne_nil
    rw [if_neg hs, habs, Option.map_some, ha, Lib.decimal_nonneg (Int.natCast_nonneg _),
      Int.natAbs_natCast, h.int_natAbs, h.dec_natAbs]
    simp only [h.neg_iff, if_neg hs, if_neg hnil, decide_eq_true_eq, Numeral.expChars,
      List.append_nil]

/-- The text of a decimal is a numeral with all its digits after the point. -/
theorem numericText_exact (bld : Build) (h : num.Holds n s) :
    ∃ q : Numeral, numericText bld num = some q.chars ∧ Lib.readNumeral q.chars = some q ∧
      q.exp = none ∧ q.frac.length = s ∧ (q.neg = true ↔ n.toInt < 0) ∧
      q.value = n.toInt / 10 ^ s :=
  ⟨exactly n.toInt s, numericText_exactly bld h, Lib.readNumeral_chars _ exactly_digits, rfl,
    exactly_length _ s, decide_eq_true_iff, exactly_value _ s⟩

/-- Five hundredths below zero. -/
theorem numericText_exact_small :
    ∃ q : Numeral, numericText .checked ⟨2, 0, -5⟩ = some q.chars ∧
      Lib.readNumeral q.chars = some q ∧ q.exp = none ∧ q.frac.length = 2 ∧
      (q.neg = true ↔ (-5 : BitVec 128).toInt < 0) ∧ q.value = (-5 : BitVec 128).toInt / 10 ^ 2 :=
  numericText_exact .checked ⟨rfl, by decide, by decide⟩

example : numericText .checked ⟨2, 0, -5⟩ = some "-0.05".toList := by decide

end LvimDb.Driver
