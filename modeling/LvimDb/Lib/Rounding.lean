import LvimDb.Lib.Binary64

/-!
# Numbers that go through a text

Rounding to the doubles and rounding to decimal digits keep the order, so a double that is
written and read, and written and read again, is the first one only if it was at once.
-/

namespace Lib

/-! ### The nearest integer -/

theorem floor_le_roundEven (q : ℚ) : ⌊q⌋ ≤ roundEven q := by
  unfold roundEven
  dsimp only
  split_ifs <;> omega

theorem roundEven_le_floor (q : ℚ) : roundEven q ≤ ⌊q⌋ + 1 := by
  unfold roundEven
  dsimp only
  split_ifs <;> omega

theorem roundEven_mono {q r : ℚ} (h : q ≤ r) : roundEven q ≤ roundEven r := by
  have hfloor : ⌊q⌋ ≤ ⌊r⌋ := Int.floor_mono h
  rcases hfloor.lt_or_eq with hlt | heq
  · calc roundEven q
        ≤ ⌊q⌋ + 1 := roundEven_le_floor q
      _ ≤ ⌊r⌋ := hlt
      _ ≤ roundEven r := floor_le_roundEven r
  · have hfrac : q - ⌊q⌋ ≤ r - ⌊r⌋ := by
      rw [heq]
      exact sub_le_sub_right h _
    unfold roundEven
    dsimp only
    rw [heq] at hfrac ⊢
    split_ifs with h1 h2 h3 h4 h5 h6 h7 h8 h9 <;> first | omega | linarith

theorem roundEven_neg (q : ℚ) : roundEven (-q) = -roundEven q := by
  by_cases hint : (⌊q⌋ : ℚ) = q
  · rw [← hint, ← Int.cast_neg, roundEven_int, roundEven_int]
  · have hlt : (⌊q⌋ : ℚ) < q := lt_of_le_of_ne (Int.floor_le q) hint
    have hup : q < ⌊q⌋ + 1 := Int.lt_floor_add_one q
    have hfloor : ⌊-q⌋ = -⌊q⌋ - 1 := by
      rw [Int.floor_eq_iff]
      push_cast
      constructor <;> linarith
    unfold roundEven
    dsimp only
    rw [hfloor]
    push_cast
    split_ifs with h1 h2 h3 h4 h5 h6 h7 h8 h9 <;> first | omega | linarith

/-! ### The nearest multiple -/

/-- The nearest multiple of `u`. -/
def nearest (u q : ℚ) : ℚ := roundEven (q / u) * u

theorem nearest_mono {u q r : ℚ} (hu : 0 < u) (h : q ≤ r) : nearest u q ≤ nearest u r := by
  have hle : roundEven (q / u) ≤ roundEven (r / u) :=
    roundEven_mono (div_le_div_of_nonneg_right h hu.le)
  exact mul_le_mul_of_nonneg_right (Int.cast_le.mpr hle) hu.le

theorem nearest_mul {u : ℚ} (hu : 0 < u) (m : ℤ) : nearest u (m * u) = m * u := by
  unfold nearest
  rw [mul_div_assoc, div_self hu.ne', mul_one, roundEven_int]

theorem nearest_neg (u q : ℚ) : nearest u (-q) = -nearest u q := by
  unfold nearest
  rw [neg_div, roundEven_neg]
  push_cast
  ring

theorem nearest_nonneg {u q : ℚ} (hu : 0 < u) (h : 0 ≤ q) : 0 ≤ nearest u q := by
  have hzero : nearest u 0 = 0 := by simpa using nearest_mul hu 0
  rw [← hzero]
  exact nearest_mono hu h

/-- Two roundings of which a multiple of both lies between. -/
theorem nearest_le_nearest {u v q r c : ℚ} (hu : 0 < u) (hv : 0 < v) (hq : q ≤ c) (hr : c ≤ r)
    (hcu : ∃ m : ℤ, c = m * u) (hcv : ∃ m : ℤ, c = m * v) : nearest u q ≤ nearest v r := by
  obtain ⟨m, hm⟩ := hcu
  obtain ⟨n, hn⟩ := hcv
  calc nearest u q
      ≤ nearest u c := nearest_mono hu hq
    _ = c := by rw [hm, nearest_mul hu]
    _ = nearest v c := by rw [hn, nearest_mul hv]
    _ ≤ nearest v r := nearest_mono hv hr

/-- A rounding whose unit is a power of `b`, with the exponent `e q`; it keeps the order of
positive numbers if `e` grows with the logarithm and is not over it where it grows. -/
theorem nearest_pow_mono {b : ℕ} (hb : 1 < b) {e : ℚ → ℤ} {q r : ℚ} (hq : 0 < q) (h : q ≤ r)
    (he : e q = e r ∨ Int.log b q < Int.log b r ∧ e q ≤ Int.log b r ∧ e r ≤ Int.log b r) :
    nearest ((b : ℚ) ^ e q) q ≤ nearest ((b : ℚ) ^ e r) r := by
  have hbpos : (0 : ℚ) < b := by exact_mod_cast (by omega : 0 < b)
  have hpow : ∀ i j : ℤ, i ≤ j → ∃ m : ℤ, (b : ℚ) ^ j = m * (b : ℚ) ^ i := by
    intro i j hij
    refine ⟨(b : ℤ) ^ (j - i).toNat, ?_⟩
    push_cast
    rw [← zpow_natCast, ← zpow_add₀ hbpos.ne', Int.toNat_of_nonneg (by omega), sub_add_cancel]
  rcases he with heq | ⟨hlog, hleq, hler⟩
  · rw [heq]
    exact nearest_mono (zpow_pos hbpos _) h
  · have hbetween : q ≤ (b : ℚ) ^ Int.log b r := by
      calc q
          ≤ (b : ℚ) ^ (Int.log b q + 1) := (Int.lt_zpow_succ_log_self hb q).le
        _ ≤ (b : ℚ) ^ Int.log b r := zpow_le_zpow_right₀ (by exact_mod_cast hb.le) hlog
    exact nearest_le_nearest (zpow_pos hbpos _) (zpow_pos hbpos _) hbetween
      (Int.zpow_log_le_self hb (hq.trans_le h)) (hpow _ _ hleq) (hpow _ _ hler)

/-! ### Doubles -/

theorem toDouble_eq_nearest (q : ℚ) : toDouble q = nearest (((2 : ℕ) : ℚ) ^ lastBit q) q := by
  simp [toDouble, nearest]

theorem lastBit_neg (q : ℚ) : lastBit (-q) = lastBit q := by
  unfold lastBit
  rw [abs_neg]

theorem toDouble_neg (q : ℚ) : toDouble (-q) = -toDouble q := by
  rw [toDouble_eq_nearest, toDouble_eq_nearest, lastBit_neg, nearest_neg]

theorem toDouble_nonneg {q : ℚ} (h : 0 ≤ q) : 0 ≤ toDouble q := by
  rw [toDouble_eq_nearest]
  exact nearest_nonneg (zpow_pos (by norm_num) _) h

theorem toDouble_mono_pos {q r : ℚ} (hq : 0 < q) (h : q ≤ r) : toDouble q ≤ toDouble r := by
  rw [toDouble_eq_nearest, toDouble_eq_nearest]
  apply nearest_pow_mono (by decide) hq h
  have hlog : Int.log 2 q ≤ Int.log 2 r := Int.log_mono_right hq h
  unfold lastBit
  rw [abs_of_pos hq, abs_of_pos (hq.trans_le h)]
  omega

/-- What keeps the order of positive numbers and turns the sign with its argument keeps the
order. -/
theorem mono_of_odd {f : ℚ → ℚ} (hneg : ∀ q, f (-q) = -f q) (hnonneg : ∀ q, 0 ≤ q → 0 ≤ f q)
    (hpos : ∀ q r, 0 < q → q ≤ r → f q ≤ f r) : Monotone f := by
  intro q r h
  rcases le_or_gt q 0 with hq | hq
  · rcases le_or_gt 0 r with hr | hr
    · have hle : 0 ≤ f (-q) := hnonneg _ (neg_nonneg.mpr hq)
      rw [hneg] at hle
      exact (neg_nonneg.mp hle).trans (hnonneg r hr)
    · have hle := hpos (-r) (-q) (neg_pos.mpr hr) (neg_le_neg h)
      rw [hneg, hneg] at hle
      exact neg_le_neg_iff.mp hle
  · exact hpos q r hq h

theorem toDouble_mono : Monotone toDouble :=
  mono_of_odd toDouble_neg (fun _ => toDouble_nonneg) fun _ _ => toDouble_mono_pos

/-- The double next to an integer is an integer. -/
theorem toDouble_integral (i : ℤ) : ∃ m : ℤ, toDouble (i : ℚ) = m := by
  by_cases hi : i.natAbs < 2 ^ 53
  · exact ⟨i, toDouble_int hi⟩
  · have habs : |(i : ℚ)| = (i.natAbs : ℚ) := by
      rw [← Int.cast_abs, Int.abs_eq_natAbs, Int.cast_natCast]
    have hlog : 53 ≤ Nat.log 2 i.natAbs :=
      (Nat.le_log_iff_pow_le (by decide) (by omega)).mpr (by omega)
    have hbit : lastBit (i : ℚ) = ((Nat.log 2 i.natAbs - 52 : ℕ) : ℤ) := by
      unfold lastBit
      rw [habs, Int.log_natCast]
      omega
    refine ⟨roundEven ((i : ℚ) / 2 ^ lastBit (i : ℚ)) * 2 ^ (Nat.log 2 i.natAbs - 52), ?_⟩
    unfold toDouble
    rw [hbit, zpow_natCast]
    push_cast
    rfl

/-! ### Decimal digits -/

variable {k : ℕ}

theorem significant_pos {q : ℚ} (hq : 0 < q) :
    significant k q = nearest (((10 : ℕ) : ℚ) ^ (Int.log 10 q - k)) q := by
  have hround : 0 ≤ roundEven (q / 10 ^ (Int.log 10 q - k)) := by
    have hzero : roundEven 0 = 0 := roundEven_int 0
    rw [← hzero]
    exact roundEven_mono (div_nonneg hq.le (zpow_pos (by norm_num) _).le)
  have hcast : ((roundEven (q / 10 ^ (Int.log 10 q - k))).toNat : ℚ) =
      roundEven (q / 10 ^ (Int.log 10 q - k)) := by
    exact_mod_cast Int.toNat_of_nonneg hround
  unfold significant significand nearest
  rw [if_neg hq.ne', if_neg hq.not_gt, abs_of_pos hq, one_mul]
  dsimp only
  split
  · next hcarry =>
    rw [hcarry] at hcast
    push_cast at hcast ⊢
    rw [← hcast, pow_succ, add_sub_right_comm, zpow_add_one₀ (by norm_num)]
    ring
  · rw [hcast]
    rfl

theorem significant_neg (q : ℚ) : significant k (-q) = -significant k q := by
  unfold significant
  rw [abs_neg]
  rcases lt_trichotomy q 0 with hq | rfl | hq
  · rw [if_neg (neg_ne_zero.mpr hq.ne), if_neg hq.ne, if_neg (neg_pos.mpr hq).not_gt, if_pos hq]
    ring
  · simp
  · rw [if_neg (neg_ne_zero.mpr hq.ne'), if_neg hq.ne', if_pos (neg_lt_zero.mpr hq),
      if_neg hq.not_gt]
    ring

theorem significant_mono : Monotone (significant k) := by
  refine mono_of_odd significant_neg (fun q hq => ?_) fun q r hq h => ?_
  · rcases hq.eq_or_lt with rfl | hpos
    · exact (if_pos rfl).ge
    · rw [significant_pos hpos]
      exact nearest_nonneg (zpow_pos (by norm_num) _) hq
  · rw [significant_pos hq, significant_pos (hq.trans_le h)]
    apply nearest_pow_mono (by decide) hq h
    have hlog : Int.log 10 q ≤ Int.log 10 r := Int.log_mono_right hq h
    omega

/-- A double that is written with `k + 1` digits and read. -/
def carried (k : ℕ) (q : ℚ) : ℚ := toDouble (significant k q)

theorem carried_mono : Monotone (carried k) := toDouble_mono.comp significant_mono

/-- A number that comes back the second time came back the first time. -/
theorem carried_twice {q : ℚ} (h : carried k (carried k q) = q) : carried k q = q := by
  rcases lt_trichotomy (carried k q) q with hlt | heq | hgt
  · have hle := carried_mono (k := k) hlt.le
    rw [h] at hle
    exact absurd hle hlt.not_ge
  · exact heq
  · have hle := carried_mono (k := k) hgt.le
    rw [h] at hle
    exact absurd hle hgt.not_ge

/-! ### Integer literals -/

/-- The integer of a numeral without a fraction and an exponent. -/
def Numeral.literal (n : Numeral) : Option ℤ :=
  if n.frac = [] ∧ n.exp = none then some (if n.neg then -n.whole else n.whole) else none

theorem Numeral.value_of_literal {n : Numeral} {i : ℤ} (h : n.literal = some i) : n.value = i := by
  obtain ⟨⟨hfrac, hexp⟩, hi⟩ := Option.ite_none_right_eq_some.mp h
  obtain rfl := Option.some.inj hi
  unfold Numeral.value
  rw [hfrac, hexp]
  cases n.neg <;> simp

theorem literal_general {i : ℤ} (h : i.natAbs < 10 ^ (k + 1)) :
    (general k (i : ℚ)).literal = some i := by
  rw [general_intCast i h]
  unfold Numeral.literal
  simp only [and_self, if_true, decide_eq_true_eq, Option.some.injEq]
  split <;> omega

theorem significant_int {i : ℤ} (h : i.natAbs < 10 ^ (k + 1)) : significant k (i : ℚ) = i := by
  rw [← general_value]
  exact Numeral.value_of_literal (literal_general h)

/-- A literal stands for the number that is written, which has at most `k + 1` digits. -/
theorem general_literal {q : ℚ} {i : ℤ} (h : (general k q).literal = some i) :
    significant k q = i ∧ |q| < 10 ^ (k + 1) := by
  constructor
  · rw [← general_value]
    exact Numeral.value_of_literal h
  · by_contra hnot
    obtain ⟨e, he⟩ := general_exp (not_lt.mp hnot)
    obtain ⟨⟨-, hnone⟩, -⟩ := Option.ite_none_right_eq_some.mp h
    rw [hnone] at he
    cases he

end Lib
