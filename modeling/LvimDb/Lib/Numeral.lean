import Mathlib.Data.Int.Log
import Mathlib.Data.List.DropRight
import Mathlib.Data.Rat.Floor
import Mathlib.Tactic.Positivity
import Mathlib.Tactic.Ring
import Mathlib.Tactic.Linarith
import Mathlib.Tactic.FieldSimp

/-!
# Decimal numerals

What `printf` writes for `%.{k+1}g`: the number rounded to `k + 1` significant digits, with an
exponent where that is at least `k + 1` or less than -4, and without the zeros at the end of
its fraction.
-/

namespace Lib

/-- The nearest integer, of two the even one. -/
def roundEven (q : ℚ) : ℤ :=
  let f := ⌊q⌋
  if q - f < 1 / 2 then f
  else if 1 / 2 < q - f then f + 1
  else if f % 2 = 0 then f else f + 1

theorem roundEven_int (i : ℤ) : roundEven (i : ℚ) = i := by
  simp [roundEven]

/-- The digits of `n` below `10 ^ d`, all `d` of them. -/
def pad : ℕ → ℕ → List Char
  | 0, _ => []
  | d + 1, n => pad d (n / 10) ++ [(n % 10).digitChar]

def stripZeros (cs : List Char) : List Char := cs.rdropWhile (· == '0')

/-- A numeral: a sign, the digits before and after the point, and an exponent. -/
structure Numeral where
  neg : Bool
  whole : ℕ
  frac : List Char
  exp : Option ℤ
  deriving DecidableEq, Repr

namespace Numeral

def expChars : Option ℤ → List Char
  | none => []
  | some e =>
    let ds := Nat.toDigits 10 e.natAbs
    'e' :: (if e < 0 then '-' else '+') :: (if ds.length < 2 then '0' :: ds else ds)

def chars (n : Numeral) : List Char :=
  (if n.neg then ['-'] else []) ++ Nat.toDigits 10 n.whole ++
    (if n.frac = [] then [] else '.' :: n.frac) ++ expChars n.exp

def text (n : Numeral) : String := String.ofList n.chars

/-- The number a numeral stands for. -/
def value (n : Numeral) : ℚ :=
  (if n.neg then -1 else 1) *
    (n.whole + Nat.ofDigitChars 10 n.frac 0 / 10 ^ n.frac.length) * 10 ^ n.exp.getD 0

end Numeral

/-- The `k + 1` significant digits of a positive number, and the exponent of the first one. -/
def significand (k : ℕ) (q : ℚ) : ℕ × ℤ :=
  let e := Int.log 10 q
  let m := (roundEven (q / 10 ^ (e - k))).toNat
  if m = 10 ^ (k + 1) then (10 ^ k, e + 1) else (m, e)

/-- `m * 10 ^ -d`, with the exponent apart. -/
def fixed (neg : Bool) (m d : ℕ) (exp : Option ℤ) : Numeral :=
  ⟨neg, m / 10 ^ d, stripZeros (pad d (m % 10 ^ d)), exp⟩

/-- `%.{k+1}g`. -/
def general (k : ℕ) (q : ℚ) : Numeral :=
  if q = 0 then ⟨false, 0, [], none⟩
  else
    let (m, e) := significand k |q|
    if -4 ≤ e ∧ e ≤ k then fixed (decide (q < 0)) m (k - e).toNat none
    else fixed (decide (q < 0)) m k (some e)

/-- The number rounded to `k + 1` significant digits. -/
def significant (k : ℕ) (q : ℚ) : ℚ :=
  if q = 0 then 0
  else (if q < 0 then -1 else 1) * (significand k |q|).1 * 10 ^ ((significand k |q|).2 - k)

theorem pad_zero (d : ℕ) : pad d 0 = List.replicate d '0' := by
  induction d with
  | zero => rfl
  | succ d ih =>
    rw [pad, Nat.zero_div, ih, List.replicate_succ']
    rfl

theorem stripZeros_replicate (d : ℕ) : stripZeros (List.replicate d '0') = [] := by
  apply List.rdropWhile_eq_nil_iff.mpr
  intro c hc
  rw [List.eq_of_mem_replicate hc]
  rfl

variable {k : ℕ} {n : ℕ}

/-- An integer of at most `k + 1` digits is written as it is. -/
theorem significand_natCast (hn : 0 < n) (h : n < 10 ^ (k + 1)) :
    ∃ d, d ≤ k ∧ significand k (n : ℚ) = (n * 10 ^ d, (k : ℤ) - d) := by
  have hlog : Nat.log 10 n ≤ k := Nat.lt_succ_iff.mp (Nat.log_lt_of_lt_pow hn.ne' h)
  refine ⟨k - Nat.log 10 n, Nat.sub_le .., ?_⟩
  have hd : ((k - Nat.log 10 n : ℕ) : ℤ) = k - Nat.log 10 n := Int.ofNat_sub hlog
  have hq : (n : ℚ) / 10 ^ ((Nat.log 10 n : ℤ) - k) = ((n * 10 ^ (k - Nat.log 10 n) : ℕ) : ℤ) := by
    have he : ((Nat.log 10 n : ℤ) - k) = -((k - Nat.log 10 n : ℕ) : ℤ) := by omega
    rw [he, zpow_neg, div_inv_eq_mul, zpow_natCast]
    push_cast
    ring
  have hlt : n * 10 ^ (k - Nat.log 10 n) < 10 ^ (k + 1) := by
    have hle : n < 10 ^ (Nat.log 10 n + 1) := Nat.lt_pow_succ_log_self (by decide) n
    calc n * 10 ^ (k - Nat.log 10 n)
        < 10 ^ (Nat.log 10 n + 1) * 10 ^ (k - Nat.log 10 n) :=
          Nat.mul_lt_mul_of_pos_right hle (by positivity)
      _ = 10 ^ (k + 1) := by
          rw [← Nat.pow_add]
          congr 1
          omega
  unfold significand
  simp only [Int.log_natCast, hq, roundEven_int, Int.toNat_natCast]
  rw [if_neg hlt.ne, hd]
  congr 1
  omega

theorem fixed_mul (neg : Bool) (n d : ℕ) (exp : Option ℤ) :
    fixed neg (n * 10 ^ d) d exp = ⟨neg, n, [], exp⟩ := by
  unfold fixed
  rw [Nat.mul_div_cancel _ (by positivity), Nat.mul_mod_left, pad_zero, stripZeros_replicate]

theorem general_intCast (i : ℤ) (h : i.natAbs < 10 ^ (k + 1)) :
    general k (i : ℚ) = ⟨decide (i < 0), i.natAbs, [], none⟩ := by
  by_cases hi : i = 0
  · subst hi
    unfold general
    rw [if_pos Int.cast_zero]
    rfl
  · have habs : |(i : ℚ)| = (i.natAbs : ℚ) := by
      rw [← Int.cast_abs, Int.abs_eq_natAbs, Int.cast_natCast]
    obtain ⟨d, hd, hsig⟩ := significand_natCast (Int.natAbs_pos.mpr hi) h
    unfold general
    rw [if_neg (by exact_mod_cast hi), habs, hsig]
    have hcond : (-4 : ℤ) ≤ (k : ℤ) - d ∧ (k : ℤ) - d ≤ k := by omega
    have hk : ((k : ℤ) - ((k : ℤ) - d)).toNat = d := by omega
    simp only [if_pos hcond, hk, fixed_mul, Int.cast_lt_zero]

/-- An integer of at most `k + 1` digits is written as it is. -/
theorem general_int (i : ℤ) (h : i.natAbs < 10 ^ (k + 1)) :
    (general k (i : ℚ)).text = toString i := by
  rw [general_intCast i h, Int.toString_eq_repr, Int.repr_eq_if]
  unfold Numeral.text Numeral.chars Numeral.expChars
  by_cases hneg : 0 ≤ i
  · have hnat : i.toNat = i.natAbs := by omega
    simp [hneg, not_lt.mpr hneg, hnat, Nat.repr_eq_ofList_toDigits]
  · have hnat : (-i).toNat = i.natAbs := by omega
    simp [hneg, not_le.mp hneg, hnat, Nat.repr_eq_ofList_toDigits]

/-! ### Numbers with an exponent -/

theorem significand_exp {q : ℚ} (h : (10 : ℚ) ^ (k + 1) ≤ q) : (k : ℤ) < (significand k q).2 := by
  have hlog : (k : ℤ) + 1 ≤ Int.log 10 q := by
    have hpos : (0 : ℚ) < 10 ^ (k + 1) := by positivity
    have hmono := Int.log_mono_right (b := 10) hpos h
    have hpow : (10 : ℚ) ^ (k + 1) = ((10 : ℕ) : ℚ) ^ ((k : ℤ) + 1) := by
      norm_cast
    rw [hpow, Int.log_zpow (by decide)] at hmono
    exact hmono
  unfold significand
  dsimp only
  split
  · dsimp only
    omega
  · dsimp only
    omega

theorem general_exp {q : ℚ} (h : (10 : ℚ) ^ (k + 1) ≤ |q|) :
    ∃ e, (general k q).exp = some e := by
  have hq : q ≠ 0 := by
    rintro rfl
    rw [abs_zero] at h
    exact absurd h (not_le.mpr (by positivity))
  have he := significand_exp h
  refine ⟨(significand k |q|).2, ?_⟩
  unfold general
  rw [if_neg hq]
  dsimp only
  rw [if_neg (by omega)]
  rfl

theorem exp_mem_text {n : Numeral} {e : ℤ} (h : n.exp = some e) : 'e' ∈ n.text.toList := by
  unfold Numeral.text Numeral.chars Numeral.expChars
  rw [h, String.toList_ofList]
  simp

theorem exp_not_mem_int (i : ℤ) : 'e' ∉ (toString i).toList := by
  have hdigits : ∀ n : ℕ, 'e' ∉ Nat.toDigits 10 n := by
    intro n hm
    have hd := Nat.isDigit_of_mem_toDigits (by decide) (by decide) hm
    exact absurd hd (by decide)
  rw [Int.toString_eq_repr, Int.repr_eq_if]
  split
  · rw [Nat.toList_repr]
    exact hdigits _
  · rw [String.toList_append, Nat.toList_repr, List.mem_append, not_or]
    exact ⟨by decide, hdigits _⟩

/-- An integer of more digits is not. -/
theorem general_int_ne (i : ℤ) (h : 10 ^ (k + 1) ≤ i.natAbs) :
    (general k (i : ℚ)).text ≠ toString i := by
  have habs : |(i : ℚ)| = (i.natAbs : ℚ) := by
    rw [← Int.cast_abs, Int.abs_eq_natAbs, Int.cast_natCast]
  have hle : (10 : ℚ) ^ (k + 1) ≤ |(i : ℚ)| := by
    rw [habs]
    exact_mod_cast h
  obtain ⟨e, he⟩ := general_exp hle
  intro heq
  apply exp_not_mem_int i
  rw [← heq]
  exact exp_mem_text he

/-! ### Reading -/

/-- The digits at the front, and what comes after them. -/
def spanDigits (cs : List Char) : List Char × List Char :=
  (cs.takeWhile Char.isDigit, cs.dropWhile Char.isDigit)

/-- A sign, and what comes after it. -/
def readSign : List Char → Bool × List Char
  | '-' :: cs => (true, cs)
  | '+' :: cs => (false, cs)
  | cs => (false, cs)

/-- The digits of an exponent, to the end. -/
def readExp (cs : List Char) : Option ℤ :=
  let (neg, ds) := readSign cs
  if ds ≠ [] ∧ ds.all Char.isDigit then
    some (if neg then -(Nat.ofDigitChars 10 ds 0 : ℤ) else Nat.ofDigitChars 10 ds 0)
  else none

/-- What may come after the fraction. -/
def readRest (n : Numeral) : List Char → Option Numeral
  | [] => some n
  | c :: cs =>
    if c = 'e' ∨ c = 'E' then (readExp cs).map fun e => { n with exp := some e } else none

/-- A point and the digits after it. -/
def readFrac : List Char → List Char × List Char
  | '.' :: cs => spanDigits cs
  | cs => ([], cs)

/-- A decimal numeral, to the end. -/
def readNumeral (cs : List Char) : Option Numeral :=
  let (neg, cs) := readSign cs
  let (whole, cs) := spanDigits cs
  let (frac, cs) := readFrac cs
  if whole = [] ∧ frac = [] then none
  else readRest ⟨neg, Nat.ofDigitChars 10 whole 0, frac, none⟩ cs

theorem isDigit_toDigits {n : ℕ} {c : Char} (h : c ∈ Nat.toDigits 10 n) : c.isDigit = true :=
  Nat.isDigit_of_mem_toDigits (by decide) (by decide) h

theorem spanDigits_append {ds rest : List Char} (hd : ∀ c ∈ ds, c.isDigit = true)
    (hr : ∀ c ∈ rest.head?, c.isDigit = false) : spanDigits (ds ++ rest) = (ds, rest) := by
  unfold spanDigits
  rw [List.takeWhile_append_of_pos hd, List.dropWhile_append_of_pos hd]
  cases rest with
  | nil => simp
  | cons c rest =>
    have hc : c.isDigit = false := hr c rfl
    simp [hc]

/-- Digits have no sign. -/
theorem readSign_digits (neg : Bool) {ds rest : List Char} (hne : ds ≠ [])
    (hd : ∀ c ∈ ds, c.isDigit = true) :
    readSign ((if neg then ['-'] else []) ++ ds ++ rest) = (neg, ds ++ rest) := by
  cases neg with
  | true => rfl
  | false =>
    cases ds with
    | nil => exact absurd rfl hne
    | cons c ds =>
      have hc : c.isDigit = true := hd c (List.mem_cons_self ..)
      simp only [Bool.false_eq_true, if_false, List.nil_append, List.cons_append]
      unfold readSign
      split
      · rename_i heq
        obtain ⟨rfl, -⟩ := List.cons.inj heq
        exact absurd hc (by decide)
      · rename_i heq
        obtain ⟨rfl, -⟩ := List.cons.inj heq
        exact absurd hc (by decide)
      · rfl

/-- The digits of an exponent, two of them at least. -/
theorem readExp_chars (e : ℤ) :
    ∃ cs, Numeral.expChars (some e) = 'e' :: cs ∧ readExp cs = some e := by
  refine ⟨_, rfl, ?_⟩
  generalize hds : (if (Nat.toDigits 10 e.natAbs).length < 2 then '0' :: Nat.toDigits 10 e.natAbs
    else Nat.toDigits 10 e.natAbs) = ds
  have hne : ds ≠ [] := by
    rw [← hds]
    split
    · simp
    · exact Nat.toDigits_ne_nil
  have hdig : ∀ c ∈ ds, c.isDigit = true := by
    intro c hc
    rw [← hds] at hc
    split at hc
    · rcases List.mem_cons.mp hc with rfl | hc
      · rfl
      · exact isDigit_toDigits hc
    · exact isDigit_toDigits hc
  have hval : Nat.ofDigitChars 10 ds 0 = e.natAbs := by
    rw [← hds]
    split
    · rw [Nat.ofDigitChars_cons]
      exact Nat.ofDigitChars_ten_toDigits
    · exact Nat.ofDigitChars_ten_toDigits
  have hsign : readSign ((if e < 0 then '-' else '+') :: ds) = (decide (e < 0), ds) := by
    by_cases he : e < 0
    · simp [he, readSign]
    · simp [he, readSign]
  unfold readExp
  simp only [hsign, hval]
  rw [if_pos ⟨hne, List.all_eq_true.mpr hdig⟩]
  congr 1
  split
  · rename_i he
    have := of_decide_eq_true he
    omega
  · rename_i he
    have := of_decide_eq_false (Bool.eq_false_iff.mpr he)
    omega

theorem expChars_head {e : Option ℤ} : ∀ c ∈ (Numeral.expChars e).head?, c = 'e' := by
  cases e with
  | none => simp [Numeral.expChars]
  | some e => simp [Numeral.expChars]

theorem readRest_exp (n : Numeral) (e : Option ℤ) :
    readRest n (Numeral.expChars e) = some { n with exp := e.or n.exp } := by
  cases e with
  | none => rfl
  | some e =>
    obtain ⟨cs, hcs, hread⟩ := readExp_chars e
    rw [hcs]
    simp [readRest, hread]

theorem readFrac_chars {frac : List Char} (h : ∀ c ∈ frac, c.isDigit = true) (e : Option ℤ) :
    readFrac ((if frac = [] then [] else '.' :: frac) ++ Numeral.expChars e) =
      (frac, Numeral.expChars e) := by
  split
  · rename_i hnil
    subst hnil
    rw [List.nil_append]
    cases e with
    | none => rfl
    | some e => rfl
  · rw [List.cons_append]
    refine spanDigits_append h fun c hc => ?_
    rw [expChars_head c hc]
    rfl

/-- A numeral is read as it is written. -/
theorem readNumeral_chars (n : Numeral) (h : ∀ c ∈ n.frac, c.isDigit = true) :
    readNumeral n.chars = some n := by
  obtain ⟨neg, whole, frac, exp⟩ := n
  have hds : ∀ c ∈ Nat.toDigits 10 whole, c.isDigit = true := fun c hc => isDigit_toDigits hc
  have hne : Nat.toDigits 10 whole ≠ [] := Nat.toDigits_ne_nil
  unfold readNumeral Numeral.chars
  simp only [List.append_assoc]
  rw [← List.append_assoc, readSign_digits neg hne hds]
  dsimp only
  rw [spanDigits_append hds]
  · simp only [readFrac_chars h exp, Nat.ofDigitChars_ten_toDigits, hne, false_and, if_false,
      readRest_exp, Option.or_none]
  · intro c hc
    split at hc
    · rw [List.nil_append] at hc
      rw [expChars_head c hc]
      rfl
    · obtain rfl := Option.some.inj hc
      rfl

/-! ### The number that is written -/

theorem pad_length (d n : ℕ) : (pad d n).length = d := by
  induction d generalizing n with
  | zero => rfl
  | succ d ih => rw [pad, List.length_append, ih, List.length_singleton]

theorem pad_digits {d n : ℕ} : ∀ c ∈ pad d n, c.isDigit = true := by
  induction d generalizing n with
  | zero => simp [pad]
  | succ d ih =>
    intro c hc
    rcases List.mem_append.mp hc with hc | hc
    · exact ih c hc
    · rw [List.mem_singleton.mp hc, Nat.isDigit_digitChar]
      exact decide_eq_true (Nat.mod_lt _ (by decide))

theorem pad_value (d n : ℕ) : Nat.ofDigitChars 10 (pad d n) 0 = n % 10 ^ d := by
  induction d generalizing n with
  | zero => simp [pad, Nat.mod_one]
  | succ d ih =>
    rw [pad, Nat.ofDigitChars_append, ih,
      Nat.ofDigitChars_cons_digitChar_of_lt_ten (Nat.mod_lt _ (by decide)), Nat.ofDigitChars_nil,
      Nat.pow_succ', Nat.mod_mul]
    omega

/-- What is stripped are zeros. -/
theorem stripZeros_append (cs : List Char) : ∃ j, cs = stripZeros cs ++ List.replicate j '0' := by
  refine ⟨(cs.rtakeWhile (· == '0')).length, ?_⟩
  have hzeros : cs.rtakeWhile (· == '0') =
      List.replicate (cs.rtakeWhile (· == '0')).length '0' := by
    apply List.eq_replicate_of_mem
    intro c hc
    exact eq_of_beq (List.mem_rtakeWhile_imp (p := (· == '0')) hc)
  rw [← hzeros]
  exact (List.rdropWhile_append_rtakeWhile (p := (· == '0'))).symm

theorem stripZeros_value (cs : List Char) :
    (Nat.ofDigitChars 10 (stripZeros cs) 0 : ℚ) / 10 ^ (stripZeros cs).length =
      (Nat.ofDigitChars 10 cs 0 : ℚ) / 10 ^ cs.length := by
  obtain ⟨j, hj⟩ := stripZeros_append cs
  have hval : Nat.ofDigitChars 10 cs 0 = 10 ^ j * Nat.ofDigitChars 10 (stripZeros cs) 0 := by
    conv_lhs => rw [hj]
    rw [Nat.ofDigitChars_append, Nat.ofDigitChars_replicate_zero]
  have hlen : cs.length = (stripZeros cs).length + j := by
    conv_lhs => rw [hj]
    rw [List.length_append, List.length_replicate]
  rw [hval, hlen, pow_add]
  push_cast
  field_simp

theorem fixed_value (neg : Bool) (m d : ℕ) (exp : Option ℤ) :
    (fixed neg m d exp).value = (if neg then -1 else 1) * (m / 10 ^ d) * 10 ^ exp.getD 0 := by
  have hsplit : (m : ℚ) = (m / 10 ^ d : ℕ) * 10 ^ d + (m % 10 ^ d : ℕ) := by
    have h := Nat.div_add_mod' m (10 ^ d)
    exact_mod_cast h.symm
  unfold fixed Numeral.value
  dsimp only
  rw [stripZeros_value, pad_value, pad_length, Nat.mod_mod]
  congr 2
  rw [eq_div_iff (by positivity), add_mul, div_mul_cancel₀ _ (by positivity)]
  exact hsplit.symm

theorem fixed_digits {neg : Bool} {m d : ℕ} {exp : Option ℤ} :
    ∀ c ∈ (fixed neg m d exp).frac, c.isDigit = true := by
  intro c hc
  obtain ⟨j, hj⟩ := stripZeros_append (pad d (m % 10 ^ d))
  apply pad_digits (d := d) (n := m % 10 ^ d)
  rw [hj]
  exact List.mem_append_left _ hc

theorem general_digits {q : ℚ} : ∀ c ∈ (general k q).frac, c.isDigit = true := by
  unfold general
  split
  · simp
  · dsimp only
    split
    · exact fixed_digits
    · exact fixed_digits

/-- What is written is the number rounded to `k + 1` digits. -/
theorem general_value (q : ℚ) : (general k q).value = significant k q := by
  unfold general significant
  split
  · simp [Numeral.value]
  · dsimp only
    split
    · rename_i he
      rw [fixed_value]
      have hexp : (significand k |q|).2 - k = -((k - (significand k |q|).2).toNat : ℤ) := by omega
      rw [hexp, zpow_neg, zpow_natCast]
      simp [div_eq_mul_inv]
    · rw [fixed_value, Option.getD_some, zpow_sub₀ (by norm_num), zpow_natCast]
      simp only [decide_eq_true_eq]
      ring

/-- What is written is read as the number rounded to `k + 1` digits. -/
theorem read_general (q : ℚ) :
    (readNumeral (general k q).text.toList).map Numeral.value = some (significant k q) := by
  rw [Numeral.text, String.toList_ofList, readNumeral_chars _ general_digits, Option.map_some,
    general_value]

end Lib
