import LvimDb.Lib.Cut
import LvimDb.Lib.Decimal

/-!
# Intervals of DuckDB

`duck_text` of drivers/duckdb.rs on intervals. The hours, minutes and seconds have the sign of the
interval, the fraction of the second has none.
-/

namespace LvimDb.Driver
open Lib (decimal)

/-- `DuckValue::Interval`. -/
structure Interval where
  months : Int32
  days : Int32
  nanos : Int64
  deriving DecidableEq, Repr

def secs (nanos : ℤ) : ℤ := nanos.tdiv 1000000000

def sub (nanos : ℤ) : ℤ := (nanos.tmod 1000000000).natAbs

/-- The time of day (142-147). -/
def clock (nanos : ℤ) : List Char :=
  let secs := secs nanos
  let h := secs.tdiv 3600
  let m := (secs.tmod 3600).tdiv 60
  let s := secs.tmod 60
  decimal 2 h ++ ':' :: (decimal 2 m ++ ':' :: (decimal 2 s ++
    if sub nanos ≠ 0 then '.' :: decimal 9 (sub nanos) else []))

/-- `duck_text` of an interval (132-151). -/
def duckText (i : Interval) : List Char :=
  let months := if i.months ≠ 0 then [decimal 0 i.months.toInt ++ " months".toList] else []
  let days := if i.days ≠ 0 then [decimal 0 i.days.toInt ++ " days".toList] else []
  let parts := months ++ days
  let time := if i.nanos ≠ 0 ∨ parts = [] then [clock i.nanos.toInt] else []
  [' '].intercalate (parts ++ time)

/-- The two differ in the sign of less than a second. -/
def Interval.Mirrors (a b : Interval) : Prop :=
  a.months = b.months ∧ a.days = b.days ∧ a.nanos.toInt = -b.nanos.toInt ∧
    b.nanos.toInt.natAbs < 1000000000

instance (a b : Interval) : Decidable (a.Mirrors b) :=
  inferInstanceAs (Decidable (_ ∧ _ ∧ _ ∧ _))

variable {a b : Interval} {x y : ℤ}

/-! ### The clock -/

theorem sep_not_mem {c : Char} (hc : c ≠ '-') (hd : c.isDigit = false) (w : ℕ) (i : ℤ) :
    c ∉ decimal w i := by
  intro h
  rcases Lib.decimal_chars h with rfl | h
  · exact hc rfl
  · rw [hd] at h
    cases h

theorem secs_eq (h : (secs x).tdiv 3600 = (secs y).tdiv 3600)
    (hm : ((secs x).tmod 3600).tdiv 60 = ((secs y).tmod 3600).tdiv 60)
    (hs : (secs x).tmod 60 = (secs y).tmod 60) : secs x = secs y := by
  have hx := Int.mul_tdiv_add_tmod (secs x) 3600
  have hy := Int.mul_tdiv_add_tmod (secs y) 3600
  have hx' := Int.mul_tdiv_add_tmod ((secs x).tmod 3600) 60
  have hy' := Int.mul_tdiv_add_tmod ((secs y).tmod 3600) 60
  rw [Int.tmod_tmod_of_dvd _ (by decide)] at hx' hy'
  omega

theorem clock_parts (h : clock x = clock y) : secs x = secs y ∧ sub x = sub y := by
  have hcolon : ∀ i, ':' ∉ decimal 2 i := sep_not_mem (by decide) (by decide) 2
  have hpoint : ∀ i, '.' ∉ decimal 2 i := sep_not_mem (by decide) (by decide) 2
  obtain ⟨hh, h⟩ := Lib.cut_cons (hcolon _) (hcolon _) h
  obtain ⟨hm, h⟩ := Lib.cut_cons (hcolon _) (hcolon _) h
  have hsec : decimal 2 ((secs x).tmod 60) = decimal 2 ((secs y).tmod 60) ∧ sub x = sub y := by
    by_cases hx : sub x ≠ 0
    · by_cases hy : sub y ≠ 0
      · rw [if_pos hx, if_pos hy] at h
        obtain ⟨hs, h⟩ := Lib.cut_cons (hpoint _) (hpoint _) h
        exact ⟨hs, Lib.decimal_inj h⟩
      · rw [if_pos hx, if_neg hy, List.append_nil] at h
        refine absurd ?_ (hpoint ((secs y).tmod 60))
        rw [← h]
        exact List.mem_append_right _ List.mem_cons_self
    · by_cases hy : sub y ≠ 0
      · rw [if_neg hx, if_pos hy, List.append_nil] at h
        refine absurd ?_ (hpoint ((secs x).tmod 60))
        rw [h]
        exact List.mem_append_right _ List.mem_cons_self
      · rw [if_neg hx, if_neg hy, List.append_nil, List.append_nil] at h
        exact ⟨h, by rw [not_not.mp hx, not_not.mp hy]⟩
  exact ⟨secs_eq (Lib.decimal_inj hh) (Lib.decimal_inj hm) (Lib.decimal_inj hsec.1), hsec.2⟩

/-- Of less than a second the clock does not show the sign. -/
theorem clock_eq_iff : clock x = clock y ↔ x = y ∨ x = -y ∧ y.natAbs < 1000000000 := by
  constructor
  · intro h
    obtain ⟨hsecs, hsub⟩ := clock_parts h
    exact Lib.eq_or_eq_neg (by decide) hsecs (Int.ofNat.inj hsub)
  · rintro (rfl | ⟨rfl, hlt⟩)
    · rfl
    · have hsecs : ∀ z : ℤ, z.natAbs < 1000000000 → secs z = 0 := fun z hz => by
        apply Int.natAbs_eq_zero.mp
        rw [secs, Int.natAbs_tdiv]
        exact Nat.div_eq_of_lt hz
      have hsub : sub (-y) = sub y := by
        rw [sub, Int.neg_tmod, Int.natAbs_neg]
        rfl
      unfold clock
      rw [hsecs y hlt, hsecs (-y) (by rwa [Int.natAbs_neg]), hsub]

/-! ### The words -/

/-- An amount and its unit, unless it is zero. -/
def amount (k : ℤ) (unit : List Char) : List (List Char) :=
  if k = 0 then [] else [decimal 0 k, unit]

def Interval.words (i : Interval) : List (List Char) :=
  amount i.months.toInt "months".toList ++ (amount i.days.toInt "days".toList ++
    if i.nanos ≠ 0 ∨ i.months = 0 ∧ i.days = 0 then [clock i.nanos.toInt] else [])

theorem int32_zero (k : Int32) : k.toInt = 0 ↔ k = 0 := by
  rw [← Int32.toInt_zero, Int32.toInt_inj]

/-- A text of the interval is its words. -/
theorem duckText_eq (i : Interval) : duckText i = [' '].intercalate i.words := by
  unfold duckText Interval.words amount
  simp only [int32_zero]
  by_cases hm : i.months = 0
  · by_cases hd : i.days = 0
    · simp [hm, hd]
    · by_cases hn : i.nanos = 0
      · simp [hm, hd, hn, List.intercalate]
      · simp [hm, hd, hn, List.intercalate]
  · by_cases hd : i.days = 0
    · by_cases hn : i.nanos = 0
      · simp [hm, hd, hn, List.intercalate]
      · simp [hm, hd, hn, List.intercalate]
    · by_cases hn : i.nanos = 0
      · simp [hm, hd, hn, List.intercalate]
      · simp [hm, hd, hn, List.intercalate]

theorem words_ne_nil (i : Interval) : i.words ≠ [] := by
  unfold Interval.words amount
  simp only [int32_zero]
  by_cases hm : i.months = 0
  · by_cases hd : i.days = 0
    · rw [if_pos hm, if_pos hd, if_pos (.inr ⟨hm, hd⟩)]
      exact List.cons_ne_nil _ _
    · rw [if_pos hm, if_neg hd]
      exact List.cons_ne_nil _ _
  · rw [if_neg hm]
    exact List.cons_ne_nil _ _

/-- No word has another character than these. -/
theorem clock_chars {c : Char} (h : c ∈ clock x) :
    c = ':' ∨ c = '.' ∨ c = '-' ∨ c.isDigit = true := by
  simp only [clock, List.mem_append, List.mem_cons] at h
  rcases h with h | h | h | h | h | h
  · exact .inr (.inr (Lib.decimal_chars h))
  · exact .inl h
  · exact .inr (.inr (Lib.decimal_chars h))
  · exact .inl h
  · exact .inr (.inr (Lib.decimal_chars h))
  · split at h
    · rcases List.mem_cons.mp h with h | h
      · exact .inr (.inl h)
      · exact .inr (.inr (Lib.decimal_chars h))
    · cases h

/-- A word that has a letter is neither an amount nor a clock. -/
theorem letter_ne {c : Char} {w : List Char} (hc : c ∈ w) (hcolon : c ≠ ':') (hpoint : c ≠ '.')
    (hminus : c ≠ '-') (hdigit : c.isDigit = false) :
    (∀ k, decimal 0 k ≠ w) ∧ ∀ x, clock x ≠ w := by
  refine ⟨fun k hk => ?_, fun x hx => ?_⟩
  · rw [← hk] at hc
    exact sep_not_mem hminus hdigit 0 k hc
  · rw [← hx] at hc
    rcases clock_chars hc with h | h | h | h
    · exact hcolon h
    · exact hpoint h
    · exact hminus h
    · rw [hdigit] at h
      cases h

theorem words_spaceless (i : Interval) : ∀ w ∈ i.words, ' ' ∉ w := by
  have hamount : ∀ (k : ℤ) (unit : List Char), ' ' ∉ unit → ∀ w ∈ amount k unit, ' ' ∉ w := by
    intro k unit hu w hw
    unfold amount at hw
    split at hw
    · cases hw
    · rcases List.mem_cons.mp hw with rfl | hw
      · exact sep_not_mem (by decide) (by decide) 0 k
      · rw [List.mem_singleton.mp hw]
        exact hu
  intro w hw
  rcases List.mem_append.mp hw with hw | hw
  · exact hamount _ _ (by decide) w hw
  rcases List.mem_append.mp hw with hw | hw
  · exact hamount _ _ (by decide) w hw
  split at hw
  · rw [List.mem_singleton.mp hw]
    intro hspace
    rcases clock_chars hspace with h | h | h | h <;> cases h
  · cases hw

/-- Where the unit is in no other word, it tells the amount. -/
theorem amount_inj {k l : ℤ} {unit : List Char} {ws vs : List (List Char)} (hw : unit ∉ ws)
    (hv : unit ∉ vs) (h : amount k unit ++ ws = amount l unit ++ vs) : k = l ∧ ws = vs := by
  unfold amount at h
  by_cases hk : k = 0
  · by_cases hl : l = 0
    · rw [if_pos hk, if_pos hl] at h
      exact ⟨hk.trans hl.symm, h⟩
    · rw [if_pos hk, if_neg hl, List.nil_append] at h
      rw [h] at hw
      simp at hw
  · by_cases hl : l = 0
    · rw [if_neg hk, if_pos hl, List.nil_append] at h
      rw [← h] at hv
      simp at hv
    · rw [if_neg hk, if_neg hl] at h
      obtain ⟨hkl, h⟩ := List.cons.inj h
      exact ⟨Lib.decimal_inj hkl, (List.cons.inj h).2⟩

theorem months_not_mem (i : Interval) :
    "months".toList ∉ amount i.days.toInt "days".toList ++
      if i.nanos ≠ 0 ∨ i.months = 0 ∧ i.days = 0 then [clock i.nanos.toInt] else [] := by
  obtain ⟨hdec, hclock⟩ := letter_ne (w := "months".toList) (c := 'm') (by decide) (by decide)
    (by decide) (by decide) (by decide)
  unfold amount
  intro h
  rcases List.mem_append.mp h with h | h
  · split at h
    · cases h
    · rcases List.mem_cons.mp h with h | h
      · exact hdec _ h.symm
      · exact absurd (List.mem_singleton.mp h) (by decide)
  · split at h
    · exact hclock _ (List.mem_singleton.mp h).symm
    · cases h

theorem days_not_mem (i : Interval) :
    "days".toList ∉
      if i.nanos ≠ 0 ∨ i.months = 0 ∧ i.days = 0 then [clock i.nanos.toInt] else [] := by
  obtain ⟨-, hclock⟩ := letter_ne (w := "days".toList) (c := 'd') (by decide) (by decide)
    (by decide) (by decide) (by decide)
  intro h
  split at h
  · exact hclock _ (List.mem_singleton.mp h).symm
  · cases h

theorem int64_zero (k : Int64) : k.toInt = 0 ↔ k = 0 := by
  rw [← Int64.toInt_zero, Int64.toInt_inj]

/-- Two intervals have one text only where they are one or differ in the sign of less than a
second. -/
theorem duckText_eq_iff : duckText a = duckText b ↔ a = b ∨ a.Mirrors b := by
  constructor
  · intro h
    rw [duckText_eq, duckText_eq] at h
    have hwords : a.words = b.words :=
      calc a.words = ([' '].intercalate a.words).splitOn ' ' :=
            (List.splitOn_intercalate ' ' (words_spaceless a) (words_ne_nil a)).symm
        _ = ([' '].intercalate b.words).splitOn ' ' := by rw [h]
        _ = b.words := List.splitOn_intercalate ' ' (words_spaceless b) (words_ne_nil b)
    obtain ⟨hm, hrest⟩ := amount_inj (months_not_mem a) (months_not_mem b) hwords
    obtain ⟨hd, hrest⟩ := amount_inj (days_not_mem a) (days_not_mem b) hrest
    have hm := Int32.toInt_inj.mp hm
    have hd := Int32.toInt_inj.mp hd
    rw [hm, hd] at hrest
    have hnanos : clock a.nanos.toInt = clock b.nanos.toInt := by
      by_cases ha : a.nanos ≠ 0 ∨ b.months = 0 ∧ b.days = 0
      · by_cases hb : b.nanos ≠ 0 ∨ b.months = 0 ∧ b.days = 0
        · rw [if_pos ha, if_pos hb] at hrest
          exact List.singleton_inj.mp hrest
        · rw [if_pos ha, if_neg hb] at hrest
          cases hrest
      · by_cases hb : b.nanos ≠ 0 ∨ b.months = 0 ∧ b.days = 0
        · rw [if_neg ha, if_pos hb] at hrest
          cases hrest
        · -- without a clock there are no nanoseconds
          rw [not_or, not_not] at ha hb
          rw [ha.1, hb.1]
    rcases clock_eq_iff.mp hnanos with hn | ⟨hn, hlt⟩
    · left
      obtain ⟨months, days, nanos⟩ := a
      obtain ⟨months', days', nanos'⟩ := b
      rw [Interval.mk.injEq]
      exact ⟨hm, hd, Int64.toInt_inj.mp hn⟩
    · exact .inr ⟨hm, hd, hn, hlt⟩
  · rintro (rfl | ⟨hm, hd, hn, hlt⟩)
    · rfl
    · have hclock : clock a.nanos.toInt = clock b.nanos.toInt := clock_eq_iff.mpr (.inr ⟨hn, hlt⟩)
      have hzero : a.nanos = 0 ↔ b.nanos = 0 := by
        rw [← int64_zero, ← int64_zero, hn, neg_eq_zero]
      rw [duckText_eq, duckText_eq]
      unfold Interval.words
      simp only [hm, hd, hclock, ne_eq, hzero]

/-- An interval is told from another by its text, unless they mirror each other. -/
theorem duckText_tells_iff (a b : Interval) :
    (duckText a = duckText b → a = b) ↔ (a.Mirrors b → a = b) := by
  rw [duckText_eq_iff, or_imp, and_iff_right_iff_imp]
  exact fun _ => id

/-- Half a second forward and half a second back. -/
theorem half_second_mirrored :
    duckText ⟨0, 0, 500000000⟩ = duckText ⟨0, 0, -500000000⟩ ∧
      (⟨0, 0, 500000000⟩ : Interval) ≠ ⟨0, 0, -500000000⟩ := by decide

example : duckText ⟨14, -3, -3661000000001⟩ = "14 months -3 days -1:-1:-1.000000001".toList := by
  decide

end LvimDb.Driver
