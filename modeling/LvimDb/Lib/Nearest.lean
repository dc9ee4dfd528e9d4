import Mathlib.Data.List.Basic
import Mathlib.Order.Lattice

/-!
# Stretches of a line and the one nearest to a position

Stretches come one after the other, there may be gaps between them, and one may begin where the
one before it ends. A position has a stretch that is meant by it.
-/

namespace Lib.Nearest
variable {α P : Type*} [LinearOrder P] {first last : α → P} {xs before after : List α} {x x' : α}
  {pos pos' : P}

/-- Each stretch ends where the next begins, or before. -/
structure Apart (first last : α → P) (xs : List α) : Prop where
  ordered : ∀ x ∈ xs, first x ≤ last x
  apart : xs.Pairwise fun a b => last a ≤ first b

/-- The first stretch that has the position, else the last that begins before it, else the
first one. -/
def nearest (first last : α → P) (pos : P) (xs : List α) : Option α :=
  ((xs.find? fun x => first x ≤ pos && pos ≤ last x).or
    (xs.filter fun x => first x ≤ pos).getLast?).or xs.head?

/-- Where the position is when `x` is meant by it. -/
inductive Near (first last : α → P) (pos : P) (before : List α) (x : α) (after : List α) : Prop
  | inside : first x ≤ pos → pos ≤ last x → (∀ b ∈ before, last b < pos) →
      Near first last pos before x after
  | behind : last x < pos → (∀ a ∈ after, pos < first a) → Near first last pos before x after
  | ahead : before = [] → pos < first x → Near first last pos before x after

theorem apart_nil : Apart first last ([] : List α) where
  ordered x hx := by cases hx
  apart := List.Pairwise.nil

theorem nearest_none_iff : nearest first last pos xs = none ↔ xs = [] := by
  constructor
  · intro h
    exact List.head?_eq_none_iff.mp (Option.or_eq_none_iff.mp h).2
  · rintro rfl
    rfl

theorem Apart.ended (h : Apart first last (before ++ x :: after)) {b : α} (hb : b ∈ before) :
    first b ≤ last b ∧ last b ≤ first x := by
  constructor
  · exact h.ordered b (List.mem_append_left _ hb)
  · exact (List.pairwise_append.mp h.apart).2.2 b hb x (List.mem_cons_self ..)

theorem nearest_near (h : Apart first last xs) (hx : nearest first last pos xs = some x) :
    ∃ before after, xs = before ++ x :: after ∧ Near first last pos before x after := by
  rcases Option.or_eq_some_iff.mp hx with hx | ⟨hnone, hx⟩
  · rcases Option.or_eq_some_iff.mp hx with hx | ⟨hnone, hx⟩
    · obtain ⟨hin, before, after, rfl, hbefore⟩ := List.find?_eq_some_iff_append.mp hx
      have hin : first x ≤ pos ∧ pos ≤ last x := by simpa using hin
      refine ⟨before, after, rfl, .inside hin.1 hin.2 fun b hb => ?_⟩
      obtain ⟨hle, hend⟩ := h.ended hb
      have hout : pos < first b ∨ last b < pos := by simpa using hbefore b hb
      exact hout.resolve_left (not_lt.mpr (hle.trans (hend.trans hin.1)))
    · obtain ⟨ys, hys⟩ := List.getLast?_eq_some_iff.mp hx
      obtain ⟨xs₁, xs₂, rfl, -, htail⟩ := List.filter_eq_append_iff.mp hys
      obtain ⟨skip, after, rfl, -, hbegun, hafter⟩ := List.filter_eq_cons_iff.mp htail
      have hbegun : first x ≤ pos := by simpa using hbegun
      have hmem : x ∈ xs₁ ++ (skip ++ x :: after) := by simp
      have hout : first x ≤ pos → last x < pos := by
        simpa using List.find?_eq_none.mp hnone x hmem
      refine ⟨xs₁ ++ skip, after, by simp, .behind (hout hbegun) fun a ha => ?_⟩
      simpa using List.filter_eq_nil_iff.mp hafter a ha
  · obtain ⟨after, rfl⟩ := List.head?_eq_some_iff.mp hx
    have hlast := (Option.or_eq_none_iff.mp hnone).2
    have hnot := List.filter_eq_nil_iff.mp (List.getLast?_eq_none_iff.mp hlast) x
      (List.mem_cons_self ..)
    exact ⟨[], after, rfl, .ahead rfl (by simpa using hnot)⟩

/-- A later position does not mean an earlier stretch. -/
theorem Near.mono {before' after' : List α} (h : Apart first last (before ++ x :: after))
    (hx : Near first last pos before x after) (hx' : Near first last pos' before' x' after')
    (hle : pos ≤ pos') (hb : x' ∈ before) (ha : x ∈ after') : False := by
  obtain ⟨hord', hend⟩ := h.ended hb
  have hord : first x ≤ last x := h.ordered x (by simp)
  have hnext : first x' ≤ pos' → last x' < pos' → False := by
    intro hbegun hended
    cases hx' with
    | inside _ hin _ => exact absurd hended (not_lt.mpr hin)
    | behind _ hafter =>
      have hpast := hafter x ha
      cases hx with
      | inside hin _ _ => exact absurd (hin.trans hle) (not_le.mpr hpast)
      | behind hout _ => exact absurd (hord.trans (hout.le.trans hle)) (not_le.mpr hpast)
      | ahead hnil _ => exact absurd hb (by simp [hnil])
    | ahead _ hahead => exact absurd hbegun (not_le.mpr hahead)
  cases hx with
  | inside hin _ hbefore =>
    have hlt := (hbefore x' hb).trans_le hle
    exact hnext (hord'.trans hlt.le) hlt
  | behind hout _ =>
    have hlt := (hend.trans hord).trans_lt (hout.trans_le hle)
    exact hnext (hord'.trans hlt.le) hlt
  | ahead hnil _ => exact absurd hb (by simp [hnil])

/-- As the position moves on, the stretch stays or moves on. -/
theorem nearest_mono (h : Apart first last xs) (hle : pos ≤ pos')
    (hx : nearest first last pos xs = some x) (hx' : nearest first last pos' xs = some x') :
    x' = x ∨ ∃ as bs cs, xs = as ++ x :: bs ++ x' :: cs := by
  obtain ⟨before, after, hsplit, hnear⟩ := nearest_near h hx
  obtain ⟨before', after', hsplit', hnear'⟩ := nearest_near h hx'
  rcases List.append_eq_append_iff.mp (hsplit.symm.trans hsplit') with
    ⟨mid, hmid, htail⟩ | ⟨mid, hmid, htail⟩
  · cases mid with
    | nil => exact .inl (List.cons.inj htail).1.symm
    | cons y mid =>
      obtain ⟨rfl, rfl⟩ := List.cons.inj htail
      exact .inr ⟨before, mid, after', by rw [hsplit]; simp⟩
  · cases mid with
    | nil => exact .inl (List.cons.inj htail).1
    | cons y mid =>
      obtain ⟨rfl, rfl⟩ := List.cons.inj htail
      rw [hsplit] at h
      exact (hnear.mono h hnear' hle (by simp [hmid]) (by simp)).elim

end Lib.Nearest
