import Mathlib.Algebra.BigOperators.Group.Finset.Piecewise
import Mathlib.Algebra.Order.BigOperators.Group.Finset

/-!
# Totals over a table

A table has an entry or none at every number below a bound. `total n x f` adds up the
weight `f` of its entries; what an update does to it is an equation for `omega`.
-/

namespace Lib
variable {α : Type*} {n i : ℕ} {x : ℕ → Option α} {f : α → ℕ}

def total (n : ℕ) (x : ℕ → Option α) (f : α → ℕ) : ℕ := ∑ i ∈ Finset.range n, (x i).elim 0 f

theorem total_update (hi : i < n) (o : Option α) (f : α → ℕ) :
    total n (Function.update x i o) f + (x i).elim 0 f = total n x f + o.elim 0 f := by
  have hmem : i ∈ Finset.range n := Finset.mem_range.mpr hi
  have hweights : (fun j => (Function.update x i o j).elim 0 f) =
      Function.update (fun j => (x j).elim 0 f) i (o.elim 0 f) :=
    Function.comp_update (fun e : Option α => e.elim 0 f) x i o
  rw [total, hweights, Finset.sum_update_of_mem hmem, add_assoc, Finset.sdiff_singleton_eq_erase,
    Finset.sum_erase_add _ (fun j => (x j).elim 0 f) hmem, add_comm]
  rfl

/-- The bound moves on and the number it leaves behind gets an entry. -/
theorem total_fresh (o : Option α) (f : α → ℕ) :
    total (n + 1) (Function.update x n o) f = total n x f + o.elim 0 f := by
  have hbelow : ∀ j ∈ Finset.range n,
      (Function.update x n o j).elim 0 f = (x j).elim 0 f := by
    intro j hj
    rw [Function.update_of_ne (Nat.ne_of_lt (Finset.mem_range.mp hj))]
  rw [total, Finset.sum_range_succ, Finset.sum_congr rfl hbelow, Function.update_self]
  rfl

theorem le_total {a : α} (hi : i < n) (hx : x i = some a) (f : α → ℕ) : f a ≤ total n x f := by
  have hle := Finset.single_le_sum (f := fun j => (x j).elim 0 f) (fun _ _ => Nat.zero_le _)
    (Finset.mem_range.mpr hi)
  simp only [hx, Option.elim_some] at hle
  exact hle

theorem total_eq_zero (h : ∀ i a, x i = some a → f a = 0) : total n x f = 0 := by
  refine Finset.sum_eq_zero fun i _ => ?_
  cases hx : x i with
  | none => rfl
  | some a => exact h i a hx

end Lib
