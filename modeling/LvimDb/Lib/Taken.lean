import Mathlib.Data.List.Perm.Basic

/-!
# One element taken out of a list

What is counted or collected over a list, when the element at a place is taken out of it.
-/

namespace Lib
variable {α β : Type*} {xs : List α} {n : ℕ} {x : α}

theorem countP_eraseIdx (p : α → Bool) (hx : xs[n]? = some x) :
    xs.countP p = (xs.eraseIdx n).countP p + (p x).toNat := by
  obtain ⟨hn, rfl⟩ := List.getElem?_eq_some_iff.mp hx
  have hperm := (List.getElem_cons_eraseIdx_perm hn).countP_eq p
  rw [List.countP_cons] at hperm
  rw [← hperm]
  cases p xs[n] <;> simp

theorem filterMap_eraseIdx (f : α → Option β) (hx : xs[n]? = some x) :
    (xs.filterMap f).Perm ((f x).toList ++ (xs.eraseIdx n).filterMap f) := by
  obtain ⟨hn, rfl⟩ := List.getElem?_eq_some_iff.mp hx
  have hperm := (List.getElem_cons_eraseIdx_perm hn).filterMap f
  rw [List.filterMap_cons] at hperm
  cases hf : f xs[n] with
  | none =>
    rw [hf] at hperm
    exact hperm.symm
  | some y =>
    rw [hf] at hperm
    exact hperm.symm

end Lib
