import Mathlib.Data.List.Infix

/-!
# Filling a buffer from a source that is pulled in batches

A source hands out what it has left in batches of at most the size asked for, and
says `none` once nothing is left. A buffer is refilled until it holds `need` items
or the source said `none`. Whatever sizes are asked for, in whatever order, the
buffer is a prefix of everything the source had at the start.
-/

namespace Lib
variable {σ α : Type*}

structure Source (σ α : Type*) where
  Inv : σ → Prop
  pull : σ → ℕ → Option (List α) × σ
  rest : σ → List α
  pull_inv : ∀ s n, Inv s → 0 < n → Inv (pull s n).2
  pull_some : ∀ s n xs, Inv s → 0 < n → (pull s n).1 = some xs →
    xs ≠ [] ∧ xs.length ≤ n ∧ rest s = xs ++ rest (pull s n).2
  pull_none : ∀ s n, Inv s → 0 < n → (pull s n).1 = none → rest s = [] ∧ rest (pull s n).2 = []

structure Buffer (σ α : Type*) where
  items : List α
  done : Bool
  src : σ

def Buffer.filled (need : ℕ) (b : Buffer σ α) : Bool := b.done || decide (need ≤ b.items.length)

namespace Source
variable (S : Source σ α)

def refill (need : ℕ) (b : Buffer σ α) : Buffer σ α :=
  match S.pull b.src (need - b.items.length) with
  | (some xs, s) => ⟨b.items ++ xs, b.done, s⟩
  | (none, s) => ⟨b.items, true, s⟩

/-- At most `k` refills, stopping as soon as the buffer is filled. -/
def refills (need : ℕ) : ℕ → Buffer σ α → Buffer σ α
  | 0, b => b
  | k + 1, b => if b.filled need then b else refills need k (S.refill need b)

/-- The buffer and what the source has left make up `R`. -/
structure Serves (R : List α) (b : Buffer σ α) : Prop where
  inv : S.Inv b.src
  whole : b.items ++ S.rest b.src = R
  spent : b.done = true → S.rest b.src = []

/-- What bounds the number of refills: the items left, and one final `none`. -/
def left (b : Buffer σ α) : ℕ := (S.rest b.src).length + (if b.done then 0 else 1)

variable {S} {R : List α} {b : Buffer σ α} {need : ℕ}

theorem not_filled (h : b.filled need = false) : b.done = false ∧ b.items.length < need := by
  simp only [Buffer.filled, Bool.or_eq_false_iff, decide_eq_false_iff_not] at h
  exact ⟨h.1, by omega⟩

theorem refill_serves (h : S.Serves R b) (hn : b.filled need = false) :
    S.Serves R (S.refill need b) ∧ S.left (S.refill need b) < S.left b ∧
      b.items <+: (S.refill need b).items ∧ (S.refill need b).items.length ≤ need := by
  obtain ⟨hd, hlt⟩ := not_filled hn
  have hpos : 0 < need - b.items.length := by omega
  have hi := S.pull_inv b.src (need - b.items.length) h.inv hpos
  cases hp : S.pull b.src (need - b.items.length) with
  | mk o s =>
    rw [hp] at hi
    cases o with
    | some xs =>
      obtain ⟨hne, hle, hrest⟩ := S.pull_some b.src _ xs h.inv hpos (by rw [hp])
      rw [hp] at hrest
      have hlen : 0 < xs.length := List.length_pos_iff.mpr hne
      simp only [refill, hp]
      refine ⟨⟨hi, ?_, ?_⟩, ?_, List.prefix_append _ _, ?_⟩
      · rw [List.append_assoc, ← hrest]
        exact h.whole
      · intro hdone
        exact absurd hdone (by simp [hd])
      · simp only [left, hrest, List.length_append, hd]
        omega
      · rw [List.length_append]
        omega
    | none =>
      obtain ⟨hr, hr'⟩ := S.pull_none b.src _ h.inv hpos (by rw [hp])
      rw [hp] at hr'
      simp only [refill, hp]
      refine ⟨⟨hi, ?_, fun _ => hr'⟩, ?_, List.prefix_refl _, by omega⟩
      · rw [hr', ← hr]
        exact h.whole
      · simp [left, hr, hr', hd]

theorem refills_prefix (k : ℕ) (h : S.Serves R b) : b.items <+: (S.refills need k b).items := by
  induction k generalizing b with
  | zero => exact List.prefix_refl _
  | succ k ih =>
    simp only [refills]
    split
    · exact List.prefix_refl _
    · next hn =>
      obtain ⟨hs, -, hp, -⟩ := refill_serves h (Bool.eq_false_iff.mpr hn)
      exact hp.trans (ih hs)

/-- Enough refills fill the buffer: one for each item left, and one more. -/
theorem refills_filled (need k : ℕ) (h : S.Serves R b) (hk : S.left b ≤ k) :
    (S.refills need k b).filled need = true := by
  induction k generalizing b with
  | zero =>
    have hd : b.done = true := by
      by_contra hd
      simp [left, hd] at hk
    simp [refills, Buffer.filled, hd]
  | succ k ih =>
    simp only [refills]
    split
    · assumption
    · next hn =>
      obtain ⟨hs, hlt, -⟩ := refill_serves h (Bool.eq_false_iff.mpr hn)
      exact ih hs (by omega)

theorem Serves.items_prefix (h : S.Serves R b) : b.items <+: R := ⟨_, h.whole⟩

/-- The source is found empty exactly when more is asked for than there is. -/
theorem refills_done (need k : ℕ) (h : S.Serves R b) (hk : S.left b ≤ k) :
    (S.refills need k b).done = true ↔ b.done = true ∨ R.length < need := by
  induction k generalizing b with
  | zero =>
    have hd : b.done = true := by
      by_contra hd
      simp [left, hd] at hk
    simp [refills, hd]
  | succ k ih =>
    by_cases hf : b.filled need = true
    · simp only [refills, if_pos hf]
      simp only [Buffer.filled, Bool.or_eq_true, decide_eq_true_eq] at hf
      have hle := h.items_prefix.length_le
      constructor
      · exact .inl
      · rintro (hd | hlt)
        · exact hd
        · exact hf.resolve_right (by omega)
    · have hn := Bool.eq_false_iff.mpr hf
      obtain ⟨hd, hlt⟩ := not_filled hn
      obtain ⟨hs, hless, -⟩ := refill_serves h hn
      simp only [refills, if_neg hf]
      rw [ih hs (by omega)]
      cases hp : S.pull b.src (need - b.items.length) with
      | mk o s =>
        cases o with
        | some xs => simp only [refill, hp]
        | none =>
          -- the source had nothing left, so the buffer was already the whole
          obtain ⟨hr, -⟩ :=
            S.pull_none b.src (need - b.items.length) h.inv (by omega) (by rw [hp])
          have hw := congrArg List.length h.whole
          rw [hr, List.append_nil] at hw
          simp only [refill, hp, hd, Bool.false_eq_true, false_or, true_or, true_iff]
          omega

theorem Serves.left_le (h : S.Serves R b) : S.left b ≤ R.length + 1 := by
  have hl := congrArg List.length h.whole
  rw [List.length_append] at hl
  simp only [left]
  split <;> omega

/-- A filled buffer shows the window `lo .. need` of everything there is. -/
theorem Serves.window (h : S.Serves R b) (hf : b.filled need = true) (lo : ℕ) (hlo : lo ≤ need) :
    min lo b.items.length = min lo R.length ∧
      (b.items.take (min need b.items.length)).drop (min lo b.items.length) =
        (R.take (min need R.length)).drop (min lo R.length) := by
  have hcase : b.items = R ∨ need ≤ b.items.length := by
    simp only [Buffer.filled, Bool.or_eq_true, decide_eq_true_eq] at hf
    refine hf.imp (fun hd => ?_) id
    have hw := h.whole
    rwa [h.spent hd, List.append_nil] at hw
  rcases hcase with heq | hle
  · exact ⟨by rw [heq], by rw [heq]⟩
  · obtain ⟨ys, hys⟩ := h.items_prefix
    have hR : R.length = b.items.length + ys.length := by rw [← hys, List.length_append]
    have h1 : min need b.items.length = need := by omega
    have h2 : min need R.length = need := by omega
    have h3 : min lo b.items.length = min lo R.length := by omega
    refine ⟨h3, ?_⟩
    rw [h1, h2, h3, ← hys, List.take_append_of_le_length hle]

end Source
end Lib
