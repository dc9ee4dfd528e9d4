import LvimDb.Lib.Taken
import LvimDb.Result.Frame

/-!
# Counting what waits, what is scheduled and what happened

A question that is passed on from callback to closure to event is counted once in all of
them together.
-/

namespace LvimDb.Result
variable {V : Type}

/-- What is counted. -/
structure Marks (V : Type) where
  cont : Cont V → Bool
  task : Task V → Bool
  event : Event V → Bool

namespace Dock
variable {s : Dock V}

def tally (s : Dock V) (m : Marks V) : ℕ :=
  s.waiting.countP m.cont + s.queue.countP m.task + s.hist.countP m.event

theorem tally_new (m : Marks V) : (new : Dock V).tally m = 0 := rfl

theorem tally_tell (m : Marks V) (e : Event V) :
    (s.tell e).tally m = s.tally m + (m.event e).toNat := by
  unfold tally tell
  dsimp only
  rw [List.countP_cons]
  cases m.event e <;> simp [Nat.add_assoc]

theorem tally_wait (m : Marks V) (c : Cont V) :
    (s.wait c).tally m = s.tally m + (m.cont c).toNat := by
  unfold tally wait
  dsimp only
  rw [List.countP_append, List.countP_singleton]
  cases m.cont c
  · rfl
  · simp only [if_true, Bool.toNat_true]
    omega

theorem tally_later (m : Marks V) (k : Task V) :
    (s.later k).tally m = s.tally m + (m.task k).toNat := by
  unfold tally later
  dsimp only
  rw [List.countP_append, List.countP_singleton]
  cases m.task k
  · rfl
  · simp only [if_true, Bool.toNat_true]
    omega

theorem tally_drop (m : Marks V) {n : ℕ} {c : Cont V} (h : s.waiting[n]? = some c) :
    s.tally m = (s.drop n).tally m + (m.cont c).toNat := by
  have hcount := Lib.countP_eraseIdx m.cont h
  unfold tally drop
  dsimp only
  omega

theorem tally_pop (m : Marks V) {k : Task V} {ks : List (Task V)} (h : s.queue = k :: ks) :
    s.tally m = ({ s with queue := ks } : Dock V).tally m + (m.task k).toNat := by
  unfold tally
  dsimp only
  rw [h, List.countP_cons]
  cases m.task k
  · rfl
  · simp only [if_true, Bool.toNat_true]
    omega

/-- What adds nothing that is counted leaves the count. -/
theorem keeps_tally {parts : List Part} {m : Marks V} (hplain : .plain ∈ parts)
    (hc : ∀ c, c.part ∈ parts → m.cont c = false) (hk : ∀ k, k.part ∈ parts → m.task k = false)
    (he : ∀ e, e.part ∈ parts → m.event e = false) (N : ℕ) :
    Keeps parts fun s : Dock V => s.tally m = N where
  plain := hplain
  face := fun _ h => h
  pend := fun _ h => h
  tell := fun hp h => by rw [tally_tell, he _ hp, h, Bool.toNat_false, Nat.add_zero]
  wait := fun hp h => by rw [tally_wait, hc _ hp, h, Bool.toNat_false, Nat.add_zero]
  later := fun hp h => by rw [tally_later, hk _ hp, h, Bool.toNat_false, Nat.add_zero]
  next := fun _ h => h
  source := fun _ h => h
  amend := fun _ h => h
  addEntry := fun h => h
  data := fun _ h => h
  page := fun _ h => h
  count := fun _ _ h => h
  register := fun _ _ h => h
  bind := fun _ h => h

end Dock
end LvimDb.Result
