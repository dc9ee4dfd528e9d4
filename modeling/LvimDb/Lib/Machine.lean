import Mathlib.Data.List.Infix
import Mathlib.Logic.Function.Basic

/-!
# Input-driven machines and their runs

A machine takes one input at a time; a step may be refused (`none`). A run is a
list of inputs, every one taken in a state where a condition `good` on the state
before the step and its input holds. Safety statements are about the state a run
ends in, for every list of inputs: a prefix of a run is a run, so they are about
every state a run passes through.
-/

namespace Lib

structure Machine (σ ι : Type*) where
  init : σ
  step : σ → ι → Option σ

namespace Machine
variable {σ ι : Type*} (M : Machine σ ι)

/-- No condition on the steps. -/
def free : σ → ι → Prop := fun _ _ => True

/-- The state a list of inputs leads to. -/
def exec : σ → List ι → Option σ
  | s, [] => some s
  | s, i :: is => (M.step s i).bind fun t => exec t is

inductive Run (good : σ → ι → Prop) : σ → List ι → σ → Prop
  | nil (s : σ) : Run good s [] s
  | cons {s t u : σ} {i : ι} {is : List ι} :
      good s i → M.step s i = some t → Run good t is u → Run good s (i :: is) u

variable {M}
variable {good : σ → ι → Prop} {s t u : σ} {is js : List ι}

theorem Run.append (h : M.Run good s is t) (h' : M.Run good t js u) :
    M.Run good s (is ++ js) u := by
  induction h with
  | nil => exact h'
  | cons hg hs _ ih => exact .cons hg hs (ih h')

theorem Run.snoc {i : ι} (h : M.Run good s is t) (hg : good t i) (hs : M.step t i = some u) :
    M.Run good s (is ++ [i]) u :=
  h.append (.cons hg hs (.nil u))

theorem Run.weaken {good' : σ → ι → Prop} (hw : ∀ s i, good s i → good' s i)
    (h : M.Run good s is t) : M.Run good' s is t := by
  induction h with
  | nil => exact .nil _
  | cons hg hs _ ih => exact .cons (hw _ _ hg) hs ih

/-- Two conditions that hold along one run. -/
theorem Run.and {good' : σ → ι → Prop} (h : M.Run good s is t) (h' : M.Run good' s is t) :
    M.Run (fun s i => good s i ∧ good' s i) s is t := by
  induction h with
  | nil => exact .nil _
  | cons hg hs _ ih =>
    cases h' with
    | cons hg' hs' ht' =>
      obtain rfl := Option.some.inj (hs.symm.trans hs')
      exact .cons ⟨hg, hg'⟩ hs (ih ht')

/-- The induction over a run: what every allowed step preserves, the run preserves. -/
theorem Run.invariant (Inv : σ → Prop)
    (hstep : ∀ s i t, good s i → Inv s → M.step s i = some t → Inv t)
    (h : M.Run good s is t) (hs : Inv s) : Inv t := by
  induction h with
  | nil => exact hs
  | cons hg hst _ ih => exact ih (hstep _ _ _ hg hs hst)

/-- A second invariant may use one that is already known along the run. -/
theorem Run.invariant_with (Known Inv : σ → Prop)
    (hknown : ∀ s i t, good s i → Known s → M.step s i = some t → Known t)
    (hstep : ∀ s i t, good s i → Known s → Inv s → M.step s i = some t → Inv t)
    (h : M.Run good s is t) (hk : Known s) (hs : Inv s) : Inv t :=
  (Run.invariant (fun s => Known s ∧ Inv s)
    (fun _ _ _ hg ⟨hk, hi⟩ hst => ⟨hknown _ _ _ hg hk hst, hstep _ _ _ hg hk hi hst⟩)
    h ⟨hk, hs⟩).2

/-- A run is executable: `exec` computes the state it ends in. -/
theorem Run.exec_eq (h : M.Run good s is t) : M.exec s is = some t := by
  induction h with
  | nil => rfl
  | cons _ hs _ ih => simp only [exec, hs, Option.bind_some, ih]

theorem run_of_exec (h : M.exec s is = some t) : M.Run free s is t := by
  induction is generalizing s with
  | nil =>
    cases h
    exact .nil _
  | cons i is ih =>
    obtain ⟨r, hr, ht⟩ := Option.bind_eq_some_iff.mp h
    exact .cons trivial hr (ih ht)

theorem exists_run (M : Machine σ ι) (s : σ) (is : List ι) (h : (M.exec s is).isSome = true) :
    ∃ t, M.exec s is = some t ∧ M.Run free s is t := by
  obtain ⟨t, ht⟩ := Option.isSome_iff_exists.mp h
  exact ⟨t, ht, run_of_exec ht⟩

/-- `exec` with a test of the condition on every step. -/
def execWith (check : σ → ι → Bool) : σ → List ι → Option σ
  | s, [] => some s
  | s, i :: is => if check s i then (M.step s i).bind fun t => execWith check t is else none

/-- The test may rest on what is known along the run. -/
theorem run_of_execWith_known (Known : σ → Prop) {check : σ → ι → Bool}
    (hknown : ∀ s i t, Known s → M.step s i = some t → Known t)
    (hc : ∀ s i, Known s → check s i = true → good s i) (hs : Known s)
    (h : M.execWith check s is = some t) : M.Run good s is t := by
  induction is generalizing s with
  | nil =>
    cases h
    exact .nil _
  | cons i is ih =>
    rw [execWith, Option.ite_none_right_eq_some] at h
    obtain ⟨hi, h⟩ := h
    obtain ⟨r, hr, ht⟩ := Option.bind_eq_some_iff.mp h
    exact .cons (hc s i hs hi) hr (ih (hknown s i r hs hr) ht)

theorem run_of_execWith {check : σ → ι → Bool} (hc : ∀ s i, check s i = true → good s i)
    (h : M.execWith check s is = some t) : M.Run good s is t :=
  run_of_execWith_known (fun _ => True) (fun _ _ _ _ _ => trivial) (fun s i _ => hc s i) trivial h

/-- What holds of every state that a list of inputs passes through. -/
def Throughout (M : Machine σ ι) (s : σ) (is : List ι) (P : σ → Prop) : Prop :=
  ∀ js u, js <+: is → M.exec s js = some u → P u

theorem throughout_cons {P : σ → Prop} {i : ι} (hs : M.step s i = some t) :
    M.Throughout s (i :: is) P ↔ P s ∧ M.Throughout t is P := by
  constructor
  · intro h
    constructor
    · exact h [] s List.nil_prefix rfl
    · intro js u hp hu
      apply h (i :: js) u ((List.prefix_cons_inj i).mpr hp)
      rw [exec, hs]
      exact hu
  · rintro ⟨hP, h⟩ js u hp hu
    cases js with
    | nil =>
      cases hu
      exact hP
    | cons j js =>
      obtain ⟨rfl, htail⟩ := List.cons_prefix_cons.mp hp
      rw [exec, hs] at hu
      exact h js u htail hu

/-- Where a step keeps `P` exactly when it meets `good`, and what else is known holds on under
`good`, a run keeps `P` in every state exactly when each of its steps meets it. -/
theorem Run.throughout_iff_with (Known P : σ → Prop)
    (hknown : ∀ s i t, good s i → Known s → P s → M.step s i = some t → Known t)
    (hstep : ∀ s i t, Known s → P s → M.step s i = some t → (P t ↔ good s i))
    (h : M.Run free s is t) (hk : Known s) (hs : P s) :
    M.Throughout s is P ↔ M.Run good s is t := by
  induction h with
  | nil s =>
    constructor
    · intro _
      exact .nil s
    · intro _ js u hp hu
      obtain rfl := List.prefix_nil.mp hp
      cases hu
      exact hs
  | @cons s t u i is _ hst _ ih =>
    rw [throughout_cons hst]
    constructor
    · rintro ⟨-, h⟩
      have hP : P t := h [] t List.nil_prefix rfl
      have hg : good s i := (hstep s i t hk hs hst).mp hP
      exact .cons hg hst ((ih (hknown s i t hg hk hs hst) hP).mp h)
    · intro h
      cases h with
      | cons hg hst' h =>
        obtain rfl := Option.some.inj (hst.symm.trans hst')
        have hP : P t := (hstep s i t hk hs hst).mpr hg
        exact ⟨hs, (ih (hknown s i t hg hk hs hst) hP).mpr h⟩

theorem Run.throughout_iff (Known P : σ → Prop)
    (hknown : ∀ s i t, Known s → M.step s i = some t → Known t)
    (hstep : ∀ s i t, Known s → P s → M.step s i = some t → (P t ↔ good s i))
    (h : M.Run free s is t) (hk : Known s) (hs : P s) :
    M.Throughout s is P ↔ M.Run good s is t :=
  h.throughout_iff_with Known P (fun s i t _ hk _ hst => hknown s i t hk hst) hstep hk hs

/-- Some continuation reaches `P`. -/
def Leads (M : Machine σ ι) (s : σ) (P : σ → Prop) : Prop := ∃ is t, M.Run free s is t ∧ P t

variable {P Q : σ → Prop}

theorem leads_here (h : P s) : M.Leads s P := ⟨[], s, .nil s, h⟩

theorem leads_step {i : ι} (hs : M.step s i = some t) (h : M.Leads t P) : M.Leads s P := by
  obtain ⟨is, u, hr, hp⟩ := h
  exact ⟨i :: is, u, .cons trivial hs hr, hp⟩

theorem Leads.trans (h : M.Leads s P) (hq : ∀ is t, M.Run free s is t → P t → M.Leads t Q) :
    M.Leads s Q := by
  obtain ⟨is, t, hr, hp⟩ := h
  obtain ⟨js, u, hr', hqu⟩ := hq is t hr hp
  exact ⟨is ++ js, u, hr.append hr', hqu⟩

end Machine
end Lib
