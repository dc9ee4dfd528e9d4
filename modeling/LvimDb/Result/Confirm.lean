import LvimDb.Lib.History
import LvimDb.Result.Frame

/-!
# The two steps of a row write

A write is previewed, its statement is shown, and only a yes performs it. The plan is
captured by the preview; the connection is read again by the second step.
-/

namespace LvimDb.Result
open Engine (ConnId CallId CallStatus)
open Lib (Justified)

variable {V : Type}

/-- What is applied was previewed on the same connection, and its statement was answered yes;
every preview has a number of its own. -/
def TwoSteps (pre : List (Event V)) : Event V → Prop
  | .applied on plan => ∃ n statement target, .previewed n on plan target ∈ pre ∧
      .returned n statement ∈ pre ∧ .accepted n statement ∈ pre
  | .previewed n _ _ _ => ∀ on plan target, .previewed n on plan target ∉ pre
  | _ => True

namespace Dock
variable (env : Env V) (s : Dock V)

/-- A dialog is answered yes while the dock is on the connection of its preview. -/
def SameConn : Input V → Prop
  | .answer n (.answer true) =>
    match s.waiting[n]? with
    | some (.writeDialog _ on _ _ _) => ∀ c ∈ s.conn, c.id = on
    | _ => True
  | _ => True

instance (i : Input V) : Decidable (s.SameConn i) := by
  unfold SameConn
  rcases i with _ | _ <;> (try dsimp only) <;> try infer_instance
  rename_i n r
  rcases r with _ | _ <;> (try dsimp only) <;> try infer_instance
  rename_i yes
  rcases yes with _ | _ <;> (try dsimp only) <;> try infer_instance
  rcases s.waiting[n]? with _ | c
  · infer_instance
  · rcases c with _ | _ <;> infer_instance

/-- A preview that was sent, with the statement it returned. -/
def Returned (n : ℕ) (on : ConnId) (plan : Plan V) (statement : String) (target : Target V) : Prop :=
  .previewed n on plan target ∈ s.hist ∧ .returned n statement ∈ s.hist

structure Vetted : Prop where
  hist : Justified TwoSteps s.hist
  bound : ∀ n on plan target, .previewed n on plan target ∈ s.hist → n < s.next
  previews : ∀ n on plan target, .preview n on plan target ∈ s.waiting →
    .previewed n on plan target ∈ s.hist
  asks : ∀ n on plan statement target, .askWrite n on plan statement target ∈ s.queue →
    s.Returned n on plan statement target
  dialogs : ∀ n on plan statement target, .writeDialog n on plan statement target ∈ s.waiting →
    s.Returned n on plan statement target

variable {env s}

theorem vetted_new : (new : Dock V).Vetted where
  hist := Lib.justified_nil
  bound := fun _ _ _ _ h => (List.not_mem_nil h).elim
  previews := fun _ _ _ _ h => (List.not_mem_nil h).elim
  asks := fun _ _ _ _ _ h => (List.not_mem_nil h).elim
  dialogs := fun _ _ _ _ _ h => (List.not_mem_nil h).elim

theorem Returned.tell {n : ℕ} {on : ConnId} {plan : Plan V} {statement : String}
    {target : Target V} (h : s.Returned n on plan statement target) (e : Event V) :
    (s.tell e).Returned n on plan statement target :=
  ⟨List.mem_cons_of_mem _ h.1, List.mem_cons_of_mem _ h.2⟩

theorem Vetted.tell {e : Event V} (h : s.Vetted) (he : TwoSteps s.hist e)
    (hb : ∀ n on plan target, e = .previewed n on plan target → n < s.next) : (s.tell e).Vetted where
  hist := h.hist.cons he
  bound := fun n on plan target hm => by
    rcases List.mem_cons.mp hm with heq | hm
    · exact hb n on plan target heq.symm
    · exact h.bound n on plan target hm
  previews := fun n on plan target hm => List.mem_cons_of_mem _ (h.previews n on plan target hm)
  asks := fun n on plan statement target hm => (h.asks n on plan statement target hm).tell e
  dialogs := fun n on plan statement target hm => (h.dialogs n on plan statement target hm).tell e

theorem Vetted.wait {c : Cont V} (h : s.Vetted)
    (hp : ∀ n on plan target, c = .preview n on plan target →
      .previewed n on plan target ∈ s.hist)
    (hd : ∀ n on plan statement target, c = .writeDialog n on plan statement target →
      s.Returned n on plan statement target) : (s.wait c).Vetted where
  hist := h.hist
  bound := h.bound
  previews := fun n on plan target hm => by
    rcases List.mem_append.mp hm with hm | hm
    · exact h.previews n on plan target hm
    · exact hp n on plan target (List.mem_singleton.mp hm).symm
  asks := h.asks
  dialogs := fun n on plan statement target hm => by
    rcases List.mem_append.mp hm with hm | hm
    · exact h.dialogs n on plan statement target hm
    · exact hd n on plan statement target (List.mem_singleton.mp hm).symm

theorem Vetted.later {k : Task V} (h : s.Vetted)
    (hk : ∀ n on plan statement target, k = .askWrite n on plan statement target →
      s.Returned n on plan statement target) : (s.later k).Vetted where
  hist := h.hist
  bound := h.bound
  previews := h.previews
  asks := fun n on plan statement target hm => by
    rcases List.mem_append.mp hm with hm | hm
    · exact h.asks n on plan statement target hm
    · exact hk n on plan statement target (List.mem_singleton.mp hm).symm
  dialogs := h.dialogs

theorem twoSteps_other {pre : List (Event V)} {e : Event V} (he : e.part ≠ .writes) :
    TwoSteps pre e := by
  cases e with
  | applied on plan => exact absurd rfl he
  | previewed n on plan target => exact absurd rfl he
  | _ => trivial

/-- All but the steps of a row write. -/
def unwritten : List Part :=
  [.plain, .data, .pages, .runs, .starts, .counts, .edits, .locks, .inserts, .docs]

theorem not_writes {p : Part} (h : p ∈ unwritten) : p ≠ .writes := by
  rintro rfl
  exact absurd h (by decide)

theorem keeps_vetted (V : Type) : Keeps unwritten (Vetted : Dock V → Prop) where
  plain := by decide
  face := fun _ h => ⟨h.hist, h.bound, h.previews, h.asks, h.dialogs⟩
  pend := fun _ h => ⟨h.hist, h.bound, h.previews, h.asks, h.dialogs⟩
  tell := fun he h => h.tell (twoSteps_other (not_writes he)) fun _ _ _ _ heq => by
    subst heq
    exact absurd rfl (not_writes he)
  wait := fun hc h => by
    refine h.wait (fun _ _ _ _ heq => ?_) fun _ _ _ _ _ heq => ?_
    · subst heq
      exact absurd rfl (not_writes hc)
    · subst heq
      exact absurd rfl (not_writes hc)
  later := fun hk h => h.later fun _ _ _ _ _ heq => by
    subst heq
    exact absurd rfl (not_writes hk)
  next := fun hn h =>
    ⟨h.hist, fun n on plan target hm => (h.bound n on plan target hm).trans_le hn, h.previews,
      h.asks, h.dialogs⟩
  source := fun _ h => ⟨h.hist, h.bound, h.previews, h.asks, h.dialogs⟩
  amend := fun _ h => ⟨h.hist, h.bound, h.previews, h.asks, h.dialogs⟩
  addEntry := fun h => ⟨h.hist, h.bound, h.previews, h.asks, h.dialogs⟩
  data := fun _ h => ⟨h.hist, h.bound, h.previews, h.asks, h.dialogs⟩
  page := fun _ h => ⟨h.hist, h.bound, h.previews, h.asks, h.dialogs⟩
  count := fun _ _ h => ⟨h.hist, h.bound, h.previews, h.asks, h.dialogs⟩
  register := fun _ _ h => ⟨h.hist, h.bound, h.previews, h.asks, h.dialogs⟩
  bind := fun _ h => ⟨h.hist, h.bound, h.previews, h.asks, h.dialogs⟩

theorem Vetted.dropped (h : s.Vetted) (n : ℕ) : (s.drop n).Vetted where
  hist := h.hist
  bound := h.bound
  previews := fun m on plan target hm =>
    h.previews m on plan target (List.mem_of_mem_eraseIdx hm)
  asks := h.asks
  dialogs := fun m on plan statement target hm =>
    h.dialogs m on plan statement target (List.mem_of_mem_eraseIdx hm)

theorem Vetted.writeRow (set key : List (String × V)) (delete insert : Bool) (target : Target V)
    (h : s.Vetted) : (s.writeRow set key delete insert target).Vetted := by
  unfold Dock.writeRow
  split
  · rename_i c o hc ho
    dsimp only
    have hnext : ({ s with next := s.next + 1 } : Dock V).Vetted :=
      (keeps_vetted V).next (Nat.le_succ _) h
    have htell := hnext.tell (e := .previewed s.next c.id ⟨o.source, key, set, delete, insert⟩ target)
      (fun on plan target hm => absurd (h.bound _ _ _ _ hm) (Nat.lt_irrefl _))
      fun n _ _ _ heq => by
        cases heq
        exact Nat.lt_succ_self _
    exact htell.wait (fun _ _ _ _ heq => by
      cases heq
      exact List.mem_cons_self ..) fun _ _ _ _ _ heq => by cases heq
  · exact h

theorem Vetted.applyRow (h : s.Vetted) {n : ℕ} {on : ConnId} {plan : Plan V} {statement : String}
    {target : Target V} (hr : s.Returned n on plan statement target)
    (ha : .accepted n statement ∈ s.hist) (hc : ∀ c ∈ s.conn, c.id = on) :
    (s.applyRow plan statement target).Vetted := by
  unfold Dock.applyRow
  split
  · rename_i c hconn
    have hid : c.id = on := hc c hconn
    have hadd : (s.addEntry ⟨c, statement, none⟩).Vetted := (keeps_vetted V).addEntry h
    have htell : ((s.addEntry ⟨c, statement, none⟩).tell (.applied c.id plan)).Vetted :=
      hadd.tell ⟨n, statement, target, hid ▸ hr.1, hr.2, ha⟩ fun _ _ _ _ heq => by cases heq
    exact htell.wait (fun _ _ _ _ heq => by cases heq) fun _ _ _ _ _ heq => by cases heq
  · exact h

theorem Vetted.perform (h : s.Vetted) {k : Task V}
    (hk : ∀ n on plan statement target, k = .askWrite n on plan statement target →
      s.Returned n on plan statement target) : (s.perform env k).Vetted := by
  have hr : Part.runs ∈ unwritten := by decide
  cases k with
  | render => exact (keeps_vetted V).render h
  | failed done => exact (keeps_vetted V).finish hr h done false
  | landed offset done => exact (keeps_vetted V).land hr h offset done
  | guarded q t =>
    exact (keeps_vetted V).run hr (by decide) (by decide) (by decide) (by decide) h _ _ _ _
  | askRun q t => exact (keeps_vetted V).wait hr h
  | askWrite n on plan statement target =>
    refine h.wait (fun _ _ _ _ heq => by cases heq) fun _ _ _ _ _ heq => ?_
    cases heq
    exact hk n on plan statement target rfl
  | refresh on target =>
    exact (keeps_vetted V).refresh hr (by decide) (by decide) (by decide) (by decide) h on target

theorem Vetted.resumed {n : ℕ} {c : Cont V} {r : Reply V} {t : Dock V} (h : s.Vetted)
    (hg : s.SameConn (.answer n r)) (hc : s.waiting[n]? = some c)
    (hr : Resumed env (s.drop n) c r t) : t.Vetted := by
  have hd : (s.drop n).Vetted := h.dropped n
  have hruns : Part.runs ∈ unwritten := by decide
  have hdocs : Part.docs ∈ unwritten := by decide
  have hmem : c ∈ s.waiting := List.mem_of_getElem? hc
  by_cases hdoc : c.part = .docs
  · exact (keeps_vetted V).answeredDoc hdocs (by decide) hr hdoc hd
  by_cases hcount : c.part = .counts
  · exact (keeps_vetted V).answeredCount (by decide) hr hcount hd
  by_cases hedit : c.part = .edits ∨ c.part = .locks
  · exact (keeps_vetted V).answeredEdit (by decide) (by decide) ((keeps_vetted V).replaceDoc hdocs hd)
      (fun set key delete insert target h' => h'.writeRow set key delete insert target) hr hedit hd
  cases hr with
  | returned m on plan target text =>
    have hp := h.previews m on plan target hmem
    have htell : ((s.drop n).tell (.returned m text)).Vetted :=
      hd.tell trivial fun _ _ _ _ heq => by cases heq
    refine htell.later fun _ _ _ _ _ heq => ?_
    cases heq
    exact ⟨List.mem_cons_of_mem _ hp, List.mem_cons_self ..⟩
  | accepted m on plan statement target =>
    have hret : (s.drop n).Returned m on plan statement target :=
      h.dialogs m on plan statement target hmem
    have htell : ((s.drop n).tell (.accepted m statement)).Vetted :=
      hd.tell trivial fun _ _ _ _ heq => by cases heq
    simp only [SameConn, hc] at hg
    exact htell.applyRow (hret.tell _) (List.mem_cons_self ..) hg
  | turned cid offset p => exact (keeps_vetted V).turn (by decide) hd cid p
  | registered k q offset done cid hu =>
    exact (keeps_vetted V).enroll hruns (by decide) (by decide) hd hu k q offset done
  | settled k offset done st hst => exact (keeps_vetted V).settle hruns hd k hst offset done
  | judged => exact (keeps_vetted V).judged hruns hd _ _ _
  | confirmed q t =>
    have htell : ((s.drop n).tell (.confirmed t.n)).Vetted :=
      hd.tell trivial fun _ _ _ _ heq => by cases heq
    exact (keeps_vetted V).run hruns (by decide) (by decide) (by decide) (by decide) htell _ _ _ _
  | declined => exact (keeps_vetted V).finish hruns hd _ _
  | refused | gone => exact hd
  | _ => simp [Cont.part] at hdoc hcount hedit

theorem Vetted.step {i : Input V} {t : Dock V} (h : s.Vetted) (hg : s.SameConn i)
    (hst : s.step env i = some t) : t.Vetted := by
  have hruns : Part.runs ∈ unwritten := by decide
  have hdata : Part.data ∈ unwritten := by decide
  have hcounts : Part.counts ∈ unwritten := by decide
  refine (keeps_vetted V).step (by decide) h ?_ ?_ ?_ ?_ ?_ ?_ hst
  · intro q notify _
    exact (keeps_vetted V).runGuarded hruns h q notify
  · intro k _
    exact (keeps_vetted V).openCached hdata hcounts h k
  · intro _
    exact (keeps_vetted V).rerunCall hruns (by decide) hdata (by decide) hcounts h
  · intro hed
    exact (keeps_vetted V).edited (by decide) (by decide) (by decide)
      (fun set key delete insert target h' => h'.writeRow set key delete insert target) hed h hst
  · intro k ks _ hq
    have hks : ({ s with queue := ks } : Dock V).Vetted :=
      ⟨h.hist, h.bound, h.previews, fun n on plan statement target hm =>
        h.asks n on plan statement target (hq ▸ List.mem_cons_of_mem _ hm), h.dialogs⟩
    refine hks.perform fun n on plan statement target heq => ?_
    subst heq
    exact h.asks n on plan statement target (hq ▸ List.mem_cons_self ..)
  · rintro n r c rfl hc hr
    exact h.resumed hg hc hr

theorem applied_as_previewed {is : List (Input V)}
    (h : (machine env).Run SameConn new is s) : Justified TwoSteps s.hist :=
  (h.invariant Vetted (fun _ _ _ hg hi hst => hi.step hg hst) vetted_new).hist

/-- What was last sent to be applied. -/
def lastApplied (s : Dock V) : Option (ConnId × Plan V) :=
  match s.hist with
  | .applied on plan :: _ => some (on, plan)
  | _ => none

/-- A row is removed, up to the dialog with the statement. -/
def removal : List (Input ℕ) :=
  .ensureOpen :: browsing (browseOn connA "t") 1 [[7, 8]] ++
    [.deleteRow, .answer 0 (.columns [⟨"id", "integer", true⟩]), .answer 0 (.statement "delete"),
      .tick]

def removalPlan : Plan ℕ := ⟨⟨none, "t"⟩, [("id", 7)], [], true, false⟩

theorem applied_as_previewed_one_delete :
    ∃ s, (machine tableEnv).Run SameConn new (removal ++ [.answer 0 (.answer true)]) s ∧
      s.lastApplied = some (1, removalPlan) ∧ Justified TwoSteps s.hist := by
  let check := fun (s : Dock ℕ) (i : Input ℕ) => decide (s.SameConn i)
  have hsome : ((machine tableEnv).execWith check new (removal ++ [.answer 0 (.answer true)])).map
      lastApplied = some (some (1, removalPlan)) := by decide
  obtain ⟨s, hs, hlast⟩ := Option.map_eq_some_iff.mp hsome
  have hrun : (machine tableEnv).Run SameConn new (removal ++ [.answer 0 (.answer true)]) s :=
    Lib.Machine.run_of_execWith (fun _ _ => of_decide_eq_true) hs
  exact ⟨s, hrun, hlast, applied_as_previewed hrun⟩

/-- Another statement is run on another connection before the dialog is answered. -/
def movedConn : List (Input ℕ) :=
  removal ++ [.run ⟨connB, "select 1", none⟩ false, .tick, .answer 0 (.answer true)]

/-- The connections of all previews. -/
def previewedOn (s : Dock V) : List ConnId :=
  s.hist.filterMap fun
    | .previewed _ on _ _ => some on
    | _ => none

theorem applied_on_other_connection :
    ∃ s, (machine tableEnv).exec new movedConn = some s ∧ s.lastApplied = some (2, removalPlan) ∧
      s.previewedOn = [1] ∧ ¬ Justified TwoSteps s.hist := by
  obtain ⟨s, hs, _⟩ := (machine tableEnv).exists_run new movedConn (by decide)
  have hview : ((machine tableEnv).exec new movedConn).map (fun s => (s.lastApplied, s.previewedOn)) =
      some (some (2, removalPlan), [1]) := rfl
  rw [hs] at hview
  simp only [Option.map_some, Option.some.injEq, Prod.mk.injEq] at hview
  obtain ⟨hlast, hon⟩ := hview
  refine ⟨s, hs, hlast, hon, fun h => ?_⟩
  unfold lastApplied at hlast
  split at hlast
  · rename_i on plan rest hhist
    cases hlast
    have hsuffix : (.applied 2 removalPlan :: rest) <:+ s.hist := by rw [hhist]
    obtain ⟨n, statement, target, hp, _⟩ := h rest _ hsuffix
    have hmem : 2 ∈ s.previewedOn :=
      List.mem_filterMap.mpr ⟨_, hhist ▸ List.mem_cons_of_mem _ hp, rfl⟩
    rw [hon] at hmem
    exact absurd hmem (by decide)
  · cases hlast

end Dock
end LvimDb.Result
