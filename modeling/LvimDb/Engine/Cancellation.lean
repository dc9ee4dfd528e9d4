import LvimDb.Engine.Locks

/-!
# Cancelling

A cancel handle belongs to a connection, not to a call, and is used after the call's
lock is given back (server.rs:612-621); a worker looks at its call's status only after
the statement has run (495). So a cancel can reach the statement of another call, and a
call cancelled while it waits still runs. Both are stated with the condition on the
steps of a run under which they do not happen.
-/

namespace LvimDb.Engine
variable {V B : Type}

/-- The call a cancel handler has found, once it is past its lookup. -/
def Task.cancels (task : Task V) : Option CallId :=
  match task.request, task.phase with
  | .cancel c, .found => some c
  | .cancel c, .took _ => some c
  | .cancel c, .reply (.ok _) => some c
  | _, _ => none

def WorkerPhase.ran : WorkerPhase V B → Bool
  | .executing => true
  | .returned _ => true
  | .unlocked _ => true
  | .finished => true
  | .gone => true
  | _ => false

/-- `query.cancel` of the call was answered with success. -/
def Acked (c : CallId) (h : List (Event V B)) : Prop :=
  ∃ id r, .answered id (.cancel c) (.ok r) ∈ h

/-- The call's statement was handed to the driver. -/
def Handed (c : CallId) (h : List (Event V B)) : Prop := ∃ k, .handed c k ∈ h

/-- No statement is handed to the driver after its cancel was answered with success. -/
def CancelledStays (h : List (Event V B)) : Prop :=
  Lib.Justified (fun pre e => ∀ c k, e = .handed c k → ¬ Acked c pre) h

/-- Whatever a cancel interrupts is the statement of its own call. -/
def Isolated (h : List (Event V B)) : Prop :=
  ∀ c k v, .fired c k (some v) ∈ h → v = c

namespace Server
variable {s s' : Server V B}

def ran (s : Server V B) (c : CallId) : Bool := (s.workers c).any (·.phase.ran)

/-! ### A statement runs once -/

theorem ran_work {c d : CallId} {w : Worker V B} (hw : s.workers c = some w)
    (p : WorkerPhase V B) (hp : w.phase.ran = true → p.ran = true) (hd : s.ran d = true) :
    (s.work c w p).ran d = true := by
  by_cases hdc : d = c
  · subst hdc
    simp only [ran, hw, Option.any_some] at hd
    simp only [ran, work_workers, Function.update_self, Option.any_some]
    exact hp hd
  · simpa only [ran, work_workers, Function.update_of_ne hdc] using hd

variable {bld : Build} [BsonCells V B]

theorem ran_step (hs : s.Staged) (h : Step bld s s') {d : CallId} (hd : s.ran d = true) :
    s'.ran d = true := by
  cases h with
  | arrive => exact hd
  | handler t task _ _ h =>
    cases h with
    | numbered k statement _ _ =>
      have hne : d ≠ s.nextCall := by
        rintro rfl
        rw [ran, hs.fresh _ (Nat.le_refl _)] at hd
        cases hd
      simpa only [ran, setTask_workers, setWorker_workers, Function.update_of_ne hne] using hd
    | connected _ enc _ _ _ => cases enc <;> exact hd
    | _ => exact hd
  | worker c w _ hw h =>
    cases h with
    | registered hp => exact ran_work hw _ (by rw [hp]; nofun) hd
    | answered hp => exact ran_work hw _ (by rw [hp]; nofun) hd
    | spawned hp => exact ran_work hw _ (by rw [hp]; nofun) hd
    | locked _ _ _ hp => exact ran_work hw _ (by rw [hp]; nofun) hd
    | armed _ _ hp => exact ran_work hw _ (by rw [hp]; nofun) hd
    | unarmed hp => exact ran_work hw _ (by rw [hp]; nofun) hd
    | handed hp => exact ran_work hw _ (fun _ => rfl) hd
    | returned outcome hp => exact ran_work hw _ (fun _ => rfl) hd
    | unlocked _ outcome _ hp => exact ran_work hw _ (fun _ => rfl) hd
    | finished _ outcome _ _ hp => exact ran_work hw _ (fun _ => rfl) hd
    | gone _ _ hp => exact ran_work hw _ (fun _ => rfl) hd

theorem handed_ran_step (hi : s.Sound) {i : Input V B} (hst : s.step bld i = some s')
    (h : ∀ c k, .handed c k ∈ s.hist → s.ran c = true) (c : CallId) (k : ConnId)
    (hm : .handed c k ∈ s'.hist) : s'.ran c = true := by
  rcases mem_hist_step hst hm with hm | ⟨w, e, rfl, hw, hp, -⟩
  · exact ran_step hi.staged (step_cases hst) (h c k hm)
  · obtain ⟨w', hw', h'⟩ := workerStep_cases hst
    rw [hw] at hw'
    cases hw'
    cases h' with
    | handed _ => simp only [ran, work_workers, Function.update_self, Option.any_some]; rfl
    | registered hp' => rw [hp] at hp'; cases hp'
    | answered hp' => rw [hp] at hp'; cases hp'
    | spawned hp' => rw [hp] at hp'; cases hp'
    | locked _ _ _ hp' => rw [hp] at hp'; cases hp'
    | armed _ _ hp' => rw [hp] at hp'; cases hp'
    | unarmed hp' => rw [hp] at hp'; cases hp'
    | returned _ hp' => rw [hp] at hp'; cases hp'
    | unlocked _ _ _ hp' => rw [hp] at hp'; cases hp'
    | finished _ _ _ _ hp' => rw [hp] at hp'; cases hp'
    | gone _ _ hp' => rw [hp] at hp'; cases hp'

omit [BsonCells V B] in
theorem armed_not_ran {c : CallId} {w : Worker V B} (hw : s.workers c = some w)
    (hp : w.phase = .armed) : s.ran c = false := by
  simp only [ran, hw, Option.any_some, hp]
  rfl

/-! ### Cancelled before it was handed over -/

/-- The step, if it answers a cancel with success, does so for a call already handed over. -/
def AcksHanded (s : Server V B) (i : Input V B) : Prop :=
  ∀ t e id c r, i = .handler t e → s.tasks t = some ⟨id, .cancel c, .reply (.ok r)⟩ →
    Handed c s.hist

structure AckedRan (s : Server V B) : Prop where
  handed : ∀ c k, .handed c k ∈ s.hist → s.ran c = true
  acked : ∀ c, Acked c s.hist → Handed c s.hist
  stays : CancelledStays s.hist

theorem AckedRan.step (h : s.AckedRan) (hi : s.Sound) {i : Input V B} (hg : AcksHanded s i)
    (hst : s.step bld i = some s') : s'.AckedRan := by
  refine ⟨handed_ran_step hi hst h.handed, fun c hc => ?_,
    justified_step hst h.stays fun e hex c k he hack => ?_⟩
  · have old : ∀ {c}, Handed c s.hist → Handed c s'.hist := fun ⟨k, hk⟩ =>
      ⟨k, (hist_grows hst).subset hk⟩
    obtain ⟨id, r, hm⟩ := hc
    rcases mem_hist_step hst hm with hm | ⟨t, e, hi, ht⟩ | ⟨d, w, e, -, -, -, -, hreq, -⟩
    · exact old (h.acked c ⟨id, r, hm⟩)
    · exact old (hg t e id c r hi ht)
    · cases hreq
  · subst he
    obtain ⟨w, e, -, hw, hp, -⟩ := hex
    obtain ⟨k', hk'⟩ := h.acked c hack
    have hran := h.handed c k' hk'
    rw [armed_not_ran hw hp] at hran
    cases hran

theorem run_ackedRan {is : List (Input V B)} (h : (machine bld).Run AcksHanded new is s) :
    s.AckedRan :=
  h.invariant_with Sound AckedRan
    (fun _ _ _ _ hi hst => ⟨hi.staged.step (step_cases hst),
      hi.held.step hi.staged (step_cases hst)⟩)
    (fun _ _ _ hg hi ha hst => ha.step hi hg hst)
    sound_new ⟨nofun, nofun, Lib.justified_nil⟩

/-! ### A call that waits gets its turn -/

/-- The statement is handed over after everything in `h`. -/
def HandedAfter (h : List (Event V B)) (c : CallId) (s : Server V B) : Prop :=
  ∃ k pre, s.hist = .handed c k :: pre ∧ h <:+ pre

theorem armed_hands (hi : s.Sound) {c : CallId} {w : Worker V B} (hw : s.workers c = some w)
    (hp : w.phase = .armed) : (machine bld).Leads s (HandedAfter s.hist c) := by
  obtain ⟨conn, hconn⟩ := hi.held.conn hw
  have hst : s.workerStep c {} = some ((s.note (.handed c w.conn)).work c w .executing) := by
    simp only [workerStep, hw, Option.bind_some, hp, connStep, hconn]
  exact Lib.Machine.leads_step (i := .worker c {}) hst
    (Lib.Machine.leads_here ⟨w.conn, s.hist, rfl, List.suffix_refl _⟩)

theorem locked_hands (hi : s.Sound) {c : CallId} {w : Worker V B} (hw : s.workers c = some w)
    (hp : w.phase = .locked) : (machine bld).Leads s (HandedAfter s.hist c) := by
  obtain ⟨call, hcall⟩ := hi.staged.call hw (by rw [hp]; rfl)
  have hst : s.workerStep c { token := false } = some (s.work c w .armed) := by
    simp only [workerStep, hw, Option.bind_some, hp, callStep, hcall]
    rfl
  exact Lib.Machine.leads_step (i := .worker c { token := false }) hst
    (armed_hands (hi.worker hst) (w := { w with phase := .armed })
      (by simp only [work_workers, Function.update_self]) rfl)

theorem run_hist_grows {is : List (Input V B)}
    (h : (machine bld).Run Lib.Machine.free s is s') : s.hist <:+ s'.hist :=
  h.invariant (fun t => s.hist <:+ t.hist) (fun _ _ _ _ hi hst => hi.trans (hist_grows hst))
    (List.suffix_refl _)

omit [BsonCells V B] in
theorem HandedAfter.weaken {h h' : List (Event V B)} {c : CallId} (hs : h <:+ h')
    (ha : HandedAfter h' c s) : HandedAfter h c s := by
  obtain ⟨k, pre, hh, hp⟩ := ha
  exact ⟨k, pre, hh, hs.trans hp⟩

theorem queued_hands (hi : s.Sound) {c : CallId} {w : Worker V B} (hw : s.workers c = some w)
    (hp : w.phase = .queued) : (machine bld).Leads s (HandedAfter s.hist c) := by
  have hwait : s.holds c = none := by
    simp only [holds, hw, Option.bind_some, hp, WorkerPhase.holds, Bool.false_eq_true, if_false]
  refine (leads_free hi (hi.held.queued c w hw) c hwait).trans fun is t hr hfound => ?_
  obtain ⟨hfree, hsame⟩ := hfound
  have ht := run_sound hr hi
  rw [hw] at hsame
  obtain ⟨conn, hconn⟩ := ht.held.conn hsame
  have hnone : conn.holder = none := by simpa [holderOf, hconn] using hfree
  have hst : t.workerStep c {} =
      some ((t.setConn w.conn { conn with holder := some (.worker c) }).work c w .locked) := by
    simp only [workerStep, hsame, Option.bind_some, hp, connStep, hconn, hnone, if_true]
  refine Lib.Machine.leads_step (i := .worker c {}) hst
    ((locked_hands (ht.worker hst) (c := c) (w := { w with phase := .locked })
      (by simp only [work_workers, Function.update_self]) rfl).trans fun _ u _ hu => ?_)
  exact Lib.Machine.leads_here (hu.weaken (run_hist_grows hr))

theorem answered_hands (hi : s.Sound) {c : CallId} {w : Worker V B} (hw : s.workers c = some w)
    (hp : w.phase = .answered) : (machine bld).Leads s (HandedAfter s.hist c) := by
  have hst : s.workerStep c {} = some (s.work c w .queued) := by
    simp only [workerStep, hw, Option.bind_some, hp]
  exact Lib.Machine.leads_step (i := .worker c {}) hst
    (queued_hands (hi.worker hst) (w := { w with phase := .queued })
      (by simp only [work_workers, Function.update_self]) rfl)

theorem registered_hands (hi : s.Sound) {c : CallId} {w : Worker V B}
    (hw : s.workers c = some w) (hp : w.phase = .registered) :
    (machine bld).Leads s (HandedAfter s.hist c) := by
  have hst : s.workerStep c {} = some (((s.send (.response w.id (.ok (.called c)))).note
      (.answered w.id (.execute w.conn w.statement) (.ok (.called c)))).work c w .answered) := by
    simp only [workerStep, hw, Option.bind_some, hp]
  refine Lib.Machine.leads_step (i := .worker c {}) hst
    ((answered_hands (hi.worker hst) (c := c) (w := { w with phase := .answered })
      (by simp only [work_workers, Function.update_self]) rfl).trans fun _ u _ hu => ?_)
  exact Lib.Machine.leads_here (hu.weaken (List.suffix_cons _ _))

/-- A call that is registered and has not run yet runs in some continuation. -/
theorem waiting_hands (hi : s.Sound) {c : CallId} (hc : s.calls c ≠ none)
    (hran : s.ran c = false) : (machine bld).Leads s (HandedAfter s.hist c) := by
  obtain ⟨w, hw, hnum⟩ : ∃ w, s.workers c = some w ∧ w.phase.isNumbered = false := by
    have hdom := hi.staged.dom c
    rw [Option.isSome_iff_ne_none.mpr hc] at hdom
    cases hw : s.workers c with
    | none =>
      rw [hw] at hdom
      cases hdom
    | some w =>
      rw [hw, Option.any_some] at hdom
      exact ⟨w, rfl, by simpa using hdom⟩
  simp only [ran, hw, Option.any_some] at hran
  cases hp : w.phase with
  | numbered => rw [hp] at hnum; cases hnum
  | registered => exact registered_hands hi hw hp
  | answered => exact answered_hands hi hw hp
  | queued => exact queued_hands hi hw hp
  | locked => exact locked_hands hi hw hp
  | armed => exact armed_hands hi hw hp
  | _ => rw [hp] at hran; cases hran

/-! ### A cancel that succeeds has found its call -/

def CancelsKnown (s : Server V B) : Prop :=
  ∀ t c, (s.tasks t).bind Task.cancels = some c → s.calls c ≠ none

omit [BsonCells V B] in
/-- The task a handler leaves behind is a cancel past its lookup only if it was one before, or
has just found its call. -/
theorem cancels_update {t u : TaskId} {task : Task V} {x : Option (Task V)} {c : CallId}
    (ht : s.tasks t = some task) (hx : s'.tasks = Function.update s.tasks t x)
    (hc : (s'.tasks u).bind Task.cancels = some c)
    (hstep : x.bind Task.cancels = some c → task.cancels = some c ∨ s.calls c ≠ none) :
    (s.tasks u).bind Task.cancels = some c ∨ s.calls c ≠ none := by
  rw [hx] at hc
  by_cases hu : u = t
  · subst hu
    rw [Function.update_self] at hc
    rw [ht]
    exact hstep hc
  · rw [Function.update_of_ne hu] at hc
    exact .inl hc

theorem cancels_handler {t u : TaskId} {task : Task V} {c : CallId} (ht : s.tasks t = some task)
    (h : HandlerStep bld s t task s') (hc : (s'.tasks u).bind Task.cancels = some c) :
    (s.tasks u).bind Task.cancels = some c ∨ s.calls c ≠ none := by
  cases h with
  | replied => exact cancels_update ht rfl hc nofun
  | concluded r _ _ hr =>
    refine cancels_update ht rfl hc fun hx => ?_
    cases hreq : task.request with
    | cancel d =>
      obtain ⟨e, rfl⟩ := hr (by rw [hreq]; rfl)
      simp [Task.cancels, hreq] at hx
    | _ => simp [Task.cancels, hreq] at hx
  | dialed => exact cancels_update ht rfl hc fun hx => by simp [Task.cancels] at hx
  | drawn => exact cancels_update ht rfl hc fun hx => by simp [Task.cancels] at hx
  | inserted => exact cancels_update ht rfl hc fun hx => by simp [Task.cancels] at hx
  | connected _ enc _ _ _ hreq =>
    cases enc <;> exact cancels_update ht rfl hc fun hx => by simp [Task.cancels, hreq] at hx
  | delisted => exact cancels_update ht rfl hc fun hx => by simp [Task.cancels] at hx
  | closed _ _ _ _ hreq =>
    exact cancels_update ht rfl hc fun hx => by simp [Task.cancels, hreq] at hx
  | kept _ _ _ _ hreq =>
    exact cancels_update ht rfl hc fun hx => by simp [Task.cancels, hreq] at hx
  | cloned => exact cancels_update ht rfl hc fun hx => by simp [Task.cancels] at hx
  | locked => exact cancels_update ht rfl hc fun hx => by simp [Task.cancels] at hx
  | unlocked => exact cancels_update ht rfl hc fun hx => by simp [Task.cancels] at hx
  | left _ _ _ _ _ hreq =>
    obtain ⟨op, hreq⟩ := hreq
    exact cancels_update ht rfl hc fun hx => by simp [Task.cancels, hreq] at hx
  | numbered => exact cancels_update ht rfl hc nofun
  | found d call hd _ hcall =>
    refine cancels_update ht rfl hc fun hx => .inr ?_
    cases hreq : task.request with
    | cancel d' =>
      simp only [hreq, Request.call, Option.some.injEq] at hcall
      simp only [Option.bind_some, Task.cancels, hreq, Option.some.injEq] at hx
      rw [← hx, hcall, hd]
      exact Option.some_ne_none _
    | _ => simp [Task.cancels, hreq] at hx
  | missed _ _ _ hreq =>
    obtain ⟨f, n, hreq⟩ := hreq
    exact cancels_update ht rfl hc fun hx => by simp [Task.cancels, hreq] at hx
  | paged _ _ _ _ _ _ answer _ _ hreq =>
    refine cancels_update ht rfl hc fun hx => ?_
    cases answer <;> simp [Task.cancels, hreq] at hx
  | took d call handle hd _ _ hreq =>
    refine cancels_update ht rfl hc fun hx => .inr ?_
    simp only [Option.bind_some, Task.cancels, hreq, Option.some.injEq] at hx
    rw [← hx, hd]
    exact Option.some_ne_none _
  | tookNothing d call hd _ _ hreq =>
    refine cancels_update ht rfl hc fun hx => .inr ?_
    simp only [Option.bind_some, Task.cancels, hreq, Option.some.injEq] at hx
    rw [← hx, hd]
    exact Option.some_ne_none _
  | fired d handle hp hreq =>
    refine cancels_update ht rfl hc fun hx => .inl ?_
    simp only [Option.bind_some, Task.cancels, hreq, Option.some.injEq] at hx
    simp only [Task.cancels, hreq, hp, hx]
  | released _ _ hreq =>
    exact cancels_update ht rfl hc fun hx => by simp [Task.cancels, hreq] at hx

theorem CancelsKnown.step (h : s.CancelsKnown) (hi : s.Sound) (hst : Step bld s s') :
    s'.CancelsKnown := by
  intro u c hc
  refine calls_stay hi.staged hst ?_
  cases hst with
  | arrive id request =>
    by_cases hu : u = s.nextTask
    · subst hu
      simp only [arrive_tasks, Function.update_self, Option.bind_some, Task.cancels] at hc
      cases hc
    · simp only [arrive_tasks, Function.update_of_ne hu] at hc
      exact h u c hc
  | handler t task _ ht hst =>
    rcases cancels_handler ht hst hc with hold | hcall
    · exact h u c hold
    · exact hcall
  | worker d w _ hw hst =>
    cases hst <;> exact h u c hc

theorem run_cancelsKnown {is : List (Input V B)}
    (h : (machine bld).Run Lib.Machine.free new is s) : s.CancelsKnown :=
  h.invariant_with Sound CancelsKnown
    (fun _ _ _ _ hi hst => ⟨hi.staged.step (step_cases hst),
      hi.held.step hi.staged (step_cases hst)⟩)
    (fun _ _ _ _ hi hk hst => hk.step hi (step_cases hst)) sound_new nofun

theorem ran_new {i : Input V B} (hst : s.step bld i = some s') {c : CallId}
    (hc : s'.ran c = true) : s.ran c = true ∨ Handed c s'.hist := by
  have keep : ∀ {d : CallId} {w : Worker V B} {p : WorkerPhase V B} {s₁ : Server V B},
      s.workers d = some w → s₁.workers = s.workers → p.ran = w.phase.ran →
        (s₁.work d w p).ran c = true → s.ran c = true := by
    intro d w p s₁ hw hw₁ hp hc
    by_cases hcd : c = d
    · subst hcd
      simp only [ran, work_workers, Function.update_self, Option.any_some, hp] at hc
      simpa only [ran, hw, Option.any_some] using hc
    · simpa only [ran, work_workers, Function.update_of_ne hcd, hw₁] using hc
  cases step_cases hst with
  | arrive => exact .inl hc
  | handler t task _ _ h =>
    refine .inl ?_
    cases h with
    | numbered k statement _ _ =>
      by_cases hcn : c = s.nextCall
      · subst hcn
        simp only [ran, setTask_workers, setWorker_workers, Function.update_self] at hc
        cases hc
      · simpa only [ran, setTask_workers, setWorker_workers, Function.update_of_ne hcn] using hc
    | connected _ enc _ _ _ => cases enc <;> exact hc
    | _ => exact hc
  | worker d w _ hw h =>
    cases h with
    | handed hp =>
      by_cases hcd : c = d
      · subst hcd
        exact .inr ⟨w.conn, List.mem_cons_self⟩
      · refine .inl ?_
        simpa only [ran, work_workers, note_workers, Function.update_of_ne hcd] using hc
    | registered hp => exact .inl (keep hw rfl (by rw [hp]; rfl) hc)
    | answered hp => exact .inl (keep hw rfl (by rw [hp]; rfl) hc)
    | spawned hp => exact .inl (keep hw rfl (by rw [hp]; rfl) hc)
    | locked _ _ _ hp => exact .inl (keep hw rfl (by rw [hp]; rfl) hc)
    | armed _ _ hp => exact .inl (keep hw rfl (by rw [hp]; rfl) hc)
    | unarmed hp => exact .inl (keep hw rfl (by rw [hp]; rfl) hc)
    | returned _ hp => exact .inl (keep hw rfl (by rw [hp]; rfl) hc)
    | unlocked _ _ _ hp => exact .inl (keep hw rfl (by rw [hp]; rfl) hc)
    | finished _ _ _ _ hp => exact .inl (keep hw rfl (by rw [hp]; rfl) hc)
    | gone _ _ hp => exact .inl (keep hw rfl (by rw [hp]; rfl) hc)

theorem run_ran_handed {is : List (Input V B)}
    (h : (machine bld).Run Lib.Machine.free new is s) (c : CallId) (hc : s.ran c = true) :
    Handed c s.hist :=
  h.invariant_with Sound (fun t => ∀ c, t.ran c = true → Handed c t.hist)
    (fun _ _ _ _ hi hst => ⟨hi.staged.step (step_cases hst),
      hi.held.step hi.staged (step_cases hst)⟩)
    (fun _ _ _ _ _ hr hst c hc => (ran_new hst hc).elim
      (fun hold => (hr c hold).imp fun _ hk => (hist_grows hst).subset hk) id)
    sound_new nofun c hc

/-- Once a cancel has been answered for a call not handed over, the call still runs later. -/
theorem acked_leads {is : List (Input V B)} {i : Input V B}
    (hr : (machine bld).Run Lib.Machine.free new is s) (hst : s.step bld i = some s')
    (hg : ¬ AcksHanded s i) :
    (machine bld).Leads s' fun t => ¬ CancelledStays t.hist := by
  simp only [AcksHanded, not_forall] at hg
  obtain ⟨t, e, id, c, r, rfl, ht, hnot⟩ := hg
  have hst' : (machine bld).step s (.handler t e) = some s' := hst
  have hr' := hr.snoc trivial hst'
  have hi' := run_sound hr' sound_new
  have hfound : s.calls c ≠ none := run_cancelsKnown hr t c (by rw [ht]; rfl)
  have hstep := step_cases hst
  have hlog : s'.hist = .answered id (.cancel c) (.ok r) :: s.hist := by
    simp only [step, handlerStep, ht, Option.bind_some, Option.some.injEq] at hst
    rw [← hst]
    rfl
  have hran : s'.ran c = false := by
    cases hc : s'.ran c with
    | false => rfl
    | true =>
      obtain ⟨k, hk⟩ := run_ran_handed hr' c hc
      rw [hlog] at hk
      exact absurd ⟨k, List.mem_of_ne_of_mem (by simp) hk⟩ hnot
  refine (waiting_hands hi' (calls_stay (run_sound hr sound_new).staged hstep hfound) hran).trans
    fun _ u _ hu => Lib.Machine.leads_here ?_
  obtain ⟨k, pre, hh, hpre⟩ := hu
  intro hj
  refine hj pre _ (by rw [hh]) c k rfl ⟨id, r, hpre.subset ?_⟩
  rw [hlog]
  exact List.mem_cons_self

/-- In a run that answers no cancel before the statement of its call was handed over, no
cancelled statement runs; and a run that does answer one so can be continued until it does. -/
theorem cancelled_call_stays_iff_handed (bld : Build) :
    (∀ (is : List (Input V B)) s, (machine bld).Run AcksHanded new is s →
        CancelledStays s.hist) ∧
      ∀ (is : List (Input V B)) i s s', (machine bld).Run Lib.Machine.free new is s →
        s.step bld i = some s' → ¬ AcksHanded s i →
          (machine bld).Leads s' fun t => ¬ CancelledStays t.hist :=
  ⟨fun _ _ h => (run_ackedRan h).stays, fun _ _ _ _ hr hst hg => acked_leads hr hst hg⟩

/-- `AcksHanded`, as it is computed. -/
def ackHanded (s : Server V B) : Input V B → Bool
  | .handler t _ =>
    match s.tasks t with
    | some ⟨_, .cancel c, .reply (.ok _)⟩ => s.hist.any fun
      | .handed c' _ => c' == c
      | _ => false
    | _ => true
  | _ => true

omit [BsonCells V B] in
theorem acksHanded_of_ackHanded {i : Input V B} (h : s.ackHanded i = true) : AcksHanded s i := by
  rintro t e id c r rfl htask
  simp only [ackHanded, htask] at h
  obtain ⟨e, he, hc⟩ := List.any_eq_true.mp h
  split at hc
  · next c' k =>
    obtain rfl := beq_iff_eq.mp hc
    exact ⟨k, he⟩
  · cases hc

/-- A statement is cancelled while it runs. -/
def cancelOnce : List (Input ℕ ℕ) :=
  [.arrive 1 (.connect ⟨"mysql", []⟩)] ++
    List.replicate 5 (.handler 0 { dial := .ok (true, false) }) ++
    [.arrive 2 (.execute 1 "select sleep(60)")] ++ List.replicate 2 (.handler 1 {}) ++
    List.replicate 6 (.worker 1 {}) ++
    [.arrive 3 (.cancel 1)] ++ List.replicate 4 (.handler 2 {})

theorem cancelled_call_stays_iff_handed_once :
    ∃ s : Server ℕ ℕ, (machine .checked).Run AcksHanded new cancelOnce s ∧ Acked 1 s.hist ∧
      CancelledStays s.hist := by
  have hrun : ∃ s : Server ℕ ℕ, (machine .checked).execWith ackHanded new cancelOnce = some s ∧
      .answered 3 (.cancel 1) (.ok .empty) ∈ s.hist := ⟨_, rfl, List.mem_cons_self⟩
  obtain ⟨s, hexec, hacked⟩ := hrun
  have hgood := Lib.Machine.run_of_execWith (fun _ _ => acksHanded_of_ackHanded) hexec
  exact ⟨s, hgood, ⟨3, .empty, hacked⟩, (cancelled_call_stays_iff_handed .checked).1 _ _ hgood⟩

/-- The first statement runs while the second waits and is cancelled; then the second runs. -/
theorem cancelled_while_queued :
    ∃ (s : Server ℕ ℕ) (pre : List (Event ℕ ℕ)),
      (machine .checked).exec new
        ([.arrive 1 (.connect ⟨"mysql", []⟩)] ++
          List.replicate 5 (.handler 0 { dial := .ok (true, false) }) ++
          [.arrive 2 (.execute 1 "select sleep(60)")] ++ List.replicate 2 (.handler 1 {}) ++
          List.replicate 6 (.worker 1 {}) ++
          [.arrive 3 (.execute 1 "delete from t")] ++ List.replicate 2 (.handler 2 {}) ++
          List.replicate 3 (.worker 2 {}) ++
          [.arrive 4 (.cancel 2)] ++ List.replicate 3 (.handler 3 {}) ++
          List.replicate 2 (.worker 1 {}) ++ List.replicate 3 (.worker 2 {})) = some s ∧
      s.hist = .handed 2 1 :: .answered 4 (.cancel 2) (.ok .empty) :: pre ∧
      ¬ CancelledStays s.hist :=
  ⟨_, _, rfl, rfl, fun hj =>
    hj _ _ (List.suffix_refl _) 2 1 rfl ⟨4, .empty, List.mem_cons_self⟩⟩

/-! ### Cancels and the connection they reach -/

/-- A handle is taken while no other call runs on its connection, and no other call's statement
is handed over while the handle is out. -/
structure CancelAlone (s : Server V B) (i : Input V B) : Prop where
  takes : ∀ t e id c call h v, i = .handler t e → s.tasks t = some ⟨id, .cancel c, .found⟩ →
    s.calls c = some call → call.cancel = some h → s.running h.conn = some v → v = c
  hands : ∀ v e w t id c h, i = .worker v e → s.workers v = some w → w.phase = .armed →
    s.tasks t = some ⟨id, .cancel c, .took h⟩ → h.conn = w.conn → c = v

/-- Every handle that is out would reach its own call or nothing. -/
def Aimed (s : Server V B) : Prop :=
  ∀ t id c h v, s.tasks t = some ⟨id, .cancel c, .took h⟩ → s.running h.conn = some v → v = c

omit [BsonCells V B] in
theorem running_iff (h : s.Held) {k : ConnId} {v : CallId} :
    s.running k = some v ↔ ∃ w, s.workers v = some w ∧ w.phase = .executing ∧ w.conn = k := by
  have hexec : ∀ p : WorkerPhase V B, p.isExecuting = true ↔ p = .executing := by
    intro p
    cases p <;> simp [WorkerPhase.isExecuting]
  constructor
  · intro hr
    unfold running at hr
    split at hr
    · next c hholder =>
      split at hr
      · next hany =>
        cases hr
        cases hw : s.workers v with
        | none =>
          rw [hw] at hany
          cases hany
        | some w =>
          rw [hw, Option.any_some, hexec] at hany
          have hk : s.holderOf k = some (some (.worker v)) := by
            obtain ⟨conn, hconn, hh⟩ := Option.bind_eq_some_iff.mp hholder
            simp only [holderOf, hconn, Option.map_some, hh]
          have hholds := (h.worker k v).mp hk
          simp only [holds, hw, Option.bind_some, Option.ite_none_right_eq_some,
            Option.some.injEq] at hholds
          exact ⟨w, rfl, hany, hholds.2⟩
      · cases hr
    · cases hr
  · rintro ⟨w, hw, hp, rfl⟩
    have hk : s.holderOf w.conn = some (some (.worker v)) :=
      (h.worker w.conn v).mpr (by simp [holds, hw, hp, WorkerPhase.holds])
    obtain ⟨conn, hconn, hh⟩ := Option.map_eq_some_iff.mp hk
    simp only [running, hconn, Option.bind_some, hh, hw, Option.any_some, hp]
    rfl

/-- What runs after a step ran before, or was handed over by the step. -/
theorem executing_step {i : Input V B} (hst : s.step bld i = some s') {v : CallId}
    {w' : Worker V B} (hw' : s'.workers v = some w') (hp' : w'.phase = .executing) :
    (∃ w, s.workers v = some w ∧ w.phase = .executing ∧ w.conn = w'.conn) ∨
      ∃ w e, i = .worker v e ∧ s.workers v = some w ∧ w.phase = .armed ∧ w.conn = w'.conn := by
  cases i with
  | arrive id request =>
    cases hst
    exact .inl ⟨w', hw', hp', rfl⟩
  | handler t e =>
    obtain ⟨task, ht, h⟩ := handlerStep_cases hst
    refine .inl ?_
    cases h with
    | numbered k statement _ _ =>
      by_cases hv : v = s.nextCall
      · subst hv
        simp only [setTask_workers, setWorker_workers, Function.update_self,
          Option.some.injEq] at hw'
        subst hw'
        cases hp'
      · simp only [setTask_workers, setWorker_workers, Function.update_of_ne hv] at hw'
        exact ⟨w', hw', hp', rfl⟩
    | connected _ enc _ _ _ => cases enc <;> exact ⟨w', hw', hp', rfl⟩
    | _ => exact ⟨w', hw', hp', rfl⟩
  | worker d e =>
    obtain ⟨w, hw, h⟩ := workerStep_cases hst
    by_cases hv : v = d
    · subst hv
      cases h with
      | handed hp =>
        simp only [work_workers, Function.update_self, Option.some.injEq] at hw'
        exact .inr ⟨w, e, rfl, hw, hp, by rw [← hw']⟩
      | _ =>
        simp only [work_workers, Function.update_self, Option.some.injEq] at hw'
        subst hw'
        cases hp'
    · refine .inl ⟨w', ?_, hp', rfl⟩
      cases h <;> simpa [Function.update_of_ne hv] using hw'

/-- A handle that is out was out before the step, or was taken by it. -/
theorem took_step {i : Input V B} (hst : s.step bld i = some s') {t : TaskId} {id : ReqId}
    {c : CallId} {h : CancelHandle} (ht' : s'.tasks t = some ⟨id, .cancel c, .took h⟩) :
    s.tasks t = some ⟨id, .cancel c, .took h⟩ ∨
      ∃ e call, i = .handler t e ∧ s.tasks t = some ⟨id, .cancel c, .found⟩ ∧
        s.calls c = some call ∧ call.cancel = some h := by
  have other : ∀ {u : TaskId} {x : Option (Task V)}, s'.tasks = Function.update s.tasks u x →
      x ≠ some ⟨id, .cancel c, .took h⟩ → s.tasks t = some ⟨id, .cancel c, .took h⟩ := by
    intro u x hx hne
    rw [hx] at ht'
    by_cases hu : t = u
    · subst hu
      rw [Function.update_self] at ht'
      exact absurd ht' hne
    · rwa [Function.update_of_ne hu] at ht'
  cases i with
  | arrive rid request =>
    cases hst
    exact .inl (other (u := s.nextTask) (x := some ⟨rid, request, .start⟩) rfl (by simp))
  | handler u e =>
    obtain ⟨task, ht, hh⟩ := handlerStep_cases hst
    cases hh with
    | took d call handle hd hcan hp hreq =>
      by_cases hu : t = u
      · subst hu
        obtain ⟨tid, treq, tphase⟩ := task
        simp only [goto_tasks, Function.update_self, Option.some.injEq, Task.mk.injEq,
          Phase.took.injEq] at ht'
        obtain ⟨rfl, hreq', rfl⟩ := ht'
        cases hp
        cases hreq
        cases hreq'
        exact .inr ⟨e, call, rfl, ht, hd, hcan⟩
      · refine .inl ?_
        simpa only [goto_tasks, setCall_tasks, Function.update_of_ne hu] using ht'
    | connected _ enc _ _ _ _ => cases enc <;> exact .inl (other rfl (by simp))
    | paged _ _ _ _ _ _ answer => cases answer <;> exact .inl (other rfl (by simp))
    | _ => exact .inl (other rfl (by simp))
  | worker d e =>
    obtain ⟨w, hw, hh⟩ := workerStep_cases hst
    cases hh <;> exact .inl ht'

theorem Aimed.step (ha : s.Aimed) (hi : s.Sound) {i : Input V B} (hg : CancelAlone s i)
    (hst : s.step bld i = some s') : s'.Aimed := by
  intro t id c h v ht' hrun'
  have hi' : s'.Held := hi.held.step hi.staged (step_cases hst)
  obtain ⟨w', hw', hp', hk'⟩ := (running_iff hi').mp hrun'
  rcases executing_step hst hw' hp' with ⟨w, hw, hp, hk⟩ | ⟨w, e, rfl, hw, hp, hk⟩
  · have hrun : s.running h.conn = some v := (running_iff hi.held).mpr ⟨w, hw, hp, hk.trans hk'⟩
    rcases took_step hst ht' with ht | ⟨e, call, rfl, ht, hc, hcan⟩
    · exact ha t id c h v ht hrun
    · exact hg.takes t e id c call h v rfl ht hc hcan hrun
  · rcases took_step hst ht' with ht | ⟨e', call, hi, -⟩
    · exact (hg.hands v e w t id c h rfl hw hp ht (hk'.symm.trans hk.symm)).symm
    · cases hi

theorem run_isolated {is : List (Input V B)} (h : (machine bld).Run CancelAlone new is s) :
    s.Aimed ∧ Isolated s.hist :=
  h.invariant_with Sound (fun t => t.Aimed ∧ Isolated t.hist)
    (fun _ _ _ _ hi hst => ⟨hi.staged.step (step_cases hst),
      hi.held.step hi.staged (step_cases hst)⟩)
    (fun t i u hg hi ha hst => by
      refine ⟨ha.1.step hi hg hst, fun c k v hm => ?_⟩
      rcases mem_hist_step hst hm with hm | ⟨task, e, id, -, ht, hv⟩
      · exact ha.2 c k v hm
      · exact ha.1 task id c ⟨k⟩ v ht hv.symm)
    sound_new ⟨nofun, nofun⟩

/-- A handle that is out while another call runs reaches that call at the next step. -/
theorem misfires {t : TaskId} {id : ReqId} {c v : CallId} {h : CancelHandle}
    (ht : s.tasks t = some ⟨id, .cancel c, .took h⟩) (hrun : s.running h.conn = some v)
    (hv : v ≠ c) : ∃ j u, s.step bld j = some u ∧ ¬ Isolated u.hist := by
  refine ⟨.handler t {}, (s.note (.fired c h.conn (s.running h.conn))).conclude t
    ⟨id, .cancel c, .took h⟩ (.ok .empty), ?_, fun hiso => hv (hiso c h.conn v ?_)⟩
  · simp only [step, handlerStep, ht, Option.bind_some, dispatchStep, cancelStep]
  · rw [conclude_hist, note_hist, hrun]
    exact List.mem_cons_self

theorem not_alone_misfires (hi : s.Sound) {i : Input V B} (hst : s.step bld i = some s')
    (hg : ¬ CancelAlone s i) : ∃ j u, s'.step bld j = some u ∧ ¬ Isolated u.hist := by
  have hi' : s'.Held := hi.held.step hi.staged (step_cases hst)
  by_cases htakes : ∀ t e id c call h v, i = .handler t e →
      s.tasks t = some ⟨id, .cancel c, .found⟩ → s.calls c = some call → call.cancel = some h →
        s.running h.conn = some v → v = c
  · have hhands : ¬ ∀ v e w t id c h, i = .worker v e → s.workers v = some w → w.phase = .armed →
        s.tasks t = some ⟨id, .cancel c, .took h⟩ → h.conn = w.conn → c = v :=
      fun hhands => hg ⟨htakes, hhands⟩
    push Not at hhands
    obtain ⟨v, e, w, t, id, c, h, rfl, hw, hp, ht, hk, hne⟩ := hhands
    obtain ⟨conn, hconn⟩ := hi.held.conn hw
    have heq : s' = (s.note (.handed v w.conn)).work v w .executing := by
      simp only [step, workerStep, hw, Option.bind_some, hp, connStep, hconn,
        Option.some.injEq] at hst
      exact hst.symm
    have ht' : s'.tasks t = some ⟨id, .cancel c, .took h⟩ := by
      rw [heq]
      exact ht
    have hw' : s'.workers v = some { w with phase := .executing } := by
      rw [heq, work_workers, Function.update_self]
    exact misfires ht' ((running_iff hi').mpr ⟨_, hw', rfl, hk.symm⟩) (Ne.symm hne)
  · push Not at htakes
    obtain ⟨t, e, id, c, call, h, v, rfl, ht, hc, hcan, hrun, hne⟩ := htakes
    have heq : s' = (s.setCall c call.cancelTake.2).goto t ⟨id, .cancel c, .found⟩ (.took h) := by
      have hcan' : call.cancelTake.1 = some h := hcan
      simp only [step, handlerStep, ht, Option.bind_some, dispatchStep, cancelStep, hc, hcan',
        Option.some.injEq] at hst
      exact hst.symm
    have ht' : s'.tasks t = some ⟨id, .cancel c, .took h⟩ := by
      rw [heq, goto_tasks, Function.update_self]
    have hrun' : s'.running h.conn = some v := by
      rw [heq]
      exact hrun
    exact misfires ht' hrun' hne

/-- In a run in which every cancel acts alone on its connection no cancel interrupts another
call; and after a step that lets a cancel and another call meet, one more step makes it. -/
theorem cancel_isolated_iff_alone (bld : Build) :
    (∀ (is : List (Input V B)) s, (machine bld).Run CancelAlone new is s → Isolated s.hist) ∧
      ∀ (is : List (Input V B)) i s s', (machine bld).Run Lib.Machine.free new is s →
        s.step bld i = some s' → ¬ CancelAlone s i →
          ∃ j u, s'.step bld j = some u ∧ ¬ Isolated u.hist :=
  ⟨fun _ _ h => (run_isolated h).2,
    fun _ _ _ _ hr hst hg => not_alone_misfires (run_sound hr sound_new) hst hg⟩

/-- `CancelAlone`, as it is computed. -/
def alone (s : Server V B) : Input V B → Bool
  | .arrive .. => true
  | .handler t _ =>
    match s.tasks t with
    | some ⟨_, .cancel c, .found⟩ =>
      ((s.calls c).bind Call.cancel).all fun h => (s.running h.conn).all (· == c)
    | _ => true
  | .worker v _ =>
    match s.workers v with
    | some ⟨_, k, _, .armed⟩ => (List.range s.nextTask).all fun t =>
      match s.tasks t with
      | some ⟨_, .cancel c, .took h⟩ => h.conn != k || c == v
      | _ => true
    | _ => true

omit [BsonCells V B] in
theorem cancelAlone_of_alone (hi : s.Held) {i : Input V B} (h : s.alone i = true) :
    CancelAlone s i := by
  constructor
  · rintro t e id c call handle v rfl htask hcall hcancel hrunning
    simpa [alone, htask, hcall, hcancel, hrunning] using h
  · rintro v e ⟨_, k, _, _⟩ t id c handle rfl hworker rfl htask rfl
    simp only [alone, hworker, List.all_eq_true, List.mem_range] at h
    simpa [htask] using h t (hi.task_lt htask)

theorem cancel_isolated_iff_alone_once :
    ∃ s : Server ℕ ℕ, (machine .checked).Run CancelAlone new cancelOnce s ∧
      .fired 1 1 (some 1) ∈ s.hist ∧ Isolated s.hist := by
  have hrun : ∃ s : Server ℕ ℕ, (machine .checked).execWith alone new cancelOnce = some s ∧
      .fired 1 1 (some 1) ∈ s.hist :=
    ⟨_, rfl, List.mem_cons_of_mem _ List.mem_cons_self⟩
  obtain ⟨s, hexec, hfired⟩ := hrun
  have hgood := Lib.Machine.run_of_execWith_known Sound
    (fun _ _ _ hi hst => run_sound (.cons trivial hst (.nil _)) hi)
    (fun _ _ hi => cancelAlone_of_alone hi.held) sound_new hexec
  exact ⟨s, hgood, hfired, (cancel_isolated_iff_alone .checked).1 _ _ hgood⟩

/-- The cancel of the first statement takes its handle, the statement ends, and the handle
reaches the second statement. -/
theorem cancel_reaches_next_statement :
    ∃ s : Server ℕ ℕ,
      (machine .checked).exec new
        ([.arrive 1 (.connect ⟨"mysql", []⟩)] ++
          List.replicate 5 (.handler 0 { dial := .ok (true, false) }) ++
          [.arrive 2 (.execute 1 "select 1")] ++ List.replicate 2 (.handler 1 {}) ++
          List.replicate 6 (.worker 1 {}) ++
          [.arrive 3 (.cancel 1)] ++ List.replicate 2 (.handler 2 {}) ++
          List.replicate 2 (.worker 1 {}) ++
          [.arrive 4 (.execute 1 "update t set a = 1")] ++ List.replicate 2 (.handler 3 {}) ++
          List.replicate 6 (.worker 2 {}) ++ [.handler 2 {}]) = some s ∧
      .fired 1 1 (some 2) ∈ s.hist ∧ ¬ Isolated s.hist :=
  ⟨_, rfl, List.mem_cons_self, fun h => absurd (h 1 1 2 List.mem_cons_self) (by decide)⟩

end Server
end LvimDb.Engine
