import LvimDb.Engine.Cancellation

/-!
# A cancel that fails

`Server::cancel` marks the call cancelled and takes its handle before it calls the driver
(server.rs:612-621), and puts neither back when the driver fails. A worker stores a handle
once, before its statement runs, so the call has no handle from then on; and the worker drops
what the statement brings (495-498).
-/

namespace LvimDb.Engine
variable {V B : Type} {bld : Build}

/-- The worker is past the point where it stores the handle. -/
def WorkerPhase.past : WorkerPhase V B → Bool
  | .armed => true
  | .executing => true
  | .returned _ => true
  | .unlocked _ => true
  | .finished => true
  | .gone => true
  | _ => false

namespace Call

/-- What a cancel reads and writes. -/
def hold (call : Call V B) : CallStatus × Option CancelHandle := (call.status, call.cancel)

variable [BsonCells V B] {call call' : Call V B}

theorem page_hold {fuel from_ n : ℕ} {answer : Outcome (PageAnswer V)}
    (h : call.page bld fuel from_ n = some (answer, call')) : call'.hold = call.hold :=
  page_same (fun _ _ _ _ => rfl) h

omit [BsonCells V B] in
theorem hold_eq (h : call'.hold = call.hold) :
    call'.status = call.status ∧ call'.cancel = call.cancel :=
  Prod.mk.injEq _ _ _ _ ▸ h

end Call

namespace Server
variable {s s' : Server V B} [BsonCells V B]

/-- What a step does to one call's status and handle. -/
inductive HandleMove (s s' : Server V B) (c : CallId) : Prop
  | kept : (s'.calls c).map Call.hold = (s.calls c).map Call.hold →
      (∀ w, s.workers c = some w → s'.workers c = some w) → HandleMove s s' c
  | taken (call : Call V B) : s.calls c = some call → s'.calls c = some call.cancelTake.2 →
      s'.workers c = s.workers c → HandleMove s s' c
  | registered : s.calls c = none → s'.calls c = some .new → HandleMove s s' c
  | passed (w : Worker V B) (p : WorkerPhase V B) : s.workers c = some w →
      s'.workers c = some { w with phase := p } → s'.calls c = s.calls c →
      (w.phase.past = true → p.past = true) → (w.phase.isOver = false → p.isOver = false) →
      HandleMove s s' c
  | armed (w : Worker V B) (call : Call V B) : s.workers c = some w → w.phase = .locked →
      s'.workers c = some { w with phase := .armed } → s.calls c = some call →
      s'.calls c = some { call with cancel := some ⟨w.conn⟩ } → HandleMove s s' c
  | finished (w : Worker V B) (call : Call V B) (outcome) (ms : ℕ) : s.workers c = some w →
      s'.workers c = some { w with phase := .finished } → s.calls c = some call →
      s'.calls c = some (call.finish ms outcome).1 → HandleMove s s' c

theorem handleMove_handler (hs : s.Staged) {t : TaskId} {task : Task V} (c : CallId)
    (h : HandlerStep bld s t task s') : HandleMove s s' c := by
  cases h with
  | numbered k statement _ _ =>
    refine .kept rfl fun w hw => ?_
    have hc : c ≠ s.nextCall := by
      rintro rfl
      rw [hs.fresh _ (Nat.le_refl _)] at hw
      cases hw
    simpa only [setTask_workers, setWorker_workers, Function.update_of_ne hc] using hw
  | paged d call call' fuel from_ n answer hd _ _ hp =>
    refine .kept ?_ fun w hw => hw
    by_cases hc : c = d
    · subst hc
      simp only [setTask_calls, note_calls, setCall_calls, Function.update_self, hd,
        Option.map_some, Call.page_hold hp]
    · simp only [setTask_calls, note_calls, setCall_calls, Function.update_of_ne hc]
  | took d call handle hd =>
    by_cases hc : c = d
    · subst hc
      exact .taken call hd (by simp only [goto_calls, setCall_calls, Function.update_self]) rfl
    · exact .kept (by simp only [goto_calls, setCall_calls, Function.update_of_ne hc]) fun _ hw => hw
  | tookNothing d call hd =>
    by_cases hc : c = d
    · subst hc
      exact .taken call hd (by simp only [conclude_calls, setCall_calls, Function.update_self]) rfl
    · exact .kept (by simp only [conclude_calls, setCall_calls, Function.update_of_ne hc])
        fun _ hw => hw
  | connected k enc tun spec _ => cases enc <;> exact .kept rfl fun _ hw => hw
  | _ => exact .kept rfl fun _ hw => hw

theorem handleMove_worker (hs : s.Staged) {d : CallId} {w : Worker V B} (c : CallId)
    (hw : s.workers d = some w) (h : WorkerStep s d w s') : HandleMove s s' c := by
  by_cases hc : c = d
  · subst hc
    have at_ : ∀ {x : Worker V B}, Function.update s.workers c (some x) c = some x := fun {x} =>
      Function.update_self c (some x) s.workers
    cases h with
    | registered hp =>
      have hdom := hs.dom c
      rw [hw, Option.any_some, hp] at hdom
      refine .registered (Option.isSome_eq_false_iff.mp hdom |> Option.isNone_iff_eq_none.mp) ?_
      simp only [work_calls, setMapped_calls, setCall_calls, Function.update_self]
    | answered hp => exact .passed w .answered hw at_ rfl (by rw [hp]; nofun) fun _ => rfl
    | spawned hp => exact .passed w .queued hw at_ rfl (by rw [hp]; nofun) fun _ => rfl
    | locked conn _ _ hp => exact .passed w .locked hw at_ rfl (by rw [hp]; nofun) fun _ => rfl
    | armed call hcall hp =>
      exact .armed w call hw hp at_ hcall (by simp only [work_calls, setCall_calls,
        Function.update_self])
    | unarmed hp => exact .passed w .armed hw at_ rfl (by rw [hp]; nofun) fun _ => rfl
    | handed hp => exact .passed w .executing hw at_ rfl (fun _ => rfl) fun _ => rfl
    | returned outcome hp => exact .passed w (.returned outcome) hw at_ rfl (fun _ => rfl) fun _ => rfl
    | unlocked conn outcome _ hp =>
      exact .passed w (.unlocked outcome) hw at_ rfl (fun _ => rfl) fun _ => rfl
    | finished call outcome ms hcall hp =>
      exact .finished w call outcome ms hw at_ hcall (by simp only [work_calls, note_calls,
        send_calls, setCall_calls, Function.update_self])
    | gone conn _ hp =>
      exact .passed w .gone hw at_ rfl (fun _ => rfl) (by rw [hp]; nofun)
  · refine .kept ?_ fun w' hw' => ?_
    · cases h <;> simp [Function.update_of_ne hc]
    · cases h <;> simpa [Function.update_of_ne hc] using hw'

theorem handleMove (hs : s.Staged) (c : CallId) (h : Step bld s s') : HandleMove s s' c := by
  cases h with
  | arrive => exact .kept rfl fun _ hw => hw
  | handler t task _ _ h => exact handleMove_handler hs c h
  | worker d w _ hw h => exact handleMove_worker hs c hw h

/-! ### A handle that is taken is gone -/

/-- A call that has a handle is not over, and its worker has stored what it ever will. -/
def Holding (s : Server V B) (c : CallId) : Prop :=
  ∀ call, s.calls c = some call → call.cancel ≠ none →
    ∃ w, s.workers c = some w ∧ w.phase.past = true ∧ w.phase.isOver = false

/-- A cancelled call without a handle whose worker will store none. -/
def Lost (s : Server V B) (c : CallId) : Prop :=
  (∃ w, s.workers c = some w ∧ w.phase.past = true) ∧
    ∃ call, s.calls c = some call ∧ call.status = .cancelled ∧ call.cancel = none

omit [BsonCells V B] in
theorem holding_new (c : CallId) : (new : Server V B).Holding c := fun _ hc => by cases hc

theorem Holding.move {c : CallId} (h : s.Holding c) (hm : HandleMove s s' c) : s'.Holding c := by
  intro call' hc' hcan'
  cases hm with
  | kept hcalls hworkers =>
    rw [hc', Option.map_some] at hcalls
    obtain ⟨call, hc, hhold⟩ := Option.map_eq_some_iff.mp hcalls.symm
    obtain ⟨-, hcan⟩ := Call.hold_eq hhold
    obtain ⟨w, hw, hp⟩ := h call hc (by rwa [hcan])
    exact ⟨w, hworkers w hw, hp⟩
  | taken call hc hcall =>
    rw [hc'] at hcall
    cases hcall
    exact absurd rfl hcan'
  | registered _ hcall =>
    rw [hc'] at hcall
    cases hcall
    exact absurd rfl hcan'
  | passed w p hw hw' hcalls hpast hover =>
    rw [hcalls] at hc'
    obtain ⟨w₀, hw₀, hp, ho⟩ := h call' hc' hcan'
    rw [hw] at hw₀
    cases hw₀
    exact ⟨_, hw', hpast hp, hover ho⟩
  | armed w call hw hp hw' => exact ⟨_, hw', rfl, rfl⟩
  | finished w call outcome ms hw hw' hc hcall =>
    rw [hc'] at hcall
    cases hcall
    refine absurd ?_ hcan'
    unfold Call.finish
    split
    · rfl
    · cases outcome <;> rfl

theorem Lost.move {c : CallId} (h : s.Lost c) (hm : HandleMove s s' c) : s'.Lost c := by
  obtain ⟨⟨w, hw, hp⟩, call, hc, hstatus, hcan⟩ := h
  cases hm with
  | kept hcalls hworkers =>
    rw [hc, Option.map_some, Option.map_eq_some_iff] at hcalls
    obtain ⟨call', hc', hhold⟩ := hcalls
    obtain ⟨hstatus', hcan'⟩ := Call.hold_eq hhold
    exact ⟨⟨w, hworkers w hw, hp⟩, call', hc', hstatus'.trans hstatus, hcan'.trans hcan⟩
  | taken call₀ hc₀ hcall hworkers =>
    rw [hc] at hc₀
    cases hc₀
    refine ⟨⟨w, hworkers.trans hw, hp⟩, _, hcall, ?_, rfl⟩
    simp [Call.cancelTake, hstatus]
  | registered hnone =>
    rw [hc] at hnone
    cases hnone
  | passed w₀ p hw₀ hw' hcalls hpast =>
    rw [hw] at hw₀
    cases hw₀
    exact ⟨⟨_, hw', hpast hp⟩, call, hcalls.trans hc, hstatus, hcan⟩
  | armed w₀ call₀ hw₀ hp₀ =>
    rw [hw] at hw₀
    cases hw₀
    rw [hp₀] at hp
    cases hp
  | finished w₀ call₀ outcome ms hw₀ hw' hc₀ hcall =>
    rw [hc] at hc₀
    cases hc₀
    refine ⟨⟨_, hw', rfl⟩, _, hcall, ?_, ?_⟩
    · simp [Call.finish, hstatus]
    · simp [Call.finish, hstatus]

theorem run_lost {is : List (Input V B)} (h : (machine bld).Run Lib.Machine.free s is s')
    (hs : s.Staged) {c : CallId} (hl : s.Lost c) : s'.Lost c :=
  h.invariant_with Staged (Lost · c) (fun _ _ _ _ hs hst => hs.step (step_cases hst))
    (fun _ _ _ _ hs hl hst => hl.move (handleMove hs c (step_cases hst))) hs hl

theorem run_holding {is : List (Input V B)} (h : (machine bld).Run Lib.Machine.free new is s)
    (c : CallId) : s.Holding c :=
  h.invariant_with Staged (Holding · c) (fun _ _ _ _ hs hst => hs.step (step_cases hst))
    (fun _ _ _ _ hs hl hst => hl.move (handleMove hs c (step_cases hst))) staged_new
    (holding_new c)

/-! ### A driver that fails -/

/-- The call is not as it was found: it is cancelled, it has no handle, and no page is ever
answered with a row of it. -/
def Undone (bld : Build) (before : Call V B) (s : Server V B) (c : CallId) : Prop :=
  ∃ call, s.calls c = some call ∧ ¬ (call.status = before.status ∧ call.cancel = before.cancel) ∧
    call.status = .cancelled ∧ call.cancel = none ∧
    ∀ fuel from_ n, call.page bld fuel from_ n = some (.err "query was cancelled", call)

theorem Lost.undone {c : CallId} {before : Call V B} (h : s.Lost c) (hb : before.cancel ≠ none) :
    s.Undone bld before c := by
  obtain ⟨-, call, hc, hstatus, hcan⟩ := h
  refine ⟨call, hc, ?_, hstatus, hcan, fun fuel from_ n => ?_⟩
  · rintro ⟨-, hsame⟩
    exact hb (hsame.symm.trans hcan)
  · simp only [Call.page, hstatus]

/-- A cancel that finds a call without a handle succeeds; one that finds a handle calls the
driver, and where that fails the call is undone for good. -/
theorem failed_cancel_undoes {is : List (Input V B)} {s₁ : Server V B} {t : TaskId} {id : ReqId}
    {c : CallId} {before : Call V B} {e : Env V B}
    (hr : (machine bld).Run Lib.Machine.free new is s)
    (ht : s.tasks t = some ⟨id, .cancel c, .found⟩) (hc : s.calls c = some before)
    (hst : s.step bld (.handler t e) = some s₁) :
    (before.cancel = none → s₁.tasks t = some ⟨id, .cancel c, .reply (.ok .empty)⟩) ∧
      ∀ h, before.cancel = some h → s₁.tasks t = some ⟨id, .cancel c, .took h⟩ ∧
        ∀ js s₂ e₂ err s₃, (machine bld).Run Lib.Machine.free s₁ js s₂ →
          s₂.tasks t = some ⟨id, .cancel c, .took h⟩ → e₂.driver = .error err →
          s₂.step bld (.handler t e₂) = some s₃ →
          s₃.tasks t = some ⟨id, .cancel c, .reply (.error err)⟩ ∧
            ∀ ks u, (machine bld).Run Lib.Machine.free s₃ ks u → u.Undone bld before c := by
  have hstep := step_cases hst
  simp only [step, handlerStep, ht, Option.bind_some, dispatchStep, cancelStep, hc] at hst
  refine ⟨fun hnone => ?_, fun h hsome => ?_⟩
  · simp only [Call.cancelTake, hnone, Option.some.injEq] at hst
    rw [← hst]
    simp only [conclude_tasks, Function.update_self]
  · simp only [Call.cancelTake, hsome, Option.some.injEq] at hst
    refine ⟨?_, fun js s₂ e₂ err s₃ hjs ht₂ herr hst₂ => ?_⟩
    · rw [← hst]
      simp only [goto_tasks, Function.update_self]
    · have hi := run_alive hr alive_new
      obtain ⟨w, hw, hp, ho⟩ := run_holding hr c before hc (by rw [hsome]; exact Option.some_ne_none h)
      -- a call whose worker is not over is running or cancelled
      have hlife : before.status = .running ∨ before.status = .cancelled := by
        have hl := hi.life c
        unfold Life at hl
        rw [if_neg (by simp [isOver, hw, ho])] at hl
        exact hl.2 before hc
      have hlost : s₁.Lost c := by
        rw [← hst]
        refine ⟨⟨w, hw, hp⟩, before.cancelTake.2, ?_, ?_, rfl⟩
        · simp only [goto_calls, setCall_calls, Function.update_self]
          rfl
        · rcases hlife with hl | hl <;> simp [Call.cancelTake, hl]
      have hstaged := hi.staged.step hstep
      have hlost₂ := run_lost hjs hstaged hlost
      have hstaged₂ : s₂.Staged :=
        hjs.invariant Staged (fun _ _ _ _ hs hst => hs.step (step_cases hst)) hstaged
      have hstep₂ := step_cases hst₂
      refine ⟨?_, fun ks u hks => ?_⟩
      · simp only [step, handlerStep, ht₂, Option.bind_some, dispatchStep, cancelStep, herr,
          Option.some.injEq] at hst₂
        rw [← hst₂]
        simp only [conclude_tasks, Function.update_self]
      · have hlost₃ := hlost₂.move (handleMove hstaged₂ c hstep₂)
        exact (run_lost hks (hstaged₂.step hstep₂) hlost₃).undone
          (by rw [hsome]; exact Option.some_ne_none h)

/-- A statement at work on the driver, and a cancel that has found its call. -/
def cancelling : List (Input ℕ ℕ) :=
  [.arrive 1 (.connect ⟨"postgres", []⟩)] ++
    List.replicate 5 (.handler 0 { dial := .ok (true, false) }) ++
    [.arrive 2 (.execute 1 "select 7")] ++ List.replicate 2 (.handler 1 {}) ++
    List.replicate 6 (.worker 1 {}) ++ [.arrive 3 (.cancel 1), .handler 2 {}]

theorem failed_cancel_undoes_running :
    ∃ (s s₁ : Server ℕ ℕ) (before : Call ℕ ℕ), (machine .checked).exec new cancelling = some s ∧
      s.calls 1 = some before ∧ before.hold = (.running, some ⟨1⟩) ∧
      s.step .checked (.handler 2 {}) = some s₁ ∧
      ((before.cancel = none → s₁.tasks 2 = some ⟨3, .cancel 1, .reply (.ok .empty)⟩) ∧
        ∀ h, before.cancel = some h → s₁.tasks 2 = some ⟨3, .cancel 1, .took h⟩ ∧
          ∀ js s₂ e₂ err s₃, (machine .checked).Run Lib.Machine.free s₁ js s₂ →
            s₂.tasks 2 = some ⟨3, .cancel 1, .took h⟩ → e₂.driver = .error err →
            s₂.step .checked (.handler 2 e₂) = some s₃ →
            s₃.tasks 2 = some ⟨3, .cancel 1, .reply (.error err)⟩ ∧
              ∀ ks u, (machine .checked).Run Lib.Machine.free s₃ ks u →
                u.Undone .checked before 1) := by
  obtain ⟨s, hs, hr⟩ := (machine .checked).exists_run new cancelling rfl
  have hs' := hs
  cases hs
  exact ⟨_, _, _, hs', rfl, rfl, rfl, failed_cancel_undoes (e := {}) hr rfl rfl rfl⟩

/-- The driver cannot be reached for the cancel, and the statement ends with a row: the call is
cancelled, and its page is refused. -/
theorem failing_driver_loses_rows :
    ∃ s₁ s₂ : Server ℕ ℕ, (machine .checked).exec new cancelling = some s₁ ∧
      (s₁.calls 1).map Call.hold = some (.running, some ⟨1⟩) ∧
      (machine .checked).exec s₁
        ([.handler 2 {}, .handler 2 { driver := .error "timed out" }, .handler 2 {}] ++
          List.replicate 4 (.worker 1 { fetched := .ok (.buffered [] [[7]] none) }) ++
          [.arrive 4 (.page 1 0 200)] ++ List.replicate 3 (.handler 3 { fuel := 2 })) = some s₂ ∧
      .answered 3 (.cancel 1) (.error "timed out") ∈ s₂.hist ∧
      s₂.hist.head? = some (.answered 4 (.page 1 0 200) (.error "query was cancelled")) ∧
      (s₂.calls 1).map Call.hold = some (.cancelled, none) := by
  refine ⟨_, _, rfl, rfl, rfl, ?_, rfl, rfl⟩
  simp

end Server
end LvimDb.Engine
