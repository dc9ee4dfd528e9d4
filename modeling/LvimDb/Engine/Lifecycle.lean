import LvimDb.Engine.Steps

/-!
# The life of a call

Seen from one call a step of the engine does one of four things (`CallMove`): it
leaves what the call reports alone, registers it, cancels it, or ends its worker. A
call leaves `running` once, its worker sends one `query.state`, and that state is
the one every later page reports.
-/

namespace LvimDb.Engine
variable {V B : Type} {bld : Build}

def WorkerPhase.isNumbered : WorkerPhase V B → Bool
  | .numbered => true
  | _ => false

def WorkerPhase.isOver : WorkerPhase V B → Bool
  | .finished => true
  | .gone => true
  | _ => false

namespace Call

/-- What a call answers a page with, its rows apart. -/
def report (call : Call V B) : CallStatus × Option String × Option ℕ :=
  (call.status, call.error, call.affected)

variable [BsonCells V B] {call call' : Call V B}

/-- What a page reads of a call besides its rows it leaves. -/
theorem pulls_same {R : Type} {g : Call V B → R}
    (hg : ∀ (c : Call V B) stream buffer exhausted,
      g { c with stream := stream, buffer := buffer, exhausted := exhausted } = g c)
    (bld : Build) (call : Call V B) (need k : ℕ) : g (call.pulls bld need k).2 = g call := by
  induction k generalizing call with
  | zero => rfl
  | succ k ih =>
    simp only [pulls]
    split
    · rfl
    · split
      · rfl
      · split
        · exact hg _ _ _ _
        · exact hg _ _ _ _
        · exact (ih _).trans (hg _ _ _ _)
        · exact (ih _).trans (hg _ _ _ _)

theorem page_same {R : Type} {g : Call V B → R}
    (hg : ∀ (c : Call V B) stream buffer exhausted,
      g { c with stream := stream, buffer := buffer, exhausted := exhausted } = g c)
    {fuel from_ n : ℕ} {answer : Outcome (PageAnswer V)}
    (h : call.page bld fuel from_ n = some (answer, call')) : g call' = g call := by
  have hpulls : ∀ need l c, call.pulls bld need fuel = (l, c) → g c = g call := by
    intro need l c hp
    have hr := pulls_same hg bld call need fuel
    rwa [hp] at hr
  simp only [page] at h
  split at h
  · cases h
    rfl
  · cases h
    rfl
  · cases h
    rfl
  · split at h
    · cases h
      rfl
    · split at h
      · cases h
      · next hp =>
        cases h
        exact hpulls _ _ _ hp
      · next hp =>
        cases h
        exact hpulls _ _ _ hp
      · next hp =>
        cases h
        exact hpulls _ _ _ hp

theorem page_report {fuel from_ n : ℕ} {answer : Outcome (PageAnswer V)}
    (h : call.page bld fuel from_ n = some (answer, call')) : call'.report = call.report :=
  page_same (fun _ _ _ _ => rfl) h

end Call

def Event.noteOf (c : CallId) : Event V B → Option StateNote
  | .stated d n => if d = c then some n else none
  | _ => none

namespace Server

def isOver (s : Server V B) (c : CallId) : Bool := (s.workers c).any (·.phase.isOver)

/-- The `query.state` notifications sent for a call, newest first. -/
def notes (s : Server V B) (c : CallId) : List StateNote := s.hist.filterMap (Event.noteOf c)

/-! ### Calls and workers come together -/

structure Staged (s : Server V B) : Prop where
  fresh : ∀ c, s.nextCall ≤ c → s.workers c = none
  dom : ∀ c, (s.calls c).isSome = (s.workers c).any (fun w => !w.phase.isNumbered)

variable {s s' : Server V B}

theorem staged_new : (new : Server V B).Staged := ⟨fun _ _ => rfl, fun _ => rfl⟩

theorem Staged.setCall (hs : s.Staged) {c : CallId} {call : Call V B} (hc : s.calls c = some call)
    (call' : Call V B) : (s.setCall c call').Staged := by
  refine ⟨hs.fresh, fun d => ?_⟩
  by_cases hd : d = c
  · subst hd
    have hdom := hs.dom d
    rw [hc] at hdom
    simp only [setCall_calls, setCall_workers, Function.update_self]
    exact hdom
  · simpa only [setCall_calls, setCall_workers, Function.update_of_ne hd] using hs.dom d

/-- A worker that goes on, past the registration of its call. -/
theorem Staged.work (hs : s.Staged) {c : CallId} {w : Worker V B} (hw : s.workers c = some w)
    (p : WorkerPhase V B) (hp : p.isNumbered = w.phase.isNumbered) : (s.work c w p).Staged := by
  refine ⟨fun d hd => ?_, fun d => ?_⟩
  · have hdc : d ≠ c := by
      rintro rfl
      rw [hs.fresh d hd] at hw
      cases hw
    simpa only [work_workers, Function.update_of_ne hdc] using hs.fresh d hd
  · by_cases hd : d = c
    · subst hd
      have hdom := hs.dom d
      rw [hw] at hdom
      simpa only [work_workers, work_calls, Function.update_self, Option.any_some, hp] using hdom
    · simpa only [work_workers, work_calls, Function.update_of_ne hd] using hs.dom d

theorem over_work {c d : CallId} {w : Worker V B} (hw : s.workers c = some w)
    (p : WorkerPhase V B) (hp : p.isOver = w.phase.isOver) : (s.work c w p).isOver d = s.isOver d := by
  by_cases hd : d = c
  · subst hd
    simp only [isOver, work_workers, Function.update_self, Option.any_some, hp, hw]
  · simp only [isOver, work_workers, Function.update_of_ne hd]

variable [BsonCells V B]

theorem Staged.handler (hs : s.Staged) {t : TaskId} {task : Task V}
    (h : HandlerStep bld s t task s') : s'.Staged := by
  cases h with
  | numbered k statement _ _ =>
    refine ⟨fun c hc => ?_, fun c => ?_⟩
    · have hne : c ≠ s.nextCall := by
        rintro rfl
        exact absurd hc (Nat.not_succ_le_self _)
      simp only [setTask_workers, setWorker_workers, Function.update_of_ne hne]
      exact hs.fresh c (Nat.le_of_succ_le hc)
    · by_cases hc : c = s.nextCall
      · subst hc
        have hdom := hs.dom s.nextCall
        rw [hs.fresh _ (Nat.le_refl _)] at hdom
        simp only [setTask_workers, setTask_calls, setWorker_workers, setWorker_calls,
          Function.update_self]
        exact hdom
      · simpa only [setTask_workers, setTask_calls, setWorker_workers, setWorker_calls,
          Function.update_of_ne hc] using hs.dom c
  | paged c call call' _ _ _ _ hc =>
    have h1 := hs.setCall hc call'
    exact ⟨h1.fresh, h1.dom⟩
  | took c call h hc =>
    have h1 := hs.setCall hc call.cancelTake.2
    exact ⟨h1.fresh, h1.dom⟩
  | tookNothing c call hc =>
    have h1 := hs.setCall hc call.cancelTake.2
    exact ⟨h1.fresh, h1.dom⟩
  | connected k enc tun spec _ => cases enc <;> exact ⟨hs.fresh, hs.dom⟩
  | _ => exact ⟨hs.fresh, hs.dom⟩

theorem Staged.worker (hs : s.Staged) {c : CallId} {w : Worker V B} (hw : s.workers c = some w)
    (h : WorkerStep s c w s') : s'.Staged := by
  cases h with
  | registered hp =>
    have hfresh : ∀ d, s.nextCall ≤ d → d ≠ c := by
      rintro d hd rfl
      rw [hs.fresh d hd] at hw
      cases hw
    refine ⟨fun d hd => ?_, fun d => ?_⟩
    · simpa only [work_workers, setMapped_workers, setCall_workers,
        Function.update_of_ne (hfresh d hd)] using hs.fresh d hd
    · by_cases hd : d = c
      · subst hd
        simp only [work_workers, work_calls, setMapped_calls, setCall_calls, Function.update_self]
        rfl
      · simpa only [work_workers, work_calls, setMapped_calls, setMapped_workers, setCall_calls,
          setCall_workers, Function.update_of_ne hd] using hs.dom d
  | armed call hc hp =>
    exact (hs.setCall hc _).work hw .armed (by rw [hp]; rfl)
  | finished call outcome ms hc hp =>
    have h1 := (hs.setCall hc (call.finish ms outcome).1).work hw .finished (by rw [hp]; rfl)
    exact ⟨h1.fresh, h1.dom⟩
  | answered hp =>
    have h1 := hs.work hw .answered (by rw [hp]; rfl)
    exact ⟨h1.fresh, h1.dom⟩
  | spawned hp => exact hs.work hw .queued (by rw [hp]; rfl)
  | locked conn _ _ hp =>
    have h1 := hs.work hw .locked (by rw [hp]; rfl)
    exact ⟨h1.fresh, h1.dom⟩
  | unarmed hp => exact hs.work hw .armed (by rw [hp]; rfl)
  | handed hp =>
    have h1 := hs.work hw .executing (by rw [hp]; rfl)
    exact ⟨h1.fresh, h1.dom⟩
  | returned outcome hp => exact hs.work hw _ (by rw [hp]; rfl)
  | unlocked conn outcome _ hp =>
    have h1 := hs.work hw (.unlocked outcome) (by rw [hp]; rfl)
    exact ⟨h1.fresh, h1.dom⟩
  | gone conn _ hp =>
    have h1 := hs.work hw .gone (by rw [hp]; rfl)
    exact ⟨h1.fresh, h1.dom⟩

theorem Staged.step (hs : s.Staged) (h : Step bld s s') : s'.Staged := by
  cases h with
  | arrive => exact ⟨hs.fresh, hs.dom⟩
  | handler t task _ _ h => exact hs.handler h
  | worker c w _ hw h => exact hs.worker hw h

/-! ### One call at a time -/

inductive CallMove (s s' : Server V B) (c : CallId) : Prop
  | kept : (s'.calls c).map Call.report = (s.calls c).map Call.report → s'.isOver c = s.isOver c →
      s'.notes c = s.notes c → CallMove s s' c
  | registered : s.calls c = none → s'.calls c = some .new → s'.isOver c = false →
      s'.notes c = s.notes c → CallMove s s' c
  | cancelled (call : Call V B) : s.calls c = some call → s'.calls c = some call.cancelTake.2 →
      s'.isOver c = s.isOver c → s'.notes c = s.notes c → CallMove s s' c
  | finished (call : Call V B) (outcome) (ms : ℕ) : s.calls c = some call → s.isOver c = false →
      s'.calls c = some (call.finish ms outcome).1 → s'.isOver c = true →
      s'.notes c = (call.finish ms outcome).2 :: s.notes c → CallMove s s' c

theorem callMove_handler (hs : s.Staged) {t : TaskId} {task : Task V} (c : CallId)
    (h : HandlerStep bld s t task s') : CallMove s s' c := by
  cases h with
  | numbered k statement _ _ =>
    refine .kept rfl ?_ rfl
    by_cases hc : c = s.nextCall
    · subst hc
      simp only [isOver, setTask_workers, setWorker_workers, Function.update_self, Option.any_some,
        hs.fresh _ (Nat.le_refl _)]
      rfl
    · simp only [isOver, setTask_workers, setWorker_workers, Function.update_of_ne hc]
  | paged d call call' fuel from_ n answer hd _ _ hp =>
    refine .kept ?_ rfl rfl
    by_cases hc : c = d
    · subst hc
      simp only [setTask_calls, note_calls, setCall_calls, Function.update_self, hd,
        Option.map_some, Call.page_report hp]
    · simp only [setTask_calls, note_calls, setCall_calls, Function.update_of_ne hc]
  | took d call handle hd =>
    by_cases hc : c = d
    · subst hc
      exact .cancelled call hd (by simp only [goto_calls, setCall_calls, Function.update_self])
        rfl rfl
    · exact .kept (by simp only [goto_calls, setCall_calls, Function.update_of_ne hc]) rfl rfl
  | tookNothing d call hd =>
    by_cases hc : c = d
    · subst hc
      exact .cancelled call hd (by simp only [conclude_calls, setCall_calls, Function.update_self])
        rfl rfl
    · exact .kept (by simp only [conclude_calls, setCall_calls, Function.update_of_ne hc]) rfl rfl
  | connected k enc tun spec _ => cases enc <;> exact .kept rfl rfl rfl
  | _ => exact .kept rfl rfl rfl

theorem callMove_worker (hs : s.Staged) {d : CallId} {w : Worker V B} (c : CallId)
    (hw : s.workers d = some w) (h : WorkerStep s d w s') : CallMove s s' c := by
  cases h with
  | registered hp =>
    by_cases hc : c = d
    · subst hc
      have hdom := hs.dom c
      rw [hw, Option.any_some, hp] at hdom
      refine .registered (Option.not_isSome_iff_eq_none.mp (by rw [hdom]; exact Bool.false_ne_true)) ?_ ?_ rfl
      · simp only [work_calls, setMapped_calls, setCall_calls, Function.update_self]
      · simp only [isOver, work_workers, Function.update_self]
        rfl
    · refine .kept ?_ ?_ rfl
      · simp only [work_calls, setMapped_calls, setCall_calls, Function.update_of_ne hc]
      · simp only [isOver, work_workers, setMapped_workers, setCall_workers,
          Function.update_of_ne hc]
  | finished call outcome ms hcall hp =>
    by_cases hc : c = d
    · subst hc
      refine .finished call outcome ms hcall ?_ ?_ ?_ ?_
      · simp only [isOver, hw, Option.any_some, hp]
        rfl
      · simp only [work_calls, note_calls, send_calls, setCall_calls, Function.update_self]
      · simp only [isOver, work_workers, Function.update_self]
        rfl
      · simp only [notes, work_hist, note_hist, send_hist, setCall_hist]
        exact List.filterMap_cons_some (if_pos rfl)
    · refine .kept ?_ ?_ ?_
      · simp only [work_calls, note_calls, send_calls, setCall_calls, Function.update_of_ne hc]
      · simp only [isOver, work_workers, note_workers, send_workers, setCall_workers,
          Function.update_of_ne hc]
      · simp only [notes, work_hist, note_hist, send_hist, setCall_hist]
        exact List.filterMap_cons_none (if_neg (Ne.symm hc))
  | armed call hcall hp =>
    refine .kept ?_ ?_ rfl
    · by_cases hc : c = d
      · subst hc
        simp only [work_calls, setCall_calls, Function.update_self, hcall]
        rfl
      · simp only [work_calls, setCall_calls, Function.update_of_ne hc]
    · exact over_work (s := s.setCall d _) hw .armed (by rw [hp]; rfl)
  | answered hp => exact .kept rfl (over_work hw .answered (by rw [hp]; rfl)) rfl
  | spawned hp => exact .kept rfl (over_work hw .queued (by rw [hp]; rfl)) rfl
  | locked conn _ _ hp => exact .kept rfl (over_work hw .locked (by rw [hp]; rfl)) rfl
  | unarmed hp => exact .kept rfl (over_work hw .armed (by rw [hp]; rfl)) rfl
  | handed hp => exact .kept rfl (over_work hw .executing (by rw [hp]; rfl)) rfl
  | returned outcome hp => exact .kept rfl (over_work hw (.returned outcome) (by rw [hp]; rfl)) rfl
  | unlocked conn outcome _ hp =>
    exact .kept rfl (over_work hw (.unlocked outcome) (by rw [hp]; rfl)) rfl
  | gone conn _ hp => exact .kept rfl (over_work hw .gone (by rw [hp]; rfl)) rfl

theorem callMove (hs : s.Staged) (c : CallId) (h : Step bld s s') : CallMove s s' c := by
  cases h with
  | arrive => exact .kept rfl rfl rfl
  | handler t task _ _ h => exact callMove_handler hs c h
  | worker d w _ hw h => exact callMove_worker hs c hw h

theorem calls_stay (hs : s.Staged) (h : Step bld s s') {c : CallId} (hc : s.calls c ≠ none) :
    s'.calls c ≠ none := by
  cases callMove hs c h with
  | kept hcall =>
    intro hnone
    rw [hnone, Option.map_none, eq_comm, Option.map_eq_none_iff] at hcall
    exact hc hcall
  | registered hnone => exact absurd hnone hc
  | cancelled call _ hcall => rw [hcall]; exact Option.some_ne_none _
  | finished call _ _ _ _ hcall => rw [hcall]; exact Option.some_ne_none _

end Server

/-! ### What the notification says -/

/-- A notification that says what the call says. -/
structure Told (call : Call V B) (n : StateNote) : Prop where
  left : call.status ≠ .running
  state : n.state = call.status
  failed : call.status = .failed → ∃ e, n.error = some e ∧ call.error = some e
  done : call.status = .done → n.affected = call.affected

theorem Told.of_report {call call' : Call V B} {n : StateNote} (h : Told call n)
    (hr : call'.report = call.report) : Told call' n := by
  simp only [Call.report, Prod.mk.injEq] at hr
  obtain ⟨hs, he, ha⟩ := hr
  refine ⟨by rw [hs]; exact h.left, by rw [hs]; exact h.state, ?_, ?_⟩
  · rw [hs, he]
    exact h.failed
  · rw [hs, ha]
    exact h.done

theorem Told.cancelTake {call : Call V B} {n : StateNote} (h : Told call n) :
    Told call.cancelTake.2 n :=
  h.of_report (by simp only [Call.report, Call.cancelTake, h.left, if_false])

variable [BsonCells V B]

theorem told_finish (ms : ℕ) (outcome : Except String (ResultStream V B)) (call : Call V B) :
    Told (call.finish ms outcome).1 (call.finish ms outcome).2 := by
  simp only [Call.finish]
  split
  · next hc => exact ⟨by simp [hc], hc.symm, by simp [hc], by simp [hc]⟩
  · cases outcome with
    | ok stream => exact ⟨by simp, rfl, by simp, fun _ => rfl⟩
    | error e => exact ⟨by simp, rfl, fun _ => ⟨e, rfl, rfl⟩, by simp⟩

/-- The answer of a page that reports what the notification said. A call that is done
answers from its stream: with rows, or with the error the stream itself gave. -/
def Reports (bld : Build) (n : StateNote) (seen : Call V B) (answer : Outcome (PageAnswer V)) :
    Prop :=
  match n.state with
  | .running => False
  | .failed => ∃ e, n.error = some e ∧ answer = .err e
  | .cancelled => answer = .err "query was cancelled"
  | .done =>
    (∃ p, answer = .ok (.ready p) ∧ p.affected = n.affected) ∨
      (∃ need fuel e, (seen.pulls bld need fuel).1 = .failed e ∧ answer = .err e) ∨ answer = .panic

theorem reply_affected (c : Call V B) (from_ need : ℕ) :
    (∃ p, c.reply from_ need = .ok (.ready p) ∧ p.affected = c.affected) ∨
      c.reply from_ need = .panic := by
  simp only [Call.reply]
  split
  · exact .inr rfl
  · exact .inl ⟨_, rfl, rfl⟩

theorem Told.reports {call call' : Call V B} {n : StateNote} (h : Told call n) {fuel from_ m : ℕ}
    {answer : Outcome (PageAnswer V)} (hp : call.page bld fuel from_ m = some (answer, call')) :
    Reports bld n call answer := by
  unfold Reports
  rw [h.state]
  cases hs : call.status with
  | running => exact absurd hs h.left
  | failed =>
    obtain ⟨e, hn, hc⟩ := h.failed hs
    simp only [Call.page, hs, hc, Option.getD_some] at hp
    cases hp
    exact ⟨e, hn, rfl⟩
  | cancelled =>
    simp only [Call.page, hs] at hp
    cases hp
    rfl
  | done =>
    simp only [Call.page, hs] at hp
    split at hp
    · cases hp
      exact .inr (.inr rfl)
    · next need _ =>
      split at hp
      · cases hp
      · next hl =>
        cases hp
        exact .inr (.inl ⟨need, fuel, _, by rw [hl], rfl⟩)
      · cases hp
        exact .inr (.inr rfl)
      · next hl =>
        cases hp
        have hr : (call.pulls bld need fuel).2.report = call.report :=
          Call.pulls_same (fun _ _ _ _ => rfl) bld call need fuel
        rw [hl] at hr
        have ha : call'.affected = call.affected := congrArg (·.2.2) hr
        rcases reply_affected call' from_ need with ⟨p, hp, hpa⟩ | hp
        · exact .inl ⟨p, hp, by rw [hpa, ha, h.done hs]⟩
        · exact .inr (.inr hp)

/-! ### Along a run -/

namespace Server
variable {s s' : Server V B}

/-- A call whose worker is not over is running or cancelled and nothing was sent for it; after
that one notification was sent, and it says what the call says. -/
def Life (s : Server V B) (c : CallId) : Prop :=
  if s.isOver c then ∃ call n, s.calls c = some call ∧ s.notes c = [n] ∧ Told call n
  else s.notes c = [] ∧ ∀ call, s.calls c = some call →
    call.status = .running ∨ call.status = .cancelled

omit [BsonCells V B] in
theorem life_new (c : CallId) : (new : Server V B).Life c :=
  ⟨rfl, fun _ hc => by cases hc⟩

theorem Life.move {c : CallId} (h : s.Life c) (hm : CallMove s s' c) : s'.Life c := by
  unfold Life at h ⊢
  cases hm with
  | kept hcall hover hnotes =>
    rw [hover, hnotes]
    split
    · next ho =>
      rw [if_pos ho] at h
      obtain ⟨call, n, hc, hn, ht⟩ := h
      rw [hc, Option.map_some, Option.map_eq_some_iff] at hcall
      obtain ⟨call', hc', hr⟩ := hcall
      exact ⟨call', n, hc', hn, ht.of_report hr⟩
    · next ho =>
      rw [if_neg ho] at h
      refine ⟨h.1, fun call' hc' => ?_⟩
      rw [hc', Option.map_some] at hcall
      obtain ⟨call, hc, hr⟩ := Option.map_eq_some_iff.mp hcall.symm
      have hs : call.status = call'.status := congrArg (·.1) hr
      rw [← hs]
      exact h.2 call hc
  | registered hnone hcall hover hnotes =>
    have ho : s.isOver c = false := by
      cases ho : s.isOver c with
      | false => rfl
      | true =>
        rw [if_pos ho] at h
        obtain ⟨call, n, hc, -⟩ := h
        rw [hnone] at hc
        cases hc
    rw [if_neg (by rw [ho]; exact Bool.false_ne_true)] at h
    rw [hover, hnotes, hcall, if_neg Bool.false_ne_true]
    refine ⟨h.1, fun call hc => ?_⟩
    cases hc
    exact .inl rfl
  | cancelled call hc hcall hover hnotes =>
    rw [hover, hnotes, hcall]
    split
    · next ho =>
      rw [if_pos ho] at h
      obtain ⟨call₀, n, hc₀, hn, ht⟩ := h
      rw [hc] at hc₀
      cases hc₀
      exact ⟨_, n, rfl, hn, ht.cancelTake⟩
    · next ho =>
      rw [if_neg ho] at h
      refine ⟨h.1, fun call' hc' => ?_⟩
      cases hc'
      rcases h.2 call hc with hs | hs
      · exact .inr (if_pos hs)
      · exact .inr (by simp [Call.cancelTake, hs])
  | finished call outcome ms hc ho hcall hover hnotes =>
    rw [if_neg (by rw [ho]; exact Bool.false_ne_true)] at h
    rw [hover, hnotes, hcall, if_pos rfl, h.1]
    exact ⟨_, _, rfl, rfl, told_finish ms outcome call⟩

/-- What every reachable state of the engine keeps about its calls. -/
structure Alive (s : Server V B) : Prop where
  staged : s.Staged
  life : ∀ c, s.Life c

omit [BsonCells V B] in
theorem alive_new : (new : Server V B).Alive := ⟨staged_new, life_new⟩

theorem Alive.step (h : s.Alive) (hst : Step bld s s') : s'.Alive :=
  ⟨h.staged.step hst, fun c => (h.life c).move (callMove h.staged c hst)⟩

/-- A call that has left `running` keeps its status. -/
theorem Life.status_kept {c : CallId} {call : Call V B} (h : s.Life c) (hm : CallMove s s' c)
    (hc : s.calls c = some call) (hs : call.status ≠ .running) :
    ∃ call', s'.calls c = some call' ∧ call'.status = call.status := by
  cases hm with
  | kept hcall =>
    rw [hc, Option.map_some, Option.map_eq_some_iff] at hcall
    obtain ⟨call', hc', hr⟩ := hcall
    exact ⟨call', hc', congrArg (·.1) hr⟩
  | registered hnone =>
    rw [hnone] at hc
    cases hc
  | cancelled call₀ hc₀ hcall =>
    rw [hc₀] at hc
    cases hc
    exact ⟨_, hcall, if_neg hs⟩
  | finished call₀ outcome ms hc₀ ho hcall =>
    rw [hc₀] at hc
    cases hc
    unfold Life at h
    rw [if_neg (by rw [ho]; exact Bool.false_ne_true)] at h
    have hcan := (h.2 _ hc₀).resolve_left hs
    refine ⟨_, hcall, ?_⟩
    simp only [Call.finish, hcan, if_true]

/-- A page answered after a notification of its call reports what the notification said. -/
def PageReports (bld : Build) (pre : List (Event V B)) (e : Event V B) : Prop :=
  ∀ c seen f n answer, e = .paged c seen f n answer →
    ∀ note ∈ pre.filterMap (Event.noteOf c), Reports bld note seen answer

theorem Alive.reports (h : s.Alive) {i : Input V B} (hst : s.step bld i = some s')
    (hj : Lib.Justified (PageReports bld) s.hist) :
    Lib.Justified (PageReports bld) s'.hist := by
  refine justified_step hst hj fun e hex c seen f n answer he note hnote => ?_
  subst he
  obtain ⟨fuel, call', hc, hp⟩ := hex
  have hmem : note ∈ s.notes c := hnote
  have hlife := h.life c
  unfold Life at hlife
  split at hlife
  · obtain ⟨call, n₀, hc₀, hn₀, ht⟩ := hlife
    rw [hc] at hc₀
    cases hc₀
    rw [hn₀, List.mem_singleton] at hmem
    rw [hmem]
    exact ht.reports hp
  · rw [hlife.1] at hmem
    exact absurd hmem List.not_mem_nil

theorem run_alive {is : List (Input V B)} (h : (machine bld).Run Lib.Machine.free s is s')
    (hs : s.Alive) : s'.Alive :=
  h.invariant Alive (fun _ _ _ _ hi hst => hi.step (step_cases hst)) hs

theorem run_status_kept {is : List (Input V B)} (h : (machine bld).Run Lib.Machine.free s is s')
    (hs : s.Alive) {c : CallId} {call : Call V B} (hc : s.calls c = some call)
    (hleft : call.status ≠ .running) :
    ∃ call', s'.calls c = some call' ∧ call'.status = call.status :=
  h.invariant_with Alive (fun t => ∃ call', t.calls c = some call' ∧ call'.status = call.status)
    (fun _ _ _ _ hi hst => hi.step (step_cases hst))
    (fun t _ u _ hi ⟨call₁, hc₁, hs₁⟩ hst => by
      have hm := callMove hi.staged c (step_cases hst)
      obtain ⟨call₂, hc₂, hs₂⟩ := (hi.life c).status_kept hm hc₁ (by rw [hs₁]; exact hleft)
      exact ⟨call₂, hc₂, hs₂.trans hs₁⟩)
    hs ⟨call, hc, rfl⟩

theorem run_reports {is : List (Input V B)} (h : (machine bld).Run Lib.Machine.free s is s')
    (hs : s.Alive) (hj : Lib.Justified (PageReports bld) s.hist) :
    Lib.Justified (PageReports bld) s'.hist :=
  h.invariant_with Alive (fun t => Lib.Justified (PageReports bld) t.hist)
    (fun _ _ _ _ hi hst => hi.step (step_cases hst))
    (fun _ _ _ _ hi hj hst => hi.reports hst hj) hs hj

/-- One notification for a call once its worker is over and none before; it says what the call
says; every page after it reports that; and a status other than `running` stays for good. -/
structure Lifecycle (bld : Build) (s : Server V B) : Prop where
  once : ∀ c, (s.notes c).length = if s.isOver c then 1 else 0
  told : ∀ c, ∀ note ∈ s.notes c, ∃ call, s.calls c = some call ∧ Told call note
  pages : Lib.Justified (PageReports bld) s.hist
  stays : ∀ js s', (machine bld).Run Lib.Machine.free s js s' → ∀ c call, s.calls c = some call →
    call.status ≠ .running → ∃ call', s'.calls c = some call' ∧ call'.status = call.status

theorem call_lifecycle {is : List (Input V B)} (h : (machine bld).Run Lib.Machine.free new is s) :
    s.Lifecycle bld := by
  have hi := run_alive h alive_new
  refine ⟨fun c => ?_, fun c note hn => ?_, run_reports h alive_new Lib.justified_nil,
    fun js s' hjs c call hc hleft => run_status_kept hjs hi hc hleft⟩
  · have hlife := hi.life c
    unfold Life at hlife
    split at hlife
    · next ho =>
      obtain ⟨call, n, -, hnotes, -⟩ := hlife
      rw [hnotes, if_pos ho, List.length_singleton]
    · next ho => rw [hlife.1, if_neg ho, List.length_nil]
  · have hlife := hi.life c
    unfold Life at hlife
    split at hlife
    · obtain ⟨call, n, hc, hnotes, ht⟩ := hlife
      rw [hnotes, List.mem_singleton] at hn
      exact ⟨call, hc, hn ▸ ht⟩
    · rw [hlife.1] at hn
      exact absurd hn List.not_mem_nil

/-- One connection, and one statement run to its end on it. -/
def oneCall (fetched : Except String (Fetched ℕ ℕ)) : List (Input ℕ ℕ) :=
  [.arrive 1 (.connect ⟨"mongodb", []⟩)] ++
    List.replicate 5 (.handler 0 { dial := .ok (true, false) }) ++
    [.arrive 2 (.execute 1 "find")] ++ List.replicate 2 (.handler 1 {}) ++
    List.replicate 9 (.worker 1 { fetched })

theorem call_lifecycle_one_call :
    ∃ s, (machine .checked).exec new (oneCall (.ok (.buffered [] [[7]] none))) = some s ∧
      s.Lifecycle .checked := by
  obtain ⟨s, hs, hr⟩ := (machine .checked).exists_run new
    (oneCall (.ok (.buffered [] [[7]] none))) rfl
  exact ⟨s, hs, call_lifecycle hr⟩

/-- After `done` was sent, a page of a released call and a page whose cursor breaks. -/
theorem released_or_broken_page :
    (∃ s₁ s₂,
      (machine .checked).exec new (oneCall (.ok (.buffered [] [[7]] none))) = some s₁ ∧
        s₁.notes 1 = [⟨.done, 0, none, none⟩] ∧
        (machine .checked).exec s₁
          [.arrive 3 (.release 1), .handler 2 {}, .handler 2 {}, .arrive 4 (.page 1 0 200),
            .handler 3 {}, .handler 3 {}] = some s₂ ∧
        s₂.hist.head? = some (.answered 4 (.page 1 0 200) (.error (noSuchCall 1)))) ∧
    ∃ s₁ s₂,
      (machine .checked).exec new
          (oneCall (.ok (.cursor [.ok [("a", 7)], .error "cursor lost"] none))) = some s₁ ∧
        s₁.notes 1 = [⟨.done, 0, none, none⟩] ∧
        (machine .checked).exec s₁
          [.arrive 3 (.page 1 0 200), .handler 2 {}, .handler 2 { fuel := 2 }, .handler 2 {}] =
            some s₂ ∧
        s₂.hist.head? = some (.answered 3 (.page 1 0 200) (.error "cursor lost")) :=
  ⟨⟨_, _, rfl, rfl, rfl, rfl⟩, _, _, rfl, rfl, rfl, rfl⟩

end Server
end LvimDb.Engine
