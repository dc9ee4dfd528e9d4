import LvimDb.Engine.Locks

/-!
# What the engine writes

The lines an engine process writes, in the order of the events they come from: every
answer has the shape of its request, the answer with a call's number is written once and
before the call's `query.state`, and a connection id is answered to the request that
opened it. While a worker is not gone the process can make a step.
-/

namespace LvimDb.Engine
variable {V B : Type}

def Event.line : Event V B → Option (Line V)
  | .answered id _ r => some (.response id r)
  | .stated c n => some (.state c n)
  | .logged level message => some (.log level message)
  | _ => none

/-- The lines of a history, oldest first. -/
def linesOf (h : List (Event V B)) : List (Line V) := (h.filterMap Event.line).reverse

def WorkerPhase.sent : WorkerPhase V B → Bool
  | .numbered => false
  | .registered => false
  | _ => true

/-- The answer with the number of call `c`. -/
def Event.Calls (c : CallId) (e : Event V B) : Prop :=
  ∃ id request, e = .answered id request (.ok (.called c))

namespace Server
variable {s s' : Server V B}

theorem linesOf_cons (e : Event V B) (h : List (Event V B)) :
    linesOf (e :: h) = linesOf h ++ e.line.toList := by
  cases he : e.line with
  | none => simp [linesOf, he]
  | some l => simp [linesOf, he]

variable {bld : Build} [BsonCells V B]

/-- What a step writes is what it logs. -/
theorem out_step {i : Input V B} (h : s.step bld i = some s') :
    ∃ new, s'.out = s.out ++ new ∧ linesOf s'.hist = linesOf s.hist ++ new := by
  have quiet : ∀ e : Event V B, e.line = none → linesOf (e :: s.hist) = linesOf s.hist ++ [] := by
    intro e he
    rw [linesOf_cons, he]
    rfl
  have none_written : s.out = s.out ++ [] := (List.append_nil _).symm
  have same : linesOf s.hist = linesOf s.hist ++ [] := (List.append_nil _).symm
  cases step_cases h with
  | arrive => exact ⟨[], none_written, same⟩
  | handler t task _ _ h =>
    cases h with
    | replied r _ => exact ⟨_, rfl, linesOf_cons _ _⟩
    | connected k enc tun spec =>
      cases enc with
      | true => exact ⟨[], none_written, same⟩
      | false => exact ⟨[.log "warn" (unencrypted k spec)], rfl, linesOf_cons _ _⟩
    | inserted => exact ⟨[], none_written, quiet _ rfl⟩
    | delisted => exact ⟨[], none_written, quiet _ rfl⟩
    | closed => exact ⟨[], none_written, quiet _ rfl⟩
    | missed => exact ⟨[], none_written, quiet _ rfl⟩
    | paged => exact ⟨[], none_written, quiet _ rfl⟩
    | fired => exact ⟨[], none_written, quiet _ rfl⟩
    | _ => exact ⟨[], none_written, same⟩
  | worker c w _ _ h =>
    cases h with
    | answered => exact ⟨_, rfl, linesOf_cons _ _⟩
    | finished => exact ⟨_, rfl, linesOf_cons _ _⟩
    | handed => exact ⟨[], none_written, quiet _ rfl⟩
    | _ => exact ⟨[], none_written, same⟩

/-! ### What a handler is about to answer -/

/-- What the phase of a handler says about its request and about what it did. -/
def Grounded (h : List (Event V B)) (task : Task V) : Prop :=
  match task.phase with
  | .dialed _ _ => ∃ spec, task.request = .connect spec
  | .drawn _ _ _ => ∃ spec, task.request = .connect spec
  | .inserted k _ _ => .opened task.id k ∈ h
  | .leaving r => Fits task.request r
  | .reply r => Fits task.request r ∧
      ∀ k enc tun, r = .ok (.connected k enc tun) → .opened task.id k ∈ h
  | _ => True

def AllGrounded (s : Server V B) : Prop :=
  ∀ t task, s.tasks t = some task → Grounded s.hist task

omit [BsonCells V B] in
theorem Grounded.mono {h h' : List (Event V B)} {task : Task V} (hg : Grounded h task)
    (hh : h <:+ h') : Grounded h' task := by
  unfold Grounded at hg ⊢
  cases hp : task.phase with
  | inserted k enc tun =>
    rw [hp] at hg
    exact hh.subset hg
  | reply r =>
    rw [hp] at hg
    exact ⟨hg.1, fun k enc tun hr => hh.subset (hg.2 k enc tun hr)⟩
  | _ => rw [hp] at hg; exact hg

omit [BsonCells V B] in
theorem grounded_update {t : TaskId} {x : Option (Task V)} (h : s.AllGrounded)
    (hx : s'.tasks = Function.update s.tasks t x) (hh : s.hist <:+ s'.hist)
    (hg : ∀ task, x = some task → Grounded s'.hist task) : s'.AllGrounded := by
  intro u task hu
  rw [hx] at hu
  by_cases hut : u = t
  · subst hut
    rw [Function.update_self] at hu
    exact hg task hu
  · rw [Function.update_of_ne hut] at hu
    exact (h u task hu).mono hh

omit [BsonCells V B] in
/-- A connection answered by a request other than `conn.connect`: there is none. -/
theorem fits_not_connected {request : Request} {k : ConnId} {enc tun : Bool}
    (h : Fits (V := V) request (.ok (.connected k enc tun))) : ∃ spec, request = .connect spec := by
  cases request with
  | connect spec => exact ⟨spec, rfl⟩
  | schema j op => cases op <;> simp [Fits, schemaReply] at h
  | _ => simp [Fits] at h

omit [BsonCells V B] in
/-- No handler answers with the number of a call. -/
theorem fits_not_called {request : Request} {c : CallId} :
    ¬ Fits (V := V) request (.ok (.called c)) := by
  cases request with
  | schema k op => cases op <;> simp [Fits, schemaReply]
  | _ => simp [Fits]

omit [BsonCells V B] in
/-- An answer that names no connection. -/
theorem grounded_reply {h : List (Event V B)} {task : Task V} {r : Except String (Reply V)}
    (hf : Fits task.request r) (hr : ∀ k enc tun, r ≠ .ok (.connected k enc tun)) :
    Grounded h { task with phase := .reply r } :=
  ⟨hf, fun k enc tun he => absurd he (hr k enc tun)⟩

theorem AllGrounded.handler (h : s.AllGrounded) {t : TaskId} {task : Task V}
    (ht : s.tasks t = some task) (hst : HandlerStep bld s t task s') : s'.AllGrounded := by
  have hmine := h t task ht
  have keep : s.hist <:+ s.hist := List.suffix_refl _
  have grow : ∀ e, s.hist <:+ e :: s.hist := fun e => List.suffix_cons e _
  cases hst with
  | replied => exact grounded_update h rfl (grow _) fun _ hx => by cases hx
  | concluded r hr _ hstaged =>
    refine grounded_update h rfl keep fun _ hx => ?_
    cases hx
    refine grounded_reply hr ?_
    rintro k enc tun rfl
    obtain ⟨spec, hreq⟩ := fits_not_connected hr
    obtain ⟨e, he⟩ := hstaged (by rw [hreq]; rfl)
    cases he
  | dialed enc tun _ hreq =>
    refine grounded_update h rfl keep fun _ hx => ?_
    cases hx
    exact hreq
  | drawn enc tun hp =>
    refine grounded_update h rfl keep fun _ hx => ?_
    cases hx
    simpa only [Grounded, hp] using hmine
  | inserted k enc tun hp =>
    refine grounded_update h rfl (grow _) fun _ hx => ?_
    cases hx
    exact List.mem_cons_self
  | connected k enc tun spec hp hreq =>
    have hopened : Event.opened task.id k ∈ s.hist := by simpa only [Grounded, hp] using hmine
    have hfits : Fits (V := V) task.request (.ok (.connected k enc tun)) := by
      rw [hreq]
      intro a ha
      cases ha
      exact ⟨k, enc, tun, rfl⟩
    cases enc with
    | true =>
      refine grounded_update h rfl keep fun _ hx => ?_
      cases hx
      refine ⟨hfits, fun k' enc' tun' he => ?_⟩
      cases he
      exact hopened
    | false =>
      refine grounded_update h rfl (grow (.logged "warn" (unencrypted k spec))) fun _ hx => ?_
      cases hx
      refine ⟨hfits, fun k' enc' tun' he => ?_⟩
      cases he
      exact List.mem_cons_of_mem _ hopened
  | delisted => exact grounded_update h rfl (grow _) fun _ hx => by cases hx; trivial
  | closed _ _ _ _ hreq =>
    refine grounded_update h rfl (grow _) fun _ hx => ?_
    cases hx
    exact grounded_reply (by simp [hreq, Fits]) (by simp)
  | kept _ _ _ _ hreq =>
    refine grounded_update h rfl keep fun _ hx => ?_
    cases hx
    exact grounded_reply (by simp [hreq, Fits]) (by simp)
  | cloned => exact grounded_update h rfl keep fun _ hx => by cases hx; trivial
  | locked => exact grounded_update h rfl keep fun _ hx => by cases hx; trivial
  | unlocked _ _ r _ _ _ hr =>
    refine grounded_update h rfl keep fun _ hx => ?_
    cases hx
    exact hr
  | left k conn r _ hp hreq =>
    obtain ⟨op, hreq⟩ := hreq
    have hfits : Fits task.request r := by simpa only [Grounded, hp] using hmine
    refine grounded_update h rfl keep fun _ hx => ?_
    cases hx
    refine grounded_reply hfits ?_
    rintro j enc tun rfl
    obtain ⟨spec, hspec⟩ := fits_not_connected hfits
    rw [hreq] at hspec
    cases hspec
  | numbered => exact grounded_update h rfl keep fun _ hx => by cases hx
  | found => exact grounded_update h rfl keep fun _ hx => by cases hx; trivial
  | missed _ _ _ hreq =>
    obtain ⟨f, n, hreq⟩ := hreq
    refine grounded_update h rfl (grow _) fun _ hx => ?_
    cases hx
    exact grounded_reply (by simp [hreq, Fits]) (by simp)
  | paged _ _ _ _ _ _ answer _ _ hreq =>
    refine grounded_update h rfl (grow _) fun _ hx => ?_
    cases answer with
    | ok a => cases hx; exact grounded_reply (by simp [hreq, Fits]) (by simp)
    | err e => cases hx; exact grounded_reply (by simp [hreq, Fits]) (by simp)
    | panic => cases hx
  | took => exact grounded_update h rfl keep fun _ hx => by cases hx; trivial
  | tookNothing _ _ _ _ _ hreq =>
    refine grounded_update h rfl keep fun _ hx => ?_
    cases hx
    exact grounded_reply (by simp [hreq, Fits]) (by simp)
  | fired _ _ _ hreq =>
    refine grounded_update h rfl (grow _) fun _ hx => ?_
    cases hx
    exact grounded_reply (by simp [hreq, Fits]) (by simp)
  | released _ _ hreq =>
    refine grounded_update h rfl keep fun _ hx => ?_
    cases hx
    exact grounded_reply (by simp [hreq, Fits]) (by simp)

theorem AllGrounded.step (h : s.AllGrounded) {i : Input V B} (hst : s.step bld i = some s') :
    s'.AllGrounded := by
  have hgrow := hist_grows hst
  cases step_cases hst with
  | arrive id request =>
    refine grounded_update h rfl hgrow fun _ hx => ?_
    cases hx
    trivial
  | handler t task _ ht hst => exact h.handler ht hst
  | worker c w _ _ hst =>
    have htasks : s'.tasks = s.tasks := by cases hst <;> rfl
    intro t task ht
    rw [htasks] at ht
    exact (h t task ht).mono hgrow

/-! ### The number of a call -/

/-- The worker of call `c` is past its answer, which `request` asked for under `id`. -/
def Sent (s : Server V B) (c : CallId) (id : ReqId) (request : Request) : Prop :=
  ∃ w, s.workers c = some w ∧ w.phase.sent = true ∧ w.id = id ∧
    request = .execute w.conn w.statement

/-- The answer with a call's number is there if and only if its worker is past it. -/
def Said (s : Server V B) : Prop :=
  ∀ c id request, .answered id request (.ok (.called c)) ∈ s.hist ↔ s.Sent c id request

omit [BsonCells V B] in
theorem sent_work {c d : CallId} {w : Worker V B} {p : WorkerPhase V B} {id : ReqId}
    {request : Request} (hw : s.workers c = some w) (hp : p.sent = w.phase.sent) :
    (s.work c w p).Sent d id request ↔ s.Sent d id request := by
  unfold Sent
  by_cases hd : d = c
  · subst hd
    simp only [work_workers, Function.update_self, hw, Option.some.injEq, exists_eq_left', hp]
  · simp only [work_workers, Function.update_of_ne hd]

theorem sent_handler (hs : s.Staged) {t : TaskId} {task : Task V}
    (hst : HandlerStep bld s t task s') (c : CallId) (id : ReqId) (request : Request) :
    s'.Sent c id request ↔ s.Sent c id request := by
  cases hst with
  | numbered k statement =>
    unfold Sent
    by_cases hc : c = s.nextCall
    · subst hc
      simp [hs.fresh _ (Nat.le_refl _), WorkerPhase.sent]
    · simp only [setTask_workers, setWorker_workers, Function.update_of_ne hc]
  | connected k enc => cases enc <;> exact Iff.rfl
  | _ => exact Iff.rfl

theorem sent_worker {c : CallId} {w : Worker V B} (hw : s.workers c = some w)
    (hr : w.phase ≠ .registered) (hst : WorkerStep s c w s') (d : CallId) (id : ReqId)
    (request : Request) : s'.Sent d id request ↔ s.Sent d id request := by
  cases hst with
  | answered hp => exact absurd hp hr
  | registered hp => exact sent_work hw (p := .registered) (by rw [hp]; rfl)
  | spawned hp => exact sent_work hw (p := .queued) (by rw [hp]; rfl)
  | locked _ _ _ hp => exact sent_work hw (p := .locked) (by rw [hp]; rfl)
  | armed _ _ hp => exact sent_work hw (p := .armed) (by rw [hp]; rfl)
  | unarmed hp => exact sent_work hw (p := .armed) (by rw [hp]; rfl)
  | handed hp => exact sent_work hw (p := .executing) (by rw [hp]; rfl)
  | returned o hp => exact sent_work hw (p := .returned o) (by rw [hp]; rfl)
  | unlocked _ o _ hp => exact sent_work hw (p := .unlocked o) (by rw [hp]; rfl)
  | finished _ _ _ _ hp => exact sent_work hw (p := .finished) (by rw [hp]; rfl)
  | gone _ _ hp => exact sent_work hw (p := .gone) (by rw [hp]; rfl)

omit [BsonCells V B] in
theorem not_sent {c : CallId} {w : Worker V B} (hw : s.workers c = some w)
    (hp : w.phase.sent = false) (id : ReqId) (request : Request) : ¬ s.Sent c id request := by
  rintro ⟨w', hw', hsent, -⟩
  cases hw.symm.trans hw'
  rw [hp] at hsent
  cases hsent

omit [BsonCells V B] in
/-- The step of a worker that sends the number of its call. -/
theorem sent_answered {c : CallId} {w : Worker V B} (hw : s.workers c = some w)
    (hp : w.phase = .registered) (d : CallId) (id : ReqId) (request : Request) :
    (s.work c w .answered).Sent d id request ↔
      s.Sent d id request ∨ d = c ∧ id = w.id ∧ request = .execute w.conn w.statement := by
  by_cases hd : d = c
  · subst hd
    constructor
    · rintro ⟨w', hw', -, hid, hreq⟩
      simp only [work_workers, Function.update_self, Option.some.injEq] at hw'
      subst hw'
      exact .inr ⟨rfl, hid.symm, hreq⟩
    · rintro (h | ⟨-, rfl, rfl⟩)
      · exact absurd h (not_sent hw (by rw [hp]; rfl) id request)
      · exact ⟨{ w with phase := .answered },
          by simp only [work_workers, Function.update_self], rfl, rfl, rfl⟩
  · unfold Sent
    simp only [work_workers, Function.update_of_ne hd, hd, false_and, or_false]

/-- A number is answered by its worker only. -/
theorem explains_called (hg : s.AllGrounded) {i : Input V B} {c : CallId} {id : ReqId}
    {request : Request} (h : Explains bld s i (.answered id request (.ok (.called c)))) :
    ∃ w e, i = .worker c e ∧ s.workers c = some w ∧ w.phase = .registered ∧ id = w.id ∧
      request = .execute w.conn w.statement := by
  rcases h with ⟨t, e, -, ht⟩ | ⟨d, w, e, hi, hw, hp, hid, hreq, hr⟩
  · exact absurd (hg t _ ht).1 fits_not_called
  · cases hr
    exact ⟨w, e, hi, hw, hp, hid, hreq⟩

theorem Said.step (h : s.Said) (hs : s.Staged) (hg : s.AllGrounded) {i : Input V B}
    (hst : s.step bld i = some s') : s'.Said := by
  have quiet : (∀ d id request, s'.Sent d id request ↔ s.Sent d id request) →
      (∀ c id request, ¬ Explains bld s i (.answered id request (.ok (.called c)))) → s'.Said := by
    intro hsent hno c id request
    rw [hsent, ← h]
    constructor
    · intro hm
      exact (mem_hist_step hst hm).resolve_right (hno c id request)
    · exact fun hm => (hist_grows hst).subset hm
  cases i with
  | arrive id request =>
    cases hst
    exact h
  | handler t e =>
    obtain ⟨task, ht, hhs⟩ := handlerStep_cases hst
    refine quiet (sent_handler hs hhs) fun c id request hex => ?_
    obtain ⟨_, _, hi, -⟩ := explains_called hg hex
    cases hi
  | worker c e =>
    obtain ⟨w, hw, hws⟩ := workerStep_cases hst
    by_cases hp : w.phase = .registered
    · simp only [Server.step, workerStep, hw, Option.bind_some, hp, Option.some.injEq] at hst
      subst hst
      intro d id request
      have hnew := sent_answered hw hp d id request
      have hold := h d id request
      simp only [work_hist, note_hist, send_hist, List.mem_cons, Event.answered.injEq,
        Except.ok.injEq, Reply.called.injEq, hold]
      refine Iff.trans ?_ hnew.symm
      constructor
      · rintro (⟨rfl, rfl, rfl⟩ | hm)
        · exact .inr ⟨rfl, rfl, rfl⟩
        · exact .inl hm
      · rintro (hm | ⟨rfl, rfl, rfl⟩)
        · exact .inr hm
        · exact .inl ⟨rfl, rfl, rfl⟩
    · refine quiet (sent_worker hw hp hws) fun d id request hex => ?_
      obtain ⟨w', e', hi, hw', hp', -⟩ := explains_called hg hex
      cases hi
      cases hw.symm.trans hw'
      exact hp hp'

/-! ### The id of a connection -/

/-- An opened connection has its place, and the request that opened it is one. -/
structure Opened (s : Server V B) : Prop where
  placed : ∀ id k, .opened id k ∈ s.hist → s.holderOf k ≠ none
  once : ∀ id id' k, .opened id k ∈ s.hist → .opened id' k ∈ s.hist → id = id'

omit [BsonCells V B] in
theorem holderOf_grows {k : ConnId} {conn : Conn} (j : ConnId) (h : s.holderOf j ≠ none) :
    (s.setConn k conn).holderOf j ≠ none := by
  rw [holderOf_set]
  split
  · exact Option.some_ne_none _
  · exact h

theorem holderOf_stays (hst : Step bld s s') {j : ConnId} (h : s.holderOf j ≠ none) :
    s'.holderOf j ≠ none := by
  cases hst with
  | arrive => exact h
  | handler t task _ _ hst =>
    cases hst with
    | connected k enc => cases enc <;> exact h
    | inserted | delisted | closed | kept | cloned | locked | unlocked | left =>
      exact holderOf_grows (s := s) j h
    | _ => exact h
  | worker c w _ _ hst =>
    cases hst with
    | locked | unlocked | gone => exact holderOf_grows (s := s) j h
    | _ => exact h

/-- A connection opens where there was none. -/
theorem explains_opened (hi : s.Held) (hg : s.AllGrounded) {i : Input V B}
    (hst : s.step bld i = some s') {id : ReqId} {k : ConnId}
    (h : Explains bld s i (.opened id k)) : s.holderOf k = none ∧ s'.holderOf k ≠ none := by
  obtain ⟨t, e, task, enc, tun, rfl, ht, -, hp⟩ := h
  have hdrawn : s.draws t = some k := by simp only [draws, ht, Option.bind_some, Task.draws, hp]
  refine ⟨(hi.drawn t k hdrawn).2.1, ?_⟩
  obtain ⟨spec, hreq⟩ : ∃ spec, task.request = .connect spec := by
    have hground := hg t task ht
    rwa [Grounded, hp] at hground
  simp only [Server.step, handlerStep, ht, Option.bind_some, hp, dispatchStep, hreq, connectStep,
    Option.some.injEq] at hst
  subst hst
  show (s.setConn k ⟨true, 1, none, false⟩).holderOf k ≠ none
  rw [holderOf_set, if_pos rfl]
  exact Option.some_ne_none _

theorem Opened.step (h : s.Opened) (hi : s.Held) (hg : s.AllGrounded) {i : Input V B}
    (hst : s.step bld i = some s') : s'.Opened := by
  refine ⟨fun id k hm => ?_, fun id id' k hm hm' => ?_⟩
  · rcases mem_hist_step hst hm with hm | hex
    · exact holderOf_stays (step_cases hst) (h.placed id k hm)
    · exact (explains_opened hi hg hst hex).2
  · rcases logged hst with hh | ⟨e, hh, hex⟩
    · rw [hh] at hm hm'
      exact h.once id id' k hm hm'
    · rw [hh, List.mem_cons] at hm hm'
      rcases hm with rfl | hm
      · rcases hm' with heq | hm'
        · cases heq
          rfl
        · exact absurd (explains_opened hi hg hst hex).1 (h.placed id' k hm')
      · rcases hm' with rfl | hm'
        · exact absurd (explains_opened hi hg hst hex).1 (h.placed id k hm)
        · exact h.once id id' k hm hm'

/-! ### Every reachable state -/

/-- The event is written in order: a number once and before its `query.state`. -/
def InOrder (pre : List (Event V B)) (e : Event V B) : Prop :=
  (∀ c, e.Calls c → ∀ e' ∈ pre, ¬ e'.Calls c) ∧
    ∀ c n, e = .stated c n → ∃ e' ∈ pre, e'.Calls c

/-- An answer of a handler or the number an execute is answered with. -/
def Answers (request : Request) (r : Except String (Reply V)) : Prop :=
  Fits request r ∨ ∃ k statement c, request = .execute k statement ∧ r = .ok (.called c)

structure Spoken (s : Server V B) : Prop where
  sound : s.Sound
  life : ∀ c, s.Life c
  grounded : s.AllGrounded
  said : s.Said
  opened : s.Opened
  order : Lib.Justified InOrder s.hist
  answers : ∀ id request r, .answered id request r ∈ s.hist → Answers request r
  connected : ∀ id request k enc tun, .answered id request (.ok (.connected k enc tun)) ∈ s.hist →
    .opened id k ∈ s.hist

omit [BsonCells V B] in
theorem spoken_new : (new : Server V B).Spoken where
  sound := sound_new
  life := life_new
  grounded _ _ h := by cases h
  said _ _ _ := ⟨fun h => (List.not_mem_nil h).elim, fun ⟨_, hw, _⟩ => by cases hw⟩
  opened := ⟨fun _ _ h => (List.not_mem_nil h).elim, fun _ _ _ h => (List.not_mem_nil h).elim⟩
  order := Lib.justified_nil
  answers _ _ _ h := (List.not_mem_nil h).elim
  connected _ _ _ _ _ h := (List.not_mem_nil h).elim

theorem Spoken.inOrder (h : s.Spoken) {i : Input V B} {e : Event V B} (he : Explains bld s i e) :
    InOrder s.hist e := by
  constructor
  · rintro c ⟨id, request, rfl⟩ e' hm ⟨id', request', rfl⟩
    obtain ⟨w, _, -, hw, hp, -⟩ := explains_called h.grounded he
    exact not_sent hw (by rw [hp]; rfl) _ _ ((h.said c id' request').mp hm)
  · rintro c n rfl
    obtain ⟨w, _, _, _, _, -, hw, hp, -⟩ := he
    refine ⟨_, (h.said c w.id (.execute w.conn w.statement)).mpr ⟨w, hw, ?_, rfl, rfl⟩, _, _, rfl⟩
    rw [hp]
    rfl

theorem Spoken.step (h : s.Spoken) {i : Input V B} (hst : s.step bld i = some s') : s'.Spoken := by
  have hs := step_cases hst
  have hgrow := hist_grows hst
  have hsound : s'.Sound := ⟨h.sound.staged.step hs, h.sound.held.step h.sound.staged hs⟩
  refine ⟨hsound, fun c => (h.life c).move (callMove h.sound.staged c hs), h.grounded.step hst,
    h.said.step h.sound.staged h.grounded hst, h.opened.step h.sound.held h.grounded hst,
    justified_step hst h.order fun e he => h.inOrder he, fun id request r hm => ?_,
    fun id request k enc tun hm => ?_⟩
  · rcases mem_hist_step hst hm with hm | hex
    · exact h.answers id request r hm
    · rcases hex with ⟨t, e, -, ht⟩ | ⟨c, w, e, -, -, -, -, rfl, rfl⟩
      · exact .inl (h.grounded t _ ht).1
      · exact .inr ⟨_, _, _, rfl, rfl⟩
  · rcases mem_hist_step hst hm with hm | hex
    · exact hgrow.subset (h.connected id request k enc tun hm)
    · rcases hex with ⟨t, e, -, ht⟩ | ⟨c, w, e, -, -, -, -, -, hr⟩
      · exact hgrow.subset ((h.grounded t _ ht).2 k enc tun rfl)
      · cases hr

/-! ### The lines -/

omit [BsonCells V B] in
/-- A line and the lines before it come from an event and the events before it. -/
theorem linesOf_split {h : List (Event V B)} {pre post : List (Line V)} {l : Line V}
    (hl : linesOf h = pre ++ l :: post) :
    ∃ e h', (e :: h') <:+ h ∧ e.line = some l ∧ linesOf h' = pre := by
  induction h generalizing post with
  | nil => simp [linesOf] at hl
  | cons e h ih =>
    have hrest : ∀ post', linesOf h = pre ++ l :: post' →
        ∃ e' h', (e' :: h') <:+ e :: h ∧ e'.line = some l ∧ linesOf h' = pre := by
      intro post' hl'
      obtain ⟨e', h', hs, he, hp⟩ := ih hl'
      exact ⟨e', h', hs.trans (List.suffix_cons e h), he, hp⟩
    rw [linesOf_cons] at hl
    cases he : e.line with
    | none =>
      rw [he] at hl
      exact hrest post (by simpa using hl)
    | some l' =>
      rw [he] at hl
      rcases List.eq_nil_or_concat post with rfl | ⟨post', last, rfl⟩
      · obtain ⟨hpre, hlast⟩ := List.append_inj' hl rfl
        cases hlast
        exact ⟨e, h, List.suffix_refl _, he, hpre⟩
      · rw [List.concat_eq_append, ← List.cons_append, ← List.append_assoc] at hl
        exact hrest post' (List.append_inj' hl rfl).1

omit [BsonCells V B] in
theorem mem_linesOf {h : List (Event V B)} {l : Line V} :
    l ∈ linesOf h ↔ ∃ e ∈ h, e.line = some l := by
  simp [linesOf]

omit [BsonCells V B] in
theorem response_mem {h : List (Event V B)} {id : ReqId} {r : Except String (Reply V)} :
    .response id r ∈ linesOf h ↔ ∃ request, .answered id request r ∈ h := by
  rw [mem_linesOf]
  constructor
  · rintro ⟨e, hm, he⟩
    cases e with
    | answered id' request r' =>
      simp only [Event.line, Option.some.injEq, Line.response.injEq] at he
      obtain ⟨rfl, rfl⟩ := he
      exact ⟨request, hm⟩
    | _ => simp [Event.line] at he
  · rintro ⟨request, hm⟩
    exact ⟨_, hm, rfl⟩

omit [BsonCells V B] in
/-- The response with a call's number is written before every `query.state` of the call. -/
theorem Spoken.number_before_state (h : s.Spoken) {pre post : List (Line V)} {c : CallId}
    {n : StateNote} (hl : linesOf s.hist = pre ++ .state c n :: post) :
    ∃ id, .response id (.ok (.called c)) ∈ pre := by
  obtain ⟨e, h', hs, he, rfl⟩ := linesOf_split hl
  obtain ⟨e', hm, id, request, rfl⟩ : ∃ e' ∈ h', e'.Calls c := by
    refine (h.order h' e hs).2 c n ?_
    cases e with
    | stated c' n' =>
      simp only [Event.line, Option.some.injEq, Line.state.injEq] at he
      rw [he.1, he.2]
    | _ => simp [Event.line] at he
  exact ⟨id, response_mem.mpr ⟨request, hm⟩⟩

omit [BsonCells V B] in
/-- A call's number is written once. -/
theorem Spoken.number_once (h : s.Spoken) {pre post : List (Line V)} {c : CallId} {id : ReqId}
    (hl : linesOf s.hist = pre ++ .response id (.ok (.called c)) :: post) (id' : ReqId) :
    .response id' (.ok (.called c)) ∉ pre := by
  obtain ⟨e, h', hs, he, rfl⟩ := linesOf_split hl
  intro hm
  obtain ⟨request, hm⟩ := response_mem.mp hm
  refine (h.order h' e hs).1 c ?_ _ hm ⟨id', request, rfl⟩
  cases e with
  | answered id₀ request₀ r₀ =>
    simp only [Event.line, Option.some.injEq, Line.response.injEq] at he
    rw [he.1, he.2]
    exact ⟨id, request₀, rfl⟩
  | _ => simp [Event.line] at he

/-! ### The process goes on -/

/-- A step of the process itself is possible. -/
def Busy (bld : Build) (s : Server V B) : Prop :=
  (∃ t e s', s.handlerStep bld t e = some s') ∨ ∃ c e s', s.workerStep c e = some s'

theorem holder_busy (hi : s.Sound) {k : ConnId} {o : Holder}
    (ho : s.holderOf k = some (some o)) : s.Busy bld := by
  cases o with
  | handler u =>
    obtain ⟨task, ht, hl⟩ := Option.bind_eq_some_iff.mp ((hi.held.handler k u).mp ho)
    obtain ⟨conn, hk, -⟩ := Option.map_eq_some_iff.mp ho
    unfold Task.locks at hl
    split at hl
    · next op hp hreq =>
      cases hl
      refine .inl ⟨u, {}, ?_⟩
      simp only [handlerStep, ht, Option.bind_some, hp, dispatchStep, hreq, schemaStep, hk]
      exact ⟨_, rfl⟩
    · cases hl
  | worker d =>
    obtain ⟨w, hw, hwk⟩ := Option.bind_eq_some_iff.mp ((hi.held.worker k d).mp ho)
    rw [Option.ite_none_right_eq_some] at hwk
    obtain ⟨conn, hconn⟩ := hi.held.conn hw
    refine .inr ⟨d, {}, ?_⟩
    cases hp : w.phase with
    | locked =>
      obtain ⟨call, hcall⟩ := hi.staged.call hw (by rw [hp]; rfl)
      simp only [workerStep, hw, Option.bind_some, hp, callStep, hcall]
      exact ⟨_, rfl⟩
    | armed | executing | returned =>
      simp only [workerStep, hw, Option.bind_some, hp, connStep, hconn]
      exact ⟨_, rfl⟩
    | _ => rw [hp] at hwk; cases hwk.1

/-- A worker that is not gone keeps the process busy: with its own step, or with a step of
whoever holds the connection it waits for. -/
theorem worker_busy (hi : s.Sound) {c : CallId} {w : Worker V B} (hw : s.workers c = some w)
    (hp : w.phase ≠ .gone) : s.Busy bld := by
  obtain ⟨conn, hconn⟩ := hi.held.conn hw
  cases hph : w.phase with
  | gone => exact absurd hph hp
  | numbered | registered | answered =>
    refine .inr ⟨c, {}, ?_⟩
    simp only [workerStep, hw, Option.bind_some, hph]
    exact ⟨_, rfl⟩
  | queued =>
    cases ho : conn.holder with
    | none =>
      refine .inr ⟨c, {}, ?_⟩
      simp only [workerStep, hw, Option.bind_some, hph, connStep, hconn, ho, if_true]
      exact ⟨_, rfl⟩
    | some o => exact holder_busy hi (k := w.conn) (o := o) (by simp [holderOf, hconn, ho])
  | finished =>
    refine .inr ⟨c, {}, ?_⟩
    simp only [workerStep, hw, Option.bind_some, hph, connStep, hconn]
    exact ⟨_, rfl⟩
  | locked | armed | executing | returned =>
    exact holder_busy hi ((hi.held.worker w.conn c).mpr (by simp [holds, hw, hph, WorkerPhase.holds]))
  | unlocked outcome =>
    obtain ⟨call, hcall⟩ := hi.staged.call hw (by rw [hph]; rfl)
    refine .inr ⟨c, {}, ?_⟩
    simp only [workerStep, hw, Option.bind_some, hph, callStep, hcall]
    exact ⟨_, rfl⟩

/-- A call whose number was written and whose process is not busy has had its `query.state`
written. -/
theorem Spoken.state_written (h : s.Spoken) (hb : ¬ s.Busy bld) {c : CallId} {id : ReqId}
    (hm : .response id (.ok (.called c)) ∈ linesOf s.hist) :
    ∃ n, .state c n ∈ linesOf s.hist := by
  obtain ⟨request, hm⟩ := response_mem.mp hm
  obtain ⟨w, hw, -⟩ := (h.said c id request).mp hm
  have hgone : w.phase = .gone := by
    by_contra hp
    exact hb (worker_busy h.sound hw hp)
  have hlife := h.life c
  unfold Life at hlife
  have hover : s.isOver c = true := by
    rw [isOver, hw, Option.any_some, hgone]
    rfl
  rw [if_pos hover] at hlife
  obtain ⟨call, n, -, hn, -⟩ := hlife
  have hnote : n ∈ s.notes c := by
    rw [hn]
    exact List.mem_singleton_self n
  obtain ⟨e, he, hen⟩ := List.mem_filterMap.mp hnote
  refine ⟨n, mem_linesOf.mpr ⟨e, he, ?_⟩⟩
  cases e with
  | stated c' n' =>
    simp only [Event.noteOf, Option.ite_none_right_eq_some, Option.some.injEq] at hen
    rw [Event.line, hen.1, hen.2]
  | _ => simp [Event.noteOf] at hen

/-! ### Where the work comes from -/

/-- Everything in the process goes back to a request line that satisfies `ask`. -/
structure Owed (ask : ReqId → Request → Prop) (s : Server V B) : Prop where
  tasks : ∀ t task, s.tasks t = some task → ask task.id task.request
  workers : ∀ c w, s.workers c = some w → ask w.id (.execute w.conn w.statement)
  answered : ∀ id request r, .answered id request r ∈ s.hist → ask id request
  opened : ∀ id k, .opened id k ∈ s.hist → ∃ spec, ask id (.connect spec)
  delisted : ∀ k, .delisted k ∈ s.hist → ∃ id, ask id (.disconnect k)

omit [BsonCells V B] in
theorem owed_new (ask : ReqId → Request → Prop) : (new : Server V B).Owed ask :=
  ⟨fun _ _ h => (by cases h), fun _ _ h => (by cases h), fun _ _ _ h => (List.not_mem_nil h).elim,
    fun _ _ h => (List.not_mem_nil h).elim, fun _ h => (List.not_mem_nil h).elim⟩

omit [BsonCells V B] in
theorem Owed.mono {ask ask' : ReqId → Request → Prop} (h : s.Owed ask)
    (hw : ∀ id request, ask id request → ask' id request) : s.Owed ask' :=
  ⟨fun t task ht => hw _ _ (h.tasks t task ht), fun c w hc => hw _ _ (h.workers c w hc),
    fun id request r hm => hw _ _ (h.answered id request r hm),
    fun id k hm => (h.opened id k hm).imp fun _ => hw _ _,
    fun k hm => (h.delisted k hm).imp fun _ => hw _ _⟩

theorem tasks_handler {t : TaskId} {task : Task V} (hst : HandlerStep bld s t task s') :
    ∃ x, s'.tasks = Function.update s.tasks t x ∧
      ∀ task', x = some task' → task'.id = task.id ∧ task'.request = task.request := by
  cases hst with
  | replied | numbered => exact ⟨none, rfl, fun _ hx => by cases hx⟩
  | connected k enc =>
    cases enc <;> exact ⟨_, rfl, fun _ hx => by cases hx; exact ⟨rfl, rfl⟩⟩
  | paged _ _ _ _ _ _ answer =>
    cases answer with
    | panic => exact ⟨none, rfl, fun _ hx => by cases hx⟩
    | _ => exact ⟨_, rfl, fun _ hx => by cases hx; exact ⟨rfl, rfl⟩⟩
  | _ => exact ⟨_, rfl, fun _ hx => by cases hx; exact ⟨rfl, rfl⟩⟩

theorem workers_handler {t : TaskId} {task : Task V} (hst : HandlerStep bld s t task s')
    {c : CallId} {w : Worker V B} (hw : s'.workers c = some w) :
    s.workers c = some w ∨ w.id = task.id ∧ task.request = .execute w.conn w.statement := by
  cases hst with
  | numbered k statement _ hreq =>
    by_cases hc : c = s.nextCall
    · subst hc
      simp only [setTask_workers, setWorker_workers, Function.update_self, Option.some.injEq] at hw
      subst hw
      exact .inr ⟨rfl, hreq⟩
    · simp only [setTask_workers, setWorker_workers, Function.update_of_ne hc] at hw
      exact .inl hw
  | connected k enc => cases enc <;> exact .inl hw
  | _ => exact .inl hw

theorem workers_worker {c d : CallId} {w w' : Worker V B} (hw : s.workers c = some w)
    (hst : WorkerStep s c w s') (hw' : s'.workers d = some w') :
    ∃ w₀, s.workers d = some w₀ ∧ w₀.id = w'.id ∧ w₀.conn = w'.conn ∧
      w₀.statement = w'.statement := by
  have key : ∀ p, s'.workers = Function.update s.workers c (some { w with phase := p }) →
      ∃ w₀, s.workers d = some w₀ ∧ w₀.id = w'.id ∧ w₀.conn = w'.conn ∧
        w₀.statement = w'.statement := by
    intro p hp
    rw [hp] at hw'
    by_cases hd : d = c
    · subst hd
      rw [Function.update_self, Option.some.injEq] at hw'
      subst hw'
      exact ⟨w, hw, rfl, rfl, rfl⟩
    · rw [Function.update_of_ne hd] at hw'
      exact ⟨w', hw', rfl, rfl, rfl⟩
  cases hst <;> exact key _ rfl

theorem Owed.step {ask : ReqId → Request → Prop} (h : s.Owed ask) (hg : s.AllGrounded)
    {i : Input V B} (hst : s.step bld i = some s')
    (hi : ∀ id request, i = .arrive id request → ask id request) : s'.Owed ask := by
  have hanswered : ∀ id request r, .answered id request r ∈ s'.hist → ask id request := by
    intro id request r hm
    rcases mem_hist_step hst hm with hm | hex
    · exact h.answered id request r hm
    · rcases hex with ⟨t, e, -, ht⟩ | ⟨c, w, e, -, hw, -, rfl, rfl, -⟩
      · exact h.tasks t _ ht
      · exact h.workers c w hw
  have hopened : ∀ id k, .opened id k ∈ s'.hist → ∃ spec, ask id (.connect spec) := by
    intro id k hm
    rcases mem_hist_step hst hm with hm | ⟨t, e, task, enc, tun, -, ht, rfl, hp⟩
    · exact h.opened id k hm
    · obtain ⟨spec, hreq⟩ : ∃ spec, task.request = .connect spec := by
        have hground := hg t task ht
        rwa [Grounded, hp] at hground
      exact ⟨spec, hreq ▸ h.tasks t task ht⟩
  have hdelisted : ∀ k, .delisted k ∈ s'.hist → ∃ id, ask id (.disconnect k) := by
    intro k hm
    rcases mem_hist_step hst hm with hm | ⟨t, e, task, -, ht, hreq⟩
    · exact h.delisted k hm
    · exact ⟨task.id, hreq ▸ h.tasks t task ht⟩
  cases i with
  | arrive id request =>
    cases hst
    refine ⟨fun t task ht => ?_, h.workers, hanswered, hopened, hdelisted⟩
    by_cases hnew : t = s.nextTask
    · subst hnew
      rw [arrive_tasks, Function.update_self, Option.some.injEq] at ht
      subst ht
      exact hi id request rfl
    · rw [arrive_tasks, Function.update_of_ne hnew] at ht
      exact h.tasks t task ht
  | handler u e =>
    obtain ⟨task₀, hu, hhs⟩ := handlerStep_cases hst
    obtain ⟨x, hx, hkeep⟩ := tasks_handler hhs
    refine ⟨fun t task ht => ?_, fun c w hw => ?_, hanswered, hopened, hdelisted⟩
    · rw [hx] at ht
      by_cases htu : t = u
      · subst htu
        rw [Function.update_self] at ht
        obtain ⟨hid, hreq⟩ := hkeep task ht
        rw [hid, hreq]
        exact h.tasks t task₀ hu
      · rw [Function.update_of_ne htu] at ht
        exact h.tasks t task ht
    · rcases workers_handler hhs hw with hw | ⟨hid, hreq⟩
      · exact h.workers c w hw
      · rw [hid, ← hreq]
        exact h.tasks u task₀ hu
  | worker d e =>
    obtain ⟨w₀, hd, hws⟩ := workerStep_cases hst
    have htasks : s'.tasks = s.tasks := by cases hws <;> rfl
    refine ⟨fun t task ht => h.tasks t task (htasks ▸ ht), fun c w hw => ?_, hanswered, hopened, hdelisted⟩
    obtain ⟨w₁, hw₁, hid, hconn, hstatement⟩ := workers_worker hd hws hw
    rw [← hid, ← hconn, ← hstatement]
    exact h.workers c w₁ hw₁

end Server
end LvimDb.Engine
