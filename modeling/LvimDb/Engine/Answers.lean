import LvimDb.Lib.Total
import LvimDb.Engine.Output
import LvimDb.Engine.Range

/-!
# Every request is answered

The requests of an id that have arrived are the responses written for it and the tasks
that still owe one; only a page that panics breaks the balance. Every step of the process
is progress, and while somebody owes a response the process has a step to make.
-/

namespace LvimDb.Engine
variable {V B : Type}

def Line.answers (id : ReqId) : Line V → Bool
  | .response i _ => i == id
  | _ => false

def Input.asks (id : ReqId) : Input V B → Bool
  | .arrive i _ => i == id
  | _ => false

def Input.arrives : Input V B → Bool
  | .arrive _ _ => true
  | _ => false

/-- How many requests of an id have arrived. -/
def arrivals (is : List (Input V B)) (id : ReqId) : ℕ := is.countP (Input.asks id)

def Task.owes (id : ReqId) (task : Task V) : ℕ := if task.id = id then 1 else 0

def Worker.owes (id : ReqId) (w : Worker V B) : ℕ :=
  if w.id = id ∧ w.phase.sent = false then 1 else 0

/-! ### How far a task still has to go -/

def Phase.rank : Phase V → ℕ
  | .start => 20
  | .holding => 15
  | .dialed _ _ => 5
  | .drawn _ _ _ => 4
  | .inserted _ _ _ => 3
  | .locked => 3
  | .found => 3
  | .removed => 2
  | .leaving _ => 2
  | .took _ => 2
  | .reply _ => 1

def WorkerPhase.rank : WorkerPhase V B → ℕ
  | .numbered => 11
  | .registered => 10
  | .answered => 9
  | .queued => 8
  | .locked => 7
  | .armed => 6
  | .executing => 5
  | .returned _ => 4
  | .unlocked _ => 3
  | .finished => 2
  | .gone => 1

def WorkerPhase.outcome : WorkerPhase V B → Option (Except String (ResultStream V B))
  | .returned o => some o
  | .unlocked o => some o
  | _ => none

theorem Phase.rank_pos (p : Phase V) : 1 ≤ p.rank := by
  cases p <;> simp [rank]

namespace Server

def responses (s : Server V B) (id : ReqId) : ℕ := s.out.countP (Line.answers id)

/-- How many tasks still owe a response with this id. -/
def pending (s : Server V B) (id : ReqId) : ℕ :=
  Lib.total s.nextTask s.tasks (Task.owes id) + Lib.total s.nextCall s.workers (Worker.owes id)

def remaining (s : Server V B) : ℕ :=
  Lib.total s.nextTask s.tasks (·.phase.rank) + Lib.total s.nextCall s.workers (·.phase.rank)

variable {s s' : Server V B} {bld : Build} {t : TaskId} {task : Task V}

/-! ### What a step does to the tasks -/

/-- No worker moves and no response is written. -/
structure Quiet (s s' : Server V B) : Prop where
  nextTask : s'.nextTask = s.nextTask
  workers : s'.workers = s.workers
  nextCall : s'.nextCall = s.nextCall
  responses : ∀ id, s'.responses id = s.responses id

inductive TaskMove (bld : Build) (s : Server V B) (t : TaskId) (task : Task V)
    (s' : Server V B) [BsonCells V B] : Prop
  | goes (p : Phase V) : s'.tasks = Function.update s.tasks t (some { task with phase := p }) →
      p.rank < task.phase.rank → Quiet s s' → TaskMove bld s t task s'
  | answers (r : Except String (Reply V)) : s'.tasks = Function.update s.tasks t none →
      s'.nextTask = s.nextTask → s'.workers = s.workers → s'.nextCall = s.nextCall →
      s'.out = s.out ++ [.response task.id r] → TaskMove bld s t task s'
  | spawns (w : Worker V B) : task.phase = .holding → w.id = task.id → w.phase = .numbered →
      s'.tasks = Function.update s.tasks t none → s'.nextTask = s.nextTask →
      s'.workers = Function.update s.workers s.nextCall (some w) →
      s'.nextCall = s.nextCall + 1 → s'.out = s.out → TaskMove bld s t task s'
  | aborts (c : CallId) (call call' : Call V B) (fuel from_ n : ℕ) : s.calls c = some call →
      task.phase = .found → task.request = .page c from_ n →
      call.page bld fuel from_ n = some (.panic, call') →
      s'.tasks = Function.update s.tasks t none → Quiet s s' → TaskMove bld s t task s'

variable [BsonCells V B]

theorem taskMove (h : HandlerStep bld s t task s') : TaskMove bld s t task s' := by
  have quiet : ∀ {s' : Server V B}, s'.nextTask = s.nextTask → s'.workers = s.workers →
      s'.nextCall = s.nextCall → s'.out = s.out → Quiet s s' := by
    intro s' hn hw hc ho
    refine ⟨hn, hw, hc, fun id => ?_⟩
    rw [Server.responses, ho, Server.responses]
  cases h with
  | replied r hp => exact .answers r rfl rfl rfl rfl rfl
  | concluded r _ hp =>
    refine .goes (.reply r) rfl ?_ (quiet rfl rfl rfl rfl)
    rcases hp with hp | hp | ⟨handle, hp⟩ <;> rw [hp] <;> simp [Phase.rank]
  | dialed _ _ hp | drawn _ _ hp | inserted _ _ _ hp | delisted _ _ _ hp | closed _ _ _ hp
  | kept _ _ _ hp | cloned _ _ _ _ hp | locked _ _ _ _ hp | unlocked _ _ _ _ hp
  | left _ _ _ _ hp | found _ _ _ hp | missed _ _ hp | took _ _ _ _ _ hp
  | tookNothing _ _ _ _ hp | fired _ _ hp | released _ hp =>
    exact .goes _ rfl (by rw [hp]; simp [Phase.rank]) (quiet rfl rfl rfl rfl)
  | connected k enc tun spec hp =>
    have hrank : (Phase.reply (.ok (Reply.connected (V := V) k enc tun))).rank < task.phase.rank := by
      rw [hp]
      simp [Phase.rank]
    cases enc with
    | true => exact .goes _ rfl hrank (quiet rfl rfl rfl rfl)
    | false =>
      refine .goes _ rfl hrank ⟨rfl, rfl, rfl, fun id => ?_⟩
      change (s.out ++ [_]).countP (Line.answers id) = s.out.countP (Line.answers id)
      rw [List.countP_append]
      rfl
  | numbered k statement hp hreq =>
    exact .spawns ⟨task.id, k, statement, .numbered⟩ hp rfl rfl rfl rfl rfl rfl rfl
  | paged c call call' fuel from_ n answer hc hp hreq hpage =>
    have hrank : ∀ r : Except String (Reply V), (Phase.reply r).rank < task.phase.rank := by
      intro r
      rw [hp]
      simp [Phase.rank]
    cases answer with
    | ok a => exact .goes _ rfl (hrank _) (quiet rfl rfl rfl rfl)
    | err e => exact .goes _ rfl (hrank _) (quiet rfl rfl rfl rfl)
    | panic =>
      exact .aborts c call call' fuel from_ n hc hp hreq hpage rfl (quiet rfl rfl rfl rfl)

inductive WorkMove (s : Server V B) (c : CallId) (w : Worker V B) (s' : Server V B) : Prop
  | goes (p : WorkerPhase V B) : p.sent = w.phase.sent →
      (∀ id, s'.responses id = s.responses id) → p.rank < w.phase.rank →
      s'.workers = Function.update s.workers c (some { w with phase := p }) → WorkMove s c w s'
  | answers (r : Except String (Reply V)) : w.phase = .registered →
      s'.out = s.out ++ [.response w.id r] →
      s'.workers = Function.update s.workers c (some { w with phase := .answered }) →
      WorkMove s c w s'

theorem workMove {c : CallId} {w : Worker V B} (h : WorkerStep s c w s') : WorkMove s c w s' := by
  cases h with
  | answered hp => exact .answers _ hp rfl rfl
  | finished call outcome ms _ hp =>
    refine .goes .finished (by rw [hp]; rfl) (fun id => ?_)
      (by rw [hp]; simp [WorkerPhase.rank]) rfl
    change (s.out ++ [_]).countP (Line.answers id) = s.out.countP (Line.answers id)
    rw [List.countP_append]
    rfl
  | registered hp | spawned hp | locked _ _ _ hp | armed _ _ hp | unarmed hp | handed hp
  | returned _ hp | unlocked _ _ _ hp | gone _ _ hp =>
    exact .goes _ (by rw [hp]; rfl) (fun _ => rfl) (by rw [hp]; simp [WorkerPhase.rank]) rfl

/-! ### The balance -/

omit [BsonCells V B] in
theorem total_task {f : Task V → ℕ} {x : Option (Task V)} (hi : s.Held)
    (ht : s.tasks t = some task) :
    Lib.total s.nextTask (Function.update s.tasks t x) f + f task =
      Lib.total s.nextTask s.tasks f + x.elim 0 f := by
  have htotal := Lib.total_update (x := s.tasks) (hi.task_lt ht) x f
  rwa [ht, Option.elim_some] at htotal

omit [BsonCells V B] in
theorem total_worker {f : Worker V B → ℕ} {x : Option (Worker V B)} {c : CallId}
    {w : Worker V B} (hi : s.Staged) (hw : s.workers c = some w) :
    Lib.total s.nextCall (Function.update s.workers c x) f + f w =
      Lib.total s.nextCall s.workers f + x.elim 0 f := by
  have htotal := Lib.total_update (x := s.workers) (hi.worker_lt hw) x f
  rwa [hw, Option.elim_some] at htotal

omit [BsonCells V B] in
theorem responses_answered {s s' : Server V B} {i id : ReqId} {r : Except String (Reply V)}
    (ho : s'.out = s.out ++ [.response i r]) :
    s'.responses id = s.responses id + if i = id then 1 else 0 := by
  rw [Server.responses, ho, List.countP_append, List.countP_singleton, Server.responses]
  simp only [Line.answers, beq_iff_eq]

/-- The requests of an id that are answered or still owed an answer. -/
def account (s : Server V B) (id : ReqId) : ℕ := s.responses id + s.pending id

theorem account_handler (hi : s.Sound) (ht : s.tasks t = some task)
    (h : TaskMove bld s t task s') (id : ReqId) :
    s'.account id = s.account id ∨ s'.account id + task.owes id = s.account id ∧
      ∃ c call call' fuel from_ n, s.calls c = some call ∧ task.phase = .found ∧
        task.request = .page c from_ n ∧
        call.page bld fuel from_ n = some (.panic, call') := by
  cases h with
  | goes p hx _ hq =>
    have htotal := total_task (f := Task.owes id) (x := some { task with phase := p }) hi.held ht
    have howes : Task.owes id { task with phase := p } = task.owes id := rfl
    refine .inl ?_
    rw [Option.elim_some, howes] at htotal
    rw [account, account, pending, pending, hq.responses, hq.nextTask, hq.workers, hq.nextCall, hx]
    omega
  | answers r hx hn hw hc ho =>
    have htotal := total_task (f := Task.owes id) (x := none) hi.held ht
    rw [Option.elim_none] at htotal
    refine .inl ?_
    rw [account, account, pending, pending, responses_answered ho, hn, hw, hc, hx]
    rw [Task.owes] at htotal
    omega
  | spawns w hp hid hnum hx hn hw hc ho =>
    have htotal := total_task (f := Task.owes id) (x := none) hi.held ht
    have hfresh := Lib.total_fresh (n := s.nextCall) (x := s.workers) (some w) (Worker.owes id)
    have howes : w.owes id = task.owes id := by
      simp only [Worker.owes, Task.owes, hid, hnum, WorkerPhase.sent, and_true]
    rw [Option.elim_none] at htotal
    rw [Option.elim_some, howes] at hfresh
    refine .inl ?_
    rw [account, account, pending, pending, Server.responses, ho, ← Server.responses, hn, hw, hc,
      hx, hfresh]
    omega
  | aborts c call call' fuel from_ n hc hp hreq hpage hx hq =>
    have htotal := total_task (f := Task.owes id) (x := none) hi.held ht
    rw [Option.elim_none] at htotal
    refine .inr ⟨?_, c, call, call', fuel, from_, n, hc, hp, hreq, hpage⟩
    rw [account, account, pending, pending, hq.responses, hq.nextTask, hq.workers, hq.nextCall, hx]
    omega

omit [BsonCells V B] in
theorem account_worker (hi : s.Staged) {c : CallId} {w : Worker V B} (hw : s.workers c = some w)
    (h : WorkMove s c w s') (hn : s'.nextTask = s.nextTask) (ht : s'.tasks = s.tasks)
    (hc : s'.nextCall = s.nextCall) (id : ReqId) : s'.account id = s.account id := by
  cases h with
  | goes p hsent hres _ hx =>
    have htotal := total_worker (f := Worker.owes id) (x := some { w with phase := p }) hi hw
    have howes : Worker.owes id { w with phase := p } = w.owes id := by
      simp only [Worker.owes, hsent]
    rw [Option.elim_some, howes] at htotal
    rw [account, account, pending, pending, hres, hn, ht, hc, hx]
    omega
  | answers r hp ho hx =>
    have htotal := total_worker (f := Worker.owes id) (x := some { w with phase := .answered })
      hi hw
    have hnew : ({ w with phase := .answered } : Worker V B).owes id = 0 := by
      simp only [Worker.owes, WorkerPhase.sent, reduceCtorEq, and_false, if_false]
    have hold : w.owes id = if w.id = id then 1 else 0 := by
      simp only [Worker.owes, hp, WorkerPhase.sent, and_true]
    rw [Option.elim_some, hnew, hold] at htotal
    rw [account, account, pending, pending, responses_answered ho, hn, ht, hc, hx]
    omega

theorem worker_frame {c : CallId} {w : Worker V B} (h : WorkerStep s c w s') :
    s'.nextTask = s.nextTask ∧ s'.tasks = s.tasks ∧ s'.nextCall = s.nextCall := by
  cases h <;> exact ⟨rfl, rfl, rfl⟩

/-! ### Progress -/

theorem remaining_handler (hi : s.Sound) (ht : s.tasks t = some task)
    (h : TaskMove bld s t task s') : s'.remaining < s.remaining := by
  have hpos := task.phase.rank_pos
  cases h with
  | goes p hx hrank hq =>
    have htotal := total_task (f := fun task => task.phase.rank)
      (x := some { task with phase := p }) hi.held ht
    simp only [Option.elim_some] at htotal
    rw [remaining, remaining, hq.nextTask, hq.workers, hq.nextCall, hx]
    omega
  | answers r hx hn hw hc ho =>
    have htotal := total_task (f := fun task => task.phase.rank) (x := none) hi.held ht
    rw [Option.elim_none] at htotal
    rw [remaining, remaining, hn, hw, hc, hx]
    omega
  | spawns w hp _ hnum hx hn hw hc _ =>
    have htotal := total_task (f := fun task => task.phase.rank) (x := none) hi.held ht
    have hfresh := Lib.total_fresh (n := s.nextCall) (x := s.workers) (some w)
      fun w => w.phase.rank
    rw [Option.elim_none, hp] at htotal
    rw [Option.elim_some, hnum] at hfresh
    rw [remaining, remaining, hn, hw, hc, hx, hfresh]
    simp only [Phase.rank, WorkerPhase.rank] at htotal ⊢
    omega
  | aborts c call call' fuel from_ n _ _ _ _ hx hq =>
    have htotal := total_task (f := fun task => task.phase.rank) (x := none) hi.held ht
    rw [Option.elim_none] at htotal
    rw [remaining, remaining, hq.nextTask, hq.workers, hq.nextCall, hx]
    omega

omit [BsonCells V B] in
theorem remaining_worker (hi : s.Staged) {c : CallId} {w : Worker V B}
    (hw : s.workers c = some w) (h : WorkMove s c w s') (hn : s'.nextTask = s.nextTask)
    (ht : s'.tasks = s.tasks) (hc : s'.nextCall = s.nextCall) : s'.remaining < s.remaining := by
  have moved : ∀ p : WorkerPhase V B, p.rank < w.phase.rank →
      s'.workers = Function.update s.workers c (some { w with phase := p }) →
      s'.remaining < s.remaining := by
    intro p hrank hx
    have htotal := total_worker (f := fun w => w.phase.rank) (x := some { w with phase := p })
      hi hw
    simp only [Option.elim_some] at htotal
    rw [remaining, remaining, hn, ht, hc, hx]
    omega
  cases h with
  | goes p _ _ hrank hx => exact moved p hrank hx
  | answers r hp _ hx => exact moved .answered (by rw [hp]; simp [WorkerPhase.rank]) hx

/-- Every step but an arrival is progress. -/
theorem remaining_step (hi : s.Sound) {i : Input V B} (hst : s.step bld i = some s')
    (ha : i.arrives = false) : s'.remaining < s.remaining := by
  cases i with
  | arrive id request => cases ha
  | handler t e =>
    obtain ⟨task, ht, h⟩ := handlerStep_cases hst
    exact remaining_handler hi ht (taskMove h)
  | worker c e =>
    obtain ⟨w, hw, h⟩ := workerStep_cases hst
    obtain ⟨hn, ht, hc⟩ := worker_frame h
    exact remaining_worker hi.staged hw (workMove h) hn ht hc

/-! ### What keeps the handlers going -/

/-- A handler has what its next step looks up. -/
def Placed (s : Server V B) (task : Task V) : Prop :=
  match task.phase with
  | .dialed _ _ => ∃ spec, task.request = .connect spec
  | .drawn _ _ _ => ∃ spec, task.request = .connect spec
  | .inserted _ _ _ => ∃ spec, task.request = .connect spec
  | .removed => ∃ k, task.request = .disconnect k ∧ s.holderOf k ≠ none
  | .holding => ∃ k, s.holderOf k ≠ none ∧
      ((∃ op, task.request = .schema k op) ∨ ∃ statement, task.request = .execute k statement)
  | .locked => ∃ k op, task.request = .schema k op ∧ s.holderOf k ≠ none
  | .leaving _ => ∃ k op, task.request = .schema k op ∧ s.holderOf k ≠ none
  | .found => ∃ c, task.request.call = some c ∧ s.calls c ≠ none
  | .took _ => ∃ c, task.request = .cancel c
  | _ => True

omit [BsonCells V B] in
theorem Placed.mono (h : s.Placed task) (hk : ∀ k, s.holderOf k ≠ none → s'.holderOf k ≠ none)
    (hc : ∀ c, s.calls c ≠ none → s'.calls c ≠ none) : s'.Placed task := by
  unfold Placed at h ⊢
  cases hp : task.phase with
  | removed =>
    rw [hp] at h
    exact h.imp fun k ⟨hreq, hne⟩ => ⟨hreq, hk k hne⟩
  | holding =>
    rw [hp] at h
    exact h.imp fun k ⟨hne, hreq⟩ => ⟨hk k hne, hreq⟩
  | locked | leaving =>
    rw [hp] at h
    exact h.imp fun k ⟨op, hreq, hne⟩ => ⟨op, hreq, hk k hne⟩
  | found =>
    rw [hp] at h
    exact h.imp fun c ⟨hreq, hne⟩ => ⟨hreq, hc c hne⟩
  | _ => rw [hp] at h; exact h

structure Fit (s : Server V B) : Prop where
  alive : s.Alive
  held : s.Held
  placed : ∀ t task, s.tasks t = some task → s.Placed task
  fed : ∀ c call, s.calls c = some call → call.Fed
  opened : ∀ c w o, s.workers c = some w → w.phase.outcome = some o →
    ∀ stream, o = .ok stream → stream.At 0

omit [BsonCells V B] in
theorem fit_new : (new : Server V B).Fit where
  alive := alive_new
  held := held_new
  placed := fun _ _ h => by cases h
  fed := fun _ _ h => by cases h
  opened := fun _ _ _ h => by cases h

omit [BsonCells V B] in
theorem holderOf_of_conn {k : ConnId} {conn : Conn} (hk : s.conns k = some conn) :
    s.holderOf k ≠ none := by
  simp [holderOf, hk]

theorem placed_handler (hp : s.Placed task) (hst : HandlerStep bld s t task s')
    (hk : ∀ k, s.holderOf k ≠ none → s'.holderOf k ≠ none)
    (hc : ∀ c, s.calls c ≠ none → s'.calls c ≠ none) {task' : Task V}
    (ht : s'.tasks t = some task') : s'.Placed task' := by
  have same : ∀ {x : Option (Task V)}, s'.tasks = Function.update s.tasks t x →
      (∀ task', x = some task' → s'.Placed task') → s'.Placed task' := by
    intro x hx hall
    rw [hx, Function.update_self] at ht
    exact hall task' ht
  cases hst with
  | replied | numbered => exact same rfl fun _ hx => by cases hx
  | concluded | closed | kept | left | missed | tookNothing | fired | released =>
    exact same rfl fun _ hx => by cases hx; trivial
  | connected _ enc => cases enc <;> exact same rfl fun _ hx => by cases hx; trivial
  | paged _ _ _ _ _ _ answer =>
    cases answer with
    | panic => exact same rfl fun _ hx => by cases hx
    | _ => exact same rfl fun _ hx => by cases hx; trivial
  | dialed enc tun _ hreq => exact same rfl fun _ hx => by cases hx; exact hreq
  | drawn enc tun hphase =>
    refine same rfl fun _ hx => ?_
    cases hx
    simpa only [Placed, hphase] using hp
  | inserted k enc tun hphase =>
    refine same rfl fun _ hx => ?_
    cases hx
    simpa only [Placed, hphase] using hp
  | delisted k conn hconn _ hreq _ =>
    refine same rfl fun _ hx => ?_
    cases hx
    exact ⟨k, hreq, hk k (holderOf_of_conn hconn)⟩
  | cloned k conn hconn _ _ hreq =>
    refine same rfl fun _ hx => ?_
    cases hx
    exact ⟨k, hk k (holderOf_of_conn hconn), hreq⟩
  | locked k conn hconn _ _ hreq =>
    refine same rfl fun _ hx => ?_
    cases hx
    exact ⟨k, hreq.choose, hreq.choose_spec, hk k (holderOf_of_conn hconn)⟩
  | unlocked k conn r hconn _ hreq =>
    refine same rfl fun _ hx => ?_
    cases hx
    exact ⟨k, hreq.choose, hreq.choose_spec, hk k (holderOf_of_conn hconn)⟩
  | found c call hcall _ hreq =>
    refine same rfl fun _ hx => ?_
    cases hx
    exact ⟨c, hreq, hc c (by rw [hcall]; exact Option.some_ne_none call)⟩
  | took c call h _ _ _ hreq =>
    refine same rfl fun _ hx => ?_
    cases hx
    exact ⟨c, hreq⟩

theorem placed_step (h : ∀ t task, s.tasks t = some task → s.Placed task) (hs : s.Staged)
    (hst : Step bld s s') {task : Task V} (ht : s'.tasks t = some task) : s'.Placed task := by
  have hk : ∀ k, s.holderOf k ≠ none → s'.holderOf k ≠ none := fun k => holderOf_stays hst
  have hc : ∀ c, s.calls c ≠ none → s'.calls c ≠ none := fun c => calls_stay hs hst
  cases hst with
  | arrive id request =>
    by_cases hnew : t = s.nextTask
    · subst hnew
      rw [arrive_tasks, Function.update_self, Option.some.injEq] at ht
      subst ht
      trivial
    · rw [arrive_tasks, Function.update_of_ne hnew] at ht
      exact (h t task ht).mono hk hc
  | handler u task₀ _ hu hhs =>
    by_cases htu : t = u
    · subst htu
      exact placed_handler (h t task₀ hu) hhs hk hc ht
    · obtain ⟨x, hx, -⟩ := tasks_handler hhs
      rw [hx, Function.update_of_ne htu] at ht
      exact (h t task ht).mono hk hc
  | worker c w _ _ hws =>
    rw [(worker_frame hws).2.1] at ht
    exact (h t task ht).mono hk hc

omit [BsonCells V B] in
/-- Two calls in one table: one of them is the one that changed. -/
theorem calls_update {P : Call V B → Prop} (h : ∀ c call, s.calls c = some call → P call)
    {d : CallId} {call' : Call V B} (hx : s'.calls = Function.update s.calls d (some call'))
    (hnew : P call') (c : CallId) (call : Call V B) (hc : s'.calls c = some call) : P call := by
  rw [hx] at hc
  by_cases hcd : c = d
  · subst hcd
    rw [Function.update_self, Option.some.injEq] at hc
    exact hc ▸ hnew
  · rw [Function.update_of_ne hcd] at hc
    exact h c call hc

theorem fed_step (hf : s.Fit) (hst : Step bld s s') :
    ∀ c call, s'.calls c = some call → call.Fed := by
  have h := hf.fed
  cases hst with
  | arrive => exact h
  | handler t task _ ht hst =>
    cases hst with
    | paged c call call' fuel from_ n answer hc _ _ hp =>
      exact calls_update h rfl (Call.page_fed (h c call hc) hp)
    | took c call handle hc => exact calls_update h rfl (h c call hc).cancelTake
    | tookNothing c call hc => exact calls_update h rfl (h c call hc).cancelTake
    | connected _ enc => cases enc <;> exact h
    | _ => exact h
  | worker c w _ hw hst =>
    cases hst with
    | registered => exact calls_update h rfl Call.fed_new
    | armed call hc => exact calls_update h rfl ((h c call hc).armed _)
    | finished call outcome ms hc hp =>
      refine calls_update h rfl ((h c call hc).finish ?_ ms
        (hf.opened c w outcome hw (by rw [hp]; rfl)))
      have hlife := hf.alive.life c
      have hover : s.isOver c = false := by simp only [isOver, hw, Option.any_some, hp]; rfl
      rw [Life, hover, if_neg Bool.false_ne_true] at hlife
      exact hlife.2 call hc
    | _ => exact h

theorem opened_step (hf : s.Fit) (hst : Step bld s s') {c : CallId} {w : Worker V B}
    {o : Except String (ResultStream V B)} (hw : s'.workers c = some w)
    (ho : w.phase.outcome = some o) : ∀ stream, o = .ok stream → stream.At 0 := by
  cases hst with
  | arrive => exact hf.opened c w o hw ho
  | handler t task _ ht hst =>
    have hcase : s.workers c = some w ∨ w.phase = .numbered := by
      cases hst with
      | numbered k statement =>
        by_cases hc : c = s.nextCall
        · subst hc
          simp only [setTask_workers, setWorker_workers, Function.update_self,
            Option.some.injEq] at hw
          exact .inr (hw ▸ rfl)
        · simp only [setTask_workers, setWorker_workers, Function.update_of_ne hc] at hw
          exact .inl hw
      | connected _ enc => cases enc <;> exact .inl hw
      | _ => exact .inl hw
    rcases hcase with hold | hnum
    · exact hf.opened c w o hold ho
    · rw [hnum] at ho
      cases ho
  | worker d w₀ _ hd hst =>
    have moved : ∀ {p : WorkerPhase V B},
        s'.workers = Function.update s.workers d (some { w₀ with phase := p }) →
        (p.outcome = some o → ∀ stream, o = .ok stream → stream.At 0) →
        ∀ stream, o = .ok stream → stream.At 0 := by
      intro p hx hp
      rw [hx] at hw
      by_cases hcd : c = d
      · subst hcd
        rw [Function.update_self, Option.some.injEq] at hw
        subst hw
        exact hp ho
      · rw [Function.update_of_ne hcd] at hw
        exact hf.opened c w o hw ho
    cases hst with
    | returned outcome _ hfetched =>
      refine moved rfl fun hp => ?_
      cases hp
      obtain ⟨f, rfl⟩ := hfetched
      exact fun stream hs => Call.opened_at hs
    | unlocked conn outcome _ hphase =>
      refine moved rfl fun hp => ?_
      cases hp
      exact hf.opened d w₀ o hd (by rw [hphase]; rfl)
    | _ => exact moved rfl nofun

theorem Fit.step (h : s.Fit) {i : Input V B} (hst : s.step bld i = some s') : s'.Fit := by
  have hs := step_cases hst
  exact ⟨h.alive.step hs, h.held.step h.alive.staged hs,
    fun t task ht => placed_step h.placed h.alive.staged hs ht, fed_step h hs,
    fun c w o hw ho => opened_step h hs hw ho⟩

theorem run_fit {is : List (Input V B)} (h : (machine bld).Run Lib.Machine.free new is s) :
    s.Fit :=
  h.invariant Fit (fun _ _ _ _ hi hst => hi.step hst) fit_new

omit [BsonCells V B] in
theorem conn_of_holderOf {k : ConnId} (h : s.holderOf k ≠ none) :
    ∃ conn, s.conns k = some conn := by
  cases hk : s.conns k with
  | none => exact absurd (by simp [holderOf, hk]) h
  | some conn => exact ⟨conn, rfl⟩

theorem start_busy (ht : s.tasks t = some task) (hp : task.phase = .start) : s.Busy bld := by
  refine .inl ⟨t, {}, ?_⟩
  simp only [handlerStep, ht, Option.bind_some, hp, dispatchStep]
  cases task.request with
  | hello | malformed | unknown | test =>
    simp only [plainStep, hp]
    exact ⟨_, rfl⟩
  | connect spec =>
    simp only [connectStep, hp]
    exact ⟨_, rfl⟩
  | disconnect k =>
    simp only [disconnectStep, hp]
    split <;> exact ⟨_, rfl⟩
  | schema k op =>
    simp only [schemaStep, hp]
    split <;> exact ⟨_, rfl⟩
  | execute k statement =>
    simp only [executeStep, hp]
    split <;> exact ⟨_, rfl⟩
  | page c from_ n =>
    simp only [pageStep, hp]
    split <;> exact ⟨_, rfl⟩
  | cancel c =>
    simp only [cancelStep, hp]
    split <;> exact ⟨_, rfl⟩
  | release c =>
    simp only [releaseStep, hp]
    exact ⟨_, rfl⟩
  | cell c row col =>
    simp only [cellStep, hp]
    split <;> exact ⟨_, rfl⟩

theorem found_busy (h : s.Fit) (ht : s.tasks t = some task) (hp : task.phase = .found) :
    s.Busy bld := by
  have hplaced := h.placed t task ht
  simp only [Placed, hp] at hplaced
  obtain ⟨c, hreq, hc⟩ := hplaced
  obtain ⟨call, hcall⟩ := Option.ne_none_iff_exists'.mp hc
  cases hr : task.request with
  | page d from_ n =>
    rw [hr] at hreq
    cases hreq
    obtain ⟨⟨answer, call'⟩, hpage⟩ := Call.page_answers bld (h.fed c call hcall) from_ n
    refine .inl ⟨t, { fuel := call.looks }, ?_⟩
    simp only [handlerStep, ht, Option.bind_some, hp, dispatchStep, hr, pageStep, hcall, hpage]
    cases answer <;> exact ⟨_, rfl⟩
  | cancel d =>
    rw [hr] at hreq
    cases hreq
    refine .inl ⟨t, {}, ?_⟩
    simp only [handlerStep, ht, Option.bind_some, hp, dispatchStep, hr, cancelStep, hcall]
    split <;> exact ⟨_, rfl⟩
  | cell d row col =>
    rw [hr] at hreq
    cases hreq
    refine .inl ⟨t, {}, ?_⟩
    simp only [handlerStep, ht, Option.bind_some, hp, dispatchStep, hr, cellStep, hcall]
    exact ⟨_, rfl⟩
  | _ => rw [hr] at hreq; cases hreq

/-- A handler that is there keeps the process busy, with its own step or with a step of whoever
holds the connection it waits for. -/
theorem task_busy (h : s.Fit) (ht : s.tasks t = some task) : s.Busy bld := by
  have hplaced := h.placed t task ht
  cases hp : task.phase with
  | start => exact start_busy ht hp
  | found => exact found_busy h ht hp
  | reply r =>
    refine .inl ⟨t, {}, ?_⟩
    simp only [handlerStep, ht, Option.bind_some, hp]
    exact ⟨_, rfl⟩
  | dialed | drawn | inserted =>
    simp only [Placed, hp] at hplaced
    obtain ⟨spec, hreq⟩ := hplaced
    refine .inl ⟨t, {}, ?_⟩
    simp only [handlerStep, ht, Option.bind_some, hp, dispatchStep, hreq, connectStep]
    exact ⟨_, rfl⟩
  | took handle =>
    simp only [Placed, hp] at hplaced
    obtain ⟨c, hreq⟩ := hplaced
    refine .inl ⟨t, {}, ?_⟩
    simp only [handlerStep, ht, Option.bind_some, hp, dispatchStep, hreq, cancelStep]
    exact ⟨_, rfl⟩
  | removed =>
    simp only [Placed, hp] at hplaced
    obtain ⟨k, hreq, hk⟩ := hplaced
    obtain ⟨conn, hconn⟩ := conn_of_holderOf hk
    refine .inl ⟨t, {}, ?_⟩
    simp only [handlerStep, ht, Option.bind_some, hp, dispatchStep, hreq, disconnectStep, hconn]
    split <;> exact ⟨_, rfl⟩
  | locked | leaving =>
    simp only [Placed, hp] at hplaced
    obtain ⟨k, op, hreq, hk⟩ := hplaced
    obtain ⟨conn, hconn⟩ := conn_of_holderOf hk
    refine .inl ⟨t, {}, ?_⟩
    simp only [handlerStep, ht, Option.bind_some, hp, dispatchStep, hreq, schemaStep, hconn]
    exact ⟨_, rfl⟩
  | holding =>
    simp only [Placed, hp] at hplaced
    obtain ⟨k, hk, ⟨op, hreq⟩ | ⟨statement, hreq⟩⟩ := hplaced
    · obtain ⟨conn, hconn⟩ := conn_of_holderOf hk
      cases ho : conn.holder with
      | none =>
        refine .inl ⟨t, {}, ?_⟩
        simp only [handlerStep, ht, Option.bind_some, hp, dispatchStep, hreq, schemaStep, hconn,
          ho, if_true]
        exact ⟨_, rfl⟩
      | some o =>
        exact holder_busy ⟨h.alive.staged, h.held⟩ (k := k) (o := o) (by simp [holderOf, hconn, ho])
    · refine .inl ⟨t, {}, ?_⟩
      simp only [handlerStep, ht, Option.bind_some, hp, dispatchStep, hreq, executeStep]
      exact ⟨_, rfl⟩

/-- A process that has no step to make owes nobody a response. -/
theorem idle_settled (h : s.Fit) (hb : ¬ s.Busy bld) (id : ReqId) : s.pending id = 0 := by
  have htasks : Lib.total s.nextTask s.tasks (Task.owes id) = 0 :=
    Lib.total_eq_zero fun t task ht => absurd (task_busy h ht) hb
  have hworkers : Lib.total s.nextCall s.workers (Worker.owes id) = 0 := by
    refine Lib.total_eq_zero fun c w hw => if_neg fun hsent => hb ?_
    refine worker_busy ⟨h.alive.staged, h.held⟩ hw fun hgone => ?_
    rw [hgone] at hsent
    cases hsent.2
  rw [pending, htasks, hworkers]

/-! ### Runs -/

/-- A page that finds its call done asks for rows in range. -/
def Safe (bld : Build) (s : Server V B) (i : Input V B) : Prop :=
  ∀ t e id c from_ n call, i = .handler t e → s.tasks t = some ⟨id, .page c from_ n, .found⟩ →
    s.calls c = some call → call.status = .done → bld.InRange from_ n call.buffer.length

/-- What an input adds to the requests of an id. -/
def asked (i : Input V B) (id : ReqId) : ℕ := if i.asks id then 1 else 0

/-- A page out of range takes its handler away without a response. -/
theorem account_unsafe (h : s.Fit) {e : Env V B} {id : ReqId} {c : CallId} {from_ n : ℕ}
    {call : Call V B} (ht : s.tasks t = some ⟨id, .page c from_ n, .found⟩)
    (hc : s.calls c = some call) (hdone : call.status = .done)
    (hout : ¬ bld.InRange from_ n call.buffer.length) (hst : s.handlerStep bld t e = some s') :
    s'.account id + 1 = s.account id := by
  simp only [handlerStep, ht, Option.bind_some, dispatchStep, pageStep, hc] at hst
  split at hst
  · cases hst
  · next answer call' hpage =>
    obtain rfl := (Call.page_panics_iff (h.fed c call hc) hpage).mpr ⟨hdone, hout⟩
    cases hst
    have htotal := total_task (f := Task.owes id) (x := none) h.held ht
    rw [Option.elim_none, Task.owes, if_pos rfl] at htotal
    rw [account, account, pending, pending]
    change s.responses id + (Lib.total s.nextTask (Function.update s.tasks t none) _ +
      Lib.total s.nextCall s.workers _) + 1 = _
    omega

theorem account_step (h : s.Fit) {i : Input V B} (hst : s.step bld i = some s') :
    (∀ id, s'.account id ≤ s.account id + asked i id) ∧
      (Safe bld s i ↔ ∀ id, s'.account id = s.account id + asked i id) := by
  have hi : s.Sound := ⟨h.alive.staged, h.held⟩
  have balanced : (∀ id, s'.account id = s.account id + asked i id) → Safe bld s i →
      (∀ id, s'.account id ≤ s.account id + asked i id) ∧
        (Safe bld s i ↔ ∀ id, s'.account id = s.account id + asked i id) :=
    fun heq hsafe => ⟨fun id => Nat.le_of_eq (heq id), fun _ => heq, fun _ => hsafe⟩
  cases i with
  | arrive id request =>
    cases hst
    refine balanced (fun id' => ?_) (by rintro t e id' c f n call hi; cases hi)
    have hfresh := Lib.total_fresh (n := s.nextTask) (x := s.tasks) (some ⟨id, request, .start⟩)
      (Task.owes id')
    rw [Option.elim_some] at hfresh
    rw [account, account, pending, pending]
    change s.responses id' + (Lib.total (s.nextTask + 1) (Function.update s.tasks s.nextTask _) _ +
      Lib.total s.nextCall s.workers _) = _
    rw [hfresh]
    simp only [Task.owes, asked, Input.asks, beq_iff_eq]
    omega
  | worker c e =>
    obtain ⟨w, hw, hws⟩ := workerStep_cases hst
    obtain ⟨hn, ht, hc⟩ := worker_frame hws
    refine balanced (fun id => ?_) (by rintro t e id' c f n call hi; cases hi)
    exact account_worker hi.staged hw (workMove hws) hn ht hc id
  | handler t e =>
    obtain ⟨task, ht, hhs⟩ := handlerStep_cases hst
    have hmove := account_handler hi ht (taskMove hhs)
    refine ⟨fun id => ?_, fun hsafe id => ?_, fun heq => ?_⟩
    · have hasked : asked (V := V) (B := B) (.handler t e) id = 0 := rfl
      rcases hmove id with heq | ⟨heq, -⟩ <;> omega
    · rcases hmove id with heq | ⟨-, c, call, call', fuel, f, n, hc, hp, hreq, hpage⟩
      · exact heq
      · obtain ⟨hdone, hout⟩ := (Call.page_panics_iff (h.fed c call hc) hpage).mp rfl
        have hsplit : task = ⟨task.id, .page c f n, .found⟩ := by rw [← hp, ← hreq]
        exact absurd (hsafe t e task.id c f n call rfl (by rw [ht, ← hsplit]) hc hdone) hout
    · intro t' e' id c f n call hi' ht' hc hdone
      cases hi'
      by_contra hout
      have hless := account_unsafe h ht' hc hdone hout hst
      have hsame := heq id
      have hasked : asked (V := V) (B := B) (.handler t e) id = 0 := rfl
      omega

omit [BsonCells V B] in
theorem arrivals_cons (i : Input V B) (is : List (Input V B)) (id : ReqId) :
    arrivals (i :: is) id = asked i id + arrivals is id := by
  rw [arrivals, List.countP_cons, arrivals, asked, Nat.add_comm]

/-- No run answers more than was asked. -/
theorem run_account_le {is : List (Input V B)}
    (h : (machine bld).Run Lib.Machine.free s is s') (hf : s.Fit) (id : ReqId) :
    s'.account id ≤ s.account id + arrivals is id := by
  induction h with
  | nil => exact Nat.le_add_right _ _
  | @cons s t u i is _ hst _ ih =>
    have hstep := (account_step hf hst).1 id
    have hrest := ih (hf.step hst)
    rw [arrivals_cons]
    omega

/-- The balance of a run says whether every page of it was in range. -/
theorem run_safe_iff {is : List (Input V B)}
    (h : (machine bld).Run Lib.Machine.free s is s') (hf : s.Fit) :
    (machine bld).Run (Safe bld) s is s' ↔
      ∀ id, s'.account id = s.account id + arrivals is id := by
  induction h with
  | nil => exact ⟨fun _ _ => rfl, fun _ => .nil _⟩
  | @cons s t u i is _ hst hrun ih =>
    have hft := hf.step hst
    obtain ⟨hle, hiff⟩ := account_step hf hst
    constructor
    · intro hsafe id
      cases hsafe with
      | cons hg hst' htail =>
        rw [hst, Option.some.injEq] at hst'
        subst hst'
        rw [(ih hft).mp htail id, hiff.mp hg id, arrivals_cons, Nat.add_assoc]
    · intro heq
      have hboth : ∀ id, t.account id = s.account id + asked i id ∧
          u.account id = t.account id + arrivals is id := by
        intro id
        have hsum := heq id
        have hstep := hle id
        have hrest := run_account_le hrun hft id
        rw [arrivals_cons] at hsum
        exact ⟨by omega, by omega⟩
      exact .cons (hiff.mpr fun id => (hboth id).1) hst ((ih hft).mpr fun id => (hboth id).2)

/-- A run in which nothing arrives is not longer than what was left to do. -/
theorem run_ends {is : List (Input V B)}
    (h : (machine bld).Run (fun _ i => i.arrives = false) s is s') (hi : s.Sound) :
    is.length + s'.remaining ≤ s.remaining := by
  induction h with
  | nil => simp
  | @cons s t u i is ha hst hrun ih =>
    have hless := remaining_step hi hst ha
    have ht : t.Sound := ⟨hi.staged.step (step_cases hst), hi.held.step hi.staged (step_cases hst)⟩
    have hrest := ih ht
    rw [List.length_cons]
    omega

omit [BsonCells V B] in
theorem account_new (id : ReqId) : (new : Server V B).account id = 0 := rfl

/-- The requests of every id that arrived in a run are the responses written for it and the
tasks that still owe one, exactly if no page of the run was out of range. The process left to
itself comes to rest, and at rest nobody owes a response. -/
structure Answered (bld : Build) (is : List (Input V B)) (s : Server V B) : Prop where
  balance : (machine bld).Run (Safe bld) new is s ↔
    ∀ id, s.responses id + s.pending id = arrivals is id
  never_more : ∀ id, s.responses id + s.pending id ≤ arrivals is id
  ends : ∀ js s', (machine bld).Run (fun _ i => i.arrives = false) s js s' →
    js.length + s'.remaining ≤ s.remaining
  settled : ¬ s.Busy bld → ∀ id, s.pending id = 0

theorem requests_answered {is : List (Input V B)}
    (h : (machine bld).Run Lib.Machine.free new is s) : Answered bld is s := by
  have hf := run_fit h
  refine ⟨?_, fun id => ?_, fun js s' hjs => run_ends hjs ⟨hf.alive.staged, hf.held⟩,
    fun hb => idle_settled hf hb⟩
  · rw [run_safe_iff h fit_new]
    simp only [account_new, Nat.zero_add]
    exact Iff.rfl
  · have hle := run_account_le h fit_new id
    rwa [account_new, Nat.zero_add] at hle

/-- A page of two rows of a call with one, asked for and answered. -/
theorem requests_answered_page :
    ∃ s, (machine .checked).exec new (oneCall (.ok (.buffered [] [[7]] none)) ++
        [.arrive 3 (.page 1 0 2), .handler 2 {}, .handler 2 { fuel := 3 }, .handler 2 {}]) = some s ∧
      Answered .checked (oneCall (.ok (.buffered [] [[7]] none)) ++
        [.arrive 3 (.page 1 0 2), .handler 2 {}, .handler 2 { fuel := 3 }, .handler 2 {}]) s := by
  obtain ⟨s, hs, hr⟩ := (machine .checked).exists_run new
    (oneCall (.ok (.buffered [] [[7]] none)) ++
      [.arrive 3 (.page 1 0 2), .handler 2 {}, .handler 2 { fuel := 3 }, .handler 2 {}]) rfl
  exact ⟨s, hs, requests_answered hr⟩

/-- `from` and `n` with a sum past the word: the handler is gone and its request was not
answered, in a build that checks sums and, with a row already buffered, in one that wraps. -/
theorem page_never_answered :
    (∃ s, (machine .checked).exec new (oneCall (.ok (.buffered [] [[7]] none)) ++
        [.arrive 3 (.page 1 (2 ^ 64 - 1) 200), .handler 2 {}, .handler 2 { fuel := 3 }]) = some s ∧
      s.responses 3 = 0 ∧ s.pending 3 = 0) ∧
    ∃ s, (machine .wrapping).exec new (oneCall (.ok (.buffered [] [[7]] none)) ++
        [.arrive 3 (.page 1 0 1), .handler 2 {}, .handler 2 { fuel := 3 }, .handler 2 {},
          .arrive 4 (.page 1 (2 ^ 64 - 1) 1), .handler 3 {}, .handler 3 { fuel := 3 }]) = some s ∧
      s.responses 4 = 0 ∧ s.pending 4 = 0 :=
  ⟨⟨_, rfl, rfl, rfl⟩, _, rfl, rfl, rfl⟩

end Server
end LvimDb.Engine
