import LvimDb.Lib.History
import LvimDb.Engine.Server

/-!
# What a step can do

`HandlerStep` and `WorkerStep` list the atomic actions of a handler and of a worker
with the state each leaves; the executable step does one of them.
-/

namespace LvimDb.Engine
variable {V B : Type} [BsonCells V B]

/-- An answer of the shape its request asks for. An execute is only refused by its handler:
the number of its call is answered on the way to the worker. -/
def Fits : Request → Except String (Reply V) → Prop
  | .hello, r => r = .ok (.hello proto)
  | .connect _, r => ∀ a, r = .ok a → ∃ k enc tun, a = .connected k enc tun
  | .test _ _, r => ∀ a, r = .ok a → ∃ detail, a = .tested detail
  | .disconnect _, r => r = .ok .empty
  | .schema _ op, r => ∀ a, r = .ok a → ∃ payload, a = Server.schemaReply op payload
  | .execute _ _, r => ∀ a, r ≠ .ok a
  | .page _ _ _, r => ∀ a, r = .ok a → ∃ answer, a = .page answer
  | .cancel _, r => ∀ a, r = .ok a → a = .empty
  | .release _, r => r = .ok .empty
  | .cell _ _ _, r => ∀ a, r = .ok a → ∃ value, a = .cell value
  | .malformed _, r => ∀ a, r ≠ .ok a
  | .unknown _, r => ∀ a, r ≠ .ok a

/-- Requests whose success is concluded by a step of their own, not by a plain answer. -/
def Request.staged : Request → Bool
  | .connect _ => true
  | .cancel _ => true
  | _ => false

inductive HandlerStep (bld : Build) (s : Server V B) (t : TaskId) (task : Task V) :
    Server V B → Prop
  | replied (r) : task.phase = .reply r →
      HandlerStep bld s t task
        (((s.send (.response task.id r)).note (.answered task.id task.request r)).setTask t none)
  | concluded (r) : Fits task.request r →
      (task.phase = .start ∨ task.phase = .found ∨ ∃ h, task.phase = .took h) →
      (task.request.staged = true → ∃ e, r = .error e) →
      HandlerStep bld s t task (s.conclude t task r)
  | dialed (enc tun : Bool) : task.phase = .start → (∃ spec, task.request = .connect spec) →
      HandlerStep bld s t task (s.goto t task (.dialed enc tun))
  | drawn (enc tun : Bool) : task.phase = .dialed enc tun →
      HandlerStep bld s t task
        ({ s with nextConn := s.nextConn + 1 }.goto t task (.drawn s.nextConn enc tun))
  | inserted (k : ConnId) (enc tun : Bool) : task.phase = .drawn k enc tun →
      HandlerStep bld s t task
        (((s.setConn k ⟨true, 1, none, false⟩).note (.opened task.id k)).goto t task
          (.inserted k enc tun))
  | connected (k : ConnId) (enc tun : Bool) (spec : ConnSpec) :
      task.phase = .inserted k enc tun → task.request = .connect spec →
      HandlerStep bld s t task
        ((if enc then s else s.warn (unencrypted k spec)).conclude t task
          (.ok (.connected k enc tun)))
  | delisted (k : ConnId) (conn : Conn) : s.conns k = some conn → task.phase = .start →
      task.request = .disconnect k → conn.listed = true →
      HandlerStep bld s t task
        (((s.setConn k { conn with listed := false }).note (.delisted k)).goto t task .removed)
  | closed (k : ConnId) (conn : Conn) : s.conns k = some conn → task.phase = .removed →
      task.request = .disconnect k → conn.strong = 1 →
      HandlerStep bld s t task
        (((s.setConn k { conn with strong := 0, closed := true }).note (.closed k)).conclude
          t task (.ok .empty))
  | kept (k : ConnId) (conn : Conn) : s.conns k = some conn → task.phase = .removed →
      task.request = .disconnect k → conn.strong ≠ 1 →
      HandlerStep bld s t task
        ((s.setConn k { conn with strong := conn.strong - 1 }).conclude t task (.ok .empty))
  | cloned (k : ConnId) (conn : Conn) : s.conns k = some conn → conn.listed = true →
      task.phase = .start →
      ((∃ op, task.request = .schema k op) ∨ ∃ statement, task.request = .execute k statement) →
      HandlerStep bld s t task
        ((s.setConn k { conn with strong := conn.strong + 1 }).goto t task .holding)
  | locked (k : ConnId) (conn : Conn) : s.conns k = some conn → conn.holder = none →
      task.phase = .holding → (∃ op, task.request = .schema k op) →
      HandlerStep bld s t task
        ((s.setConn k { conn with holder := some (.handler t) }).goto t task .locked)
  | unlocked (k : ConnId) (conn : Conn) (r) : s.conns k = some conn → task.phase = .locked →
      (∃ op, task.request = .schema k op) → Fits task.request r →
      HandlerStep bld s t task ((s.setConn k { conn with holder := none }).goto t task (.leaving r))
  | left (k : ConnId) (conn : Conn) (r) : s.conns k = some conn → task.phase = .leaving r →
      (∃ op, task.request = .schema k op) →
      HandlerStep bld s t task
        ((s.setConn k { conn with strong := conn.strong - 1 }).conclude t task r)
  | numbered (k : ConnId) (statement : String) : task.phase = .holding →
      task.request = .execute k statement →
      HandlerStep bld s t task
        (({ s with nextCall := s.nextCall + 1 }.setWorker s.nextCall
          ⟨task.id, k, statement, .numbered⟩).setTask t none)
  | found (c : CallId) (call : Call V B) : s.calls c = some call → task.phase = .start →
      task.request.call = some c →
      HandlerStep bld s t task (s.goto t task .found)
  | missed (c : CallId) : s.mappedCall c = none → task.phase = .start →
      (∃ from_ n, task.request = .page c from_ n) →
      HandlerStep bld s t task ((s.note (.missed c)).conclude t task (.error (noSuchCall c)))
  | paged (c : CallId) (call call' : Call V B) (fuel from_ n : ℕ) (answer) :
      s.calls c = some call → task.phase = .found → task.request = .page c from_ n →
      call.page bld fuel from_ n = some (answer, call') →
      HandlerStep bld s t task
        (((s.setCall c call').note (.paged c call from_ n answer)).setTask t
          (match answer with
            | .ok a => some { task with phase := .reply (.ok (.page a)) }
            | .err err => some { task with phase := .reply (.error err) }
            | .panic => none))
  | took (c : CallId) (call : Call V B) (h : CancelHandle) : s.calls c = some call →
      call.cancel = some h → task.phase = .found → task.request = .cancel c →
      HandlerStep bld s t task ((s.setCall c call.cancelTake.2).goto t task (.took h))
  | tookNothing (c : CallId) (call : Call V B) : s.calls c = some call →
      call.cancel = none → task.phase = .found → task.request = .cancel c →
      HandlerStep bld s t task ((s.setCall c call.cancelTake.2).conclude t task (.ok .empty))
  | fired (c : CallId) (h : CancelHandle) : task.phase = .took h → task.request = .cancel c →
      HandlerStep bld s t task
        ((s.note (.fired c h.conn (s.running h.conn))).conclude t task (.ok .empty))
  | released (c : CallId) : task.phase = .start → task.request = .release c →
      HandlerStep bld s t task ((s.setMapped c false).conclude t task (.ok .empty))

inductive WorkerStep (s : Server V B) (c : CallId) (w : Worker V B) : Server V B → Prop
  | registered : w.phase = .numbered →
      WorkerStep s c w (((s.setCall c .new).setMapped c true).work c w .registered)
  | answered : w.phase = .registered →
      WorkerStep s c w
        (((s.send (.response w.id (.ok (.called c)))).note
          (.answered w.id (.execute w.conn w.statement) (.ok (.called c)))).work c w .answered)
  | spawned : w.phase = .answered → WorkerStep s c w (s.work c w .queued)
  | locked (conn : Conn) : s.conns w.conn = some conn → conn.holder = none → w.phase = .queued →
      WorkerStep s c w
        ((s.setConn w.conn { conn with holder := some (.worker c) }).work c w .locked)
  | armed (call : Call V B) : s.calls c = some call → w.phase = .locked →
      WorkerStep s c w ((s.setCall c { call with cancel := some ⟨w.conn⟩ }).work c w .armed)
  | unarmed : w.phase = .locked → WorkerStep s c w (s.work c w .armed)
  | handed : w.phase = .armed →
      WorkerStep s c w ((s.note (.handed c w.conn)).work c w .executing)
  | returned (outcome) : w.phase = .executing →
      (∃ f : Except String (Fetched V B), outcome = f.bind (·.openStream)) →
      WorkerStep s c w (s.work c w (.returned outcome))
  | unlocked (conn : Conn) (outcome) : s.conns w.conn = some conn →
      w.phase = .returned outcome →
      WorkerStep s c w
        ((s.setConn w.conn { conn with holder := none }).work c w (.unlocked outcome))
  | finished (call : Call V B) (outcome) (ms : ℕ) : s.calls c = some call →
      w.phase = .unlocked outcome →
      WorkerStep s c w
        ((((s.setCall c (call.finish ms outcome).1).send
          (.state c (call.finish ms outcome).2)).note
            (.stated c (call.finish ms outcome).2)).work c w .finished)
  | gone (conn : Conn) : s.conns w.conn = some conn → w.phase = .finished →
      WorkerStep s c w
        ((s.setConn w.conn { conn with strong := conn.strong - 1 }).work c w .gone)

namespace Server
variable {bld : Build} {s s' : Server V B} {t : TaskId} {task : Task V} {e : Env V B}

theorem plainStep_cases {r : Except String (Reply V)} (hr : Fits task.request r)
    (hreq : task.request.staged = false) (h : s.plainStep t task r = some s') :
    HandlerStep bld s t task s' := by
  simp only [plainStep] at h
  split at h
  · cases h
    exact .concluded r hr (.inl ‹_›) (by rw [hreq]; exact nofun)
  · cases h

theorem connectStep_cases {spec : ConnSpec} (hreq : task.request = .connect spec)
    (h : s.connectStep t task spec e = some s') :
    HandlerStep bld s t task s' := by
  simp only [connectStep] at h
  split at h
  · split at h
    · cases h
      exact .concluded _ (by simp [Fits, hreq]) (.inl ‹_›) (by simp [hreq, Request.staged])
    · cases h
      exact .dialed _ _ ‹_› ⟨spec, hreq⟩
  · cases h
    exact .drawn _ _ ‹_›
  · cases h
    exact .inserted _ _ _ ‹_›
  · cases h
    exact .connected _ _ _ _ ‹_› hreq
  · cases h

theorem disconnectStep_cases {k : ConnId} (hreq : task.request = .disconnect k)
    (h : s.disconnectStep t task k = some s') :
    HandlerStep bld s t task s' := by
  simp only [disconnectStep] at h
  split at h
  · split at h
    · cases h
      exact .concluded _ (by simp [Fits, hreq]) (.inl ‹_›) (by simp [hreq, Request.staged])
    · cases h
      obtain ⟨hk, hl⟩ := listedConn_some ‹_›
      exact .delisted _ _ hk ‹_› hreq hl
  · split at h
    · cases h
    · split at h
      · cases h
        exact .closed _ _ ‹_› ‹_› hreq ‹_›
      · cases h
        exact .kept _ _ ‹_› ‹_› hreq ‹_›
  · cases h

theorem schemaStep_cases {k : ConnId} {op : SchemaOp} (hreq : task.request = .schema k op)
    (h : s.schemaStep t task k op e = some s') :
    HandlerStep bld s t task s' := by
  simp only [schemaStep] at h
  split at h
  · split at h
    · cases h
      exact .concluded _ (by simp [Fits, hreq]) (.inl ‹_›) (by simp [hreq, Request.staged])
    · cases h
      obtain ⟨hk, hl⟩ := listedConn_some ‹_›
      exact .cloned _ _ hk hl ‹_› (.inl ⟨op, hreq⟩)
  · split at h
    · cases h
    · split at h
      · cases h
        exact .locked _ _ ‹_› ‹_› ‹_› ⟨op, hreq⟩
      · cases h
  · split at h
    · cases h
    · cases h
      refine .unlocked _ _ _ ‹_› ‹_› ⟨op, hreq⟩ ?_
      cases e.driver <;> simp [Fits, hreq, Except.map]
  · split at h
    · cases h
    · cases h
      exact .left _ _ _ ‹_› ‹_› ⟨op, hreq⟩
  · cases h

theorem executeStep_cases {k : ConnId} {statement : String}
    (hreq : task.request = .execute k statement) (h : s.executeStep t task k statement = some s') : HandlerStep bld s t task s' := by
  simp only [executeStep] at h
  split at h
  · split at h
    · cases h
      exact .concluded _ (by simp [Fits, hreq]) (.inl ‹_›) (by simp [hreq, Request.staged])
    · cases h
      obtain ⟨hk, hl⟩ := listedConn_some ‹_›
      exact .cloned _ _ hk hl ‹_› (.inr ⟨statement, hreq⟩)
  · cases h
    exact .numbered _ _ ‹_› hreq
  · cases h

theorem pageStep_cases {c : CallId} {from_ n : ℕ} (hreq : task.request = .page c from_ n)
    (h : s.pageStep bld t task c from_ n e = some s') : HandlerStep bld s t task s' := by
  simp only [pageStep] at h
  split at h
  · split at h
    · cases h
      obtain ⟨call, hc⟩ := mappedCall_some ‹_›
      exact .found _ call hc ‹_› (by rw [hreq]; rfl)
    · next hm =>
      cases h
      exact .missed _ (by simpa using hm) ‹_› ⟨_, _, hreq⟩
  · split at h
    · cases h
    · split at h
      · cases h
      · next hp =>
        split at h <;> cases h
        · exact .paged _ _ _ _ _ _ (.ok _) ‹_› ‹_› hreq hp
        · exact .paged _ _ _ _ _ _ (.err _) ‹_› ‹_› hreq hp
        · exact .paged _ _ _ _ _ _ .panic ‹_› ‹_› hreq hp
  · cases h

theorem cancelStep_cases {c : CallId} (hreq : task.request = .cancel c)
    (h : s.cancelStep t task c e = some s') : HandlerStep bld s t task s' := by
  simp only [cancelStep] at h
  split at h
  · split at h
    · cases h
      obtain ⟨call, hc⟩ := mappedCall_some ‹_›
      exact .found _ call hc ‹_› (by rw [hreq]; rfl)
    · cases h
      exact .concluded _ (by simp [Fits, hreq]) (.inl ‹_›) fun _ => ⟨_, rfl⟩
  · split at h
    · cases h
    · split at h
      · cases h
        exact .took _ _ _ ‹_› ‹_› ‹_› hreq
      · cases h
        exact .tookNothing _ _ ‹_› ‹_› ‹_› hreq
  · split at h
    · cases h
      exact .fired _ _ ‹_› hreq
    · cases h
      exact .concluded _ (by simp [Fits, hreq]) (.inr (.inr ⟨_, ‹_›⟩)) fun _ => ⟨_, rfl⟩
  · cases h

theorem releaseStep_cases {c : CallId} (hreq : task.request = .release c)
    (h : s.releaseStep t task c = some s') :
    HandlerStep bld s t task s' := by
  simp only [releaseStep] at h
  split at h
  · cases h
    exact .released _ ‹_› hreq
  · cases h

theorem cellStep_cases {c : CallId} {row col : ℕ} (hreq : task.request = .cell c row col)
    (h : s.cellStep t task c row col = some s') :
    HandlerStep bld s t task s' := by
  simp only [cellStep] at h
  split at h
  · split at h
    · cases h
      obtain ⟨call, hc⟩ := mappedCall_some ‹_›
      exact .found _ call hc ‹_› (by rw [hreq]; rfl)
    · cases h
      exact .concluded _ (by simp [Fits, hreq]) (.inl ‹_›) (by simp [hreq, Request.staged])
  · split at h
    · cases h
    · next call _ =>
      cases h
      refine .concluded _ ?_ (.inr (.inl ‹_›)) (by simp [hreq, Request.staged])
      cases call.cell row col <;> simp [Fits, hreq, Except.map]
  · cases h

/-- A handler's step is one of its atomic actions. -/
theorem handlerStep_cases (h : s.handlerStep bld t e = some s') :
    ∃ task, s.tasks t = some task ∧ HandlerStep bld s t task s' := by
  obtain ⟨task, ht, h⟩ := Option.bind_eq_some_iff.mp h
  refine ⟨task, ht, ?_⟩
  split at h
  · cases h
    exact .replied _ ‹_›
  · simp only [dispatchStep] at h
    split at h
    · next hreq => exact plainStep_cases (by simp [Fits, hreq]) (by simp [hreq, Request.staged]) h
    · exact connectStep_cases ‹_› h
    · next hreq =>
      refine plainStep_cases ?_ (by simp [hreq, Request.staged]) h
      cases e.driver <;> simp [Fits, hreq, Except.map]
    · exact disconnectStep_cases ‹_› h
    · exact schemaStep_cases ‹_› h
    · exact executeStep_cases ‹_› h
    · exact pageStep_cases ‹_› h
    · exact cancelStep_cases ‹_› h
    · exact releaseStep_cases ‹_› h
    · exact cellStep_cases ‹_› h
    · next hreq => exact plainStep_cases (by simp [Fits, hreq]) (by simp [hreq, Request.staged]) h
    · next hreq => exact plainStep_cases (by simp [Fits, hreq]) (by simp [hreq, Request.staged]) h

theorem connStep_cases {c : CallId} {w : Worker V B} (h : s.connStep c w e = some s') :
    WorkerStep s c w s' := by
  simp only [connStep] at h
  split at h
  · cases h
  · split at h
    · split at h
      · cases h
        exact .locked _ ‹_› ‹_› ‹_›
      · cases h
    · cases h
      exact .handed ‹_›
    · cases h
      exact .returned _ ‹_› ⟨_, rfl⟩
    · cases h
      exact .unlocked _ _ ‹_› ‹_›
    · cases h
      exact .gone _ ‹_› ‹_›
    · cases h

theorem callStep_cases {c : CallId} {w : Worker V B} (h : s.callStep c w e = some s') :
    WorkerStep s c w s' := by
  simp only [callStep] at h
  split at h
  · cases h
  · split at h
    · cases h
      split
      · exact .armed _ ‹_› ‹_›
      · exact .unarmed ‹_›
    · cases h
      exact .finished _ _ _ ‹_› ‹_›
    · cases h

/-- A worker's step is one of its atomic actions. -/
theorem workerStep_cases {c : CallId} (h : s.workerStep c e = some s') :
    ∃ w, s.workers c = some w ∧ WorkerStep s c w s' := by
  obtain ⟨w, hw, h⟩ := Option.bind_eq_some_iff.mp h
  refine ⟨w, hw, ?_⟩
  split at h
  · cases h
    exact .registered ‹_›
  · cases h
    exact .answered ‹_›
  · cases h
    exact .spawned ‹_›
  · exact callStep_cases h
  · exact callStep_cases h
  · exact connStep_cases h

/-- What a step of the engine is. -/
inductive Step (bld : Build) (s : Server V B) : Server V B → Prop
  | arrive (id : ReqId) (request : Request) : Step bld s (s.arrive id request)
  | handler (t : TaskId) (task : Task V) (s' : Server V B) : s.tasks t = some task →
      HandlerStep bld s t task s' → Step bld s s'
  | worker (c : CallId) (w : Worker V B) (s' : Server V B) : s.workers c = some w →
      WorkerStep s c w s' → Step bld s s'

theorem step_cases {i : Input V B} (h : s.step bld i = some s') : Step bld s s' := by
  cases i with
  | arrive id request =>
    cases h
    exact .arrive id request
  | handler t e =>
    obtain ⟨task, ht, hs⟩ := handlerStep_cases h
    exact .handler t task s' ht hs
  | worker c e =>
    obtain ⟨w, hw, hs⟩ := workerStep_cases h
    exact .worker c w s' hw hs

/-! ### What a step logs -/

/-- The state and the input an event comes from. -/
def Explains (bld : Build) (s : Server V B) (i : Input V B) : Event V B → Prop
  | .opened id k => ∃ t e task enc tun, i = .handler t e ∧ s.tasks t = some task ∧
      task.id = id ∧ task.phase = .drawn k enc tun
  | .delisted k => ∃ t e task, i = .handler t e ∧ s.tasks t = some task ∧
      task.request = .disconnect k
  | .closed k => ∃ t e task, i = .handler t e ∧ s.tasks t = some task ∧
      task.request = .disconnect k
  | .handed c k => ∃ w e, i = .worker c e ∧ s.workers c = some w ∧ w.phase = .armed ∧ w.conn = k
  | .fired c k v => ∃ t e id, i = .handler t e ∧
      s.tasks t = some ⟨id, .cancel c, .took ⟨k⟩⟩ ∧ v = s.running k
  | .paged c call f n a => ∃ fuel call', s.calls c = some call ∧
      call.page bld fuel f n = some (a, call')
  | .missed c => s.mappedCall c = none
  | .answered id request r =>
      (∃ t e, i = .handler t e ∧ s.tasks t = some ⟨id, request, .reply r⟩) ∨
        ∃ c w e, i = .worker c e ∧ s.workers c = some w ∧ w.phase = .registered ∧ id = w.id ∧
          request = .execute w.conn w.statement ∧ r = .ok (.called c)
  | .stated c n => ∃ w e call outcome ms, i = .worker c e ∧ s.workers c = some w ∧
      w.phase = .unlocked outcome ∧ s.calls c = some call ∧ n = (call.finish ms outcome).2
  | .logged _ _ => True

/-- A step logs one event at most, and the event is explained by the step. -/
theorem logged {i : Input V B} (h : s.step bld i = some s') :
    s'.hist = s.hist ∨ ∃ e, s'.hist = e :: s.hist ∧ Explains bld s i e := by
  cases i with
  | arrive id request =>
    cases h
    exact .inl rfl
  | handler t e =>
    obtain ⟨task, ht, h⟩ := handlerStep_cases h
    have hsplit : task = ⟨task.id, task.request, task.phase⟩ := rfl
    cases h with
    | replied r hp =>
      exact .inr ⟨_, rfl, .inl ⟨t, e, rfl, by rw [ht, hsplit, hp]⟩⟩
    | inserted k enc tun hp => exact .inr ⟨_, rfl, t, e, task, enc, tun, rfl, ht, rfl, hp⟩
    | connected k enc tun spec =>
      cases enc with
      | true => exact .inl rfl
      | false => exact .inr ⟨.logged "warn" (unencrypted k spec), rfl, trivial⟩
    | delisted k conn _ _ hreq => exact .inr ⟨_, rfl, t, e, task, rfl, ht, hreq⟩
    | closed k conn _ _ hreq => exact .inr ⟨_, rfl, t, e, task, rfl, ht, hreq⟩
    | missed c hm => exact .inr ⟨_, rfl, hm⟩
    | paged c call call' fuel f n a hc _ _ hp => exact .inr ⟨_, rfl, fuel, call', hc, hp⟩
    | fired c handle hp hreq =>
      exact .inr ⟨_, rfl, t, e, task.id, rfl, by rw [ht, hsplit, hp, hreq], rfl⟩
    | _ => exact .inl rfl
  | worker c e =>
    obtain ⟨w, hw, h⟩ := workerStep_cases h
    cases h with
    | handed hp => exact .inr ⟨_, rfl, w, e, rfl, hw, hp, rfl⟩
    | answered hp => exact .inr ⟨_, rfl, .inr ⟨c, w, e, rfl, hw, hp, rfl, rfl, rfl⟩⟩
    | finished call outcome ms hc hp =>
      exact .inr ⟨_, rfl, w, e, call, outcome, ms, rfl, hw, hp, hc, rfl⟩
    | _ => exact .inl rfl

theorem hist_grows {i : Input V B} (h : s.step bld i = some s') : s.hist <:+ s'.hist := by
  rcases logged h with hh | ⟨e, hh, -⟩
  · rw [hh]
  · rw [hh]
    exact List.suffix_cons _ _

/-- What a step keeps justified: the event it logs. -/
theorem justified_step {ok : List (Event V B) → Event V B → Prop} {i : Input V B}
    (h : s.step bld i = some s') (hj : Lib.Justified ok s.hist)
    (he : ∀ e, Explains bld s i e → ok s.hist e) : Lib.Justified ok s'.hist := by
  rcases logged h with hh | ⟨e, hh, hex⟩
  · rwa [hh]
  · rw [hh]
    exact hj.cons (he e hex)

/-- Where an event of the new history comes from. -/
theorem mem_hist_step {i : Input V B} (h : s.step bld i = some s') {e : Event V B}
    (hm : e ∈ s'.hist) : e ∈ s.hist ∨ Explains bld s i e := by
  rcases logged h with hh | ⟨e', hh, hex⟩
  · rw [hh] at hm
    exact .inl hm
  · rw [hh] at hm
    rcases List.mem_cons.mp hm with rfl | hm
    · exact .inr hex
    · exact .inl hm

end Server
end LvimDb.Engine
