import LvimDb.Daemon.Processes

/-!
# What the client knows of the engine

The protocol version and the driver list are set by the handshake (daemon.lua:289-309) and
read by `M.proto`, `M.drivers` and `proto.has`. `teardown` (236-258) forgets the handle, the
engine's name and its path, and keeps these two; a handshake that fails on the version has
already set the first.
-/

namespace LvimDb.Daemon

/-- The protocol that the reply to a handshake names. -/
def named (env : Env) (res : Answer) : Option ℚ :=
  match helloReply env res with
  | .ok (_, proto) => proto
  | .error _ => none

/-- A Lua table with nothing in it. -/
def Json.vacant : Json → Bool
  | .arr [] => true
  | .obj [] => true
  | _ => false

/-- The last handshake that was answered, the process it was written to and the one whose
output brought the answer. -/
def lastHello : List Event → Option (Answer × Option Pid × Option Pid)
  | [] => none
  | .greeted res owner cause :: _ => some (res, owner, cause)
  | _ :: hist => lastHello hist

/-- An event that is no answer to a handshake. -/
def Event.ungreeted : Event → Bool
  | .greeted _ _ _ => false
  | _ => true

theorem lastHello_ungreeted {e : Event} {hist : List Event} (h : e.ungreeted = true) :
    lastHello (e :: hist) = lastHello hist := by
  cases e with
  | greeted => cases h
  | _ => rfl

theorem helloReply_ok {env : Env} {res : Answer} {j : Json} {proto : Option ℚ}
    (h : helloReply env res = .ok (j, proto)) :
    res = .ok (some j) ∧ proto = env.number (j.field "proto") := by
  unfold helloReply at h
  split at h
  · cases h
  · cases h
  · split at h
    · cases h
      exact ⟨rfl, rfl⟩
    · cases h

namespace Client
variable {env : Env} {s t : Client} {k : ℕ}

/-- `M.is_running`. -/
def isRunning (s : Client) : Bool := s.ready && s.job.isSome

/-- `M.drivers`. -/
def driverMetas (s : Client) : Json := s.drivers.getD (.arr [])

/-- `has` of proto.lua. -/
def has (s : Client) (n : ℚ) : Bool := s.proto.any (n ≤ ·)

/-- The facts are those of the engine whose handshake the client has, and there are none while
it has none. -/
def FactsCurrent (env : Env) (s : Client) : Prop :=
  if s.isRunning then
    ∃ p j, s.job = some p ∧ lastHello s.hist = some (.ok (some j), some p, some p) ∧
      s.proto = env.number (j.field "proto") ∧
      s.drivers = (j.field "drivers").filter fun d => Json.truthy (some d)
  else s.proto = none ∧ s.driverMetas.vacant = true ∧ ∀ n, s.has n = false

/-- The handshake a step answers: the answer, the process it was written to and the one whose
exit or output brings it. -/
def greeting (env : Env) (s : Client) : Input → Option (Answer × Option Pid × Option Pid)
  | .go n =>
    match s.stack with
    | .failPending dead err cause :: _ =>
      (dead[n]?).bind fun x => if x.2.cb = .hello then some (.error err, x.2.owner, cause) else none
    | .lines p (line :: _) :: _ =>
      (env.message line).bind fun msg => (s.addressee msg).bind fun x =>
        if x.2.cb = .hello then some (answerOf msg, x.2.owner, some p) else none
    | _ => none
  | _ => none

/-- `M.stop` and the exit of a process. -/
def halts : Input → Bool
  | .act .stop => true
  | .exit _ => true
  | _ => false

/-- No session is ended, no refused handshake names a protocol, and a handshake is answered by
the process it was written to. -/
def Settles (env : Env) (s : Client) (i : Input) : Prop :=
  match s.greeting env i with
  | some (res, owner, cause) =>
    if greets env res then owner = cause else s.isRunning = false ∧ named env res = none
  | none => halts i = true → s.isRunning = false

/-! ### Only the handshake is a handshake -/

end Client

/-- What waits for the handshake is no handshake. -/
def Waiter.plain : Waiter → Prop
  | .ensured _ => True
  | .request _ cb _ => cb ≠ .hello

def Frame.plain : Frame → Prop
  | .flush ws _ _ => ∀ w ∈ ws, w.plain
  | _ => True

namespace Client
variable {env : Env} {s t : Client} {k : ℕ}

structure Asked (s : Client) : Prop where
  waiters : ∀ w ∈ s.waiters, w.plain
  frames : ∀ f ∈ s.stack, f.plain

theorem asked_new : new.Asked where
  waiters := fun _ h => (List.not_mem_nil h).elim
  frames := fun _ h => (List.not_mem_nil h).elim

theorem Asked.of (h : s.Asked) (hw : t.waiters ⊆ s.waiters)
    (hf : ∀ f ∈ t.stack, f ∈ s.stack ∨ f.plain) : t.Asked where
  waiters := fun w hw' => h.waiters w (hw hw')
  frames := fun f hf' => (hf f hf').elim (h.frames f) id

/-- Frames are put on top. -/
theorem Asked.over (h : s.Asked) (fs : List Frame) (hw : t.waiters ⊆ s.waiters)
    (hs : t.stack = fs ++ s.stack) (hfs : ∀ f ∈ fs, f.plain) : t.Asked := by
  refine h.of hw fun f hf => ?_
  rw [hs] at hf
  rcases List.mem_append.mp hf with hf | hf
  · exact .inr (hfs f hf)
  · exact .inl hf

theorem Asked.call (h : s.Asked) (w : Waiter) (res : Except Fault Unit) (cause : Option Pid) :
    (s.call w res cause).Asked := by
  have hbody : ∀ f ∈ [Frame.body], f.plain := fun f hf => by
    rw [List.mem_singleton.mp hf]
    trivial
  unfold Client.call
  split
  · exact h.over [.body] (List.Subset.refl _) rfl hbody
  · exact h.over [] (List.Subset.refl _) rfl nofun
  · split
    · exact h.over [.body] (List.Subset.refl _) rfl hbody
    · exact h

theorem Asked.wait (h : s.Asked) {w : Waiter} (hw : w.plain) :
    ({ s with waiters := s.waiters ++ [w] } : Client).Asked where
  waiters := fun w' hw' => by
    rcases List.mem_append.mp hw' with hw' | hw'
    · exact h.waiters w' hw'
    · rwa [List.mem_singleton.mp hw']
  frames := h.frames

theorem Asked.refuse (h : s.Asked) (text : String) : (s.refuse text).Asked where
  waiters := fun _ hw => (List.not_mem_nil hw).elim
  frames := fun f hf => by
    rcases List.mem_cons.mp hf with rfl | hf
    · exact h.waiters
    · exact h.frames f hf

theorem Asked.ensure (h : s.Asked) {w : Option Pid → Waiter} (hw : ∀ p, (w p).plain)
    (launch : Launch) : (s.ensure w launch).Asked := by
  unfold Client.ensure
  split
  · exact h.call _ _ _
  · split
    · exact h.wait (hw _)
    · exact (h.wait (hw _)).refuse _
    · exact (h.wait (hw _)).refuse _
    · exact (h.wait (hw _)).over [] (List.Subset.refl _) rfl nofun

theorem Asked.teardown (h : s.Asked) (err : Fault) (cause : Option Pid) :
    (s.teardown err cause).Asked := by
  refine h.over [.failPending s.pending err cause, .failWaiters err cause, .hooks err cause]
    (List.Subset.refl _) rfl fun f hf => ?_
  simp only [List.mem_cons, List.not_mem_nil, or_false] at hf
  rcases hf with rfl | rfl | rfl <;> trivial

theorem Asked.greet (h : s.Asked) (res : Answer) (cause : Option Pid) :
    (s.greet env res cause).Asked := by
  have hflush : ∀ (res' : Except Fault Unit), ∀ f ∈ [Frame.flush s.waiters res' cause], f.plain :=
    fun res' f hf => by
      rw [List.mem_singleton.mp hf]
      exact h.waiters
  rcases greet_cases env s res cause with ⟨-, proto, err, heq⟩ | ⟨-, proto, engine, drivers, heq⟩
  · rw [heq]
    refine Asked.teardown ?_ _ _
    exact h.over [.flush s.waiters (.error err) cause] (List.nil_subset _) rfl (hflush _)
  · rw [heq]
    exact h.over [.flush s.waiters (.ok ()) cause] (List.nil_subset _) rfl (hflush _)

theorem Asked.answer (h : s.Asked) (e : Entry) (res : Answer) (cause : Option Pid) :
    (s.answer env e res cause).Asked := by
  have hbody : ∀ f ∈ [Frame.body], f.plain := fun f hf => by
    rw [List.mem_singleton.mp hf]
    trivial
  unfold Client.answer
  split
  · refine Asked.greet ?_ _ _
    exact h.over [] (List.Subset.refl _) rfl nofun
  · exact h.over [.body] (List.Subset.refl _) rfl hbody
  · rename_i n _
    rcases executed_cases (s.tell (.ran n res e.owner cause)) n res e.owner with
      ⟨-, heq⟩ | ⟨-, watchers, -, heq⟩
    · rw [heq]
      exact h.over [] (List.Subset.refl _) rfl nofun
    · rw [heq]
      exact h.over [.body] (List.Subset.refl _) rfl hbody

theorem Asked.unwind (h : s.Asked) {stack : List Frame} (hs : stack ⊆ s.stack) :
    (s.unwind stack).Asked := by
  rcases unwind_cases s stack with ⟨p, rest, stack', rfl, heq⟩ | ⟨-, heq⟩
  · rw [heq]
    refine h.of (List.Subset.refl _) fun f hf => .inl (hs ?_)
    exact List.mem_cons_of_mem _ (List.mem_cons_of_mem _ hf)
  · rw [heq]
    exact h.of (List.Subset.refl _) fun f hf => .inl (hs hf)

theorem Asked.hears (h : s.Asked) {p : Pid} {msg : Json} (hm : Hears env s p msg t) : t.Asked := by
  have hheard : (s.heard p msg).Asked := by
    refine h.over [.dispatch] (List.Subset.refl _) rfl fun f hf => ?_
    rw [List.mem_singleton.mp hf]
    trivial
  cases hm with
  | nobody => exact hheard
  | answered ha hr =>
    refine Asked.answer ?_ _ _ _
    exact hheard.over [] (List.Subset.refl _) rfl nofun
  | raised ha hr =>
    refine Asked.unwind ?_ (List.Subset.refl _)
    exact hheard.over [] (List.Subset.refl _) rfl nofun
  | notified hw =>
    refine hheard.over [.body, .caught] (List.Subset.refl _) rfl fun f hf => ?_
    simp only [List.mem_cons, List.not_mem_nil, or_false] at hf
    rcases hf with rfl | rfl <;> trivial

/-- The frame on top is replaced by plain ones. -/
theorem Asked.top (h : s.Asked) {f : Frame} {stack : List Frame} (hs : s.stack = f :: stack)
    (fs : List Frame) (hw : t.waiters ⊆ s.waiters) (ht : t.stack = fs ++ stack)
    (hfs : ∀ g ∈ fs, g.plain) : t.Asked := by
  refine h.of hw fun g hg => ?_
  rw [ht] at hg
  rcases List.mem_append.mp hg with hg | hg
  · exact .inr (hfs g hg)
  · rw [hs]
    exact .inl (List.mem_cons_of_mem _ hg)

theorem plain_single {f : Frame} (hf : f.plain) : ∀ g ∈ [f], g.plain := fun g hg => by
  rwa [List.mem_singleton.mp hg]

theorem Asked.go (h : s.Asked) (hg : Goes env s k t) : t.Asked := by
  cases hg with
  | popped hs hf => exact h.top hs [] (List.Subset.refl _) rfl nofun
  | dispatched hs => exact h.top hs [] (List.Subset.refl _) rfl nofun
  | skipped hs hm =>
    refine h.top hs [_] (List.Subset.refl _) rfl ?_
    exact plain_single trivial
  | message hs hm =>
    refine Asked.hears ?_ (hears_onMessage _ _ _ _)
    refine h.top hs [_] (List.Subset.refl _) rfl ?_
    exact plain_single trivial
  | pending hs hx =>
    refine Asked.answer ?_ _ _ _
    refine h.top hs [_] (List.Subset.refl _) rfl ?_
    exact plain_single trivial
  | waiters hs =>
    refine h.top hs [_] (List.nil_subset _) rfl ?_
    exact plain_single h.waiters
  | waiter hs =>
    refine Asked.call ?_ _ _ _
    have hws := h.frames _ (by rw [hs]; exact List.mem_cons_self)
    refine h.top hs [_] (List.Subset.refl _) rfl ?_
    exact plain_single fun w hw => hws w (List.mem_cons_of_mem _ hw)
  | hooks hs =>
    refine h.top hs [_] (List.Subset.refl _) rfl ?_
    exact plain_single trivial
  | watcher hs hx =>
    refine h.top hs [.body, _] (List.Subset.refl _) rfl fun f hf => ?_
    simp only [List.mem_cons, List.not_mem_nil, or_false] at hf
    rcases hf with rfl | rfl <;> trivial

theorem Asked.step {i : Input} (h : s.Asked) (hst : Steps env s i t) : t.Asked := by
  cases hst with
  | act a hc =>
    cases a with
    | request r execute launch =>
      refine Asked.ensure ?_ (fun p => ?_) _
      · exact h.over [] (List.Subset.refl _) rfl nofun
      · cases execute <;> nofun
    | ensure launch =>
      have hplain : ∀ p, (Waiter.ensured p).plain := fun _ => trivial
      exact h.ensure hplain _
    | stop =>
      show s.stop.Asked
      unfold Client.stop
      split
      · refine Asked.teardown ?_ _ _
        exact h.over [] (List.Subset.refl _) rfl nofun
      · exact h.teardown _ _
  | ret hs => exact h.top hs [] (List.Subset.refl _) rfl nofun
  | raise hs => exact h.unwind (by rw [hs]; exact List.subset_cons_self _ _)
  | go hg => exact h.go hg
  | stdout hq hs he =>
    refine h.over [_] (List.Subset.refl _) rfl ?_
    exact plain_single trivial
  | die hp => exact h.over [] (List.Subset.refl _) rfl nofun
  | exit hq hs ha =>
    refine Asked.teardown ?_ _ _
    exact h.over [] (List.Subset.refl _) rfl nofun

/-! ### What a step does to the facts -/

/-- The protocol after a handshake that is refused: the one it names, or the one there was. -/
def refusedProto (env : Env) (s : Client) (res : Answer) : Option ℚ :=
  match helloReply env res with
  | .ok (_, proto) => proto
  | .error _ => s.proto

structure Same (s t : Client) : Prop where
  ready : t.ready = s.ready
  job : t.job = s.job
  proto : t.proto = s.proto
  drivers : t.drivers = s.drivers
  hello : lastHello t.hist = lastHello s.hist
  pending : ∀ x ∈ t.pending, x.2.cb = .hello → x ∈ s.pending

/-- The session is forgotten, but for its facts. -/
structure Torn (s t : Client) : Prop where
  ready : t.ready = false
  job : t.job = none
  proto : t.proto = s.proto
  drivers : t.drivers = s.drivers
  pending : t.pending = []

/-- A process is spawned, and its handshake sent. -/
structure Spawned (s t : Client) : Prop where
  was : s.job = none
  job : t.job.isSome = true
  ready : t.ready = s.ready
  proto : t.proto = s.proto
  drivers : t.drivers = s.drivers
  pending : ∃ id, ∀ x ∈ t.pending, x.2.cb = .hello → x ∈ s.pending ∨ x = (id, ⟨.hello, t.job⟩)

/-- A handshake is accepted: the facts are its own, and it waits no more. -/
structure Accepted (env : Env) (s t : Client) (res : Answer) (owner cause : Option Pid) : Prop where
  reply : ∃ j, helloReply env res = .ok (j, t.proto) ∧
    t.drivers = (j.field "drivers").filter fun d => Json.truthy (some d)
  accepts : accepts t.proto = true
  ready : t.ready = true
  job : t.job = s.job
  hello : lastHello t.hist = some (res, owner, cause)
  pending : ∃ id, (id, ⟨.hello, owner⟩) ∈ s.pending ∧
    ∀ x ∈ t.pending, x.2.cb = .hello → x ∈ s.pending ∧ x.1 ≠ id

/-- A handshake is refused. One that names something waited for its answer. -/
structure Refused (env : Env) (s t : Client) (res : Answer) : Prop where
  torn : Torn { s with proto := refusedProto env s res } t
  waited : ∀ x, helloReply env res = .ok x → ∃ y ∈ s.pending, y.2.cb = .hello

theorem Same.refl (s : Client) : Same s s := ⟨rfl, rfl, rfl, rfl, rfl, fun _ hx _ => hx⟩

theorem Same.trans {u : Client} (h : Same s t) (h' : Same t u) : Same s u where
  ready := h'.ready.trans h.ready
  job := h'.job.trans h.job
  proto := h'.proto.trans h.proto
  drivers := h'.drivers.trans h.drivers
  hello := h'.hello.trans h.hello
  pending := fun x hx hcb => h.pending x (h'.pending x hx hcb) hcb

theorem Same.torn {u : Client} (h : Same s t) (h' : Torn t u) : Torn s u :=
  ⟨h'.ready, h'.job, h'.proto.trans h.proto, h'.drivers.trans h.drivers, h'.pending⟩

theorem Same.spawned {u : Client} (h : Same s t) (h' : Spawned t u) : Spawned s u where
  was := h.job.symm.trans h'.was
  job := h'.job
  ready := h'.ready.trans h.ready
  proto := h'.proto.trans h.proto
  drivers := h'.drivers.trans h.drivers
  pending := by
    obtain ⟨id, hid⟩ := h'.pending
    exact ⟨id, fun x hx hcb => (hid x hx hcb).imp_left fun hx' => h.pending x hx' hcb⟩

theorem same_tell (s : Client) {e : Event} (he : e.ungreeted = true) : Same s (s.tell e) :=
  ⟨rfl, rfl, rfl, rfl, lastHello_ungreeted he, fun _ hx _ => hx⟩

theorem same_post (s : Client) {cb : Cb} (hcb : cb ≠ .hello) (r : Request) :
    Same s (s.post cb r) where
  ready := rfl
  job := rfl
  proto := rfl
  drivers := rfl
  hello := by
    rw [post_hist]
    split <;> rfl
  pending := fun x hx hx' => by
    rcases List.mem_append.mp hx with hx | hx
    · exact hx
    · rw [List.mem_singleton.mp hx] at hx'
      exact absurd hx' hcb

theorem same_call (s : Client) {w : Waiter} (hw : w.plain) (res : Except Fault Unit)
    (cause : Option Pid) : Same s (s.call w res cause) := by
  unfold Client.call
  split
  · exact ⟨rfl, rfl, rfl, rfl, rfl, fun _ hx _ => hx⟩
  · exact same_post s hw _
  · split
    · exact ⟨rfl, rfl, rfl, rfl, rfl, fun _ hx _ => hx⟩
    · exact .refl s

theorem same_unwind (s : Client) (stack : List Frame) : Same s (s.unwind stack) := by
  rcases unwind_cases s stack with ⟨p, rest, stack', -, heq⟩ | ⟨-, heq⟩
  · rw [heq]
    exact ⟨rfl, rfl, rfl, rfl, rfl, fun _ hx _ => hx⟩
  · rw [heq]
    exact ⟨rfl, rfl, rfl, rfl, rfl, fun _ hx _ => hx⟩

theorem same_executed (s : Client) (n : Token) (res : Answer) (owner : Option Pid) :
    Same s (s.executed n res owner) := by
  rcases executed_cases s n res owner with ⟨-, heq⟩ | ⟨-, watchers, -, heq⟩
  · rw [heq]
    exact .refl s
  · rw [heq]
    exact ⟨rfl, rfl, rfl, rfl, rfl, fun _ hx _ => hx⟩

theorem torn_teardown (s : Client) (err : Fault) (cause : Option Pid) :
    Torn s (s.teardown err cause) := ⟨rfl, rfl, rfl, rfl, rfl⟩

theorem ensure_facts (s : Client) {w : Option Pid → Waiter} (hw : ∀ p, (w p).plain)
    (launch : Launch) : Same s (s.ensure w launch) ∨ Spawned s (s.ensure w launch) := by
  unfold Client.ensure
  split
  · exact .inl (same_call s (hw _) _ _)
  · split
    · exact .inl ⟨rfl, rfl, rfl, rfl, rfl, fun _ hx _ => hx⟩
    · exact .inl ⟨rfl, rfl, rfl, rfl, rfl, fun _ hx _ => hx⟩
    · exact .inl ⟨rfl, rfl, rfl, rfl, rfl, fun _ hx _ => hx⟩
    · rename_i hjob
      refine .inr ⟨hjob, rfl, rfl, rfl, rfl, s.idSeq + 1, fun x hx hcb => ?_⟩
      rcases List.mem_append.mp hx with hx | hx
      · exact .inl hx
      · exact .inr (List.mem_singleton.mp hx)

/-- A callback that is no handshake. -/
theorem same_answer (env : Env) (s : Client) {e : Entry} (he : e.cb ≠ .hello) (res : Answer)
    (cause : Option Pid) : Same s (s.answer env e res cause) := by
  unfold Client.answer
  split
  · rename_i hcb
    exact absurd hcb he
  · exact ⟨rfl, rfl, rfl, rfl, rfl, fun _ hx _ => hx⟩
  · exact (same_tell s rfl).trans (same_executed _ _ _ _)

/-- A handshake that is answered. -/
theorem answer_hello (env : Env) (s : Client) {e : Entry} (he : e.cb = .hello) (res : Answer)
    (cause : Option Pid) :
    (greets env res = false ∧ Torn { s with proto := refusedProto env s res }
        (s.answer env e res cause)) ∨
      greets env res = true ∧ (∃ j, helloReply env res = .ok (j, (s.answer env e res cause).proto) ∧
          (s.answer env e res cause).drivers =
            (j.field "drivers").filter fun d => Json.truthy (some d)) ∧
        accepts (s.answer env e res cause).proto = true ∧
        (s.answer env e res cause).ready = true ∧ (s.answer env e res cause).job = s.job ∧
        lastHello (s.answer env e res cause).hist = some (res, e.owner, cause) ∧
        (s.answer env e res cause).pending = s.pending := by
  unfold Client.answer
  rw [he]
  simp only [greet]
  unfold greets
  cases hreply : helloReply env res with
  | error err => exact .inl ⟨rfl, rfl, rfl, by rw [refusedProto, hreply]; rfl, rfl, rfl⟩
  | ok x =>
    obtain ⟨j, proto⟩ := x
    by_cases hacc : accepts proto = true
    · refine .inr ⟨hacc, ?_⟩
      dsimp only
      rw [if_pos hacc]
      exact ⟨⟨j, rfl, rfl⟩, hacc, rfl, rfl, rfl, rfl⟩
    · refine .inl ⟨Bool.eq_false_iff.mpr hacc, ?_⟩
      dsimp only
      rw [if_neg hacc]
      exact ⟨rfl, rfl, by rw [refusedProto, hreply]; rfl, rfl, rfl⟩

/-- What a message does to the facts. -/
theorem hears_facts {p : Pid} {msg : Json} (hm : Hears env s p msg t) :
    (∃ id owner, s.addressee msg = some (id, ⟨.hello, owner⟩) ∧
      if greets env (answerOf msg) then Accepted env s t (answerOf msg) owner (some p)
      else Refused env s t (answerOf msg)) ∨
    (∀ x, s.addressee msg = some x → x.2.cb ≠ .hello) ∧ Same s t := by
  have hheard : Same s (s.heard p msg) := ⟨rfl, rfl, rfl, rfl, rfl, fun _ hx _ => hx⟩
  have hdrop : ∀ id, Same s ((s.heard p msg).drop id) := fun id =>
    ⟨rfl, rfl, rfl, rfl, rfl, fun _ hx _ => List.mem_of_mem_filter hx⟩
  cases hm with
  | nobody ha =>
    refine .inr ⟨fun x hx => ?_, hheard⟩
    rw [ha] at hx
    cases hx
  | answered ha hr =>
    rename_i id e
    by_cases he : e.cb = .hello
    · obtain ⟨cb, owner⟩ := e
      cases he
      refine .inl ⟨id, owner, ha, ?_⟩
      rcases answer_hello env ((s.heard p msg).drop id) (e := ⟨.hello, owner⟩) rfl
        (answerOf msg) (some p) with
        ⟨hbad, href⟩ | ⟨hgood, hreply, hacc, hready, hjob, hhello, hpending⟩
      · rw [if_neg (by rw [hbad]; exact Bool.false_ne_true)]
        refine ⟨⟨href.ready, href.job, href.proto, href.drivers, href.pending⟩, fun _ _ => ?_⟩
        exact ⟨_, addressee_mem ha, rfl⟩
      · rw [if_pos hgood]
        refine ⟨hreply, hacc, hready, hjob, hhello, id, addressee_mem ha, fun x hx _ => ?_⟩
        rw [hpending] at hx
        exact ⟨List.mem_of_mem_filter hx, by simpa using (List.mem_filter.mp hx).2⟩
    · refine .inr ⟨fun x hx => ?_, (hdrop id).trans (same_answer env _ he _ _)⟩
      rw [ha] at hx
      cases hx
      exact he
  | raised ha hr =>
    refine .inr ⟨fun x hx => ?_, ?_⟩
    · rw [ha] at hx
      cases hx
      nofun
    · exact ((hdrop _).trans (same_tell _ rfl)).trans (same_unwind _ _)
  | @notified w params hw ha =>
    have hset : Same s { s.heard p msg with watchers := s.watchers.filter (· ≠ w) } :=
      ⟨rfl, rfl, rfl, rfl, rfl, fun _ hx _ => hx⟩
    have htell := hset.trans
      (same_tell (e := .stated w.token (.ok params) w.owner (some p)) _ rfl)
    refine .inr ⟨fun x hx => ?_, ⟨htell.ready, htell.job, htell.proto, htell.drivers,
      htell.hello, htell.pending⟩⟩
    rw [ha] at hx
    cases hx

/-- What the module's own code does to the facts. -/
theorem go_facts (ha : s.Asked) (hg : Goes env s k t) :
    match s.greeting env (.go k) with
    | some (res, owner, cause) =>
      if greets env res then Accepted env s t res owner cause else Refused env s t res
    | none => Same s t := by
  cases hg with
  | popped hs hf =>
    have hnone : s.greeting env (.go k) = none := by
      rw [greeting, hs]
      rcases hf with rfl | ⟨p, rfl⟩ | ⟨err, cause, rfl⟩ | ⟨res, cause, rfl⟩ | ⟨err, cause, rfl⟩ <;>
        simp
    rw [hnone]
    exact ⟨rfl, rfl, rfl, rfl, rfl, fun _ hx _ => hx⟩
  | dispatched hs =>
    have hnone : s.greeting env (.go k) = none := by rw [greeting, hs]
    rw [hnone]
    exact ⟨rfl, rfl, rfl, rfl, rfl, fun _ hx _ => hx⟩
  | skipped hs hm =>
    have hnone : s.greeting env (.go k) = none := by
      simp only [greeting, hs, hm, Option.bind_none]
    rw [hnone]
    exact ⟨rfl, rfl, rfl, rfl, rfl, fun _ hx _ => hx⟩
  | message hs hm =>
    rename_i p line rest stack msg
    have hrest : ({ s with stack := .lines p rest :: stack } : Client).addressee msg =
        s.addressee msg := rfl
    rcases hears_facts (hears_onMessage env ({ s with stack := .lines p rest :: stack } : Client)
      p msg) with ⟨id, owner, ha', hfacts⟩ | ⟨hno, hsame⟩
    · rw [hrest] at ha'
      have hsome : s.greeting env (.go k) = some (answerOf msg, owner, some p) := by
        simp only [greeting, hs, hm, Option.bind_some, ha', if_true]
      rw [hsome]
      dsimp only
      split at hfacts
      · next hgood =>
        rw [if_pos hgood]
        exact ⟨hfacts.reply, hfacts.accepts, hfacts.ready, hfacts.job, hfacts.hello, hfacts.pending⟩
      · next hbad =>
        rw [if_neg hbad]
        obtain ⟨htorn, hwaited⟩ := hfacts
        exact ⟨⟨htorn.ready, htorn.job, htorn.proto, htorn.drivers, htorn.pending⟩, hwaited⟩
    · rw [hrest] at hno
      have hnone : s.greeting env (.go k) = none := by
        simp only [greeting, hs, hm, Option.bind_some]
        cases hadd : s.addressee msg with
        | none => rfl
        | some x => rw [Option.bind_some, if_neg (hno x hadd)]
      rw [hnone]
      exact ⟨hsame.ready, hsame.job, hsame.proto, hsame.drivers, hsame.hello, hsame.pending⟩
  | pending hs hx =>
    rename_i dead err cause stack x
    by_cases hcb : x.2.cb = .hello
    · have hsome : s.greeting env (.go k) = some (.error err, x.2.owner, cause) := by
        simp only [greeting, hs, hx, Option.bind_some, hcb, if_true]
      have hbad : greets env (.error err) = false := rfl
      rw [hsome]
      dsimp only
      rw [if_neg (by rw [hbad]; exact Bool.false_ne_true)]
      rcases answer_hello env ({ s with
        stack := .failPending (dead.eraseIdx k) err cause :: stack } : Client) hcb (.error err)
        cause with ⟨-, href⟩ | ⟨hgood, -⟩
      · exact ⟨⟨href.ready, href.job, href.proto, href.drivers, href.pending⟩, nofun⟩
      · rw [hbad] at hgood
        cases hgood
    · have hnone : s.greeting env (.go k) = none := by
        simp only [greeting, hs, hx, Option.bind_some, if_neg hcb]
      rw [hnone]
      have hsame := same_answer env ({ s with
        stack := .failPending (dead.eraseIdx k) err cause :: stack } : Client) hcb (.error err) cause
      exact ⟨hsame.ready, hsame.job, hsame.proto, hsame.drivers, hsame.hello, hsame.pending⟩
  | waiters hs =>
    have hnone : s.greeting env (.go k) = none := by rw [greeting, hs]
    rw [hnone]
    exact ⟨rfl, rfl, rfl, rfl, rfl, fun _ hx _ => hx⟩
  | waiter hs =>
    rename_i w ws res cause stack
    have hnone : s.greeting env (.go k) = none := by rw [greeting, hs]
    have hws : (Frame.flush (w :: ws) res cause).plain :=
      ha.frames _ (by rw [hs]; exact List.mem_cons_self)
    have hw : w.plain := hws w List.mem_cons_self
    have hsame := same_call ({ s with stack := .flush ws res cause :: stack } : Client) hw res cause
    rw [hnone]
    exact ⟨hsame.ready, hsame.job, hsame.proto, hsame.drivers, hsame.hello, hsame.pending⟩
  | hooks hs =>
    have hnone : s.greeting env (.go k) = none := by rw [greeting, hs]
    rw [hnone]
    exact ⟨rfl, rfl, rfl, rfl, rfl, fun _ hx _ => hx⟩
  | watcher hs hx =>
    have hnone : s.greeting env (.go k) = none := by rw [greeting, hs]
    rw [hnone]
    exact ⟨rfl, rfl, rfl, rfl, rfl, fun _ hx _ => hx⟩

/-- What a step does to the facts, by the handshake it answers. -/
theorem step_facts (ha : s.Asked) {i : Input} (hst : Steps env s i t) :
    match s.greeting env i with
    | some (res, owner, cause) =>
      if greets env res then Accepted env s t res owner cause else Refused env s t res
    | none => if halts i then Torn s t else Same s t ∨ Spawned s t := by
  cases hst with
  | act a hc =>
    cases a with
    | request r execute launch =>
      have hsame : Same s { s.tell (.issued s.tokens) with tokens := s.tokens + 1 } :=
        ⟨rfl, rfl, rfl, rfl, rfl, fun _ hx _ => hx⟩
      have hplain : ∀ p, (Waiter.request r (if execute then Cb.execute s.tokens
          else .user s.tokens) p).plain := by
        intro p
        cases execute <;> nofun
      exact (ensure_facts _ hplain launch).imp hsame.trans hsame.spawned
    | ensure launch =>
      have hplain : ∀ p, (Waiter.ensured p).plain := fun _ => trivial
      exact ensure_facts s hplain launch
    | stop =>
      show Torn s s.stop
      unfold Client.stop
      split
      · exact ⟨rfl, rfl, rfl, rfl, rfl⟩
      · exact torn_teardown s _ _
  | ret hs => exact .inl ⟨rfl, rfl, rfl, rfl, rfl, fun _ hx _ => hx⟩
  | raise hs => exact .inl (same_unwind s _)
  | go hg =>
    rename_i n
    have hfacts := go_facts ha hg
    revert hfacts
    split
    · exact id
    · exact .inl
  | stdout hq hs he => exact .inl ⟨rfl, rfl, rfl, rfl, rfl, fun _ hx _ => hx⟩
  | die hp => exact .inl ⟨rfl, rfl, rfl, rfl, rfl, fun _ hx _ => hx⟩
  | exit hq hs ha => exact ⟨rfl, rfl, rfl, rfl, rfl⟩

/-! ### At most one handshake waits -/

/-- The handshake that waits was written to the job, which is not ready yet; a session that is
ready has a job and a protocol. -/
structure Greeted (s : Client) : Prop where
  waits : ∀ x ∈ s.pending, x.2.cb = .hello →
    s.ready = false ∧ ∃ q, x.2.owner = some q ∧ s.job = some q
  once : ∀ x ∈ s.pending, ∀ y ∈ s.pending, x.2.cb = .hello → y.2.cb = .hello → x.1 = y.1
  ready : s.ready = true → s.job.isSome = true ∧ s.proto.isSome = true

theorem greeted_new : new.Greeted where
  waits := fun _ h => (List.not_mem_nil h).elim
  once := fun _ h => (List.not_mem_nil h).elim
  ready := nofun

theorem Greeted.same (h : s.Greeted) (hs : Same s t) : t.Greeted where
  waits := fun x hx hcb => by
    rw [hs.ready, hs.job]
    exact h.waits x (hs.pending x hx hcb) hcb
  once := fun x hx y hy hx' hy' => h.once x (hs.pending x hx hx') y (hs.pending y hy hy') hx' hy'
  ready := fun ht => by
    rw [hs.job, hs.proto]
    exact h.ready (hs.ready ▸ ht)

theorem Torn.greeted (h : Torn s t) : t.Greeted where
  waits := fun x hx => by rw [h.pending] at hx; cases hx
  once := fun x hx => by rw [h.pending] at hx; cases hx
  ready := fun ht => absurd (h.ready.symm.trans ht) nofun

theorem Greeted.not_ready (h : s.Greeted) (hjob : s.job = none) : s.ready = false := by
  by_contra hr
  have hsome := (h.ready (Bool.not_eq_false _ ▸ hr)).1
  rw [hjob] at hsome
  cases hsome

theorem Greeted.spawned (h : s.Greeted) (hs : Spawned s t) : t.Greeted := by
  have hready : t.ready = false := hs.ready.trans (h.not_ready hs.was)
  obtain ⟨id, hid⟩ := hs.pending
  have hnew : ∀ x ∈ t.pending, x.2.cb = .hello → x = (id, ⟨.hello, t.job⟩) := by
    intro x hx hcb
    refine (hid x hx hcb).resolve_left fun hx' => ?_
    obtain ⟨-, q, -, hjob⟩ := h.waits x hx' hcb
    rw [hs.was] at hjob
    cases hjob
  refine ⟨fun x hx hcb => ⟨hready, ?_⟩, fun x hx y hy hx' hy' => ?_,
    fun ht => absurd (hready.symm.trans ht) nofun⟩
  · obtain ⟨q, hq⟩ := Option.isSome_iff_exists.mp hs.job
    rw [hnew x hx hcb]
    exact ⟨q, hq, hq⟩
  · rw [hnew x hx hx', hnew y hy hy']

theorem Greeted.accepted (h : s.Greeted) {res : Answer} {owner cause : Option Pid}
    (ha : Accepted env s t res owner cause) : t.Greeted := by
  obtain ⟨id, hid, hold⟩ := ha.pending
  have hnone : ∀ x ∈ t.pending, x.2.cb ≠ .hello := by
    intro x hx hcb
    obtain ⟨hx', hne⟩ := hold x hx hcb
    exact hne (h.once x hx' _ hid hcb rfl)
  refine ⟨fun x hx hcb => absurd hcb (hnone x hx), fun x hx _ _ hcb => absurd hcb (hnone x hx),
    fun _ => ⟨?_, ?_⟩⟩
  · obtain ⟨-, q, -, hjob⟩ := h.waits _ hid rfl
    rw [ha.job, hjob]
    rfl
  · have hacc := ha.accepts
    cases hp : t.proto with
    | none =>
      rw [hp] at hacc
      cases hacc
    | some n => rfl

theorem Greeted.step (h : s.Greeted) (ha : s.Asked) {i : Input} (hst : Steps env s i t) :
    t.Greeted := by
  have hfacts := step_facts ha hst
  split at hfacts
  · split at hfacts
    · exact h.accepted hfacts
    · exact hfacts.torn.greeted
  · split at hfacts
    · exact hfacts.greeted
    · rcases hfacts with hsame | hspawned
      · exact h.same hsame
      · exact h.spawned hspawned

/-! ### The facts along a run -/

theorem factsCurrent_idle (h : s.isRunning = false) :
    s.FactsCurrent env ↔ s.proto = none ∧ s.driverMetas.vacant = true := by
  unfold FactsCurrent
  rw [if_neg (by rw [h]; nofun)]
  refine ⟨fun ⟨hp, hd, _⟩ => ⟨hp, hd⟩, fun ⟨hp, hd⟩ => ⟨hp, hd, fun n => ?_⟩⟩
  rw [has, hp]
  rfl

theorem Greeted.running_proto (h : s.Greeted) (hr : s.isRunning = true) : s.proto ≠ none := by
  have hready : s.ready = true := (Bool.and_eq_true_iff.mp hr).1
  have hsome := (h.ready hready).2
  intro hnone
  rw [hnone] at hsome
  cases hsome

/-- A session that is forgotten leaves no facts exactly where there was none. -/
theorem torn_facts (h : s.Greeted) (hf : s.FactsCurrent env) (ht : Torn s t) :
    t.FactsCurrent env ↔ s.isRunning = false := by
  have hidle : t.isRunning = false := by rw [isRunning, ht.ready, Bool.false_and]
  rw [factsCurrent_idle hidle, ht.proto, driverMetas, ht.drivers]
  constructor
  · rintro ⟨hp, -⟩
    by_contra hr
    exact h.running_proto (Bool.not_eq_false _ ▸ hr) hp
  · intro hr
    exact (factsCurrent_idle hr).mp hf

theorem refused_facts (h : s.Greeted) (hf : s.FactsCurrent env) {res : Answer}
    (ht : Refused env s t res) :
    t.FactsCurrent env ↔ s.isRunning = false ∧ named env res = none := by
  obtain ⟨htorn, hwaited⟩ := ht
  cases hreply : helloReply env res with
  | error err =>
    have htorn' : Torn s t := by
      simpa only [refusedProto, hreply] using htorn
    rw [torn_facts h hf htorn', named, hreply]
    exact ⟨fun hr => ⟨hr, rfl⟩, And.left⟩
  | ok x =>
    obtain ⟨j, proto⟩ := x
    have hidle : t.isRunning = false := by rw [isRunning, htorn.ready, Bool.false_and]
    obtain ⟨y, hy, hcb⟩ := hwaited _ hreply
    have hr : s.isRunning = false := by rw [isRunning, (h.waits y hy hcb).1, Bool.false_and]
    have hproto : t.proto = named env res := by
      rw [htorn.proto, named, hreply]
      simp only [refusedProto, hreply]
    have hdrivers : t.driverMetas = s.driverMetas := by rw [driverMetas, htorn.drivers]; rfl
    rw [factsCurrent_idle hidle, hproto, hdrivers]
    exact ⟨fun ⟨hp, _⟩ => ⟨hr, hp⟩, fun ⟨_, hp⟩ => ⟨hp, ((factsCurrent_idle hr).mp hf).2⟩⟩

/-- The facts of an accepted handshake are those of the job where the job has answered. -/
theorem accepted_facts (h : s.Greeted) {res : Answer} {owner cause : Option Pid}
    (ha : Accepted env s t res owner cause) : t.FactsCurrent env ↔ owner = cause := by
  obtain ⟨id, hid, -⟩ := ha.pending
  obtain ⟨-, q, rfl, hjob⟩ := h.waits _ hid rfl
  obtain ⟨j, hreply, hdrivers⟩ := ha.reply
  obtain ⟨rfl, hproto⟩ := helloReply_ok hreply
  have hjob' : t.job = some q := ha.job.trans hjob
  have hrun : t.isRunning = true := by rw [isRunning, ha.ready, hjob']; rfl
  unfold FactsCurrent
  rw [if_pos hrun]
  constructor
  · rintro ⟨p, j', -, hlast, -⟩
    rw [ha.hello] at hlast
    simp only [Option.some.injEq, Prod.mk.injEq] at hlast
    rw [hlast.2.1, hlast.2.2]
  · rintro rfl
    exact ⟨q, j, hjob', ha.hello, hproto, hdrivers⟩

theorem same_facts (hs : Same s t) (hf : s.FactsCurrent env) : t.FactsCurrent env := by
  unfold FactsCurrent isRunning driverMetas has at *
  rw [hs.ready, hs.job, hs.hello, hs.proto, hs.drivers]
  exact hf

theorem spawned_facts (h : s.Greeted) (hs : Spawned s t) (hf : s.FactsCurrent env) :
    t.FactsCurrent env := by
  have hready := h.not_ready hs.was
  have hidle : s.isRunning = false := by rw [isRunning, hready, Bool.false_and]
  have hidle' : t.isRunning = false := by rw [isRunning, hs.ready, hready, Bool.false_and]
  rw [factsCurrent_idle hidle', driverMetas, hs.proto, hs.drivers]
  exact (factsCurrent_idle hidle).mp hf

/-- A step keeps the facts current exactly when it settles them. -/
theorem facts_step (h : s.Greeted) (ha : s.Asked) (hf : s.FactsCurrent env) {i : Input}
    (hst : Steps env s i t) : t.FactsCurrent env ↔ s.Settles env i := by
  have hfacts := step_facts ha hst
  unfold Settles
  split at hfacts
  · split at hfacts
    · next hgood =>
      rw [if_pos hgood]
      exact accepted_facts h hfacts
    · next hbad =>
      rw [if_neg hbad]
      exact refused_facts h hf hfacts
  · split at hfacts
    · next hhalts =>
      rw [torn_facts h hf hfacts]
      exact ⟨fun hr _ => hr, fun hr => hr hhalts⟩
    · next hgoes =>
      refine ⟨fun _ hhalts => absurd hhalts hgoes, fun _ => ?_⟩
      rcases hfacts with hsame | hspawned
      · exact same_facts hsame hf
      · exact spawned_facts h hspawned hf

theorem factsCurrent_new : new.FactsCurrent env := ⟨rfl, rfl, fun _ => rfl⟩

/-- The facts are current in every state a run passes through exactly when each of its steps
settles them. -/
theorem facts_current_iff {is : List Input} (h : (machine env).Run Lib.Machine.free new is s) :
    (machine env).Throughout new is (FactsCurrent env) ↔
      (machine env).Run (Settles env) new is s :=
  h.throughout_iff (fun s => s.Greeted ∧ s.Asked) (FactsCurrent env)
    (fun _ _ _ ⟨hg, ha⟩ hst => ⟨hg.step ha (steps_of_step hst), ha.step (steps_of_step hst)⟩)
    (fun _ _ _ ⟨hg, ha⟩ hf hst => facts_step hg ha hf (steps_of_step hst))
    ⟨greeted_new, asked_new⟩ factsCurrent_new

/-- A process is greeted. -/
def session : List Input :=
  [.act (.ensure (.works "loded")), .stdout 0 [72, 10], .go 0, .go 0, .ret, .go 0, .go 0, .go 0]

theorem facts_current_iff_session :
    ∃ s, (machine helloEnv).exec new session = some s ∧ s.isRunning = true ∧
      ((machine helloEnv).Throughout new session (FactsCurrent helloEnv) ↔
        (machine helloEnv).Run (Settles helloEnv) new session s) := by
  have hsome : ((machine helloEnv).exec new session).map isRunning = some true := by decide
  obtain ⟨s, hs, hrun⟩ := Option.map_eq_some_iff.mp hsome
  exact ⟨s, hs, hrun, facts_current_iff (Lib.Machine.run_of_exec hs)⟩

/-- A stopped session keeps its protocol, and what is asked of it is on. -/
theorem stopped_keeps_proto :
    ∃ s, (machine helloEnv).exec new (session ++ [.act .stop]) = some s ∧ s.isRunning = false ∧
      s.proto = some 1 ∧ s.has 1 = true ∧ ¬ s.FactsCurrent helloEnv := by
  have hsome : ((machine helloEnv).exec new (session ++ [.act .stop])).map
      (fun s => (s.isRunning, s.proto, s.has 1)) = some (false, some 1, true) := by decide
  obtain ⟨s, hs, hview⟩ := Option.map_eq_some_iff.mp hsome
  simp only [Prod.mk.injEq] at hview
  obtain ⟨hrun, hproto, hhas⟩ := hview
  refine ⟨s, hs, hrun, hproto, hhas, fun h => ?_⟩
  have hnone := ((factsCurrent_idle hrun).mp h).1
  rw [hproto] at hnone
  cases hnone

end Client
end LvimDb.Daemon
