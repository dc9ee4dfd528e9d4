import LvimDb.Client.Session

/-!
# The channel to the engine

Request ids are drawn once and every request line, task, worker and answer of the current
process goes back to one of them. What the client has read and what is still to be read
are the lines the process has written, in their order, up to what a death has cut off.
-/

namespace LvimDb.Client
open Engine
variable {V B : Type}

/-- The requests a callback is handed over with. -/
def Cb.Awaits : Cb → Request → Prop
  | .hello, r => r = .hello
  | .loadSchema _, r => ∃ spec, r = .connect spec
  | .withConn _ _, r => ∃ spec, r = .connect spec
  | .nodes _, r => ∃ k, r = .schema k .structureNodes
  | .adopted _, r => ∃ k, r = .schema k .structureNodes
  | .executed _ _, r => ∃ k statement, r = .execute k statement
  | .ignored, r => (∃ k, r = .disconnect k) ∨ isApi r = true

def Waiter.Fair : Waiter → Prop
  | .ensured => True
  | .request r cb => cb.Awaits r

namespace Channel

/-- The request was sent under that id to the current process. -/
def Asked (c : Channel V B) (id : ReqId) (request : Request) : Prop :=
  ∃ cb, c.asked id = some (request, cb)

structure Linked (c : Channel V B) : Prop where
  fresh : ∀ id, c.idSeq < id → c.asked id = none
  awaits : ∀ id r cb, c.asked id = some (r, cb) → cb.Awaits r
  pending : ∀ p ∈ c.pending, ∃ r, c.asked p.1 = some (r, p.2)
  distinct : (c.pending.map (·.1)).Nodup
  wire : ∀ p ∈ c.wire, c.Asked p.1 p.2
  waiting : ∀ w ∈ c.waiters, w.Fair
  owed : c.server.Owed c.Asked
  spoken : c.server.Spoken
  lines : ∃ lost, c.seen ++ c.server.out ++ lost = linesOf c.server.hist ∧
    (c.alive = true → lost = [])
  idle : c.job = false → c.pending = [] ∧ c.waiters = [] ∧ c.ready = false
  numbered : c.job = true → 0 < c.process

theorem linked_new : (new : Channel V B).Linked where
  fresh _ _ := rfl
  awaits _ _ _ h := by cases h
  pending _ h := absurd h List.not_mem_nil
  distinct := List.nodup_nil
  wire _ h := absurd h List.not_mem_nil
  waiting _ h := absurd h List.not_mem_nil
  owed := Server.owed_new _
  spoken := Server.spoken_new
  lines := ⟨[], rfl, fun _ => rfl⟩
  idle _ := ⟨rfl, rfl, rfl⟩
  numbered h := by cases h

variable {c c' : Channel V B}

/-! ### Sending -/

theorem Linked.next (h : c.Linked) : c.asked (c.idSeq + 1) = none :=
  h.fresh _ (Nat.lt_succ_self _)

/-- What was asked stays asked when another request goes out. -/
theorem Linked.asked_post (h : c.Linked) {request : Request} {cb : Cb} {id : ReqId}
    {x : Request × Cb} (hx : c.asked id = some x) : (c.post request cb).asked id = some x := by
  have hne : id ≠ c.idSeq + 1 := by
    rintro rfl
    rw [h.next] at hx
    cases hx
  rw [post_asked, Function.update_of_ne hne, hx]

theorem Linked.post (h : c.Linked) {request : Request} {cb : Cb} (hr : cb.Awaits request)
    (hj : c.job = true) : (c.post request cb).Linked := by
  have hasked : ∀ id r, c.Asked id r → (c.post request cb).Asked id r :=
    fun id r ⟨cb', hcb⟩ => ⟨cb', h.asked_post hcb⟩
  have hnew : (c.post request cb).asked (c.idSeq + 1) = some (request, cb) :=
    Function.update_self ..
  refine ⟨fun id hid => ?_, fun id r cb' hid => ?_, fun p hp => ?_, ?_, fun p hp => ?_, h.waiting,
    h.owed.mono hasked, h.spoken, h.lines, fun hj' => ?_, h.numbered⟩
  · rw [post_idSeq] at hid
    rw [post_asked, Function.update_of_ne (Nat.ne_of_gt hid)]
    exact h.fresh id (Nat.lt_of_succ_lt hid)
  · rw [post_asked] at hid
    by_cases hne : id = c.idSeq + 1
    · subst hne
      rw [Function.update_self, Option.some.injEq, Prod.mk.injEq] at hid
      rw [← hid.1, ← hid.2]
      exact hr
    · rw [Function.update_of_ne hne] at hid
      exact h.awaits id r cb' hid
  · rcases List.mem_append.mp hp with hp | hp
    · obtain ⟨r, hr⟩ := h.pending p hp
      exact ⟨r, h.asked_post hr⟩
    · rw [List.mem_singleton.mp hp]
      exact ⟨request, hnew⟩
  · rw [post_pending, List.map_append, List.nodup_append]
    refine ⟨h.distinct, List.pairwise_singleton _ _, fun id hid id' hid' => ?_⟩
    obtain ⟨p, hp, rfl⟩ := List.mem_map.mp hid
    obtain ⟨r, hr⟩ := h.pending p hp
    rintro rfl
    rw [List.map_singleton, List.mem_singleton] at hid'
    rw [hid', h.next] at hr
    cases hr
  · rw [post_wire] at hp
    split at hp
    · rcases List.mem_append.mp hp with hp | hp
      · exact hasked _ _ (h.wire p hp)
      · rw [List.mem_singleton.mp hp]
        exact ⟨cb, hnew⟩
    · exact hasked _ _ (h.wire p hp)
  · rw [post_job, hj] at hj'
    cases hj'

theorem wake_job (c : Channel V B) (w : Waiter) : (c.wake w).job = c.job := by
  cases w <;> rfl

theorem Linked.wake (h : c.Linked) {w : Waiter} (hw : w.Fair) (hj : c.job = true) :
    (c.wake w).Linked := by
  cases w with
  | ensured => exact h
  | request r cb => exact h.post hw hj

theorem Linked.wakes (ws : List Waiter) (h : c.Linked) (hws : ∀ w ∈ ws, w.Fair)
    (hj : c.job = true) : (ws.foldl Channel.wake c).Linked := by
  induction ws generalizing c with
  | nil => exact h
  | cons w ws ih =>
    rw [List.foldl_cons]
    refine ih (h.wake (hws w List.mem_cons_self) hj) (fun w' hw' => hws w' ?_) ?_
    · exact List.mem_cons_of_mem w hw'
    · rw [wake_job, hj]

/-- The handshake is over and nobody waits for it any more. -/
theorem Linked.cleared (h : c.Linked) (hj : c.job = true) :
    ({ c with ready := true, waiters := [] } : Channel V B).Linked :=
  ⟨h.fresh, h.awaits, h.pending, h.distinct, h.wire, nofun, h.owed, h.spoken, h.lines,
    fun hj' => absurd hj (by rw [hj']; exact Bool.false_ne_true), h.numbered⟩

theorem Linked.greet (h : c.Linked) (hj : c.job = true) : c.greet.Linked :=
  Linked.wakes c.waiters (h.cleared hj) h.waiting hj

/-- A new process, for those who wait. -/
theorem Linked.spawn (h : c.Linked) (hj : c.job = false) {ws : List Waiter}
    (hws : ∀ w ∈ ws, w.Fair) : ({ c with waiters := ws }.spawn.post .hello .hello).Linked := by
  have hspawn : ({ c with waiters := ws }.spawn).Linked := by
    refine ⟨fun _ _ => rfl, nofun, fun p hp => ?_, ?_, nofun, hws, Server.owed_new _,
      Server.spoken_new, ⟨[], rfl, fun _ => rfl⟩, nofun, fun _ => Nat.succ_pos _⟩
    · rw [spawn_pending, (h.idle hj).1] at hp
      cases hp
    · rw [spawn_pending, (h.idle hj).1]
      exact List.nodup_nil
  exact hspawn.post rfl rfl

theorem Linked.ensure (h : c.Linked) {w : Waiter} (hw : w.Fair) : (c.ensure w).1.Linked := by
  have hall : ∀ w' ∈ c.waiters ++ [w], w'.Fair := by
    intro w' hw'
    rcases List.mem_append.mp hw' with hw' | hw'
    · exact h.waiting w' hw'
    · rw [List.mem_singleton.mp hw']
      exact hw
  have hrefused : c.job = false → ({ c with waiters := [] } : Channel V B).Linked := fun hj =>
    ⟨h.fresh, h.awaits, h.pending, h.distinct, h.wire, nofun, h.owed, h.spoken, h.lines,
      fun _ => ⟨(h.idle hj).1, rfl, (h.idle hj).2.2⟩, h.numbered⟩
  unfold Channel.ensure
  split
  · next hr =>
    exact h.wake hw (Bool.and_eq_true_iff.mp hr).2
  · dsimp only
    split
    · next hj =>
      exact ⟨h.fresh, h.awaits, h.pending, h.distinct, h.wire, hall, h.owed, h.spoken, h.lines,
        fun hj' => absurd hj (by rw [hj']; exact Bool.false_ne_true), h.numbered⟩
    · next hj =>
      have hj : c.job = false := by simpa using hj
      split
      · exact hrefused hj
      · exact hrefused hj
      · exact h.spawn hj hall

theorem Linked.drop (h : c.Linked) (id : ReqId) : (c.drop id).Linked := by
  refine ⟨h.fresh, h.awaits, fun p hp => h.pending p (List.mem_filter.mp hp).1, ?_, h.wire,
    h.waiting, h.owed, h.spoken, h.lines, fun hj => ?_, h.numbered⟩
  · exact (List.filter_sublist.map _).nodup h.distinct
  · obtain ⟨hp, hrest⟩ := h.idle hj
    refine ⟨?_, hrest⟩
    rw [drop_pending, hp]
    rfl

theorem Linked.teardown (h : c.Linked) (err : String) : (c.teardown err).1.Linked :=
  ⟨h.fresh, h.awaits, nofun, List.nodup_nil, h.wire, nofun, h.owed, h.spoken, h.lines,
    fun _ => ⟨rfl, rfl, rfl⟩, nofun⟩

/-! ### The process -/

variable {bld : Build} [BsonCells V B]

theorem Linked.serverStep (bld : Build) (h : c.Linked) (ha : c.alive = true) {i : Engine.Input V B}
    {server : Server V B} (hst : c.server.step bld i = some server)
    (hi : ∀ id request, i = .arrive id request → c.Asked id request) :
    ({ c with server } : Channel V B).Linked := by
  obtain ⟨lost, hl, hlost⟩ := h.lines
  obtain ⟨new, hout, hhist⟩ := Server.out_step hst
  refine ⟨h.fresh, h.awaits, h.pending, h.distinct, h.wire, h.waiting,
    h.owed.step h.spoken.grounded hst hi, h.spoken.step hst, ⟨[], ?_, fun _ => rfl⟩, h.idle,
    h.numbered⟩
  rw [hlost ha, List.append_nil] at hl
  show c.seen ++ server.out ++ [] = linesOf server.hist
  rw [hout, hhist, ← hl, List.append_nil, List.append_assoc]

theorem Linked.engine (h : c.Linked) {i : Engine.Input V B} (hst : c.engine bld i = some c') :
    c'.Linked := by
  cases i with
  | arrive => cases hst
  | _ =>
    simp only [Channel.engine, Option.ite_none_right_eq_some, Option.map_eq_some_iff] at hst
    obtain ⟨ha, server, hserver, rfl⟩ := hst
    exact h.serverStep bld ha hserver nofun

theorem Linked.receive (h : c.Linked) (hst : c.receive = some c') : c'.Linked := by
  unfold Channel.receive at hst
  split at hst
  · cases hst
  · next id request wire hw =>
    rw [Option.ite_none_right_eq_some] at hst
    obtain ⟨ha, hc⟩ := hst
    cases hc
    have hasked : c.Asked id request := h.wire (id, request) (by rw [hw]; exact List.mem_cons_self)
    have h' := h.serverStep .checked ha
      (show c.server.step .checked (.arrive id request) = some (c.server.arrive id request) from rfl)
      (fun id' request' he => by cases he; exact hasked)
    exact ⟨h'.fresh, h'.awaits, h'.pending, h'.distinct,
      fun p hp => h.wire p (by rw [hw]; exact List.mem_cons_of_mem _ hp), h'.waiting, h'.owed,
      h'.spoken, h'.lines, h'.idle, h'.numbered⟩

omit [BsonCells V B] in
/-- The lines still to be read say nothing about what the process has done. -/
theorem Linked.setOut (h : c.Linked) (seen out : List (Line V)) (alive : Bool)
    (hl : ∃ lost, seen ++ out ++ lost = linesOf c.server.hist ∧ (alive = true → lost = [])) :
    ({ c with seen, alive, server := { c.server with out } } : Channel V B).Linked := by
  have hs := h.spoken
  refine ⟨h.fresh, h.awaits, h.pending, h.distinct, h.wire, h.waiting,
    ⟨h.owed.tasks, h.owed.workers, h.owed.answered, h.owed.opened, h.owed.delisted⟩, ?_, hl, h.idle, h.numbered⟩
  exact
    { sound := ⟨⟨hs.sound.staged.fresh, hs.sound.staged.dom⟩,
        ⟨hs.sound.held.handler, hs.sound.held.worker, hs.sound.held.queued, hs.sound.held.used,
          hs.sound.held.numbered, hs.sound.held.drawn, hs.sound.held.fresh⟩⟩
      life := hs.life
      grounded := hs.grounded
      said := hs.said
      opened := ⟨hs.opened.placed, hs.opened.once⟩
      order := hs.order
      answers := hs.answers
      connected := hs.connected }

omit [BsonCells V B] in
theorem Linked.read (h : c.Linked) {l : Line V} (hst : c.read = some (l, c')) : c'.Linked := by
  unfold Channel.read at hst
  split at hst
  · cases hst
  · next l' out ho =>
    cases hst
    refine h.setOut _ _ c.alive ?_
    obtain ⟨lost, hl, hlost⟩ := h.lines
    exact ⟨lost, by rw [← hl, ho]; simp, hlost⟩

omit [BsonCells V B] in
theorem Linked.die (h : c.Linked) {n : ℕ} (hst : c.die n = some c') : c'.Linked := by
  unfold Channel.die at hst
  rw [Option.ite_none_right_eq_some] at hst
  obtain ⟨ha, hc⟩ := hst
  cases hc
  obtain ⟨lost, hl, hlost⟩ := h.lines
  refine h.setOut _ _ false ⟨c.server.out.drop n ++ lost, ?_, nofun⟩
  rw [← hl, List.append_assoc, List.append_assoc, ← List.append_assoc (c.server.out.take n),
    List.take_append_drop]

end Channel

/-! ### Answers -/

/-- An answer that the request of the callback can have. -/
def Cb.Expects (cb : Cb) (r : Except String (Reply V)) : Prop :=
  ∃ request, cb.Awaits request ∧ Server.Answers request r

/-- The next line answers a request the client has sent, in the shape the request asks for. -/
theorem Channel.Linked.expects {c : Channel V B} (h : c.Linked) {id : ReqId}
    {r : Except String (Reply V)} {out : List (Line V)} {cb : Cb}
    (ho : c.server.out = .response id r :: out) (hl : (id, cb) ∈ c.pending) :
    ∃ request, c.asked id = some (request, cb) ∧ .answered id request r ∈ c.server.hist ∧
      cb.Expects r := by
  obtain ⟨lost, hlines, -⟩ := h.lines
  have hmem : Line.response id r ∈ linesOf c.server.hist := by
    rw [← hlines, ho]
    simp
  obtain ⟨request, hans⟩ := Server.response_mem.mp hmem
  obtain ⟨cb', hasked⟩ := h.owed.answered id request r hans
  obtain ⟨request', hasked'⟩ := h.pending (id, cb) hl
  rw [hasked, Option.some.injEq, Prod.mk.injEq] at hasked'
  obtain ⟨rfl, rfl⟩ := hasked'
  exact ⟨request, hasked, hans, request, h.awaits id request cb' hasked,
    h.spoken.answers id request r hans⟩

namespace Session

/-- What an answer makes of its callback. -/
inductive Answered (s : Session V B) : Cb → Except String (Reply V) → Session V B → Prop
  | greeted (p : ℕ) : Answered s .hello (.ok (.hello p)) { s with chan := s.chan.greet }
  | failed (cb : Cb) (e : String) : Answered s cb (.error e) (s.fail (cb, e))
  | opened (row : RowId) (k : ConnId) (enc tun : Bool) :
      Answered s (.loadSchema row) (.ok (.connected k enc tun))
        ((s.setRow row { s.rows row with
          connId := some k, encrypted := some enc, tunneled := some tun }).structureOf
            k (.nodes row))
  | adopted (name statement : String) (k : ConnId) (enc tun : Bool) :
      Answered s (.withConn name statement) (.ok (.connected k enc tun))
        ((s.adopt name k).offer name k statement)
  | filled (cb : Cb) (row : RowId) (payload : String) : cb = .nodes row ∨ cb = .adopted row →
      Answered s cb (.ok (.schema payload)) (s.setNodes row payload)
  | called (tok : Token) (name : Option String) (c : CallId) :
      Answered s (.executed tok name) (.ok (.called c))
        ({ s with watchers := (c, tok) :: s.watchers.filter (·.1 ≠ c) }.tell (.registered tok c))
  | ignored (a : Reply V) : Answered s .ignored (.ok a) s

theorem answer_cases {s s' : Session V B} {cb : Cb} {r : Except String (Reply V)}
    (h : s.answer cb r = some s') : s.Answered cb r s' := by
  unfold answer at h
  split at h
  · rw [Option.ite_none_right_eq_some] at h
    obtain ⟨-, h⟩ := h
    cases h
    exact .greeted _
  · cases h
  · cases h
    exact .failed _ _
  · cases h
    exact .opened _ _ _ _
  · cases h
    exact .adopted _ _ _ _ _
  · cases h
    exact .filled _ _ _ (.inl rfl)
  · cases h
    exact .filled _ _ _ (.inr rfl)
  · cases h
    exact .called _ _ _
  · cases h
    exact .ignored _
  · cases h

/-- The client has a step for every answer the engine writes. -/
theorem answer_some (s : Session V B) {cb : Cb} {r : Except String (Reply V)}
    (h : cb.Expects r) : ∃ s', s.answer cb r = some s' := by
  obtain ⟨request, ha, hr⟩ := h
  cases cb with
  | hello =>
    cases ha
    rcases hr with hr | ⟨_, _, _, hr, -⟩
    · cases hr
      exact ⟨{ s with chan := s.chan.greet }, rfl⟩
    · cases hr
  | loadSchema row =>
    obtain ⟨spec, rfl⟩ := ha
    rcases hr with hr | ⟨_, _, _, hr, -⟩
    · cases r with
      | error e => exact ⟨_, rfl⟩
      | ok a =>
        obtain ⟨k, enc, tun, rfl⟩ := hr a rfl
        exact ⟨_, rfl⟩
    · cases hr
  | withConn name statement =>
    obtain ⟨spec, rfl⟩ := ha
    rcases hr with hr | ⟨_, _, _, hr, -⟩
    · cases r with
      | error e => exact ⟨_, rfl⟩
      | ok a =>
        obtain ⟨k, enc, tun, rfl⟩ := hr a rfl
        exact ⟨_, rfl⟩
    · cases hr
  | nodes row | adopted row =>
    obtain ⟨k, rfl⟩ := ha
    rcases hr with hr | ⟨_, _, _, hr, -⟩
    · cases r with
      | error e => exact ⟨_, rfl⟩
      | ok a =>
        obtain ⟨payload, rfl⟩ := hr a rfl
        exact ⟨_, rfl⟩
    · cases hr
  | executed tok name =>
    obtain ⟨k, statement, rfl⟩ := ha
    cases r with
    | error e => exact ⟨_, rfl⟩
    | ok a =>
      rcases hr with hr | ⟨_, _, _, -, hr⟩
      · exact absurd rfl (hr a)
      · cases hr
        exact ⟨_, rfl⟩
  | ignored => cases r <;> exact ⟨_, rfl⟩

end Session
end LvimDb.Client
