import LvimDb.Completion.Source

/-!
# What the client's steps leave of a connection

A connection that the running process opened for a name and that has not been sent its
disconnect stays so, but for the disconnect of that connection.
-/

namespace LvimDb.Completion
open Engine (ConnId ReqId Reply Request BsonCells Build Server)
open Client (Session Channel Cb Waiter)

variable {V B : Type}

/-- The running process opened connection `k` for `name` and has not been sent its disconnect. -/
def Own (c : Channel V B) (name : String) (k : ConnId) : Prop :=
  c.OpenedFor name k ∧ c.Undisconnected k

/-- Nobody waits once the handshake is done. -/
def Calm (c : Channel V B) : Prop := c.ready = true → c.waiters = []

variable {c c' c'' : Channel V B} {name : String} {k : ConnId}

theorem own_congr (ha : c'.asked = c.asked) (hh : c'.server.hist = c.server.hist) :
    Own c' name k ↔ Own c name k := by
  unfold Own Channel.OpenedFor Channel.Undisconnected
  rw [ha, hh]

theorem Own.ready (h : Own c name k) (hs : c.Still) (hj : c.job = true) : c.ready = true := by
  obtain ⟨⟨id, spec, cb, hasked, -⟩, -⟩ := h
  cases hr : c.ready with
  | true => rfl
  | false => cases hs.early hj hr id _ hasked

theorem Own.post (h : Own c name k) (hl : c.Linked) {r : Request} {cb : Cb}
    (hr : r ≠ .disconnect k) : Own (c.post r cb) name k := by
  refine ⟨h.1.grows (Channel.grows_post hl r cb), fun id cb' hid => ?_⟩
  rw [Channel.post_asked] at hid
  by_cases hne : id = c.idSeq + 1
  · rw [hne, Function.update_self, Option.some.injEq, Prod.mk.injEq] at hid
    exact hr hid.1
  · rw [Function.update_of_ne hne] at hid
    exact h.2 id cb' hid

/-- A request that opens nothing gives no connection to anyone. -/
theorem own_of_post (hl : c.Linked) {r : Request} {cb : Cb} (hr : ∀ spec, r ≠ .connect spec)
    (h : Own (c.post r cb) name k) : Own c name k := by
  obtain ⟨⟨id, spec, cb', hasked, hopens, hopened⟩, hun⟩ := h
  refine ⟨⟨id, spec, cb', ?_, hopens, hopened⟩, fun id' cb'' hid' => hun id' cb'' ?_⟩
  · rw [Channel.post_asked] at hasked
    by_cases hne : id = c.idSeq + 1
    · rw [hne, Function.update_self, Option.some.injEq, Prod.mk.injEq] at hasked
      exact absurd hasked.1 (hr spec)
    · rw [Function.update_of_ne hne] at hasked
      exact hasked
  · exact hl.asked_post hid'

/-! ### What a step keeps -/

/-- The process goes on, and a connection stays its name's unless it is among `dis`. -/
structure Stays (dis : ConnId → Prop) (c c' : Channel V B) : Prop where
  job : c.job = true → c'.job = true
  process : c.job = true → c'.process = c.process
  own : c.job = true → ∀ name k, Own c name k → ¬ dis k → Own c' name k

variable {dis : ConnId → Prop}

theorem Stays.refl (c : Channel V B) : Stays dis c c := ⟨id, fun _ => rfl, fun _ _ _ h _ => h⟩

theorem Stays.trans (h : Stays dis c c') (h' : Stays dis c' c'') : Stays dis c c'' where
  job hj := h'.job (h.job hj)
  process hj := (h'.process (h.job hj)).trans (h.process hj)
  own hj name k ho hd := h'.own (h.job hj) name k (h.own hj name k ho hd) hd

/-- The process takes a step, or one of its lines is read. -/
theorem stays_hist (hj : c'.job = c.job) (hp : c'.process = c.process) (ha : c'.asked = c.asked)
    (hh : c.server.hist <:+ c'.server.hist) : Stays dis c c' where
  job h := hj.trans h
  process _ := hp
  own _ name k := by
    rintro ⟨⟨id, spec, cb, hasked, hopens, hopened⟩, hun⟩ -
    refine ⟨⟨id, spec, cb, ha ▸ hasked, hopens, hh.subset hopened⟩, fun id' cb' hid' => ?_⟩
    exact hun id' cb' (ha ▸ hid')

theorem stays_ensure (hl : c.Linked) {w : Waiter}
    (hw : ∀ k cb, w = .request (.disconnect k) cb → dis k) : Stays dis c (c.ensure w).1 where
  job hj := by
    rcases Channel.ensure_cases w hj with hc | ⟨-, hc⟩ | ⟨r, cb, -, -, hc⟩
    · rw [hc, hj]
    · rw [hc, hj]
    · rw [hc, Channel.post_job, hj]
  process hj := by
    rcases Channel.ensure_cases w hj with hc | ⟨-, hc⟩ | ⟨r, cb, -, -, hc⟩
    · rw [hc]
    · rw [hc]
    · rw [hc, Channel.post_process]
  own hj name k ho hd := by
    rcases Channel.ensure_cases w hj with hc | ⟨-, hc⟩ | ⟨r, cb, rfl, -, hc⟩
    · rw [hc]
      exact ho
    · rw [hc]
      exact ho
    · rw [hc]
      refine ho.post hl ?_
      rintro rfl
      exact hd (hw k cb rfl)

theorem Calm.ensure (h : Calm c) (hl : c.Linked) (w : Waiter) : Calm (c.ensure w).1 := by
  cases hj : c.job with
  | true =>
    rcases Channel.ensure_cases w hj with hc | ⟨hr, hc⟩ | ⟨r, cb, -, -, hc⟩
    · rw [hc]
      exact h
    · rw [hc]
      intro hr'
      rw [show c.ready = true from hr'] at hr
      cases hr
    · rw [hc]
      exact h
  | false =>
    have hr : c.ready = false := (hl.idle hj).2.2
    unfold Channel.ensure
    rw [hr, Bool.false_and, if_neg Bool.false_ne_true]
    dsimp only
    rw [hj, if_neg Bool.false_ne_true]
    split
    · intro _
      rfl
    · intro _
      rfl
    · intro hr'
      cases hr'

theorem calm_greet (c : Channel V B) : Calm c.greet := fun _ =>
  (Channel.wakes_waiters c.waiters { c with ready := true, waiters := [] }).1

/-- The handshake asks for what has waited for it: nothing, where a connection is anyone's. -/
theorem stays_greet (hl : c.Linked) (hs : c.Still) (hc : Calm c) : Stays dis c c.greet where
  job hj := (Session.wakes_here c.waiters { c with ready := true, waiters := [] }).1.trans hj
  process hj := by
    have hg : Channel.Grows (fun _ => True) c c.greet :=
      Channel.grows_greet hl hj fun _ _ _ => trivial
    exact hg.process
  own hj name k ho _ := by
    have hnil : c.waiters = [] := hc (ho.ready hs hj)
    have hgreet : c.greet = { c with ready := true, waiters := [] } := by
      unfold Channel.greet
      rw [hnil]
      rfl
    rw [hgreet]
    exact ho

variable {s s' : Session V B}

theorem stays_asks (hl : s.chan.Linked) (ha : s.Asks dis s') : Stays dis s.chan s'.chan := by
  rcases ha.chan with hc | ⟨w, hw, hc⟩
  · rw [hc]
    exact Stays.refl _
  · rw [hc]
    exact stays_ensure hl hw

theorem Calm.asks (h : Calm s.chan) (hl : s.chan.Linked) (ha : s.Asks dis s') : Calm s'.chan := by
  rcases ha.chan with hc | ⟨w, -, hc⟩
  · rw [hc]
    exact h
  · rw [hc]
    exact h.ensure hl w

/-- A request of cmp.lua changes nothing about whose a connection is. -/
theorem own_request (hl : s.chan.Linked) (hj : s.chan.job = true) (f : Fetch) :
    Own (s.request f.request .ignored).chan name k ↔ Own s.chan name k := by
  have hchan : (s.request f.request .ignored).chan =
      (s.chan.ensure (.request f.request .ignored)).1 := Session.ensure_chan _
  rw [hchan]
  rcases Channel.ensure_cases (.request f.request .ignored) hj with hc | ⟨-, hc⟩ | ⟨r, cb, hw, -, hc⟩
  · rw [hc]
  · rw [hc]
    exact own_congr rfl rfl
  · rw [hc]
    cases hw
    refine ⟨own_of_post hl fun spec hr => ?_, fun h => h.post hl fun hr => ?_⟩
    · cases f <;> cases hr
    · cases f <;> cases hr

/-! ### Steps of the session -/

variable {bld : Build} [BsonCells V B]

/-- The requests and the handshake are left alone. -/
structure Quiet (c c' : Channel V B) : Prop where
  asked : c'.asked = c.asked
  waiters : c'.waiters = c.waiters
  job : c'.job = c.job
  ready : c'.ready = c.ready
  process : c'.process = c.process
  hist : c.server.hist <:+ c'.server.hist

omit [BsonCells V B] in
theorem Quiet.refl (c : Channel V B) : Quiet c c := ⟨rfl, rfl, rfl, rfl, rfl, List.suffix_refl _⟩

/-- Every action but the reading of a line and the exit sends at most one request, or is none of
the client's. -/
theorem act_cases {a : Session.Act V B} (hst : s.act bld a = some s')
    (hd : a ≠ .session .deliver) (he : a ≠ .session .exited) :
    (∃ s₁, s.Asks (fun k => closing s a = some k) s₁ ∧ s'.chan = s₁.chan) ∨
      Quiet s.chan s'.chan := by
  have none_closed : s.Asks (fun _ => False) s' →
      (∃ s₁, s.Asks (fun k => closing s a = some k) s₁ ∧ s'.chan = s₁.chan) ∨
        Quiet s.chan s'.chan := fun h =>
    .inl ⟨s', ⟨h.conns, h.saved, h.chan.imp_right
      (Exists.imp fun w h => ⟨fun k cb heq => (h.1 k cb heq).elim, h.2⟩)⟩, rfl⟩
  cases a with
  | refresh name =>
    obtain ⟨row, -, hst⟩ := Option.bind_eq_some_iff.mp hst
    obtain ⟨k, -, rfl⟩ := Option.map_eq_some_iff.mp hst
    exact none_closed (Session.asks_structureOf k _)
  | reload name =>
    obtain ⟨row, -, hst⟩ := Option.bind_eq_some_iff.mp hst
    obtain ⟨_, -, hst⟩ := Option.bind_eq_some_iff.mp hst
    obtain ⟨k, -, rfl⟩ := Option.map_eq_some_iff.mp hst
    exact none_closed (Session.asks_structureOf k _)
  | session i =>
    have hst : s.step bld i = some s' := hst
    cases i with
    | deliver => exact absurd rfl hd
    | exited => exact absurd rfl he
    | save name spec => cases hst; exact .inr (Quiet.refl _)
    | load => cases hst; exact .inr (Quiet.refl _)
    | openSchema name =>
      obtain ⟨row, -, rfl⟩ := Option.map_eq_some_iff.mp hst
      exact none_closed (Session.asks_loadSchema row)
    | run name statement => cases hst; exact none_closed (Session.asks_withConn name statement)
    | browse name statement =>
      obtain ⟨k, -, rfl⟩ := Option.map_eq_some_iff.mp hst
      exact .inr (Quiet.refl _)
    | sendRun j =>
      obtain ⟨run, -, rfl⟩ := Option.map_eq_some_iff.mp hst
      have hasks := Session.asks_execute (s := { s with runs := s.runs.eraseIdx j }) run.conn
        run.statement (some run.name)
      exact none_closed ⟨hasks.conns, hasks.saved, hasks.chan⟩
    | dropRun j => cases hst; exact .inr (Quiet.refl _)
    | execute k statement => cases hst; exact none_closed (Session.asks_execute k statement none)
    | disconnect name =>
      obtain ⟨row, hrow, hst⟩ := Option.bind_eq_some_iff.mp hst
      obtain ⟨k, hk, rfl⟩ := Option.map_eq_some_iff.mp hst
      have hasks := Session.asks_disconnectRow (s := s) row k
      have hdis : s.Asks (fun k' => closing s (.session (.disconnect name)) = some k')
          (s.disconnectRow row k) := by
        refine ⟨hasks.conns, hasks.saved, hasks.chan.imp_right
          (Exists.imp fun w h => ⟨?_, h.2⟩)⟩
        intro k' cb heq
        rw [h.1 k' cb heq]
        show s.liveConn name = some k
        rw [Session.liveConn, hrow]
        exact hk
      exact .inl ⟨_, hdis, rfl⟩
    | delete name =>
      obtain ⟨row, hrow, rfl⟩ := Option.map_eq_some_iff.mp hst
      obtain ⟨s₁, hasks, heq⟩ := Session.asks_deleted (s := s) row
      have hdis : s.Asks (fun k => closing s (.session (.delete name)) = some k) s₁ := by
        refine ⟨hasks.conns, hasks.saved, hasks.chan.imp_right
          (Exists.imp fun w h => ⟨?_, h.2⟩)⟩
        intro k cb hk
        show s.liveConn name = some k
        rw [Session.liveConn, hrow]
        exact h.1 k cb hk
      refine .inl ⟨s₁, hdis, ?_⟩
      rw [heq]
      rfl
    | api request =>
      simp only [Session.step, Option.ite_none_right_eq_some] at hst
      obtain ⟨hapi, hst⟩ := hst
      cases hst
      refine none_closed (Session.asks_ensure _ fun k cb heq => ?_)
      cases heq
      cases hapi
    | ensure => cases hst; exact none_closed (Session.asks_ensure _ fun _ _ heq => by cases heq)
    | setLaunch launch =>
      cases hst
      exact .inr ⟨rfl, rfl, rfl, rfl, rfl, List.suffix_refl _⟩
    | receive =>
      obtain ⟨c, hr, rfl⟩ := Option.map_eq_some_iff.mp hst
      unfold Channel.receive at hr
      split at hr
      · cases hr
      · rw [Option.ite_none_right_eq_some] at hr
        obtain ⟨-, hr⟩ := hr
        cases hr
        exact .inr ⟨rfl, rfl, rfl, rfl, rfl, List.suffix_refl _⟩
    | engine j =>
      obtain ⟨c, hr, rfl⟩ := Option.map_eq_some_iff.mp hst
      cases j with
      | arrive => cases hr
      | _ =>
        simp only [Channel.engine, Option.ite_none_right_eq_some, Option.map_eq_some_iff] at hr
        obtain ⟨-, server, hserver, rfl⟩ := hr
        exact .inr ⟨rfl, rfl, rfl, rfl, rfl, Server.hist_grows hserver⟩
    | die n =>
      obtain ⟨c, hr, rfl⟩ := Option.map_eq_some_iff.mp hst
      unfold Channel.die at hr
      rw [Option.ite_none_right_eq_some] at hr
      obtain ⟨-, hr⟩ := hr
      cases hr
      exact .inr ⟨rfl, rfl, rfl, rfl, rfl, List.suffix_refl _⟩

theorem act_stays (ho : s.Orderly) (hc : Calm s.chan) {a : Session.Act V B}
    (hst : s.act bld a = some s') (hd : a ≠ .session .deliver) (he : a ≠ .session .exited) :
    Stays (fun k => closing s a = some k) s.chan s'.chan ∧ Calm s'.chan := by
  rcases act_cases hst hd he with ⟨s₁, hasks, hchan⟩ | hq
  · rw [hchan]
    exact ⟨stays_asks ho.kept.linked hasks, hc.asks ho.kept.linked hasks⟩
  · refine ⟨stays_hist hq.job hq.process hq.asked hq.hist, fun hr => ?_⟩
    rw [hq.waiters]
    exact hc (hq.ready ▸ hr)

theorem deliver_stays (ho : s.Orderly) (hc : Calm s.chan) (hst : s.step bld .deliver = some s') :
    s.chan.job = true ∧ Stays (fun _ => False) s.chan s'.chan ∧ Calm s'.chan := by
  obtain ⟨⟨l, c⟩, hr, hm⟩ := Option.bind_eq_some_iff.mp hst
  obtain ⟨hj, hstill⟩ := ho.still.read hr
  obtain ⟨-, hasked, hhist, hprocess, hready, hwaiters, hjob⟩ := Session.read_same hr
  have hlc : c.Linked := ho.kept.linked.read hr
  have hread : Stays (fun _ => False) s.chan c :=
    stays_hist hjob hprocess hasked (by rw [hhist])
  have hcalm : Calm c := fun h => by
    rw [hready] at h
    rw [hwaiters, hc h]
  rcases Session.asks_message hm with ⟨id, p, -, -, rfl⟩ | ⟨c', hc', ha⟩
  · have hdrop : Stays (fun _ => False) c (c.drop id) :=
      stays_hist rfl rfl rfl (List.suffix_refl _)
    have hgreet : Stays (fun _ => False) (c.drop id) (c.drop id).greet :=
      stays_greet (hlc.drop id) ⟨hstill.early, hstill.down⟩ hcalm
    exact ⟨hj, (hread.trans hdrop).trans hgreet, calm_greet _⟩
  · have hstep : Stays (fun _ => False) s.chan c' ∧ Calm c' ∧ c'.Linked := by
      rcases hc' with rfl | ⟨id, rfl⟩
      · exact ⟨hread, hcalm, hlc⟩
      · exact ⟨hread.trans (stays_hist rfl rfl rfl (List.suffix_refl _)), hcalm, hlc.drop id⟩
    exact ⟨hj, hstep.1.trans (stays_asks hstep.2.2 ha), hstep.2.1.asks hstep.2.2 ha⟩

/-- An answer to a request whose callback the drawer does not look at. -/
theorem deliver_ignored (hst : s.step bld .deliver = some s') {id : ReqId}
    {r : Except String (Reply V)} {out : List (Engine.Line V)}
    (hout : s.chan.server.out = .response id r :: out)
    (hp : s.chan.pending.lookup id = some .ignored) :
    s'.chan.process = s.chan.process ∧ ∀ name k, Own s'.chan name k ↔ Own s.chan name k := by
  obtain ⟨⟨l, c⟩, hr, hm⟩ := Option.bind_eq_some_iff.mp hst
  obtain ⟨-, out', hout', -⟩ := Session.read_seen hr
  obtain ⟨hpending, hasked, hhist, hprocess, -⟩ := Session.read_same hr
  rw [hout] at hout'
  obtain ⟨rfl, -⟩ := List.cons.inj hout'
  simp only [Session.onMessage] at hm
  rw [hpending, hp] at hm
  have hs' : s' = { s with chan := c.drop id } := by
    cases r with
    | error e => cases hm; rfl
    | ok a => cases hm; rfl
  rw [hs']
  exact ⟨hprocess, fun name k => own_congr hasked hhist⟩

end LvimDb.Completion
