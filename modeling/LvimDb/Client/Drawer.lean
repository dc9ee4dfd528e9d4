import LvimDb.Client.Handles

/-!
# The rows of the drawer

The drawer reads the schema of a live row again on the user's wish and when the engine says
that a statement changed it. What holds of the rows and of the channel whatever happens: a row
stands under its own name, every shown connection is saved, nothing but its hello is asked of a
process before the handshake, and without a job nothing is left to read.
-/

namespace LvimDb.Client
open Engine
variable {V B : Type}

namespace Channel

/-- What a request without an answer yet may be: while the handshake lasts, the hello. -/
structure Still (c : Channel V B) : Prop where
  early : c.job = true → c.ready = false → ∀ id x, c.asked id = some x → x.1 = .hello
  down : c.job = false → c.alive = false ∧ c.server.out = []

variable {c c' : Channel V B}

theorem still_new : (new : Channel V B).Still := ⟨nofun, fun _ => ⟨rfl, rfl⟩⟩

/-- While a process runs a request goes out, or waits for the handshake. -/
theorem ensure_cases (w : Waiter) (hj : c.job = true) :
    (c.ensure w).1 = c ∨ c.ready = false ∧ (c.ensure w).1 = { c with waiters := c.waiters ++ [w] } ∨
      ∃ r cb, w = .request r cb ∧ c.ready = true ∧ (c.ensure w).1 = c.post r cb := by
  unfold ensure
  split
  · next hr =>
    cases w with
    | ensured => exact .inl rfl
    | request r cb => exact .inr (.inr ⟨r, cb, rfl, (Bool.and_eq_true_iff.mp hr).1, rfl⟩)
  · next hr =>
    have hready : c.ready = false := by
      rw [hj, Bool.and_true] at hr
      exact Bool.not_eq_true _ ▸ hr
    rw [if_pos hj]
    exact .inr (.inl ⟨hready, rfl⟩)

theorem ensure_asked (w : Waiter) (hj : c.job = true) :
    (c.ensure w).1.asked = c.asked ∨
      ∃ r cb, w = .request r cb ∧ c.ready = true ∧ (c.ensure w).1 = c.post r cb := by
  rcases ensure_cases w hj with hc | ⟨-, hc⟩ | hc
  · exact .inl (by rw [hc])
  · exact .inl (by rw [hc])
  · exact .inr hc

/-- A process that was not running before the request has read nothing yet. -/
theorem ensure_spawned (w : Waiter) (hj : c.job = false) (hj' : (c.ensure w).1.job = true) :
    (c.ensure w).1.seen = [] := by
  unfold ensure at hj' ⊢
  rw [hj, Bool.and_false, if_neg Bool.false_ne_true] at hj' ⊢
  simp only [Bool.false_eq_true, if_false] at hj' ⊢
  split at hj'
  · cases hj'
  · cases hj'
  · rfl

/-- Nobody is refused while a process runs, and without one only who asks. -/
theorem ensure_refused (hl : c.Linked) (w : Waiter) :
    (c.ensure w).2 = [] ∨
      c.job = false ∧ ∃ err, (c.ensure w).2 = (w.cb.toList).map (·, err) := by
  unfold ensure
  split
  · exact .inl rfl
  · dsimp only
    split
    · exact .inl rfl
    · next hj =>
      have hj : c.job = false := by simpa using hj
      have hall : ((c.waiters ++ [w]).filterMap Waiter.cb) = w.cb.toList := by
        rw [(hl.idle hj).2.1]
        cases hcb : w.cb with
        | none => simp [hcb]
        | some cb => simp [hcb]
      rw [hall]
      split
      · exact .inr ⟨hj, _, rfl⟩
      · exact .inr ⟨hj, _, rfl⟩
      · exact .inl rfl

theorem Still.ensure (h : c.Still) (w : Waiter) : (c.ensure w).1.Still := by
  unfold Channel.ensure
  split
  · next hr =>
    obtain ⟨hready, hj⟩ := Bool.and_eq_true_iff.mp hr
    cases w with
    | ensured => exact h
    | request r cb =>
      refine ⟨fun _ hr' => ?_, fun hj' => ?_⟩
      · rw [show (c.wake (.request r cb)).ready = c.ready from rfl, hready] at hr'
        cases hr'
      · rw [wake_job, hj] at hj'
        cases hj'
  · dsimp only
    split
    · exact ⟨h.early, h.down⟩
    · next hj =>
      have hj : c.job = false := by simpa using hj
      split
      · exact ⟨h.early, h.down⟩
      · exact ⟨h.early, h.down⟩
      · -- a new process: nothing is asked of it but its hello
        refine ⟨fun _ _ id x hx => ?_, nofun⟩
        have hone : Function.update (fun _ => none) (c.idSeq + 1)
            (some (Request.hello, Cb.hello)) id = some x := hx
        by_cases hid : id = c.idSeq + 1
        · rw [hid, Function.update_self, Option.some.injEq] at hone
          rw [← hone]
        · rw [Function.update_of_ne hid] at hone
          cases hone

theorem still_greet (hj : c.job = true) : c.greet.Still := by
  obtain ⟨-, hready⟩ := wakes_waiters c.waiters { c with ready := true, waiters := [] }
  obtain ⟨hjob, -⟩ := Session.wakes_here c.waiters { c with ready := true, waiters := [] }
  refine ⟨fun _ hr => ?_, fun hj' => ?_⟩
  · rw [show c.greet.ready = true from hready] at hr
    cases hr
  · rw [show c.greet.job = c.job from hjob, hj] at hj'
    cases hj'

theorem Still.read (h : c.Still) {l : Line V} (hr : c.read = some (l, c')) :
    c.job = true ∧ c'.Still := by
  unfold Channel.read at hr
  split at hr
  · cases hr
  · next out ho =>
    cases hr
    have hj : c.job = true := by
      cases hj : c.job with
      | true => rfl
      | false =>
        rw [(h.down hj).2] at ho
        cases ho
    exact ⟨hj, h.early, fun hj' => by rw [show c.job = false from hj'] at hj; cases hj⟩

theorem Still.receive (h : c.Still) (hst : c.receive = some c') : c'.Still := by
  unfold Channel.receive at hst
  split at hst
  · cases hst
  · rw [Option.ite_none_right_eq_some] at hst
    obtain ⟨ha, hst⟩ := hst
    cases hst
    refine ⟨h.early, fun hj => ?_⟩
    rw [(h.down hj).1] at ha
    cases ha

theorem Still.engine [BsonCells V B] {bld : Build} (h : c.Still) {i : Engine.Input V B}
    (hst : c.engine bld i = some c') : c'.Still := by
  cases i with
  | arrive => cases hst
  | _ =>
    simp only [Channel.engine, Option.ite_none_right_eq_some, Option.map_eq_some_iff] at hst
    obtain ⟨ha, server, -, rfl⟩ := hst
    refine ⟨h.early, fun hj => ?_⟩
    rw [(h.down hj).1] at ha
    cases ha

theorem Still.die (h : c.Still) {n : ℕ} (hst : c.die n = some c') : c'.Still := by
  unfold Channel.die at hst
  rw [Option.ite_none_right_eq_some] at hst
  obtain ⟨ha, hst⟩ := hst
  cases hst
  refine ⟨h.early, fun hj => ?_⟩
  rw [(h.down hj).1] at ha
  cases ha

theorem still_teardown (h : c.isOver = true) (err : String) : (c.teardown err).1.Still := by
  simp only [isOver, Bool.and_eq_true, Bool.not_eq_true', List.isEmpty_iff] at h
  exact ⟨fun hj => absurd hj Bool.false_ne_true, fun _ => ⟨h.1.2, h.2⟩⟩

end Channel

namespace Session
variable {s s' : Session V B}

/-! ### Client code and the tables -/

/-- Client code that sends at most one request, which disconnects nothing but `dis`, and leaves
the saved connections and the rows of the drawer in their places. -/
structure Asks (dis : ConnId → Prop) (s s' : Session V B) : Prop where
  conns : s'.conns = s.conns
  saved : s'.saved = s.saved
  chan : s'.chan = s.chan ∨
    ∃ w, (∀ k cb, w = .request (.disconnect k) cb → dis k) ∧ s'.chan = (s.chan.ensure w).1

variable {dis : ConnId → Prop}

theorem fail_asks (s : Session V B) (p : Cb × String) :
    (s.fail p).conns = s.conns ∧ (s.fail p).saved = s.saved ∧ (s.fail p).chan = s.chan := by
  obtain ⟨cb, err⟩ := p
  cases cb <;> exact ⟨rfl, rfl, rfl⟩

theorem fails_asks (ps : List (Cb × String)) (s : Session V B) :
    (ps.foldl fail s).conns = s.conns ∧ (ps.foldl fail s).saved = s.saved ∧
      (ps.foldl fail s).chan = s.chan := by
  induction ps generalizing s with
  | nil => exact ⟨rfl, rfl, rfl⟩
  | cons p ps ih =>
    obtain ⟨hconns, hsaved, hchan⟩ := fail_asks s p
    obtain ⟨hconns', hsaved', hchan'⟩ := ih (s.fail p)
    exact ⟨hconns'.trans hconns, hsaved'.trans hsaved, hchan'.trans hchan⟩

theorem asks_fail (p : Cb × String) : s.Asks (fun _ => False) (s.fail p) := by
  obtain ⟨hconns, hsaved, hchan⟩ := fail_asks s p
  exact ⟨hconns, hsaved, .inl hchan⟩

theorem asks_ensure (w : Waiter) (hw : ∀ k cb, w = .request (.disconnect k) cb → dis k) :
    s.Asks dis (s.ensure w) := by
  obtain ⟨hconns, hsaved, hchan⟩ :=
    fails_asks (s.chan.ensure w).2 { s with chan := (s.chan.ensure w).1 }
  exact ⟨hconns, hsaved, .inr ⟨w, hw, hchan⟩⟩

theorem asks_connectSaved (name : String) (cb : Cb) : s.Asks (fun _ => False) (s.connectSaved name cb) := by
  unfold connectSaved
  split
  · exact asks_fail _
  · exact asks_ensure _ nofun

theorem asks_loadSchema (row : RowId) : s.Asks (fun _ => False) (s.loadSchema row) := by
  unfold loadSchema
  split
  · exact ⟨rfl, rfl, .inl rfl⟩
  · exact asks_connectSaved _ _

theorem asks_structureOf (k : ConnId) (cb : Cb) : s.Asks (fun _ => False) (s.structureOf k cb) :=
  asks_ensure _ nofun

theorem asks_adopt (name : String) (k : ConnId) : s.Asks (fun _ => False) (s.adopt name k) := by
  unfold adopt
  split
  · exact ⟨rfl, rfl, .inl rfl⟩
  · next row _ =>
    split
    · exact ⟨rfl, rfl, .inl rfl⟩
    · obtain ⟨hconns, hsaved, hchan⟩ :=
        asks_structureOf (s := s.setRow row { s.rows row with connId := some k }) k (.adopted row)
      exact ⟨hconns, hsaved, hchan⟩

theorem asks_withConn (name statement : String) : s.Asks (fun _ => False) (s.withConn name statement) := by
  unfold withConn
  split
  · exact ⟨rfl, rfl, .inl rfl⟩
  · exact asks_connectSaved _ _

theorem asks_execute (k : ConnId) (statement : String) (name : Option String) :
    s.Asks (fun _ => False) (s.execute k statement name) := by
  have hasks : ({ s with nextTok := s.nextTok + 1 } : Session V B).Asks (fun _ => False)
      (s.execute k statement name) := asks_ensure _ nofun
  exact ⟨hasks.conns, hasks.saved, hasks.chan⟩

theorem asks_disconnectRow (row : RowId) (k : ConnId) : s.Asks (· = k) (s.disconnectRow row k) := by
  obtain ⟨hconns, hsaved, hchan⟩ := asks_ensure (s := s) (.request (.disconnect k) .ignored)
    fun k' _ hk => (show k' = k from by cases hk; rfl)
  exact ⟨hconns, hsaved, hchan⟩

/-! ### What holds whatever happens -/

structure Orderly (s : Session V B) : Prop where
  kept : s.Kept
  still : s.chan.Still
  named : ∀ name row, s.conns name = some row → row.2 = name
  listed : ∀ name row, s.conns name = some row → s.saved name ≠ none

theorem orderly_new : (new : Session V B).Orderly where
  kept := kept_new
  still := Channel.still_new
  named _ _ h := by cases h
  listed _ _ h := by cases h

theorem still_asks (h : s.chan.Still) (ha : s.Asks dis s') : s'.chan.Still := by
  rcases ha.chan with hc | ⟨w, -, hc⟩
  · exact hc ▸ h
  · exact hc ▸ h.ensure w

theorem Orderly.asks (h : s.Orderly) (hk : s'.Kept) (ha : s.Asks dis s') : s'.Orderly where
  kept := hk
  still := still_asks h.still ha
  named name row hc := h.named name row (ha.conns ▸ hc)
  listed name row hc := by
    rw [ha.saved]
    exact h.listed name row (ha.conns ▸ hc)

theorem rowOf_named (hnamed : ∀ name row, s.conns name = some row → row.2 = name) (name : String)
    (row : RowId) (h : s.rowOf name = some row) : row.2 = name ∧ s.saved name ≠ none := by
  obtain ⟨spec, hsaved, hrow⟩ := Option.map_eq_some_iff.mp h
  refine ⟨?_, by simp [hsaved]⟩
  cases hc : s.conns name with
  | none =>
    rw [hc] at hrow
    rw [← hrow]
    rfl
  | some row' =>
    rw [hc] at hrow
    rw [← hrow]
    exact hnamed name row' hc

theorem asks_deleted (row : RowId) : ∃ s₁ : Session V B,
    s.Asks (fun k => (s.rows row).connId = some k) s₁ ∧ s.deleteRow row =
      ({ s₁ with saved := Function.update s₁.saved row.2 none } : Session V B).load := by
  unfold deleteRow
  split
  · next k hk =>
    have hw : ∀ k' cb, Waiter.request (.disconnect k) .ignored = .request (.disconnect k') cb →
        (s.rows row).connId = some k' := fun k' cb heq => by cases heq; exact hk
    exact ⟨_, asks_ensure _ hw, rfl⟩
  · exact ⟨s, ⟨rfl, rfl, .inl rfl⟩, rfl⟩

theorem asks_answered {cb : Cb} {r : Except String (Reply V)} (h : s.Answered cb r s')
    (hcb : cb ≠ .hello) : s.Asks (fun _ => False) s' := by
  cases h with
  | greeted => exact absurd rfl hcb
  | failed => exact asks_fail _
  | opened row k enc tun =>
    obtain ⟨hconns, hsaved, hchan⟩ := asks_structureOf (s := s.setRow row { s.rows row with
      connId := some k, encrypted := some enc, tunneled := some tun }) k (.nodes row)
    exact ⟨hconns, hsaved, hchan⟩
  | adopted name statement k =>
    obtain ⟨hconns, hsaved, hchan⟩ := asks_adopt (s := s) name k
    exact ⟨hconns, hsaved, hchan⟩
  | filled => exact ⟨rfl, rfl, .inl rfl⟩
  | called => exact ⟨rfl, rfl, .inl rfl⟩
  | ignored => exact ⟨rfl, rfl, .inl rfl⟩

variable {bld : Build} [BsonCells V B]

omit [BsonCells V B] in
/-- A message is answered by client code, or it is the handshake. -/
theorem asks_message {l : Line V} (h : s.onMessage l = some s') :
    (∃ id p, l = .response id (.ok (.hello p)) ∧ s.chan.pending.lookup id = some .hello ∧
      s' = { s with chan := (s.chan.drop id).greet }) ∨
    ∃ c : Channel V B, (c = s.chan ∨ ∃ id, c = s.chan.drop id) ∧
      ({ s with chan := c } : Session V B).Asks (fun _ => False) s' := by
  cases l with
  | state k n =>
    cases h
    refine .inr ⟨s.chan, .inl rfl, ?_⟩
    unfold route
    split <;> exact ⟨rfl, rfl, .inl rfl⟩
  | log level message =>
    cases h
    exact .inr ⟨s.chan, .inl rfl, rfl, rfl, .inl rfl⟩
  | response id r =>
    simp only [onMessage] at h
    split at h
    · cases h
      exact .inr ⟨s.chan, .inl rfl, rfl, rfl, .inl rfl⟩
    · next cb hl =>
      have ha := answer_cases h
      by_cases hcb : cb = .hello
      · subst hcb
        cases ha with
        | greeted p => exact .inl ⟨id, p, rfl, hl, rfl⟩
        | failed _ e => cases h
        | filled _ row payload hrow => rcases hrow with hrow | hrow <;> cases hrow
      · exact .inr ⟨s.chan.drop id, .inr ⟨id, rfl⟩, asks_answered ha hcb⟩

theorem Orderly.deliver (h : s.Orderly) (hst : s.step bld .deliver = some s') : s'.Orderly := by
  have hkept : s'.Kept := h.kept.step hst
  obtain ⟨⟨l, c⟩, hr, hm⟩ := Option.bind_eq_some_iff.mp hst
  obtain ⟨hj, hstill⟩ := h.still.read hr
  obtain ⟨-, -, -, -, -, -, hjob⟩ := read_same hr
  rcases asks_message hm with ⟨id, p, -, -, rfl⟩ | ⟨c', hc', ha⟩
  · exact ⟨hkept, Channel.still_greet (hjob.trans hj), h.named, h.listed⟩
  · have hdrop : c'.Still := by
      rcases hc' with rfl | ⟨id, rfl⟩
      · exact hstill
      · exact ⟨hstill.early, hstill.down⟩
    refine ⟨hkept, still_asks hdrop ha, fun name row hc => h.named name row (ha.conns ▸ hc),
      fun name row hc => ?_⟩
    rw [ha.saved]
    exact h.listed name row (ha.conns ▸ hc)

theorem Orderly.step (h : s.Orderly) {i : Input V B} (hst : s.step bld i = some s') :
    s'.Orderly := by
  have hkept : s'.Kept := h.kept.step hst
  cases i with
  | save name spec =>
    cases hst
    refine ⟨hkept, h.still, h.named, fun name' row hc => ?_⟩
    show Function.update s.saved name (some spec) name' ≠ none
    by_cases hname : name' = name
    · rw [hname, Function.update_self]
      exact Option.some_ne_none spec
    · rw [Function.update_of_ne hname]
      exact h.listed name' row hc
  | load =>
    cases hst
    exact ⟨hkept, h.still, fun name row hc => (rowOf_named h.named name row hc).1,
      fun name row hc => (rowOf_named h.named name row hc).2⟩
  | openSchema name =>
    obtain ⟨row, -, rfl⟩ := Option.map_eq_some_iff.mp hst
    exact h.asks hkept (asks_loadSchema row)
  | run name statement => cases hst; exact h.asks hkept (asks_withConn name statement)
  | browse name statement =>
    obtain ⟨k, -, rfl⟩ := Option.map_eq_some_iff.mp hst
    exact ⟨hkept, h.still, h.named, h.listed⟩
  | sendRun j =>
    obtain ⟨run, -, rfl⟩ := Option.map_eq_some_iff.mp hst
    obtain ⟨hconns, hsaved, hchan⟩ := asks_execute (s := { s with runs := s.runs.eraseIdx j })
      run.conn run.statement (some run.name)
    exact h.asks hkept ⟨hconns, hsaved, hchan⟩
  | dropRun j => cases hst; exact ⟨hkept, h.still, h.named, h.listed⟩
  | execute k statement => cases hst; exact h.asks hkept (asks_execute k statement none)
  | disconnect name =>
    obtain ⟨row, -, hst⟩ := Option.bind_eq_some_iff.mp hst
    obtain ⟨k, -, rfl⟩ := Option.map_eq_some_iff.mp hst
    exact h.asks hkept (asks_disconnectRow row k)
  | delete name =>
    obtain ⟨row, -, rfl⟩ := Option.map_eq_some_iff.mp hst
    obtain ⟨s₁, ha, heq⟩ := asks_deleted (s := s) row
    rw [heq] at hkept ⊢
    let s₂ : Session V B := { s₁ with saved := Function.update s₁.saved row.2 none }
    have hnamed : ∀ name row, s₂.conns name = some row → row.2 = name :=
      fun name row hc => h.named name row (ha.conns ▸ hc)
    have hstill : s₁.chan.Still := still_asks h.still ha
    exact ⟨hkept, hstill, fun name row hc => (rowOf_named (s := s₂) hnamed name row hc).1,
      fun name row hc => (rowOf_named (s := s₂) hnamed name row hc).2⟩
  | api request =>
    simp only [Session.step, Option.ite_none_right_eq_some] at hst
    obtain ⟨-, hst⟩ := hst
    cases hst
    exact h.asks hkept (asks_ensure _ fun _ _ _ => trivial)
  | ensure => cases hst; exact h.asks hkept (asks_ensure _ fun _ _ _ => trivial)
  | setLaunch launch => cases hst; exact ⟨hkept, ⟨h.still.early, h.still.down⟩, h.named, h.listed⟩
  | receive =>
    obtain ⟨c, hc, rfl⟩ := Option.map_eq_some_iff.mp hst
    exact ⟨hkept, h.still.receive hc, h.named, h.listed⟩
  | engine j =>
    obtain ⟨c, hc, rfl⟩ := Option.map_eq_some_iff.mp hst
    exact ⟨hkept, h.still.engine hc, h.named, h.listed⟩
  | deliver => exact h.deliver hst
  | die n =>
    obtain ⟨c, hc, rfl⟩ := Option.map_eq_some_iff.mp hst
    exact ⟨hkept, h.still.die hc, h.named, h.listed⟩
  | exited =>
    simp only [Session.step, Option.ite_none_right_eq_some] at hst
    obtain ⟨hover, hst⟩ := hst
    cases hst
    obtain ⟨hconns, hsaved, hchan⟩ := fails_asks (s.chan.teardown "daemon exited").2
      { s with chan := (s.chan.teardown "daemon exited").1 }
    have hchan' : (s.teardown "daemon exited").chan = (s.chan.teardown "daemon exited").1 := hchan
    refine ⟨hkept, ?_, fun name row hc => h.named name row (hconns ▸ hc), fun name row hc => ?_⟩
    · rw [hchan']
      exact Channel.still_teardown hover _
    · rw [show (s.teardown "daemon exited").saved = s.saved from hsaved]
      exact h.listed name row (hconns ▸ hc)

/-! ### Reading a schema again -/

/-- What happens to the drawer: a step of the session, the refresh of a row (drawer.lua:1217-1225)
or the reload of a live row whose schema a statement has changed (`reload_schema`). -/
inductive Act (V B : Type)
  | session (i : Input V B)
  | refresh (name : String)
  | reload (name : String)

def act (bld : Build) (s : Session V B) : Act V B → Option (Session V B)
  | .session i => s.step bld i
  | .refresh name =>
    (s.conns name).bind fun row => (s.rows row).connId.map fun k => s.structureOf k (.adopted row)
  | .reload name =>
    (s.conns name).bind fun row => (s.rows row).nodes.bind fun _ =>
      (s.rows row).connId.map fun k => s.structureOf k (.nodes row)

def drawer (bld : Build) : Lib.Machine (Session V B) (Act V B) where
  init := new
  step := act bld

theorem Orderly.act (h : s.Orderly) {a : Act V B} (hst : s.act bld a = some s') : s'.Orderly := by
  cases a with
  | session i => exact h.step hst
  | refresh name =>
    obtain ⟨row, -, hst⟩ := Option.bind_eq_some_iff.mp hst
    obtain ⟨k, -, rfl⟩ := Option.map_eq_some_iff.mp hst
    exact h.asks (h.kept.acts (acts_structureOf (.inr rfl) k)) (asks_structureOf k _)
  | reload name =>
    obtain ⟨row, -, hst⟩ := Option.bind_eq_some_iff.mp hst
    obtain ⟨_, -, hst⟩ := Option.bind_eq_some_iff.mp hst
    obtain ⟨k, -, rfl⟩ := Option.map_eq_some_iff.mp hst
    exact h.asks (h.kept.acts (acts_structureOf (.inl rfl) k)) (asks_structureOf k _)

end Session
end LvimDb.Client
