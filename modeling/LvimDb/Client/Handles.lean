import LvimDb.Client.Outcomes

/-!
# Connection ids in the drawer

A drawer row keeps the id of its connection when the engine exits, and the next engine
process numbers its connections from 1 again. While every process starts with no id in
the drawer and none on its way to it, an id that the drawer shows was opened by the
current process for the row's connection and has not been closed since.
-/

namespace LvimDb.Client
open Engine
variable {V B : Type}

namespace Channel

/-- The current process opened connection `k` for the saved connection `name`. -/
def OpenedFor (c : Channel V B) (name : String) (k : ConnId) : Prop :=
  ∃ id spec cb, c.asked id = some (.connect spec, cb) ∧ cb.opens = some name ∧
    .opened id k ∈ c.server.hist

/-- The request under that id is not waited for any more. -/
def Settled (c : Channel V B) (id : ReqId) : Prop := ∀ cb, (id, cb) ∉ c.pending

def Undisconnected (c : Channel V B) (k : ConnId) : Prop :=
  ∀ id cb, c.asked id ≠ some (.disconnect k, cb)

/-- The id was handed out by the current process for `name` and is the client's to use. -/
def Holds (c : Channel V B) (name : String) (k : ConnId) : Prop :=
  (∃ id spec cb, c.asked id = some (.connect spec, cb) ∧ cb.opens = some name ∧
    .opened id k ∈ c.server.hist ∧ c.Settled id) ∧ c.Undisconnected k

/-- The same process goes on: requests go out that satisfy `new`, requests are settled and the
process takes steps. -/
structure Grows (new : Request × Cb → Prop) (c c' : Channel V B) : Prop where
  process : c'.process = c.process
  asked : ∀ id x, c.asked id = some x → c'.asked id = some x
  fresh : ∀ id x, c'.asked id = some x → c.asked id = some x ∨ new x
  hist : c.server.hist <:+ c'.server.hist
  settled : ∀ id x, c.asked id = some x → c.Settled id → c'.Settled id

variable {c c' c'' : Channel V B} {new : Request × Cb → Prop}

theorem Grows.refl (c : Channel V B) : Grows new c c :=
  ⟨rfl, fun _ _ h => h, fun _ _ h => .inl h, List.suffix_refl _, fun _ _ _ h => h⟩

theorem Grows.trans (h : Grows new c c') (h' : Grows new c' c'') : Grows new c c'' where
  process := h'.process.trans h.process
  asked id x hx := h'.asked id x (h.asked id x hx)
  fresh id x hx := by
    rcases h'.fresh id x hx with hx | hx
    · exact h.fresh id x hx
    · exact .inr hx
  hist := h.hist.trans h'.hist
  settled id x hx hs := h'.settled id x (h.asked id x hx) (h.settled id x hx hs)

theorem OpenedFor.grows {name : String} {k : ConnId} (h : c.OpenedFor name k)
    (hg : Grows new c c') : c'.OpenedFor name k := by
  obtain ⟨id, spec, cb, hasked, hopens, hopened⟩ := h
  exact ⟨id, spec, cb, hg.asked id _ hasked, hopens, hg.hist.subset hopened⟩

theorem Holds.openedFor {name : String} {k : ConnId} (h : c.Holds name k) : c.OpenedFor name k := by
  obtain ⟨⟨id, spec, cb, hasked, hopens, hopened, -⟩, -⟩ := h
  exact ⟨id, spec, cb, hasked, hopens, hopened⟩

/-- A connection is opened for one name. -/
theorem OpenedFor.unique (hl : c.Linked) {name name' : String} {k : ConnId}
    (h : c.OpenedFor name k) (h' : c.OpenedFor name' k) : name = name' := by
  obtain ⟨id, spec, cb, hasked, hopens, hopened⟩ := h
  obtain ⟨id', spec', cb', hasked', hopens', hopened'⟩ := h'
  have hid := hl.spoken.opened.once id id' k hopened hopened'
  rw [← hid, hasked, Option.some.injEq, Prod.mk.injEq] at hasked'
  rw [← hasked'.2, hopens, Option.some.injEq] at hopens'
  exact hopens'

theorem grows_post (hl : c.Linked) (request : Request) (cb : Cb) :
    Grows (· = (request, cb)) c (c.post request cb) where
  process := rfl
  asked _ _ hx := hl.asked_post hx
  fresh id x hx := by
    rw [post_asked] at hx
    by_cases hid : id = c.idSeq + 1
    · rw [hid, Function.update_self, Option.some.injEq] at hx
      exact .inr hx.symm
    · rw [Function.update_of_ne hid] at hx
      exact .inl hx
  hist := List.suffix_refl _
  settled id x hx hs cb' hmem := by
    rcases List.mem_append.mp hmem with hmem | hmem
    · exact hs cb' hmem
    · obtain ⟨rfl, -⟩ := Prod.mk.inj (List.mem_singleton.mp hmem)
      rw [hl.next] at hx
      cases hx

theorem grows_wakes (ws : List Waiter) (hl : c.Linked) (hws : ∀ w ∈ ws, w.Fair)
    (hj : c.job = true) (hnew : ∀ r cb, .request r cb ∈ ws → new (r, cb)) :
    Grows new c (ws.foldl wake c) := by
  induction ws generalizing c with
  | nil => exact Grows.refl c
  | cons w ws ih =>
    rw [List.foldl_cons]
    have hrest := ih (hl.wake (hws w List.mem_cons_self) hj)
      (fun w' hw' => hws w' (List.mem_cons_of_mem w hw')) ((wake_job c w).trans hj)
      (fun r cb hmem => hnew r cb (List.mem_cons_of_mem w hmem))
    refine Grows.trans ?_ hrest
    cases w with
    | ensured => exact Grows.refl c
    | request r cb =>
      have hpost := grows_post hl r cb
      refine ⟨hpost.process, hpost.asked, fun id x hx => ?_, hpost.hist, hpost.settled⟩
      rcases hpost.fresh id x hx with hx | rfl
      · exact .inl hx
      · exact .inr (hnew r cb List.mem_cons_self)

theorem grows_greet (hl : c.Linked) (hj : c.job = true)
    (hnew : ∀ r cb, .request r cb ∈ c.waiters → new (r, cb)) : Grows new c c.greet := by
  have hwakes : Grows new { c with ready := true, waiters := [] } c.greet :=
    grows_wakes c.waiters (hl.cleared hj) hl.waiting hj hnew
  exact ⟨hwakes.process, hwakes.asked, hwakes.fresh, hwakes.hist, hwakes.settled⟩

theorem wakes_waiters (ws : List Waiter) (c : Channel V B) :
    (ws.foldl wake c).waiters = c.waiters ∧ (ws.foldl wake c).ready = c.ready := by
  induction ws generalizing c with
  | nil => exact ⟨rfl, rfl⟩
  | cons w ws ih =>
    rw [List.foldl_cons, (ih _).1, (ih _).2]
    cases w <;> exact ⟨rfl, rfl⟩

end Channel

namespace Session
variable {s s' : Session V B} {skip : Option RowId}

/-! ### The invariant -/

/-- A statement that is meant for a saved connection. -/
def Meant (x : Request × Cb) (name : String) (k : ConnId) : Prop :=
  ∃ statement tok, x = (.execute k statement, .executed tok (some name))

/-- The rows the drawer shows but for `skip` hold ids of the current process, and so does
everything on its way to it. -/
structure Handles (skip : Option RowId) (s : Session V B) : Prop where
  named : ∀ name row, s.conns name = some row → row.2 = name
  live : s.chan.ready = true → ∀ name row k, s.conns name = some row → some row ≠ skip →
    (s.rows row).connId = some k → s.chan.Holds name k
  runs : ∀ p ∈ s.runs, p.process ≤ s.chan.process ∧
    (p.process = s.chan.process → 0 < p.process → s.chan.OpenedFor p.name p.conn)
  sent : ∀ id x name k, s.chan.asked id = some x → Meant x name k → s.chan.OpenedFor name k
  waiting : ∀ r cb name k, .request r cb ∈ s.chan.waiters → ¬ Meant (r, cb) name k
  gone : ∀ id k cb, s.chan.asked id = some (.disconnect k, cb) →
    ∃ id', .opened id' k ∈ s.chan.server.hist ∧ s.chan.Settled id'

theorem handles_new : (new : Session V B).Handles skip where
  named _ _ h := by cases h
  live h := by cases h
  runs _ h := (List.not_mem_nil h).elim
  sent _ _ _ _ h := by cases h
  waiting _ _ _ _ h := (List.not_mem_nil h).elim
  gone _ _ _ h := by cases h

/-- The tables of the drawer and of the statements on their way. -/
def SameTables (s s' : Session V B) : Prop :=
  s'.conns = s.conns ∧ s'.runs = s.runs ∧ ∀ row, (s'.rows row).connId = (s.rows row).connId

theorem fails_tables (ps : List (Cb × String)) (s : Session V B) :
    SameTables s (ps.foldl fail s) := by
  induction ps generalizing s with
  | nil => exact ⟨rfl, rfl, fun _ => rfl⟩
  | cons p ps ih =>
    obtain ⟨hc, hr, hrows⟩ := ih (s.fail p)
    have hone : SameTables s (s.fail p) := by
      obtain ⟨cb, err⟩ := p
      cases cb with
      | adopted row =>
        refine ⟨rfl, rfl, fun row' => ?_⟩
        show (Function.update s.rows row { s.rows row with nodes := some "" } row').connId = _
        by_cases hrow : row' = row
        · rw [hrow, Function.update_self]
        · rw [Function.update_of_ne hrow]
      | _ => exact ⟨rfl, rfl, fun _ => rfl⟩
    rw [List.foldl_cons]
    exact ⟨hc.trans hone.1, hr.trans hone.2.1, fun row => (hrows row).trans (hone.2.2 row)⟩

/-- The channel goes on and the tables stay. -/
theorem Handles.grows (h : s.Handles skip) {new : Request × Cb → Prop} (ht : SameTables s s')
    (hg : Channel.Grows new s.chan s'.chan) (hready : s'.chan.ready = true → s.chan.ready = true)
    (hmeant : ∀ x name k, new x → Meant x name k → s.chan.OpenedFor name k)
    (hwait : ∀ r cb name k, .request r cb ∈ s'.chan.waiters → ¬ Meant (r, cb) name k)
    (hdis : ∀ k cb, new (.disconnect k, cb) →
      (∃ id, .opened id k ∈ s.chan.server.hist ∧ s.chan.Settled id) ∧
        (s.chan.ready = true → ∀ name row, s.conns name = some row → some row ≠ skip →
          (s.rows row).connId ≠ some k))
    (hl : s.chan.Linked) : s'.Handles skip := by
  obtain ⟨hconns, hruns, hrows⟩ := ht
  have hsettled : ∀ id k, .opened id k ∈ s.chan.server.hist → s.chan.Settled id →
      .opened id k ∈ s'.chan.server.hist ∧ s'.chan.Settled id := by
    intro id k ho hs
    obtain ⟨spec, cb, hasked⟩ := hl.owed.opened id k ho
    exact ⟨hg.hist.subset ho, hg.settled id _ hasked hs⟩
  refine ⟨fun name row => ?_, fun hr name row k hc hne hk => ?_, fun p hp => ?_,
    fun id x name k hx hm => ?_, hwait, fun id k cb hid => ?_⟩
  · rw [hconns]
    exact h.named name row
  · rw [hconns] at hc
    rw [hrows] at hk
    obtain ⟨⟨id, spec, cb, hasked, hopens, hopened, hs⟩, hnot⟩ :=
      h.live (hready hr) name row k hc hne hk
    refine ⟨⟨id, spec, cb, hg.asked id _ hasked, hopens, hg.hist.subset hopened,
      hg.settled id _ hasked hs⟩, fun id' cb' hid' => ?_⟩
    rcases hg.fresh id' _ hid' with hid' | hid'
    · exact hnot id' cb' hid'
    · exact (hdis k cb' hid').2 (hready hr) name row hc hne hk
  · rw [hruns] at hp
    obtain ⟨hle, hopen⟩ := h.runs p hp
    rw [hg.process]
    exact ⟨hle, fun heq hpos => (hopen heq hpos).grows hg⟩
  · rcases hg.fresh id x hx with hx | hx
    · exact (h.sent id x name k hx hm).grows hg
    · exact (hmeant x name k hx hm).grows hg
  · rcases hg.fresh id _ hid with hid | hid
    · obtain ⟨id', ho, hs⟩ := h.gone id k cb hid
      exact ⟨id', hsettled id' k ho hs⟩
    · obtain ⟨⟨id', ho, hs⟩, -⟩ := hdis k cb hid
      exact ⟨id', hsettled id' k ho hs⟩

/-- Client code that leaves the channel alone. -/
theorem Handles.tables (h : s.Handles skip) (hc : s'.chan = s.chan)
    (hnamed : ∀ name row, s'.conns name = some row → row.2 = name)
    (hlive : s.chan.ready = true → ∀ name row k, s'.conns name = some row → some row ≠ skip →
      (s'.rows row).connId = some k → s.chan.Holds name k)
    (hruns : ∀ p ∈ s'.runs, p.process ≤ s.chan.process ∧
      (p.process = s.chan.process → 0 < p.process → s.chan.OpenedFor p.name p.conn)) :
    s'.Handles skip := by
  refine ⟨hnamed, ?_, ?_, ?_, ?_, ?_⟩
  · rw [hc]
    exact hlive
  · rw [hc]
    exact hruns
  · rw [hc]
    exact h.sent
  · rw [hc]
    exact h.waiting
  · rw [hc]
    exact h.gone

/-! ### Requests -/

theorem Handles.ensure (h : s.Handles skip) (hl : s.chan.Linked) {w : Waiter}
    (hmeant : ∀ r cb name k, w = .request r cb → Meant (r, cb) name k →
      s.chan.ready = true ∧ s.chan.OpenedFor name k)
    (hdis : ∀ k cb, w = .request (.disconnect k) cb → s.chan.ready = true →
      (∃ id, .opened id k ∈ s.chan.server.hist ∧ s.chan.Settled id) ∧
        ∀ name row, s.conns name = some row → some row ≠ skip → (s.rows row).connId ≠ some k) :
    (s.ensure w).Handles skip := by
  have hchan : (s.ensure w).chan = (s.chan.ensure w).1 := ensure_chan _
  have htables : SameTables s (s.ensure w) := fails_tables _ _
  unfold Channel.ensure at hchan
  split at hchan
  · next hr =>
    obtain ⟨hready, hj⟩ := Bool.and_eq_true_iff.mp hr
    have hg : Channel.Grows (fun x => w = .request x.1 x.2) s.chan (s.ensure w).chan := by
      rw [hchan]
      cases w with
      | ensured => exact Channel.Grows.refl _
      | request r cb =>
        have hpost := Channel.grows_post hl r cb
        refine ⟨hpost.process, hpost.asked, fun id x hx => ?_, hpost.hist, hpost.settled⟩
        rcases hpost.fresh id x hx with hx | rfl
        · exact .inl hx
        · exact .inr rfl
    refine h.grows htables hg (fun _ => hready)
      (fun x name k hx hm => (hmeant x.1 x.2 name k hx hm).2) ?_ (fun k cb' hx => ?_) hl
    · rw [hchan]
      cases w <;> exact h.waiting
    · obtain ⟨hopen, hrows⟩ := hdis k cb' hx hready
      exact ⟨hopen, fun _ => hrows⟩
  · next hr =>
    have hdown : s.chan.ready = false := by
      cases hready : s.chan.ready with
      | false => rfl
      | true =>
        cases hj : s.chan.job with
        | true => rw [hready, hj] at hr; exact absurd rfl hr
        | false => rw [(hl.idle hj).2.2] at hready; cases hready
    have hwait : ∀ r cb name k, .request r cb ∈ s.chan.waiters ++ [w] →
        ¬ Meant (r, cb) name k := by
      intro r cb name k hmem hm
      rcases List.mem_append.mp hmem with hmem | hmem
      · exact h.waiting r cb name k hmem hm
      · rw [(hmeant r cb name k (List.mem_singleton.mp hmem).symm hm).1] at hdown
        cases hdown
    have hstay : ∀ ws : List Waiter, (s.ensure w).chan = { s.chan with waiters := ws } →
        (∀ r cb name k, .request r cb ∈ ws → ¬ Meant (r, cb) name k) →
        (s.ensure w).Handles skip := by
      intro ws hc hws
      have hg : Channel.Grows (fun _ => False) s.chan (s.ensure w).chan := by
        rw [hc]
        exact ⟨rfl, fun _ _ hx => hx, fun _ _ hx => .inl hx, List.suffix_refl _, fun _ _ _ hs => hs⟩
      refine h.grows htables hg (fun hr' => ?_) (fun _ _ _ hx => hx.elim) ?_
        (fun _ _ hx => hx.elim) hl
      · rw [hc] at hr'
        exact hr'
      · rw [hc]
        exact hws
    dsimp only at hchan
    split at hchan
    · exact hstay _ hchan hwait
    · split at hchan
      · exact hstay _ hchan fun _ _ _ _ hm => (List.not_mem_nil hm).elim
      · exact hstay _ hchan fun _ _ _ _ hm => (List.not_mem_nil hm).elim
      · -- a new process: nothing is asked of it but its hello
        obtain ⟨hconns, hruns, hrows⟩ := htables
        have hasked : ∀ id x, (s.ensure w).chan.asked id = some x → x = (.hello, .hello) := by
          intro id x hx
          have hone : Function.update (fun _ => none) (s.chan.idSeq + 1)
              (some (Request.hello, Cb.hello)) id = some x := by
            rw [← hx, hchan]
            rfl
          by_cases hid : id = s.chan.idSeq + 1
          · rw [hid, Function.update_self, Option.some.injEq] at hone
            exact hone.symm
          · rw [Function.update_of_ne hid] at hone
            cases hone
        refine ⟨fun name row => ?_, fun hr' => ?_, fun p hp => ?_, fun id x name k hx hm => ?_,
          ?_, fun id k cb' hid => ?_⟩
        · rw [hconns]
          exact h.named name row
        · rw [hchan] at hr'
          rw [show s.chan.ready = true from hr'] at hdown
          cases hdown
        · rw [hruns] at hp
          have hle := (h.runs p hp).1
          have hprocess : (s.ensure w).chan.process = s.chan.process + 1 := by rw [hchan]; rfl
          rw [hprocess]
          exact ⟨Nat.le_succ_of_le hle, fun heq => absurd hle (by omega)⟩
        · obtain ⟨statement, tok, rfl⟩ := hm
          cases hasked id _ hx
        · rw [hchan]
          exact hwait
        · cases hasked id _ hid

theorem Handles.request (h : s.Handles skip) (hl : s.chan.Linked) {r : Request} {cb : Cb}
    (hmeant : ∀ name k, Meant (r, cb) name k → s.chan.ready = true ∧ s.chan.OpenedFor name k)
    (hdis : ∀ k, r = .disconnect k → s.chan.ready = true →
      (∃ id, .opened id k ∈ s.chan.server.hist ∧ s.chan.Settled id) ∧
        ∀ name row, s.conns name = some row → some row ≠ skip → (s.rows row).connId ≠ some k) :
    (s.request r cb).Handles skip := by
  refine h.ensure hl (fun r' cb' name k hw hm => ?_) fun k cb' hw => ?_
  · cases hw
    exact hmeant name k hm
  · cases hw
    exact hdis k rfl

/-- A request that runs no statement for a saved connection and disconnects nothing. -/
theorem Handles.harmless (h : s.Handles skip) (hl : s.chan.Linked) {r : Request} {cb : Cb}
    (hexec : ∀ k statement, r ≠ .execute k statement) (hdis : ∀ k, r ≠ .disconnect k) :
    (s.request r cb).Handles skip := by
  refine h.request hl (fun name k hm => ?_) fun k hk => absurd hk (hdis k)
  obtain ⟨statement, tok, heq⟩ := hm
  exact absurd (Prod.mk.inj heq).1 (hexec k statement)

theorem Handles.failed (h : s.Handles skip) (p : Cb × String) : (s.fail p).Handles skip := by
  obtain ⟨hconns, hruns, hrows⟩ := fails_tables [p] s
  refine h.tables (fail_keeps s p).1 (fun name row hc => ?_) (fun hr name row k hc hne hk => ?_) ?_
  · exact h.named name row (hconns ▸ hc)
  · have hk' : (s.rows row).connId = some k := (hrows row).symm.trans hk
    exact h.live hr name row k (hconns ▸ hc) hne hk'
  · have hruns' : (s.fail p).runs = s.runs := hruns
    rw [hruns']
    exact h.runs

theorem Handles.connectSaved (h : s.Handles skip) (hl : s.chan.Linked) (name : String) (cb : Cb) :
    (s.connectSaved name cb).Handles skip := by
  unfold Session.connectSaved
  split
  · exact h.failed _
  · exact h.harmless hl (fun _ _ hx => by cases hx) fun _ hx => by cases hx

theorem Handles.structureOf (h : s.Handles skip) (hl : s.chan.Linked) (k : ConnId) (cb : Cb) :
    (s.structureOf k cb).Handles skip :=
  h.harmless hl (fun _ _ hx => by cases hx) fun _ hx => by cases hx

theorem Handles.loadSchema (h : s.Handles skip) (hl : s.chan.Linked) (row : RowId) :
    (s.loadSchema row).Handles skip := by
  unfold Session.loadSchema
  split
  · exact h
  · exact h.connectSaved hl _ _

/-- A row is given an id that is held for its name. -/
theorem Handles.setRow (h : s.Handles skip) (row : RowId) (r : Row)
    (hr : s.chan.ready = true → ∀ k, r.connId = some k → s.conns row.2 = some row →
      s.chan.Holds row.2 k) : (s.setRow row r).Handles skip := by
  refine h.tables rfl h.named (fun hready name row' k hc hne hk => ?_) h.runs
  rw [setRow_rows] at hk
  by_cases hrow : row' = row
  · subst hrow
    rw [Function.update_self] at hk
    have hname := h.named name row' hc
    rw [← hname]
    exact hr hready k hk (hname ▸ hc)
  · rw [Function.update_of_ne hrow] at hk
    exact h.live hready name row' k hc hne hk

theorem Handles.adopt (h : s.Handles skip) (hl : s.chan.Linked) {name : String} {k : ConnId}
    (hk : s.chan.ready = true → s.chan.Holds name k) : (s.adopt name k).Handles skip := by
  unfold Session.adopt
  split
  · exact h
  · next row hc =>
    split
    · exact h
    · refine (h.setRow row _ fun hr k' hk' hc' => ?_).structureOf hl k _
      cases hk'
      rw [h.named name row hc]
      exact hk hr

/-- A connection stays opened while the client is ready. -/
theorem request_openedFor (hl : s.chan.Linked) {name : String} {k : ConnId} (r : Request) (cb : Cb)
    (h : s.chan.OpenedFor name k) (hr : (s.request r cb).chan.ready = true) :
    (s.request r cb).chan.OpenedFor name k := by
  have hchan : (s.request r cb).chan = (s.chan.ensure (.request r cb)).1 := ensure_chan _
  rw [hchan] at hr ⊢
  unfold Channel.ensure at hr ⊢
  by_cases hnot : (s.chan.ready && s.chan.job) = true
  · rw [if_pos hnot]
    exact h.grows (Channel.grows_post hl r cb)
  · have hready : s.chan.ready = true := by
      rw [if_neg hnot] at hr
      dsimp only at hr
      split at hr
      · exact hr
      · split at hr <;> exact hr
    have hj : s.chan.job = false := by
      cases hj : s.chan.job with
      | false => rfl
      | true =>
        rw [hready, hj] at hnot
        exact absurd rfl hnot
    rw [(hl.idle hj).2.2] at hready
    cases hready

theorem adopt_openedFor (hl : s.chan.Linked) (name : String) (k : ConnId)
    (h : s.chan.OpenedFor name k) (hr : (s.adopt name k).chan.ready = true) :
    (s.adopt name k).chan.OpenedFor name k := by
  unfold Session.adopt at hr ⊢
  split
  · exact h
  · next row hc =>
    rw [hc] at hr
    dsimp only at hr
    split
    · exact h
    · next hid =>
      rw [hid] at hr
      exact request_openedFor (s := s.setRow row _) hl _ _ h hr

theorem Handles.offer (h : s.Handles skip) {name : String} {k : ConnId} (statement : String)
    (hk : s.chan.ready = true → s.chan.OpenedFor name k) : (s.offer name k statement).Handles skip := by
  refine h.tables rfl h.named h.live fun p hp => ?_
  rcases List.mem_append.mp hp with hp | hp
  · exact h.runs p hp
  · rw [List.mem_singleton.mp hp]
    cases hr : s.chan.ready with
    | true =>
      simp only [running, hr, if_true]
      exact ⟨Nat.le_refl _, fun _ _ => hk hr⟩
    | false =>
      simp only [running, hr, Bool.false_eq_true, if_false]
      exact ⟨Nat.zero_le _, fun _ hpos => absurd hpos (Nat.lt_irrefl 0)⟩

theorem Handles.liveConn (h : s.Handles none) (hr : s.chan.ready = true) {name : String}
    {k : ConnId} (hk : s.liveConn name = some k) : s.chan.Holds name k := by
  obtain ⟨row, hc, hk⟩ := Option.bind_eq_some_iff.mp hk
  exact h.live hr name row k hc (fun he => by cases he) hk

theorem Handles.withConn (h : s.Handles none) (hl : s.chan.Linked) (name statement : String) :
    (s.withConn name statement).Handles none := by
  unfold Session.withConn
  split
  · next k hk => exact h.offer statement fun hr => (h.liveConn hr hk).openedFor
  · exact h.connectSaved hl _ _

theorem Handles.load (h : s.Handles skip) : s.load.Handles skip := by
  have hold : ∀ name row, s.rowOf name = some row →
      s.conns name = some row ∨ s.conns name = none ∧ row = (s.loads, name) := by
    intro name row hrow
    obtain ⟨spec, -, hrow⟩ := Option.map_eq_some_iff.mp hrow
    cases hc : s.conns name with
    | none =>
      rw [hc] at hrow
      exact .inr ⟨rfl, hrow.symm⟩
    | some row' =>
      rw [hc] at hrow
      exact .inl (congrArg some hrow)
  refine h.tables rfl (fun name row hc => ?_) (fun hr name row k hc hne hk => ?_) h.runs
  · rcases hold name row hc with hc | ⟨-, rfl⟩
    · exact h.named name row hc
    · rfl
  · rw [load_conns] at hc
    rw [load_rows] at hk
    rcases hold name row hc with hc' | ⟨hnone, rfl⟩
    · refine h.live hr name row k hc' hne ?_
      rw [← h.named name row hc'] at hc'
      split at hk
      · exact hk
      · rwa [if_pos hc'] at hk
    · obtain ⟨spec, hsaved, -⟩ := Option.map_eq_some_iff.mp hc
      simp only [hsaved, hnone, hc, if_true, reduceCtorEq, if_false] at hk
      cases hk

theorem Handles.weaken (h : s.Handles none) : s.Handles skip :=
  ⟨h.named, fun hr name row k hc _ hk => h.live hr name row k hc (fun he => by cases he) hk, h.runs, h.sent,
    h.waiting, h.gone⟩

/-- The id a row shows is disconnected. -/
theorem Handles.disconnect (h : s.Handles none) (hl : s.chan.Linked) {row : RowId} {k : ConnId}
    (hc : s.conns row.2 = some row) (hk : (s.rows row).connId = some k) :
    (s.request (.disconnect k) .ignored).Handles (some row) := by
  have hskip : s.Handles (some row) := h.weaken
  refine hskip.request hl (fun name k' hm => ?_) fun k' hk' hr => ?_
  · obtain ⟨_, _, heq⟩ := hm
    cases heq
  · cases hk'
    have hholds := h.live hr row.2 row k hc (fun he => by cases he) hk
    have hfor := hholds.openedFor
    obtain ⟨⟨id, spec, cb, -, -, hopened, hsettled⟩, -⟩ := hholds
    refine ⟨⟨id, hopened, hsettled⟩, fun name' row' hc' hne hk'' => hne ?_⟩
    have hother := h.live hr name' row' k hc' (fun he => by cases he) hk''
    have hname : name' = row.2 := hother.openedFor.unique hl hfor
    rw [hname, hc] at hc'
    exact hc'.symm

/-- The skipped row shows no id any more, or is not shown any more. -/
theorem Handles.unskip {row : RowId} (h : s.Handles (some row))
    (hrow : ∀ name k, s.conns name = some row → (s.rows row).connId ≠ some k) : s.Handles none := by
  refine ⟨h.named, fun hr name row' k hc _ hk => h.live hr name row' k hc (fun he => ?_) hk, h.runs,
    h.sent, h.waiting, h.gone⟩
  cases he
  exact hrow name k hc hk

theorem Handles.disconnectRow (h : s.Handles none) (hl : s.chan.Linked) {row : RowId} {k : ConnId}
    (hc : s.conns row.2 = some row) (hk : (s.rows row).connId = some k) :
    (s.disconnectRow row k).Handles none := by
  have hreq := h.disconnect hl hc hk
  refine Handles.unskip (hreq.setRow row _ fun _ k' hk' => by cases hk') fun name k' _ hk' => ?_
  have hnone : ((s.disconnectRow row k).rows row).connId = none := by
    simp only [Session.disconnectRow, setRow_rows, Function.update_self]
  rw [show ((s.disconnectRow row k).rows row).connId = some k' from hk'] at hnone
  cases hnone

theorem Handles.deleteRow (h : s.Handles none) (hl : s.chan.Linked) {row : RowId}
    (hc : s.conns row.2 = some row) : (s.deleteRow row).Handles none := by
  have forget : ∀ s₁ : Session V B, s₁.Handles (some row) →
      ({ s₁ with saved := Function.update s₁.saved row.2 none } : Session V B).load.Handles none := by
    intro s₁ h₁
    have h₂ : ({ s₁ with saved := Function.update s₁.saved row.2 none } : Session V B).Handles
        (some row) := h₁.tables rfl h₁.named h₁.live h₁.runs
    refine Handles.unskip h₂.load fun name k hname => ?_
    obtain ⟨spec, hsaved, -⟩ := Option.map_eq_some_iff.mp hname
    have hrow : row.2 = name := h₂.load.named name row hname
    rw [← hrow] at hsaved
    exact absurd (hsaved.symm.trans (Function.update_self ..)) (by simp)
  unfold Session.deleteRow
  split
  · next k hk => exact forget _ (h.disconnect hl hc hk)
  · exact forget s h.weaken

theorem Handles.execute (h : s.Handles none) (hl : s.chan.Linked) (k : ConnId) (statement : String)
    (name : Option String)
    (hk : ∀ n, name = some n → s.chan.ready = true ∧ s.chan.OpenedFor n k) :
    (s.execute k statement name).Handles none := by
  have hissue : ({ s with nextTok := s.nextTok + 1 } : Session V B).Handles none :=
    h.tables rfl h.named h.live h.runs
  refine hissue.request hl (fun n k' hm => ?_) fun _ hx => by cases hx
  obtain ⟨statement', tok, heq⟩ := hm
  simp only [Prod.mk.injEq, Request.execute.injEq, Cb.executed.injEq] at heq
  obtain ⟨⟨rfl, -⟩, -, hn⟩ := heq
  exact hk n hn

/-! ### Messages and the process -/

/-- The channel moves on without a request of the client. -/
theorem Handles.chan (h : s.Handles skip) (hl : s.chan.Linked) {c : Channel V B}
    (hp : c.process = s.chan.process) (ha : c.asked = s.chan.asked)
    (hh : s.chan.server.hist <:+ c.server.hist) (hpending : ∀ p ∈ c.pending, p ∈ s.chan.pending)
    (hr : c.ready = true → s.chan.ready = true) (hw : ∀ w ∈ c.waiters, w ∈ s.chan.waiters) :
    ({ s with chan := c } : Session V B).Handles skip := by
  have hg : Channel.Grows (fun _ => False) s.chan c :=
    ⟨hp, fun id x hx => ha ▸ hx, fun id x hx => .inl (ha ▸ hx), hh,
      fun id x _ hs cb hm => hs cb (hpending _ hm)⟩
  exact h.grows ⟨rfl, rfl, fun _ => rfl⟩ hg hr (fun _ _ _ hx => hx.elim)
    (fun r cb name k hm => h.waiting r cb name k (hw _ hm)) (fun _ _ hx => hx.elim) hl

theorem Handles.teardown (h : s.Handles none) (err : String) : (s.teardown err).Handles none := by
  obtain ⟨hconns, hruns, hrows⟩ := fails_tables (s.chan.teardown err).2
    { s with chan := (s.chan.teardown err).1 }
  have hchan : (s.teardown err).chan = (s.chan.teardown err).1 :=
    (fails_keeps (s.chan.teardown err).2 { s with chan := (s.chan.teardown err).1 }).1
  have hruns' : (s.teardown err).runs = s.runs := hruns
  refine ⟨fun name row hc => h.named name row (hconns ▸ hc), fun hr => ?_, ?_, ?_, ?_, ?_⟩
  · rw [hchan] at hr
    cases hr
  · rw [hchan, hruns']
    exact h.runs
  · rw [hchan]
    exact h.sent
  · rw [hchan]
    exact fun _ _ _ _ hm => (List.not_mem_nil hm).elim
  · intro id k cb hid
    rw [hchan] at hid ⊢
    obtain ⟨id', ho, -⟩ := h.gone id k cb hid
    exact ⟨id', ho, fun _ hm => (List.not_mem_nil hm).elim⟩

/-- The handshake of a process that starts with no id in the drawer. -/
theorem Handles.greet (h : s.Handles none) (hl : s.chan.Linked) (hj : s.chan.job = true)
    (hlive : ∀ name, s.liveConn name = none)
    (hdis : ∀ k cb, .request (.disconnect k) cb ∉ s.chan.waiters) :
    ({ s with chan := s.chan.greet } : Session V B).Handles none := by
  have hg : Channel.Grows (fun x => .request x.1 x.2 ∈ s.chan.waiters) s.chan s.chan.greet :=
    Channel.grows_greet hl hj fun _ _ hm => hm
  obtain ⟨hwaiters, -⟩ :=
    Channel.wakes_waiters s.chan.waiters { s.chan with ready := true, waiters := [] }
  refine ⟨h.named, fun _ name row k hc _ hk => ?_, fun p hp => ?_, fun id x name k hx hm => ?_, ?_,
    fun id k cb hid => ?_⟩
  · have hnone := hlive name
    rw [Session.liveConn, hc, Option.bind_some] at hnone
    rw [hnone] at hk
    cases hk
  · obtain ⟨hle, hopen⟩ := h.runs p hp
    show p.process ≤ s.chan.greet.process ∧ (p.process = s.chan.greet.process → _)
    rw [hg.process]
    exact ⟨hle, fun heq hpos => (hopen heq hpos).grows hg⟩
  · rcases hg.fresh id x hx with hx | hx
    · exact (h.sent id x name k hx hm).grows hg
    · exact absurd hm (h.waiting x.1 x.2 name k hx)
  · intro r cb name k hm
    have hnil : s.chan.greet.waiters = [] := hwaiters
    rw [show ({ s with chan := s.chan.greet } : Session V B).chan.waiters = [] from hnil] at hm
    cases hm
  · rcases hg.fresh id _ hid with hid | hid
    · obtain ⟨id', ho, hs⟩ := h.gone id k cb hid
      obtain ⟨spec, cb', hasked⟩ := hl.owed.opened id' k ho
      exact ⟨id', hg.hist.subset ho, hg.settled id' _ hasked hs⟩
    · exact absurd hid (hdis k cb)

theorem Handles.setNodes (h : s.Handles skip) (row : RowId) (payload : String) :
    (s.setNodes row payload).Handles skip := by
  refine h.tables rfl h.named (fun hr name row' k hc hne hk => h.live hr name row' k hc hne ?_) h.runs
  rw [setNodes_rows] at hk
  by_cases hrow : row' = row
  · rw [hrow, Function.update_self] at hk
    rw [hrow]
    exact hk
  · rwa [Function.update_of_ne hrow] at hk

/-- The connection whose opening is being answered is held for the name it was opened for. -/
theorem Handles.holds (h : s.Handles skip) (hl : s.chan.Linked) {id : ReqId} {k : ConnId}
    {enc tun : Bool} {out : List (Line V)} {cb : Cb} {name : String}
    (ho : s.chan.server.out = .response id (.ok (.connected k enc tun)) :: out)
    (hp : s.chan.pending.lookup id = some cb) (hopens : cb.opens = some name) {c : Channel V B}
    (hasked : c.asked = s.chan.asked) (hhist : c.server.hist = s.chan.server.hist)
    (hsettled : c.Settled id) : c.Holds name k := by
  have hmem : (id, cb) ∈ s.chan.pending := by
    obtain ⟨l₁, l₂, hp, -⟩ := List.lookup_eq_some_iff.mp hp
    have hp' : s.chan.pending = l₁ ++ (id, cb) :: l₂ := hp
    rw [hp']
    exact List.mem_append_right _ List.mem_cons_self
  obtain ⟨request, hreq, hans, -⟩ := hl.expects ho hmem
  have hopened : .opened id k ∈ s.chan.server.hist :=
    hl.spoken.connected id request k enc tun hans
  obtain ⟨spec, cb', hreq'⟩ := hl.owed.opened id k hopened
  have hcb : cb' = cb := by
    rw [hreq, Option.some.injEq, Prod.mk.injEq] at hreq'
    exact hreq'.2.symm
  rw [hcb] at hreq'
  refine ⟨⟨id, spec, cb, hasked ▸ hreq', hopens, hhist ▸ hopened, hsettled⟩, fun id' cb' hid' => ?_⟩
  rw [hasked] at hid'
  obtain ⟨id₀, hopened₀, hsettled₀⟩ := h.gone id' k cb' hid'
  rw [hl.spoken.opened.once id₀ id k hopened₀ hopened] at hsettled₀
  exact hsettled₀ cb hmem

/-! ### Engines replaced while the drawer holds no id -/

/-- The next line answers the handshake. -/
def greets (s : Session V B) : Bool :=
  match s.chan.server.out with
  | .response id _ :: _ => s.chan.pending.lookup id == some .hello
  | _ => false

/-- When a handshake is answered, no drawer row shows a connection id and no request that waits
disconnects one; and a statement goes out to the process whose connection id it has captured. -/
def CleanHandover (s : Session V B) : Input V B → Prop
  | .deliver => s.greets = true → (∀ name, s.liveConn name = none) ∧
      ∀ k cb, .request (.disconnect k) cb ∉ s.chan.waiters
  | .sendRun i => ∀ run, s.runs[i]? = some run →
      s.chan.ready = true ∧ run.process = s.chan.process
  | _ => True

variable {bld : Build} [BsonCells V B]

omit [BsonCells V B] in
/-- Reading a line changes nothing about the requests. -/
theorem read_same {c c' : Channel V B} {l : Line V} (hr : c.read = some (l, c')) :
    c'.pending = c.pending ∧ c'.asked = c.asked ∧ c'.server.hist = c.server.hist ∧
      c'.process = c.process ∧ c'.ready = c.ready ∧ c'.waiters = c.waiters ∧ c'.job = c.job := by
  unfold Channel.read at hr
  split at hr
  · cases hr
  · cases hr
    exact ⟨rfl, rfl, rfl, rfl, rfl, rfl, rfl⟩

theorem Handles.deliver (h : s.Handles none) (hk : s.Kept) (hgood : s.CleanHandover .deliver)
    (hst : s.step bld .deliver = some s') : s'.Handles none := by
  obtain ⟨⟨l, c⟩, hr, hm⟩ := Option.bind_eq_some_iff.mp hst
  obtain ⟨-, out, ho, -⟩ := read_seen hr
  obtain ⟨hpending, hasked, hhist, hprocess, hready, hwaiters, hjob⟩ := read_same hr
  have hlc : c.Linked := hk.linked.read hr
  have hread : ({ s with chan := c } : Session V B).Handles none := by
    refine h.chan hk.linked hprocess hasked (by rw [hhist]) (fun p hp => ?_) (fun hc => ?_)
      fun w hw => ?_
    · exact hpending ▸ hp
    · exact hready ▸ hc
    · exact hwaiters ▸ hw
  cases l with
  | state k n =>
    cases hm
    unfold Session.route
    split
    · exact hread
    · exact hread.tables rfl hread.named hread.live hread.runs
  | log level message =>
    cases hm
    exact hread
  | response id r =>
    simp only [onMessage] at hm
    split at hm
    · cases hm
      exact hread
    · next cb hl =>
      have hl : s.chan.pending.lookup id = some cb := hpending ▸ hl
      have hld : (c.drop id).Linked := hlc.drop id
      have hdrop : ({ s with chan := c.drop id } : Session V B).Handles none :=
        hread.chan hlc rfl rfl (List.suffix_refl _) (fun _ hp => (List.mem_filter.mp hp).1)
          (fun hc => hc) fun _ hw => hw
      have hsettled : (c.drop id).Settled id := by
        intro cb' hm'
        have hne := (List.mem_filter.mp hm').2
        simp at hne
      cases answer_cases hm with
      | greeted p =>
        obtain ⟨hlive, hdis⟩ := hgood (by simp only [greets, ho, hl, beq_self_eq_true])
        have hj : c.job = true := by
          rw [hjob]
          cases hj : s.chan.job with
          | true => rfl
          | false =>
            rw [(hk.linked.idle hj).1] at hl
            cases hl
        refine hdrop.greet hld hj hlive fun k cb hw => hdis k cb ?_
        exact hwaiters ▸ hw
      | failed cb e => exact hdrop.failed _
      | opened row k enc tun =>
        refine Handles.structureOf ?_ hld k _
        refine hdrop.setRow row _ fun _ k' hk' _ => ?_
        cases hk'
        exact h.holds hk.linked ho hl rfl hasked hhist hsettled
      | adopted name statement k enc tun =>
        have hholds : (c.drop id).Holds name k :=
          h.holds hk.linked ho hl rfl hasked hhist hsettled
        have hopened : (c.drop id).OpenedFor name k := hholds.openedFor
        exact (hdrop.adopt hld fun _ => hholds).offer statement
          (adopt_openedFor hld name k hopened)
      | filled cb row payload => exact hdrop.setNodes row payload
      | called tok name k => exact hdrop.tables rfl hdrop.named hdrop.live hdrop.runs
      | ignored => exact hdrop

theorem Handles.step (h : s.Handles none) (hk : s.Kept) {i : Input V B}
    (hgood : s.CleanHandover i) (hst : s.step bld i = some s') : s'.Handles none := by
  have hl := hk.linked
  cases i with
  | save name spec => cases hst; exact h.tables rfl h.named h.live h.runs
  | load => cases hst; exact h.load
  | run name statement => cases hst; exact h.withConn hl name statement
  | ensure =>
    cases hst
    exact h.ensure hl (fun _ _ _ _ hw => by cases hw) fun _ _ hw => by cases hw
  | execute k statement => cases hst; exact h.execute hl k statement none fun _ hn => by cases hn
  | dropRun j =>
    cases hst
    exact h.tables rfl h.named h.live fun p hp => h.runs p (List.mem_of_mem_eraseIdx hp)
  | openSchema name =>
    obtain ⟨row, -, rfl⟩ := Option.map_eq_some_iff.mp hst
    exact h.loadSchema hl row
  | browse name statement =>
    obtain ⟨k, hlive, rfl⟩ := Option.map_eq_some_iff.mp hst
    exact h.offer statement fun hr => (h.liveConn hr hlive).openedFor
  | sendRun j =>
    obtain ⟨run, hrun, rfl⟩ := Option.map_eq_some_iff.mp hst
    obtain ⟨hready, hprocess⟩ := hgood run hrun
    have hmem : run ∈ s.runs := List.mem_of_getElem? hrun
    have hdrop : ({ s with runs := s.runs.eraseIdx j } : Session V B).Handles none :=
      h.tables rfl h.named h.live fun p hp => h.runs p (List.mem_of_mem_eraseIdx hp)
    refine hdrop.execute hl run.conn run.statement (some run.name) fun n hn => ⟨hready, ?_⟩
    cases hn
    have hj : s.chan.job = true := by
      cases hj : s.chan.job with
      | true => rfl
      | false =>
        rw [(hl.idle hj).2.2] at hready
        cases hready
    exact (h.runs run hmem).2 hprocess (hprocess ▸ hl.numbered hj)
  | disconnect name =>
    obtain ⟨row, hc, hst⟩ := Option.bind_eq_some_iff.mp hst
    obtain ⟨k, hid, rfl⟩ := Option.map_eq_some_iff.mp hst
    exact h.disconnectRow hl (h.named name row hc ▸ hc) hid
  | delete name =>
    obtain ⟨row, hc, rfl⟩ := Option.map_eq_some_iff.mp hst
    exact h.deleteRow hl (h.named name row hc ▸ hc)
  | api request =>
    simp only [Session.step, Option.ite_none_right_eq_some] at hst
    obtain ⟨hapi, hst⟩ := hst
    cases hst
    refine h.harmless hl (fun k statement hr => ?_) fun k hr => ?_ <;>
      · rw [hr] at hapi
        cases hapi
  | setLaunch launch =>
    cases hst
    exact h.chan hl rfl rfl (List.suffix_refl _) (fun _ hp => hp) (fun hr => hr) fun _ hw => hw
  | receive =>
    obtain ⟨c, hc, rfl⟩ := Option.map_eq_some_iff.mp hst
    unfold Channel.receive at hc
    split at hc
    · cases hc
    · rw [Option.ite_none_right_eq_some] at hc
      obtain ⟨-, hc⟩ := hc
      cases hc
      exact h.chan hl rfl rfl (List.suffix_refl _) (fun _ hp => hp) (fun hr => hr) fun _ hw => hw
  | engine j =>
    obtain ⟨c, hc, rfl⟩ := Option.map_eq_some_iff.mp hst
    cases j with
    | arrive => cases hc
    | _ =>
      simp only [Channel.engine, Option.ite_none_right_eq_some, Option.map_eq_some_iff] at hc
      obtain ⟨-, server, hserver, rfl⟩ := hc
      exact h.chan hl rfl rfl (Server.hist_grows hserver) (fun _ hp => hp) (fun hr => hr)
        fun _ hw => hw
  | deliver => exact h.deliver hk hgood hst
  | die n =>
    obtain ⟨c, hc, rfl⟩ := Option.map_eq_some_iff.mp hst
    unfold Channel.die at hc
    rw [Option.ite_none_right_eq_some] at hc
    obtain ⟨-, hc⟩ := hc
    cases hc
    exact h.chan hl rfl rfl (List.suffix_refl _) (fun _ hp => hp) (fun hr => hr) fun _ hw => hw
  | exited =>
    simp only [Session.step, Option.ite_none_right_eq_some] at hst
    obtain ⟨-, hst⟩ := hst
    cases hst
    exact h.teardown _

/-- An id that `live_conn` gives while an engine is running was opened by it for that name and
was not disconnected; a statement meant for a name went to an id opened for that name and for
no other. -/
structure Bound (s : Session V B) : Prop where
  live : s.chan.ready = true → ∀ name k, s.liveConn name = some k →
    s.chan.OpenedFor name k ∧ s.chan.Undisconnected k ∧ .delisted k ∉ s.chan.server.hist
  statements : ∀ id x name k, s.chan.asked id = some x → Meant x name k →
    s.chan.OpenedFor name k ∧ ∀ name', s.chan.OpenedFor name' k → name' = name

theorem drawer_ids_current {is : List (Input V B)}
    (h : (machine bld).Run CleanHandover new is s) : s.Bound := by
  have hk : s.Kept := run_kept (h.weaken fun _ _ _ => trivial) kept_new
  have hh : s.Handles none :=
    h.invariant_with Kept (Handles none) (fun _ _ _ _ hk hst => hk.step hst)
      (fun _ _ _ hg hk hh hst => hh.step hk hg hst) kept_new handles_new
  refine ⟨fun hr name k hlive => ?_, fun id x name k hx hm => ?_⟩
  · have hholds := hh.liveConn hr hlive
    refine ⟨hholds.openedFor, hholds.2, fun hdel => ?_⟩
    obtain ⟨id, cb, hasked⟩ := hk.linked.owed.delisted k hdel
    exact hholds.2 id cb hasked
  · have hopened := hh.sent id x name k hx hm
    exact ⟨hopened, fun name' hother => hother.unique hk.linked hopened⟩

/-- The steps that are clean whatever the drawer shows. -/
def plainly (s : Session V B) : Input V B → Bool
  | .deliver => !s.greets
  | .sendRun _ => false
  | _ => true

omit [BsonCells V B] in
theorem plainly_clean (s : Session V B) (i : Input V B) (h : s.plainly i = true) :
    s.CleanHandover i := by
  cases i with
  | deliver =>
    intro hg
    simp [plainly, hg] at h
  | sendRun j => cases h
  | _ => trivial

/-- What a first request does, up to the handshake. -/
def greeting (first : Input ℕ ℕ) : List (Input ℕ ℕ) :=
  [first, .receive] ++ List.replicate 2 (.engine (.handler 0 {}))

/-- The connection that waits for the handshake is opened. -/
def connecting : List (Input ℕ ℕ) :=
  .receive :: List.replicate 5 (.engine (.handler 1 { dial := .ok (true, false) })) ++ [.deliver]

/-- One saved connection, up to the answer to the handshake. -/
def firstGreeting : List (Input ℕ ℕ) :=
  [.save "a" ⟨"sqlite", []⟩, .load] ++ greeting (.openSchema "a")

omit [BsonCells V B] in
theorem load_blank (h : ∀ row, (s.rows row).connId = none) (row : RowId) :
    (s.load.rows row).connId = none := by
  rw [load_rows]
  split
  · exact h row
  · split
    · exact h row
    · split
      · rfl
      · exact h row

theorem drawer_ids_current_one_connection :
    ∃ s, (machine .checked).Run CleanHandover new (firstGreeting ++ .deliver :: connecting) s ∧
      s.liveConn "a" = some 1 ∧ s.Bound := by
  let M := machine (V := ℕ) (B := ℕ) .checked
  have hsome : ((M.execWith plainly new firstGreeting).bind fun s => (M.step s .deliver).bind
      fun t => M.execWith plainly t connecting).map (fun s => s.liveConn "a") = some (some 1) := rfl
  obtain ⟨s, hs, hlive⟩ := Option.map_eq_some_iff.mp hsome
  obtain ⟨s₁, h₁, hs⟩ := Option.bind_eq_some_iff.mp hs
  obtain ⟨s₂, h₂, h₃⟩ := Option.bind_eq_some_iff.mp hs
  have hview : (M.execWith plainly new firstGreeting).map
      (fun s => (s.rows, s.chan.waiters)) =
      some (({ new with saved := Function.update (fun _ => none) "a" (some ⟨"sqlite", []⟩) } :
        Session ℕ ℕ).load.rows, [.request (.connect ⟨"sqlite", []⟩) (.loadSchema (0, "a"))]) := rfl
  rw [h₁] at hview
  simp only [Option.map_some, Option.some.injEq, Prod.mk.injEq] at hview
  have hclean : s₁.CleanHandover .deliver := by
    refine fun _ => ⟨fun name => ?_, fun k cb hw => ?_⟩
    · rw [Session.liveConn, hview.1]
      cases s₁.conns name with
      | none => rfl
      | some row => exact load_blank (fun _ => rfl) row
    · rw [hview.2] at hw
      cases List.mem_singleton.mp hw
  have hrun : M.Run CleanHandover new (firstGreeting ++ .deliver :: connecting) s :=
    (Lib.Machine.run_of_execWith plainly_clean h₁).append
      (.cons hclean h₂ (Lib.Machine.run_of_execWith plainly_clean h₃))
  exact ⟨s, hrun, hlive, drawer_ids_current hrun⟩

/-- A process is replaced while the drawer shows an id, and the id comes back for another
connection: a statement for the first one goes to the second. -/
def staleRun : List (Input ℕ ℕ) :=
  .save "b" ⟨"sqlite", []⟩ :: (firstGreeting ++ .deliver :: connecting) ++ [.die 0, .exited] ++
    (greeting (.run "b" "select 1") ++ .deliver :: connecting) ++
    [.run "a" "delete from t", .sendRun 1]

theorem stale_id_reaches_other_connection :
    ∃ s, (machine .checked).exec new staleRun = some s ∧ s.chan.ready = true ∧
      s.liveConn "a" = some 1 ∧ s.chan.OpenedFor "b" 1 ∧ ¬ s.chan.OpenedFor "a" 1 ∧
      s.chan.asked 7 = some (.execute 1 "delete from t", .executed 0 (some "a")) ∧ ¬ s.Bound := by
  obtain ⟨s, hs, hr⟩ := (machine .checked).exists_run new staleRun rfl
  have hview : ((machine .checked).exec new staleRun).map (fun s => (s.chan.ready, s.liveConn "a",
      s.chan.asked 7, s.chan.asked 5, s.chan.server.hist[1]?)) =
      some (true, some 1, some (.execute 1 "delete from t", .executed 0 (some "a")),
        some (.connect ⟨"sqlite", []⟩, .withConn "b" "select 1"), some (.opened 5 1)) := rfl
  rw [hs] at hview
  simp only [Option.map_some, Option.some.injEq, Prod.mk.injEq] at hview
  obtain ⟨hready, hlive, hasked, hconnect, hopened⟩ := hview
  have hb : s.chan.OpenedFor "b" 1 :=
    ⟨5, _, _, hconnect, rfl, List.mem_of_getElem? hopened⟩
  have ha : ¬ s.chan.OpenedFor "a" 1 := fun ha => by
    have hlinked := (run_kept hr kept_new).linked
    exact absurd (ha.unique hlinked hb) (by decide)
  exact ⟨s, hs, hready, hlive, hb, ha, hasked, fun h => ha (h.live hready "a" 1 hlive).1⟩

end Session
end LvimDb.Client
