import LvimDb.Client.Drawer

/-!
# The connections of the drawer

Opening a connection and reading its schema are two round trips, and each answer writes its row
whatever has happened to it since it was asked for. So long as an answer finds its row fit to be
written, a row that shows a schema shows a connection id, and every id that the client has been
told of is on a row or has been sent its `conn.disconnect`.
-/

namespace LvimDb.Client
open Engine
variable {V B : Type}

namespace Channel

/-- The running process has told the client of connection `k`. -/
def Landed (c : Channel V B) (k : ConnId) : Prop :=
  ∃ id enc tun, .response id (.ok (.connected k enc tun)) ∈ c.seen

/-- The running process has been sent the `conn.disconnect` of `k`. -/
def Ended (c : Channel V B) (k : ConnId) : Prop := ∃ id cb, c.asked id = some (.disconnect k, cb)

variable {c c' : Channel V B} {k : ConnId}

theorem ensure_landed {w : Waiter} (hj : (c.ensure w).1.job = true) (hk : (c.ensure w).1.Landed k) :
    c.job = true ∧ c.Landed k := by
  cases hjob : c.job with
  | true =>
    obtain ⟨id, enc, tun, hmem⟩ := hk
    have hseen : (c.ensure w).1.seen = c.seen := by
      unfold ensure
      split
      · cases w <;> rfl
      · rw [if_pos hjob]
    exact ⟨rfl, id, enc, tun, hseen ▸ hmem⟩
  | false =>
    obtain ⟨id, enc, tun, hmem⟩ := hk
    rw [ensure_spawned w hjob hj] at hmem
    cases hmem

theorem Ended.ensure (h : c.Ended k) (hl : c.Linked) (hj : c.job = true) (w : Waiter) :
    (c.ensure w).1.Ended k := by
  obtain ⟨id, cb, hid⟩ := h
  rcases ensure_asked w hj with ha | ⟨r, cb', -, -, hc⟩
  · exact ⟨id, cb, ha ▸ hid⟩
  · rw [hc]
    exact ⟨id, cb, hl.asked_post hid⟩

/-- A request other than a disconnect ends no connection. -/
theorem ended_ensure {w : Waiter} (hj : c.job = true)
    (hw : ∀ k cb, w ≠ .request (.disconnect k) cb) (h : (c.ensure w).1.Ended k) : c.Ended k := by
  obtain ⟨id, cb, hid⟩ := h
  rcases ensure_asked w hj with ha | ⟨r, cb', hr, -, hc⟩
  · exact ⟨id, cb, ha ▸ hid⟩
  · rw [hc, post_asked] at hid
    by_cases hne : id = c.idSeq + 1
    · rw [hne, Function.update_self, Option.some.injEq, Prod.mk.injEq] at hid
      rw [hr, hid.1] at hw
      exact absurd rfl (hw k cb')
    · rw [Function.update_of_ne hne] at hid
      exact ⟨id, cb, hid⟩

/-- Before the handshake no connection has been told of. -/
theorem Landed.ready (h : c.Landed k) (hl : c.Linked) (hs : c.Still) (hj : c.job = true) :
    c.ready = true := by
  obtain ⟨id, enc, tun, hmem⟩ := h
  obtain ⟨lost, hlines, -⟩ := hl.lines
  have hline : Line.response id (.ok (.connected k enc tun)) ∈ linesOf c.server.hist := by
    rw [← hlines]
    exact List.mem_append_left _ (List.mem_append_left _ hmem)
  obtain ⟨request, hans⟩ := Server.response_mem.mp hline
  obtain ⟨spec, cb, hasked⟩ := hl.owed.opened id k (hl.spoken.connected id request k enc tun hans)
  cases hr : c.ready with
  | true => rfl
  | false => cases hs.early hj hr id _ hasked

/-- A connection the client has been told of has been sent its disconnect. -/
theorem ensure_disconnect (hl : c.Linked) (hs : c.Still) {cb : Cb}
    (hj : (c.ensure (.request (.disconnect k) cb)).1.job = true)
    (hk : (c.ensure (.request (.disconnect k) cb)).1.Landed k) :
    (c.ensure (.request (.disconnect k) cb)).1.Ended k := by
  obtain ⟨hjob, hland⟩ := ensure_landed hj hk
  have hready := hland.ready hl hs hjob
  unfold ensure
  rw [hready, hjob]
  exact ⟨c.idSeq + 1, cb, Function.update_self ..⟩

end Channel

namespace Session

def Shown (s : Session V B) (row : RowId) : Prop := s.conns row.2 = some row

def Recorded (s : Session V B) (k : ConnId) : Prop :=
  ∃ row, s.Shown row ∧ (s.rows row).connId = some k

/-- The books of the drawer are in order. -/
structure Accounted (s : Session V B) : Prop where
  nodes : ∀ row, s.Shown row → (s.rows row).nodes ≠ none → (s.rows row).connId ≠ none
  ids : s.chan.job = true → ∀ k, s.chan.Landed k → s.Recorded k ∨ s.chan.Ended k

theorem accounted_new : (new : Session V B).Accounted where
  nodes _ h := by cases h
  ids h := by cases h

/-! ### The condition -/

/-- A schema may be written to the row: it shows an id, or nobody sees it. -/
def Bears (s : Session V B) (row : RowId) : Prop := s.Shown row → (s.rows row).connId ≠ none

/-- Connection `k` is accounted for without this row. -/
def Spared (s : Session V B) (row : RowId) (k : ConnId) : Prop :=
  (∃ row', row' ≠ row ∧ s.Shown row' ∧ (s.rows row').connId = some k) ∨ s.chan.Ended k

/-- An answer finds its row fit to be written: the opened connection's row is still shown and
loses no other connection, the connection of a statement has a row without an id, and a schema
comes for a row that bears it. -/
def AnswerTidy (s : Session V B) : Option Cb → Except String (Reply V) → Prop
  | some (.loadSchema row), .ok (.connected k _ _) =>
    (s.Shown row ∨ s.Spared row k) ∧ (s.Shown row → ∀ k₀, (s.rows row).connId = some k₀ →
      k₀ ≠ k → s.chan.Landed k₀ → s.Spared row k₀)
  | some (.withConn name _), .ok (.connected k _ _) =>
    (∃ row, s.conns name = some row ∧ (s.rows row).connId = none) ∨ s.Recorded k ∨ s.chan.Ended k
  | some (.nodes row), .ok _ => s.Bears row
  | some (.adopted row), _ => s.Bears row
  | none, .ok (.connected k _ _) => s.Recorded k ∨ s.chan.Ended k
  | _, _ => True

def LineTidy (s : Session V B) : Line V → Prop
  | .response id r => s.AnswerTidy (s.chan.pending.lookup id) r
  | _ => True

def Tidy (s : Session V B) : Act V B → Prop
  | .session .deliver => ∀ l out, s.chan.server.out = l :: out → s.LineTidy l
  | .session .exited => ∀ row, .adopted row ∈ s.chan.callbacks → s.Bears row
  | _ => True

/-! ### Client code -/

variable {s s' : Session V B}

/-- Client code that leaves the channel alone. -/
theorem Accounted.tables (h : s.Accounted) (hc : s'.chan = s.chan)
    (hn : ∀ row, s'.Shown row → (s'.rows row).nodes ≠ none → (s'.rows row).connId ≠ none)
    (hi : s.chan.job = true → ∀ row k, s.Shown row → (s.rows row).connId = some k →
      s.chan.Landed k → s'.Recorded k ∨ s.chan.Ended k) : s'.Accounted := by
  refine ⟨hn, fun hj k hk => ?_⟩
  rw [hc] at hj hk ⊢
  rcases h.ids hj k hk with ⟨row, hrow, hid⟩ | hend
  · exact hi hj row k hrow hid hk
  · exact .inr hend

/-- The channel moves on and tells the client of no connection. -/
theorem Accounted.chan (h : s.Accounted) {c : Channel V B}
    (hj : c.job = true → s.chan.job = true) (hland : ∀ k, c.Landed k → s.chan.Landed k)
    (hend : ∀ k, s.chan.Ended k → c.Ended k) : ({ s with chan := c } : Session V B).Accounted := by
  refine ⟨h.nodes, fun hj' k hk => ?_⟩
  rcases h.ids (hj hj') k (hland k hk) with hrec | he
  · exact .inl hrec
  · exact .inr (hend k he)

/-- A callback called with an error writes the row that waited to be adopted, and no other. -/
theorem fail_nodes (s : Session V B) (p : Cb × String) (row : RowId) :
    ((s.fail p).rows row).nodes ≠ none ↔ (s.rows row).nodes ≠ none ∨ p.1 = .adopted row := by
  obtain ⟨cb, err⟩ := p
  cases cb with
  | adopted row' =>
    have hrows : (s.fail (.adopted row', err)).rows =
        Function.update s.rows row' { s.rows row' with nodes := some "" } := rfl
    rw [hrows]
    by_cases hrow : row = row'
    · rw [hrow, Function.update_self]
      exact iff_of_true (Option.some_ne_none "") (.inr rfl)
    · rw [Function.update_of_ne hrow]
      refine (or_iff_left fun heq => ?_).symm
      exact hrow (Cb.adopted.inj heq).symm
  | _ => exact (or_iff_left nofun).symm

theorem fails_nodes (ps : List (Cb × String)) (s : Session V B) (row : RowId) :
    ((ps.foldl fail s).rows row).nodes ≠ none ↔
      (s.rows row).nodes ≠ none ∨ .adopted row ∈ ps.map (·.1) := by
  induction ps generalizing s with
  | nil => exact (or_iff_left List.not_mem_nil).symm
  | cons p ps ih =>
    rw [List.foldl_cons, ih, fail_nodes, List.map_cons, List.mem_cons, or_assoc, eq_comm]

/-- While a process runs a request changes the channel alone. -/
theorem ensure_eq (hl : s.chan.Linked) (hj : s.chan.job = true) (w : Waiter) :
    s.ensure w = { s with chan := (s.chan.ensure w).1 } := by
  unfold Session.ensure
  rcases Channel.ensure_refused hl w with hnil | ⟨hj', -⟩
  · rw [hnil]
    rfl
  · rw [hj'] at hj
    cases hj

theorem ensure_nodes (hl : s.chan.Linked) (w : Waiter) (row : RowId)
    (h : ((s.ensure w).rows row).nodes ≠ none) :
    (s.rows row).nodes ≠ none ∨ w.cb = some (.adopted row) := by
  rcases (fails_nodes _ _ row).mp h with h | hmem
  · exact .inl h
  · refine .inr ?_
    rcases Channel.ensure_refused hl w with hnil | ⟨-, err, heq⟩
    · rw [hnil] at hmem
      cases hmem
    · rw [heq, List.map_map] at hmem
      obtain ⟨cb, hcb, rfl⟩ := List.mem_map.mp hmem
      exact Option.mem_toList.mp hcb

theorem Accounted.ensure (h : s.Accounted) (hl : s.chan.Linked) (w : Waiter)
    (hw : ∀ row, w.cb = some (.adopted row) → s.Bears row) : (s.ensure w).Accounted := by
  obtain ⟨hconns, -, hrows⟩ := fails_tables (s.chan.ensure w).2
    { s with chan := (s.chan.ensure w).1 }
  have hid : ∀ row, ((s.ensure w).rows row).connId = (s.rows row).connId := hrows
  have hshown : ∀ row, (s.ensure w).Shown row ↔ s.Shown row := fun row => by
    unfold Shown
    rw [show (s.ensure w).conns = s.conns from hconns]
  refine ⟨fun row hrow hn => ?_, fun hj k hk => ?_⟩
  · rw [hshown] at hrow
    rw [hid]
    rcases ensure_nodes hl w row hn with hn | hcb
    · exact h.nodes row hrow hn
    · exact hw row hcb hrow
  · rw [ensure_chan] at hj hk ⊢
    obtain ⟨hj, hk⟩ := Channel.ensure_landed hj hk
    rcases h.ids hj k hk with ⟨row, hrow, hrid⟩ | hend
    · exact .inl ⟨row, (hshown row).mpr hrow, (hid row).trans hrid⟩
    · exact .inr (hend.ensure hl hj w)

theorem Accounted.request (h : s.Accounted) (hl : s.chan.Linked) (r : Request) {cb : Cb}
    (hcb : ∀ row, cb ≠ .adopted row) : (s.request r cb).Accounted :=
  h.ensure hl _ fun row hw => absurd (Option.some.inj hw) (hcb row)

theorem Accounted.structureOf (h : s.Accounted) (hl : s.chan.Linked) (k : ConnId) {cb : Cb}
    (hcb : ∀ row, cb = .adopted row → s.Bears row) : (s.structureOf k cb).Accounted :=
  h.ensure hl _ fun row hw => hcb row (Option.some.inj hw)

theorem Accounted.connectSaved (h : s.Accounted) (hl : s.chan.Linked) (name : String) {cb : Cb}
    (hcb : ∀ row, cb ≠ .adopted row) : (s.connectSaved name cb).Accounted := by
  unfold Session.connectSaved
  split
  · cases cb with
    | adopted row => exact absurd rfl (hcb row)
    | _ => exact ⟨h.nodes, h.ids⟩
  · exact h.request hl _ hcb

theorem Accounted.loadSchema (h : s.Accounted) (hl : s.chan.Linked) (row : RowId) :
    (s.loadSchema row).Accounted := by
  unfold Session.loadSchema
  split
  · exact h
  · exact h.connectSaved hl _ nofun

theorem Accounted.withConn (h : s.Accounted) (hl : s.chan.Linked) (name statement : String) :
    (s.withConn name statement).Accounted := by
  unfold Session.withConn
  split
  · exact ⟨h.nodes, h.ids⟩
  · exact h.connectSaved hl _ nofun

/-- The rows are read from the store again. A row that is dropped has no connection to lose. -/
theorem Accounted.load (h : s.Accounted)
    (hkeep : ∀ row k, s.Shown row → (s.rows row).connId = some k → s.saved row.2 ≠ none ∨
      (s.chan.job = true → s.chan.Landed k → s.chan.Ended k)) : s.load.Accounted := by
  have hstays : ∀ row, s.Shown row → s.saved row.2 ≠ none →
      s.load.Shown row ∧ (s.load.rows row).connId = (s.rows row).connId := by
    intro row hrow hsaved
    obtain ⟨spec, hspec⟩ := Option.ne_none_iff_exists'.mp hsaved
    constructor
    · show (s.saved row.2).map _ = some row
      rw [hspec, show s.conns row.2 = some row from hrow]
      rfl
    · rw [load_rows, hspec]
      dsimp only
      rw [if_pos (show s.conns row.2 = some row from hrow)]
  refine h.tables rfl (fun row hrow hn => ?_) fun hj row k hrow hid hk => ?_
  · obtain ⟨spec, hspec, -⟩ := Option.map_eq_some_iff.mp (show s.rowOf row.2 = some row from hrow)
    rw [load_rows, hspec] at hn ⊢
    dsimp only at hn ⊢
    split at hn
    · next hold =>
      rw [if_pos hold]
      exact h.nodes row hold hn
    · next hnew =>
      rw [if_pos (show s.rowOf row.2 = some row from hrow)] at hn
      exact absurd rfl hn
  · rcases hkeep row k hrow hid with hsaved | hend
    · obtain ⟨hshown, hsame⟩ := hstays row hrow hsaved
      exact .inl ⟨row, hshown, hsame.trans hid⟩
    · exact .inr (hend hj hk)

theorem Orderly.disconnected (ho : s.Orderly) (k : ConnId) :
    (s.request (.disconnect k) .ignored).chan.job = true →
      (s.request (.disconnect k) .ignored).chan.Landed k →
      (s.request (.disconnect k) .ignored).chan.Ended k := by
  rw [show (s.request (.disconnect k) .ignored).chan =
    (s.chan.ensure (.request (.disconnect k) .ignored)).1 from ensure_chan _]
  exact Channel.ensure_disconnect ho.kept.linked ho.still

theorem Accounted.disconnectRow (h : s.Accounted) (ho : s.Orderly) {row : RowId} {k : ConnId}
    (hid : (s.rows row).connId = some k) : (s.disconnectRow row k).Accounted := by
  have hreq : (s.request (.disconnect k) .ignored).Accounted := h.request ho.kept.linked _ nofun
  have hsame : ∀ row, ((s.request (.disconnect k) .ignored).rows row).connId =
      (s.rows row).connId := (fails_tables _ _).2.2
  refine hreq.tables rfl (fun row' hrow hn => ?_) fun hj row' k' hrow hid' hk => ?_
  · by_cases heq : row' = row
    · rw [heq] at hn
      simp only [Session.disconnectRow, setRow_rows, Function.update_self, ne_eq,
        not_true_eq_false] at hn
    · simp only [Session.disconnectRow, setRow_rows, Function.update_of_ne heq] at hn ⊢
      exact hreq.nodes row' hrow hn
  · by_cases heq : row' = row
    · rw [heq, hsame, hid, Option.some.injEq] at hid'
      rw [← hid'] at hk ⊢
      exact .inr (ho.disconnected k hj hk)
    · refine .inl ⟨row', hrow, ?_⟩
      simp only [Session.disconnectRow, setRow_rows, Function.update_of_ne heq]
      exact hid'

/-- A row is forgotten whose connection, if it has one, has been sent its disconnect. -/
theorem Accounted.forget (h : s.Accounted) (ho : s.Orderly) {row : RowId} (hrow : s.Shown row)
    (hend : ∀ k, (s.rows row).connId = some k → s.chan.job = true → s.chan.Landed k →
      s.chan.Ended k) :
    ({ s with saved := Function.update s.saved row.2 none } : Session V B).load.Accounted := by
  have hsame : ({ s with saved := Function.update s.saved row.2 none } : Session V B).Accounted :=
    ⟨h.nodes, h.ids⟩
  refine hsame.load fun row' k hrow' hid => ?_
  by_cases hname : row'.2 = row.2
  · have heq : row' = row := by
      have hboth : some row' = some row := by
        rw [← hrow, ← hname]
        exact Eq.symm hrow'
      exact Option.some.inj hboth
    rw [heq] at hid
    exact .inr (hend k hid)
  · refine .inl ?_
    rw [show ({ s with saved := Function.update s.saved row.2 none } : Session V B).saved row'.2 =
      s.saved row'.2 from Function.update_of_ne hname _ _]
    exact ho.listed row'.2 row' hrow'

theorem Accounted.deleteRow (h : s.Accounted) (ho : s.Orderly) {row : RowId} (hrow : s.Shown row) :
    (s.deleteRow row).Accounted := by
  unfold Session.deleteRow
  split
  · next k hid =>
    have hkept : (s.request (.disconnect k) .ignored).Kept :=
      ho.kept.acts (acts_request (.inl ⟨k, rfl⟩) rfl)
    have ho' : (s.request (.disconnect k) .ignored).Orderly :=
      ho.asks hkept (asks_ensure _ fun _ _ _ => trivial)
    have hreq : (s.request (.disconnect k) .ignored).Accounted := h.request ho.kept.linked _ nofun
    obtain ⟨hconns, -, hrows⟩ := fails_tables
      (s.chan.ensure (.request (.disconnect k) .ignored)).2
      { s with chan := (s.chan.ensure (.request (.disconnect k) .ignored)).1 }
    refine hreq.forget ho' ?_ fun k' hid' hj hk => ?_
    · unfold Shown
      rw [show (s.request (.disconnect k) .ignored).conns = s.conns from hconns]
      exact hrow
    · have hk' : some k' = some k := by
        rw [← hid, ← hid']
        exact hrows row
      obtain rfl := Option.some.inj hk'
      exact ho.disconnected k' hj hk
  · next hnone =>
    refine h.forget ho hrow fun k hid => ?_
    rw [hnone] at hid
    cases hid

/-! ### Answers -/

/-- A schema is written to a row. -/
theorem filled_iff (h : s.Accounted) (row : RowId) (payload : String) :
    (s.setNodes row payload).Accounted ↔ s.Bears row := by
  have hid : ∀ row', ((s.setNodes row payload).rows row').connId = (s.rows row').connId := by
    intro row'
    rw [setNodes_rows]
    by_cases heq : row' = row
    · rw [heq, Function.update_self]
    · rw [Function.update_of_ne heq]
  constructor
  · intro h' hrow
    rw [← hid]
    refine h'.nodes row hrow ?_
    rw [setNodes_rows, Function.update_self]
    exact Option.some_ne_none payload
  · intro hb
    refine ⟨fun row' hrow hn => ?_, fun hj k hk => ?_⟩
    · rw [hid]
      by_cases heq : row' = row
      · rw [heq] at hrow ⊢
        exact hb hrow
      · rw [setNodes_rows, Function.update_of_ne heq] at hn
        exact h.nodes row' hrow hn
    · rcases h.ids hj k hk with ⟨row', hrow, hrid⟩ | hend
      · exact .inl ⟨row', hrow, (hid row').trans hrid⟩
      · exact .inr hend

variable {k : ConnId}

/-- The client is told of a connection and writes no row. -/
theorem told_iff (h : s.Accounted) (hj : s.chan.job = true) (hj' : s'.chan.job = true)
    (hland : ∀ k', s'.chan.Landed k' ↔ s.chan.Landed k' ∨ k' = k)
    (hend : ∀ k', s'.chan.Ended k' ↔ s.chan.Ended k') (hconns : s'.conns = s.conns)
    (hrows : s'.rows = s.rows) : s'.Accounted ↔ s.Recorded k ∨ s.chan.Ended k := by
  have hrec : ∀ k', s'.Recorded k' ↔ s.Recorded k' := fun k' => by
    unfold Recorded Shown
    rw [hconns, hrows]
  constructor
  · intro h'
    rw [← hrec, ← hend]
    exact h'.ids hj' k ((hland k).mpr (.inr rfl))
  · intro hk
    refine ⟨fun row hrow hn => ?_, fun _ k' hk' => ?_⟩
    · rw [hrows] at hn ⊢
      rw [show s'.Shown row ↔ s.Shown row from by unfold Shown; rw [hconns]] at hrow
      exact h.nodes row hrow hn
    · rw [hrec, hend]
      rcases (hland k').mp hk' with hk' | rfl
      · exact h.ids hj k' hk'
      · exact hk

/-- The client is told of a connection and writes its id to a row. -/
theorem placed_iff (h : s.Accounted) (hj : s.chan.job = true) (hj' : s'.chan.job = true)
    {row : RowId} {r : Row} (hr : r.connId = some k)
    (hland : ∀ k', s'.chan.Landed k' ↔ s.chan.Landed k' ∨ k' = k)
    (hend : ∀ k', s'.chan.Ended k' ↔ s.chan.Ended k') (hconns : s'.conns = s.conns)
    (hrows : s'.rows = Function.update s.rows row r) :
    s'.Accounted ↔ (s.Shown row ∨ s.Spared row k) ∧ (s.Shown row → ∀ k₀,
      (s.rows row).connId = some k₀ → k₀ ≠ k → s.chan.Landed k₀ → s.Spared row k₀) := by
  have hshown : ∀ row', s'.Shown row' ↔ s.Shown row' := fun row' => by
    unfold Shown
    rw [hconns]
  have hself : (s'.rows row).connId = some k := by rw [hrows, Function.update_self, hr]
  have hother : ∀ row', row' ≠ row → s'.rows row' = s.rows row' := fun row' hne => by
    rw [hrows, Function.update_of_ne hne]
  have hknown : ∀ k', s'.Recorded k' ∨ s'.chan.Ended k' ↔
      (s.Shown row ∧ k' = k) ∨ s.Spared row k' := by
    intro k'
    rw [hend]
    constructor
    · rintro (⟨row', hrow, hid⟩ | he)
      · rw [hshown] at hrow
        by_cases heq : row' = row
        · rw [heq] at hrow hid
          rw [hself] at hid
          exact .inl ⟨hrow, (Option.some.inj hid).symm⟩
        · rw [hother row' heq] at hid
          exact .inr (.inl ⟨row', heq, hrow, hid⟩)
      · exact .inr (.inr he)
    · rintro (⟨hrow, rfl⟩ | ⟨row', hne, hrow, hid⟩ | he)
      · exact .inl ⟨row, (hshown row).mpr hrow, hself⟩
      · refine .inl ⟨row', (hshown row').mpr hrow, ?_⟩
        rw [hother row' hne]
        exact hid
      · exact .inr he
  constructor
  · intro h'
    constructor
    · rcases (hknown k).mp (h'.ids hj' k ((hland k).mpr (.inr rfl))) with ⟨hrow, -⟩ | hs
      · exact .inl hrow
      · exact .inr hs
    · intro _ k₀ _ hne hk₀
      rcases (hknown k₀).mp (h'.ids hj' k₀ ((hland k₀).mpr (.inl hk₀))) with ⟨-, heq⟩ | hs
      · exact absurd heq hne
      · exact hs
  · rintro ⟨hplace, hkeep⟩
    refine ⟨fun row' hrow hn => ?_, fun _ k' hk' => (hknown k').mpr ?_⟩
    · rw [hshown] at hrow
      by_cases heq : row' = row
      · rw [heq, hself]
        exact Option.some_ne_none k
      · rw [hother row' heq] at hn ⊢
        exact h.nodes row' hrow hn
    · by_cases heq : k' = k
      · rw [heq]
        rcases hplace with hrow | hs
        · exact .inl ⟨hrow, rfl⟩
        · exact .inr hs
      · have hold : s.chan.Landed k' := ((hland k').mp hk').resolve_right heq
        rcases h.ids hj k' hold with ⟨row', hrow, hid⟩ | he
        · by_cases hrow' : row' = row
          · rw [hrow'] at hrow hid
            exact .inr (hkeep hrow k' hid heq hold)
          · exact .inr (.inl ⟨row', hrow', hrow, hid⟩)
        · exact .inr (.inr he)

/-- What the client has been told of with one more line. -/
theorem landed_read {c : Channel V B} {l : Line V} (hr : s.chan.read = some (l, c)) (k : ConnId) :
    c.Landed k ↔ s.chan.Landed k ∨ ∃ id enc tun, l = .response id (.ok (.connected k enc tun)) := by
  unfold Channel.Landed
  rw [(read_seen hr).1]
  simp only [List.mem_append, List.mem_singleton, exists_or, eq_comm]

/-- A schema that is asked for ends no connection and tells of none. -/
theorem schema_asked (hl : s.chan.Linked) (hj : s.chan.job = true) (k : ConnId) (cb : Cb) :
    s.structureOf k cb =
        { s with chan := (s.chan.ensure (.request (.schema k .structureNodes) cb)).1 } ∧
      (s.structureOf k cb).chan.job = true ∧ (s.structureOf k cb).chan.seen = s.chan.seen ∧
      ∀ k', (s.structureOf k cb).chan.Ended k' ↔ s.chan.Ended k' := by
  have heq := ensure_eq hl hj (.request (.schema k .structureNodes) cb)
  obtain ⟨hj', hseen⟩ := ensure_here (.request (.schema k .structureNodes) cb) hj
  have hchan : (s.structureOf k cb).chan =
      (s.chan.ensure (.request (.schema k .structureNodes) cb)).1 := ensure_chan _
  refine ⟨heq, ?_, ?_, fun k' => ?_⟩
  · rw [hchan, hj']
  · rw [hchan, hseen]
  · rw [hchan]
    exact ⟨Channel.ended_ensure hj nofun, fun he => he.ensure hl hj _⟩

theorem Accounted.greet (h : s.Accounted) (hl : s.chan.Linked) (hj : s.chan.job = true) :
    ({ s with chan := s.chan.greet } : Session V B).Accounted := by
  have hg : Channel.Grows (fun _ => True) s.chan s.chan.greet :=
    Channel.grows_greet hl hj fun _ _ _ => trivial
  obtain ⟨-, hseen⟩ := wakes_here s.chan.waiters { s.chan with ready := true, waiters := [] }
  refine h.chan (fun _ => hj) (fun k hk => ?_) fun k ⟨id, cb, hid⟩ => ?_
  · obtain ⟨id, enc, tun, hmem⟩ := hk
    have hmem' : .response id (.ok (.connected k enc tun)) ∈ s.chan.greet.seen := hmem
    rw [show s.chan.greet.seen = s.chan.seen from hseen] at hmem'
    exact ⟨id, enc, tun, hmem'⟩
  · exact ⟨id, cb, hg.asked id _ hid⟩

/-- An answer reaches its callback in a state whose books were in order before its line was
read: they stay so exactly when the answer finds its row fit to be written. -/
theorem answered_iff (h : s.Accounted) (ho : s.Orderly) {c : Channel V B}
    {r : Except String (Reply V)} {cb : Cb} (hj : s.chan.job = true) (hl : c.Linked)
    (hjob : c.job = true) (hasked : c.asked = s.chan.asked)
    (hland : ∀ k, c.Landed k ↔ s.chan.Landed k ∨ ∃ enc tun, r = .ok (.connected k enc tun))
    (hexp : cb.Expects r)
    (ha : ({ s with chan := c } : Session V B).Answered cb r s') :
    s'.Accounted ↔ s.AnswerTidy (some cb) r := by
  have hended : ∀ k, c.Ended k ↔ s.chan.Ended k := fun k => by
    unfold Channel.Ended
    rw [hasked]
  have hquiet : (∀ k enc tun, r ≠ .ok (.connected k enc tun)) →
      ({ s with chan := c } : Session V B).Accounted := fun hr => by
    refine h.chan (fun _ => hj) (fun k hk => ?_) fun k hk => (hended k).mpr hk
    rcases (hland k).mp hk with hk | ⟨enc, tun, heq⟩
    · exact hk
    · exact absurd heq (hr k enc tun)
  have hnew : ∀ k enc tun, r = .ok (.connected k enc tun) →
      ∀ k', c.Landed k' ↔ s.chan.Landed k' ∨ k' = k := fun k enc tun hr k' => by
    rw [hland, hr]
    refine or_congr_right ⟨fun ⟨_, _, heq⟩ => ?_, fun heq => ⟨enc, tun, by rw [heq]⟩⟩
    cases heq
    rfl
  cases ha with
  | greeted p => exact iff_of_true ((hquiet nofun).greet hl hjob) trivial
  | failed cb e =>
    have hs := hquiet nofun
    cases cb with
    | adopted row => exact filled_iff hs row ""
    | _ => exact iff_of_true ⟨hs.nodes, hs.ids⟩ trivial
  | opened row k enc tun =>
    let s₁ : Session V B := ({ s with chan := c } : Session V B).setRow row { s.rows row with
      connId := some k, encrypted := some enc, tunneled := some tun }
    obtain ⟨heq, hj', hseen, hend⟩ := schema_asked (s := s₁) hl hjob k (.nodes row)
    have hid : ({ s.rows row with
      connId := some k, encrypted := some enc, tunneled := some tun } : Row).connId = some k := rfl
    refine placed_iff h hj hj' hid (fun k' => ?_) (fun k' => (hend k').trans (hended k')) ?_ ?_
    · unfold Channel.Landed
      rw [hseen]
      exact hnew k enc tun rfl k'
    · rw [heq]
      rfl
    · rw [heq]
      rfl
  | adopted name statement k enc tun =>
    have hland' := hnew k enc tun rfl
    have htold : (({ s with chan := c } : Session V B).offer name k statement).Accounted ↔
        s.Recorded k ∨ s.chan.Ended k := told_iff h hj hjob hland' hended rfl rfl
    show (({ s with chan := c } : Session V B).adopt name k |>.offer name k statement).Accounted ↔ _
    unfold Session.adopt
    split
    · next hc =>
      refine htold.trans (or_iff_right ?_).symm
      rintro ⟨row, hc', -⟩
      rw [show s.conns name = none from hc] at hc'
      cases hc'
    · next row hc =>
      split
      · next k₁ hid =>
        refine htold.trans (or_iff_right ?_).symm
        rintro ⟨row', hc', hid'⟩
        obtain rfl := Option.some.inj (hc'.symm.trans hc)
        rw [show (s.rows row').connId = some k₁ from hid] at hid'
        cases hid'
      · next hid =>
        let s₁ : Session V B :=
          ({ s with chan := c } : Session V B).setRow row { s.rows row with connId := some k }
        obtain ⟨heq, hj', hseen, hend⟩ := schema_asked (s := s₁) hl hjob k (.adopted row)
        have hidk : ({ s.rows row with connId := some k } : Row).connId = some k := rfl
        have hplaced := placed_iff h hj
          (show ((s₁.structureOf k (.adopted row)).offer name k statement).chan.job = true from hj')
          hidk (fun k' => by
            unfold Channel.Landed
            rw [show ((s₁.structureOf k (.adopted row)).offer name k statement).chan.seen = c.seen
              from hseen]
            exact hland' k')
          (fun k' => (hend k').trans (hended k')) (by rw [heq]; rfl) (by rw [heq]; rfl)
        refine iff_of_true (hplaced.mpr ⟨.inl ?_, ?_⟩) (.inl ⟨row, hc, hid⟩)
        · unfold Shown
          rw [ho.named name row hc]
          exact hc
        · intro _ k₀ hid₀
          rw [show (s.rows row).connId = none from hid] at hid₀
          cases hid₀
  | filled _ row payload hcb =>
    have hs := hquiet nofun
    rcases hcb with rfl | rfl <;> exact filled_iff hs row payload
  | called tok name k =>
    have hs := hquiet nofun
    exact iff_of_true ⟨hs.nodes, hs.ids⟩ trivial
  | ignored a =>
    have hs : ∀ k enc tun, (.ok a : Except String (Reply V)) ≠ .ok (.connected k enc tun) := by
      intro k enc tun heq
      rw [heq] at hexp
      obtain ⟨request, hawaits, hfits | ⟨_, _, _, -, hcalled⟩⟩ := hexp
      · obtain ⟨spec, rfl⟩ := Server.fits_not_connected hfits
        rcases hawaits with ⟨_, hdis⟩ | hapi
        · cases hdis
        · cases hapi
      · cases hcalled
    exact iff_of_true (hquiet hs) trivial

variable {bld : Build} [BsonCells V B]

theorem deliver_iff (h : s.Accounted) (ho : s.Orderly) (hst : s.step bld .deliver = some s') :
    s'.Accounted ↔ s.Tidy (.session .deliver) := by
  obtain ⟨⟨l, c⟩, hr, hm⟩ := Option.bind_eq_some_iff.mp hst
  obtain ⟨-, out, hout, -⟩ := read_seen hr
  obtain ⟨hpending, hasked, -, -, -, -, hjob⟩ := read_same hr
  have hj : s.chan.job = true := (ho.still.read hr).1
  have hlc : c.Linked := ho.kept.linked.read hr
  have htidy : s.Tidy (.session .deliver) ↔ s.LineTidy l := by
    refine ⟨fun ht => ht l out hout, fun ht l' out' ho' => ?_⟩
    rw [hout] at ho'
    rw [← (List.cons.inj ho').1]
    exact ht
  have hended : ∀ k, c.Ended k ↔ s.chan.Ended k := fun k => by
    unfold Channel.Ended
    rw [hasked]
  rw [htidy]
  have hquiet : (∀ k, c.Landed k → s.chan.Landed k) →
      ({ s with chan := c } : Session V B).Accounted := fun hland =>
    h.chan (fun _ => hj) hland fun k hk => (hended k).mpr hk
  cases l with
  | state k n =>
    have hs := hquiet fun k' hk => by
      rcases (landed_read hr k').mp hk with hk | ⟨_, _, _, heq⟩
      · exact hk
      · cases heq
    cases hm
    refine iff_of_true ?_ trivial
    unfold Session.route
    split
    · exact hs
    · exact ⟨hs.nodes, hs.ids⟩
  | log level message =>
    cases hm
    refine iff_of_true (hquiet fun k' hk => ?_) trivial
    rcases (landed_read hr k').mp hk with hk | ⟨_, _, _, heq⟩
    · exact hk
    · cases heq
  | response id r =>
    have hland : ∀ k, c.Landed k ↔ s.chan.Landed k ∨ ∃ enc tun, r = .ok (.connected k enc tun) := by
      intro k
      refine (landed_read hr k).trans (or_congr_right ⟨?_, ?_⟩)
      · rintro ⟨id', enc, tun, heq⟩
        exact ⟨enc, tun, (Line.response.inj heq).2⟩
      · rintro ⟨enc, tun, rfl⟩
        exact ⟨id, enc, tun, rfl⟩
    simp only [onMessage] at hm
    cases hl : s.chan.pending.lookup id with
    | none =>
      rw [show ({ s with chan := c } : Session V B).chan.pending = s.chan.pending from hpending,
        hl] at hm
      cases hm
      have hnone : s.LineTidy (.response id r) = s.AnswerTidy none r :=
        congrArg (s.AnswerTidy · r) hl
      rw [hnone]
      by_cases hconn : ∃ k enc tun, r = .ok (.connected k enc tun)
      · obtain ⟨k, enc, tun, rfl⟩ := hconn
        refine told_iff h hj (hjob.trans hj) (fun k' => ?_) hended rfl rfl
        refine (hland k').trans (or_congr_right ⟨?_, fun heq => ?_⟩)
        · rintro ⟨_, _, heq⟩
          cases heq
          rfl
        · exact ⟨enc, tun, by rw [heq]⟩
      · refine iff_of_true (hquiet fun k' hk => ?_) ?_
        · rcases (hland k').mp hk with hk | ⟨enc, tun, heq⟩
          · exact hk
          · exact absurd ⟨k', enc, tun, heq⟩ hconn
        · unfold AnswerTidy
          split <;> first | trivial | exact absurd ⟨_, _, _, rfl⟩ hconn
    | some cb =>
      rw [show ({ s with chan := c } : Session V B).chan.pending = s.chan.pending from hpending,
        hl] at hm
      have hmem : (id, cb) ∈ s.chan.pending := by
        obtain ⟨l₁, l₂, hp, -⟩ := List.lookup_eq_some_iff.mp hl
        rw [show s.chan.pending = l₁ ++ (id, cb) :: l₂ from hp]
        exact List.mem_append_right _ List.mem_cons_self
      obtain ⟨-, -, -, hexp⟩ := ho.kept.linked.expects hout hmem
      have hcb : s.LineTidy (.response id r) = s.AnswerTidy (some cb) r :=
        congrArg (s.AnswerTidy · r) hl
      rw [hcb]
      exact answered_iff h ho hj (hlc.drop id) (hjob.trans hj) hasked hland hexp (answer_cases hm)

omit [BsonCells V B] in
/-- The exit of the process is noticed: who waited for a schema of an adopted connection writes
an empty one. -/
theorem exited_iff (h : s.Accounted) (err : String) :
    (s.teardown err).Accounted ↔ ∀ row, .adopted row ∈ s.chan.callbacks → s.Bears row := by
  obtain ⟨hconns, -, hrows⟩ := fails_tables (s.chan.teardown err).2
    { s with chan := (s.chan.teardown err).1 }
  have hid : ∀ row, ((s.teardown err).rows row).connId = (s.rows row).connId := hrows
  have hchan : (s.teardown err).chan = (s.chan.teardown err).1 :=
    (fails_asks (s.chan.teardown err).2 { s with chan := (s.chan.teardown err).1 }).2.2
  have hshown : ∀ row, (s.teardown err).Shown row ↔ s.Shown row := fun row => by
    unfold Shown
    rw [show (s.teardown err).conns = s.conns from hconns]
  have hnodes : ∀ row, ((s.teardown err).rows row).nodes ≠ none ↔
      (s.rows row).nodes ≠ none ∨ .adopted row ∈ s.chan.callbacks := by
    intro row
    have hcbs : (s.chan.teardown err).2.map (·.1) = s.chan.callbacks := by
      unfold Channel.teardown Channel.callbacks
      rw [List.map_map]
      exact List.map_id _
    rw [← hcbs]
    exact fails_nodes _ _ row
  constructor
  · intro h' row hmem hrow
    rw [← hid]
    exact h'.nodes row ((hshown row).mpr hrow) ((hnodes row).mpr (.inr hmem))
  · intro hb
    refine ⟨fun row hrow hn => ?_, fun hj => ?_⟩
    · rw [hshown] at hrow
      rw [hid]
      rcases (hnodes row).mp hn with hn | hmem
      · exact h.nodes row hrow hn
      · exact hb row hmem hrow
    · rw [hchan] at hj
      cases hj

/-- Every other step keeps the books in order. -/
theorem Accounted.step (h : s.Accounted) (ho : s.Orderly) {i : Input V B}
    (hst : s.step bld i = some s') (hd : i ≠ .deliver) (he : i ≠ .exited) : s'.Accounted := by
  cases i with
  | deliver => exact absurd rfl hd
  | exited => exact absurd rfl he
  | save name spec => cases hst; exact ⟨h.nodes, h.ids⟩
  | load => cases hst; exact h.load fun row _ hrow _ => .inl (ho.listed row.2 row hrow)
  | openSchema name =>
    obtain ⟨row, -, rfl⟩ := Option.map_eq_some_iff.mp hst
    exact h.loadSchema ho.kept.linked row
  | run name statement => cases hst; exact h.withConn ho.kept.linked name statement
  | browse name statement =>
    obtain ⟨k, -, rfl⟩ := Option.map_eq_some_iff.mp hst
    exact ⟨h.nodes, h.ids⟩
  | sendRun j =>
    obtain ⟨run, -, rfl⟩ := Option.map_eq_some_iff.mp hst
    have hs : ({ s with runs := s.runs.eraseIdx j, nextTok := s.nextTok + 1 } :
      Session V B).Accounted := ⟨h.nodes, h.ids⟩
    exact hs.request ho.kept.linked _ fun _ hcb => by cases hcb
  | dropRun j => cases hst; exact ⟨h.nodes, h.ids⟩
  | execute k statement =>
    cases hst
    have hs : ({ s with nextTok := s.nextTok + 1 } : Session V B).Accounted := ⟨h.nodes, h.ids⟩
    exact hs.request ho.kept.linked _ fun _ hcb => by cases hcb
  | disconnect name =>
    obtain ⟨row, -, hst⟩ := Option.bind_eq_some_iff.mp hst
    obtain ⟨k, hid, rfl⟩ := Option.map_eq_some_iff.mp hst
    exact h.disconnectRow ho hid
  | delete name =>
    obtain ⟨row, hc, rfl⟩ := Option.map_eq_some_iff.mp hst
    refine h.deleteRow ho ?_
    unfold Shown
    rw [ho.named name row hc]
    exact hc
  | api request =>
    simp only [Session.step, Option.ite_none_right_eq_some] at hst
    obtain ⟨-, hst⟩ := hst
    cases hst
    exact h.request ho.kept.linked _ fun _ hcb => by cases hcb
  | ensure => cases hst; exact h.ensure ho.kept.linked _ fun _ hw => by cases hw
  | setLaunch launch => cases hst; exact ⟨h.nodes, h.ids⟩
  | receive =>
    obtain ⟨c, hc, rfl⟩ := Option.map_eq_some_iff.mp hst
    unfold Channel.receive at hc
    split at hc
    · cases hc
    · rw [Option.ite_none_right_eq_some] at hc
      obtain ⟨-, hc⟩ := hc
      cases hc
      exact ⟨h.nodes, h.ids⟩
  | engine j =>
    obtain ⟨c, hc, rfl⟩ := Option.map_eq_some_iff.mp hst
    cases j with
    | arrive => cases hc
    | _ =>
      simp only [Channel.engine, Option.ite_none_right_eq_some, Option.map_eq_some_iff] at hc
      obtain ⟨-, server, -, rfl⟩ := hc
      exact ⟨h.nodes, h.ids⟩
  | die n =>
    obtain ⟨c, hc, rfl⟩ := Option.map_eq_some_iff.mp hst
    unfold Channel.die at hc
    rw [Option.ite_none_right_eq_some] at hc
    obtain ⟨-, hc⟩ := hc
    cases hc
    exact ⟨h.nodes, h.ids⟩

theorem act_iff (ho : s.Orderly) (h : s.Accounted) {a : Act V B} (hst : s.act bld a = some s') :
    s'.Accounted ↔ s.Tidy a := by
  cases a with
  | session i =>
    by_cases hd : i = .deliver
    · subst hd
      have hstep : s.step bld .deliver = some s' := hst
      exact deliver_iff h ho hstep
    · by_cases he : i = .exited
      · subst he
        simp only [Session.act, Session.step, Option.ite_none_right_eq_some] at hst
        obtain ⟨-, hst⟩ := hst
        cases hst
        exact exited_iff h _
      · have hstep : s.step bld i = some s' := hst
        refine iff_of_true (h.step ho hstep hd he) ?_
        cases i with
        | deliver => exact absurd rfl hd
        | exited => exact absurd rfl he
        | _ => trivial
  | refresh name =>
    obtain ⟨row, -, hst⟩ := Option.bind_eq_some_iff.mp hst
    obtain ⟨k, hid, rfl⟩ := Option.map_eq_some_iff.mp hst
    refine iff_of_true (h.structureOf ho.kept.linked k fun row' hcb _ => ?_) trivial
    rw [← Cb.adopted.inj hcb, hid]
    exact Option.some_ne_none k
  | reload name =>
    obtain ⟨row, -, hst⟩ := Option.bind_eq_some_iff.mp hst
    obtain ⟨_, -, hst⟩ := Option.bind_eq_some_iff.mp hst
    obtain ⟨k, -, rfl⟩ := Option.map_eq_some_iff.mp hst
    exact iff_of_true (h.structureOf ho.kept.linked k fun _ hcb => by cases hcb) trivial

/-- The books of the drawer are in order in every state of a run exactly when every answer of the
run, and its exits, find the rows they write fit to be written. -/
theorem accounted_iff {as : List (Act V B)} (h : (drawer bld).Run Lib.Machine.free new as s) :
    (drawer bld).Throughout new as Accounted ↔ (drawer bld).Run Tidy new as s :=
  h.throughout_iff Orderly Accounted (fun _ _ _ ho hst => ho.act hst)
    (fun _ _ _ ho ha hst => act_iff ho ha hst) orderly_new accounted_new

/-- An answer that is tidy by what its own row shows. -/
def plainAnswer (s : Session V B) : Option Cb → Except String (Reply V) → Bool
  | some (.loadSchema row), .ok _ => s.conns row.2 == some row && (s.rows row).connId == none
  | some (.nodes row), _ => (s.rows row).connId.isSome
  | some .hello, _ => true
  | _, _ => false

def plainAct (s : Session V B) : Act V B → Bool
  | .session .deliver =>
    match s.chan.server.out with
    | .response id r :: _ => s.plainAnswer (s.chan.pending.lookup id) r
    | _ => false
  | .session .exited => false
  | _ => true

omit [BsonCells V B] in
theorem plainAnswer_tidy {cb : Option Cb} {r : Except String (Reply V)}
    (h : s.plainAnswer cb r = true) : s.AnswerTidy cb r := by
  unfold plainAnswer at h
  split at h
  · next row a =>
    simp only [Bool.and_eq_true, beq_iff_eq] at h
    cases a with
    | connected k =>
      refine ⟨.inl h.1, fun _ k₀ hk₀ => ?_⟩
      rw [h.2] at hk₀
      cases hk₀
    | _ => trivial
  · next row =>
    cases r with
    | error e => trivial
    | ok a =>
      intro _
      exact Option.isSome_iff_ne_none.mp h
  · trivial
  · cases h

omit [BsonCells V B] in
theorem plainAct_tidy (s : Session V B) (a : Act V B) (h : s.plainAct a = true) : s.Tidy a := by
  cases a with
  | session i =>
    cases i with
    | deliver =>
      intro l out hout
      unfold plainAct at h
      rw [hout] at h
      cases l with
      | response id r => exact plainAnswer_tidy h
      | _ => cases h
    | exited => cases h
    | _ => trivial
  | _ => trivial

/-- A connection is opened from its row and its schema is read. -/
def oneSchema : List (Input ℕ ℕ) :=
  firstGreeting ++ .deliver :: connecting ++ .receive ::
    List.replicate 5 (.engine (.handler 2 { driver := .ok "main" })) ++ [.deliver]

theorem accounted_iff_one_schema :
    ∃ s, (drawer .checked).Run Lib.Machine.free new (oneSchema.map .session ++ [.refresh "a"]) s ∧
      (s.rows (0, "a")).nodes = some "main" ∧
      (drawer .checked).Throughout new (oneSchema.map .session ++ [.refresh "a"]) Accounted := by
  let M := drawer (V := ℕ) (B := ℕ) .checked
  have hsome : (M.execWith plainAct new (oneSchema.map .session ++ [.refresh "a"])).map
      (fun s => (s.rows (0, "a")).nodes) = some (some "main") := rfl
  obtain ⟨s, hs, hnodes⟩ := Option.map_eq_some_iff.mp hsome
  have htidy : M.Run Tidy new (oneSchema.map .session ++ [.refresh "a"]) s :=
    Lib.Machine.run_of_execWith plainAct_tidy hs
  have hrun : M.Run Lib.Machine.free new (oneSchema.map .session ++ [.refresh "a"]) s :=
    htidy.weaken fun _ _ _ => trivial
  exact ⟨s, hrun, hnodes, (accounted_iff hrun).mpr htidy⟩

/-- The gate of a schema is opened twice before the first answer: the row's id is overwritten. -/
def gateTwice : List (Input ℕ ℕ) :=
  [.save "a" ⟨"sqlite", []⟩, .load, .openSchema "a"] ++ greeting (.openSchema "a") ++
    .deliver :: .receive :: List.replicate 5 (.engine (.handler 1 { dial := .ok (true, false) })) ++
    .receive :: List.replicate 5 (.engine (.handler 2 { dial := .ok (true, false) })) ++
    [.deliver, .deliver]

/-- A connection is closed before its schema is answered. -/
def lateSchema : List (Input ℕ ℕ) :=
  firstGreeting ++ .deliver :: connecting ++ [.disconnect "a", .receive] ++
    List.replicate 5 (.engine (.handler 2 { driver := .ok "main" })) ++ [.deliver]

theorem books_out_of_order :
    (∃ s, (drawer .checked).Run Lib.Machine.free new (gateTwice.map .session) s ∧
      s.chan.job = true ∧ s.chan.Landed 1 ∧ ¬ s.Recorded 1 ∧ ¬ s.chan.Ended 1) ∧
    ∃ s, (drawer .checked).Run Lib.Machine.free new (lateSchema.map .session) s ∧
      s.Shown (0, "a") ∧ (s.rows (0, "a")).nodes = some "main" ∧
      (s.rows (0, "a")).connId = none := by
  constructor
  · obtain ⟨s, hs, hr⟩ := (drawer .checked).exists_run new (gateTwice.map .session) rfl
    have hview : ((drawer .checked).exec new (gateTwice.map .session)).map (fun s =>
        (s.chan.job, s.chan.seen[1]?, s.conns, (s.rows (0, "a")).connId, s.chan.idSeq,
          (List.range 6).map s.chan.asked)) =
        some (true, some (.response 2 (.ok (.connected 1 true false))),
          ({ new with saved := Function.update (fun _ => none) "a" (some ⟨"sqlite", []⟩) } :
            Session ℕ ℕ).rowOf, some 2, 5,
          [none, some (.hello, .hello), some (.connect ⟨"sqlite", []⟩, .loadSchema (0, "a")),
            some (.connect ⟨"sqlite", []⟩, .loadSchema (0, "a")),
            some (.schema 1 .structureNodes, .nodes (0, "a")),
            some (.schema 2 .structureNodes, .nodes (0, "a"))]) := rfl
    rw [hs] at hview
    simp only [Option.map_some, Option.some.injEq, Prod.mk.injEq] at hview
    obtain ⟨hj, hseen, hconns, hid, hlast, hasked⟩ := hview
    refine ⟨s, hr, hj, ⟨2, true, false, List.mem_of_getElem? hseen⟩, ?_, ?_⟩
    · rintro ⟨row, hrow, hone⟩
      unfold Shown at hrow
      rw [hconns] at hrow
      obtain ⟨spec, hsaved, hrow⟩ := Option.map_eq_some_iff.mp hrow
      by_cases hname : row.2 = "a"
      · rw [← hrow, hname] at hone
        exact absurd (hid.symm.trans hone) (by decide)
      · have hnone : Function.update (fun _ => none) "a" (some (⟨"sqlite", []⟩ : ConnSpec)) row.2 =
            some spec := hsaved
        rw [Function.update_of_ne hname] at hnone
        cases hnone
    · rintro ⟨id, cb, hend⟩
      have ho : s.Orderly := hr.invariant Orderly (fun _ _ _ _ ho hst => ho.act hst) orderly_new
      have hle : id < 6 := by
        by_contra hlt
        have hlast' : s.chan.idSeq < id := by
          rw [hlast]
          exact Nat.not_lt.mp hlt
        rw [ho.kept.linked.fresh id hlast'] at hend
        cases hend
      have hmem : s.chan.asked id ∈ (List.range 6).map s.chan.asked :=
        List.mem_map_of_mem (List.mem_range.mpr hle)
      rw [hasked, hend] at hmem
      simp at hmem
  · obtain ⟨s, hs, hr⟩ := (drawer .checked).exists_run new (lateSchema.map .session) rfl
    have hview : ((drawer .checked).exec new (lateSchema.map .session)).map (fun s =>
        (s.conns "a", (s.rows (0, "a")).nodes, (s.rows (0, "a")).connId)) =
        some (some (0, "a"), some "main", none) := rfl
    rw [hs] at hview
    simp only [Option.map_some, Option.some.injEq, Prod.mk.injEq] at hview
    exact ⟨s, hr, hview.1, hview.2.1, hview.2.2⟩

end Session
end LvimDb.Client
