import Mathlib.Data.List.Count
import LvimDb.Client.Channel

/-!
# One outcome for every execute

An `on_state` callback is in one place at a time: with a request that is not answered,
given up with an error, or registered for its call. A registered one is watched for or
has been called, and it is not watched for once nothing is left to do.
-/

namespace LvimDb.Client
open Engine
variable {V B : Type}

def Cb.token : Cb → Option Token
  | .executed tok _ => some tok
  | _ => none

def Note.refusal : Note → Option Token
  | .refused tok _ => some tok
  | _ => none

def Note.registration : Note → Option Token
  | .registered tok _ => some tok
  | _ => none

def Note.invocation : Note → Option Token
  | .stated tok _ _ => some tok
  | .torn tok => some tok
  | _ => none

/-- How often a token is among the callbacks. -/
def tokens (cbs : List Cb) (tok : Token) : ℕ := (cbs.filterMap Cb.token).count tok

theorem tokens_append (cbs cbs' : List Cb) (tok : Token) :
    tokens (cbs ++ cbs') tok = tokens cbs tok + tokens cbs' tok := by
  simp only [tokens, List.filterMap_append, List.count_append]

theorem tokens_cons (cb : Cb) (cbs : List Cb) (tok : Token) :
    tokens (cb :: cbs) tok = tokens [cb] tok + tokens cbs tok :=
  tokens_append [cb] cbs tok

theorem tokens_none {cb : Cb} (h : cb.token = none) (tok : Token) : tokens [cb] tok = 0 := by
  simp only [tokens, List.filterMap_cons, h, List.filterMap_nil, List.count_nil]

theorem count_token (tok t : Token) (ts : List Token) :
    (tok :: ts).count t = ts.count t + ([tok] : List Token).count t := by
  rw [List.count_cons, List.count_singleton]

/-- A table with its entry for a key put first. -/
theorem perm_lookup {κ α : Type} [DecidableEq κ] {ps : List (κ × α)} {k : κ} {a : α}
    (hnd : (ps.map (·.1)).Nodup) (hl : ps.lookup k = some a) :
    ps.Perm ((k, a) :: ps.filter (·.1 ≠ k)) := by
  induction ps with
  | nil => cases hl
  | cons p ps ih =>
    obtain ⟨i, b⟩ := p
    rw [List.map_cons, List.nodup_cons] at hnd
    by_cases hi : i = k
    · subst hi
      have hb : b = a := by simpa [List.lookup_cons] using hl
      have hrest : ps.filter (·.1 ≠ i) = ps := by
        refine List.filter_eq_self.mpr fun q hq => decide_eq_true ?_
        rintro rfl
        exact hnd.1 (List.mem_map.mpr ⟨q, hq, rfl⟩)
      rw [List.filter_cons_of_neg (by simp), hrest, hb]
    · have hne : (k == i) = false := by simpa using fun h => hi h.symm
      rw [List.lookup_cons, hne] at hl
      rw [List.filter_cons_of_pos (by simpa using hi)]
      exact ((ih hnd.2 hl).cons (i, b)).trans (.swap (k, a) (i, b) _)

/-! ### Where the callbacks are -/

namespace Channel

/-- The callbacks of the requests that are not answered. -/
def callbacks (c : Channel V B) : List Cb :=
  c.pending.map (·.2) ++ c.waiters.filterMap Waiter.cb

def asking (c : Channel V B) (tok : Token) : ℕ := tokens c.callbacks tok

variable {c : Channel V B}

theorem asking_post (request : Request) (cb : Cb) (tok : Token) :
    (c.post request cb).asking tok = c.asking tok + tokens [cb] tok := by
  simp only [asking, callbacks, post_pending, post_waiters, List.map_append, List.map_cons,
    List.map_nil, tokens_append]
  omega

theorem asking_wake (w : Waiter) (tok : Token) :
    (c.wake w).asking tok = c.asking tok + tokens w.cb.toList tok := by
  cases w with
  | ensured => rfl
  | request r cb => exact asking_post r cb tok

theorem asking_wakes (ws : List Waiter) (tok : Token) :
    (ws.foldl wake c).asking tok = c.asking tok + tokens (ws.filterMap Waiter.cb) tok := by
  induction ws generalizing c with
  | nil => rfl
  | cons w ws ih =>
    rw [List.foldl_cons, ih, asking_wake]
    cases hw : w.cb with
    | none => simp [hw, tokens]
    | some cb =>
      rw [List.filterMap_cons_some hw, tokens_cons, Option.toList_some]
      exact Nat.add_assoc _ _ _

theorem asking_greet (tok : Token) : c.greet.asking tok = c.asking tok := by
  rw [greet, asking_wakes]
  simp only [asking, callbacks, tokens_append, List.filterMap_nil, List.append_nil]

/-- A callback handed to `ensure` is kept or given back with an error, and so are the others. -/
theorem asking_ensure (w : Waiter) (tok : Token) :
    (c.ensure w).1.asking tok + tokens ((c.ensure w).2.map (·.1)) tok =
      c.asking tok + tokens w.cb.toList tok := by
  have hall : tokens ((c.waiters ++ [w]).filterMap Waiter.cb) tok =
      tokens (c.waiters.filterMap Waiter.cb) tok + tokens w.cb.toList tok := by
    rw [List.filterMap_append, tokens_append]
    cases hw : w.cb <;> simp [hw]
  unfold ensure
  split
  · exact (Nat.add_zero _).trans (asking_wake w tok)
  · dsimp only
    split
    · simp only [asking, callbacks, tokens_append, hall, List.map_nil]
      exact (Nat.add_assoc ..).symm
    · split
      · simp only [asking, callbacks, tokens_append, List.map_map, Function.comp_def, List.map_id',
          hall, List.filterMap_nil, List.append_nil]
        omega
      · simp only [asking, callbacks, tokens_append, List.map_map, Function.comp_def, List.map_id',
          hall, List.filterMap_nil, List.append_nil]
        omega
      · rw [asking_post, tokens_none rfl]
        simp only [asking, callbacks, spawn_pending, spawn_waiters, tokens_append, hall,
          List.map_nil]
        exact (Nat.add_assoc ..).symm

theorem asking_teardown (err : String) (tok : Token) :
    (c.teardown err).1.asking tok = 0 ∧
      tokens ((c.teardown err).2.map (·.1)) tok = c.asking tok := by
  refine ⟨rfl, ?_⟩
  simp only [teardown, List.map_map, Function.comp_def, List.map_id']
  rfl

/-- An answered request gives its callback back. -/
theorem asking_drop (hd : (c.pending.map (·.1)).Nodup) {id : ReqId} {cb : Cb}
    (hl : c.pending.lookup id = some cb) (tok : Token) :
    c.asking tok = (c.drop id).asking tok + tokens [cb] tok := by
  have hperm := perm_lookup hd hl
  have hcount : tokens (c.pending.map (·.2)) tok =
      tokens (cb :: (c.pending.filter (·.1 ≠ id)).map (·.2)) tok :=
    ((hperm.map Prod.snd).filterMap Cb.token).count_eq tok
  simp only [asking, callbacks, drop_pending, drop_waiters, tokens_append]
  rw [hcount, tokens_cons]
  omega

end Channel

namespace Session

/-! ### What client code does with them -/

def refused (s : Session V B) (tok : Token) : ℕ := (s.log.filterMap Note.refusal).count tok
def registered (s : Session V B) (tok : Token) : ℕ := (s.log.filterMap Note.registration).count tok
def invoked (s : Session V B) (tok : Token) : ℕ := (s.log.filterMap Note.invocation).count tok
def watching (s : Session V B) (tok : Token) : ℕ := (s.watchers.map (·.2)).count tok

variable {s s' s'' : Session V B}

/-- A callback that is called with an error changes no more than the log and a row's nodes. -/
theorem fail_keeps (s : Session V B) (p : Cb × String) :
    (s.fail p).chan = s.chan ∧ (s.fail p).watchers = s.watchers ∧
      (s.fail p).nextTok = s.nextTok ∧
      (∀ n : Note, n.refusal = none → (n ∈ (s.fail p).log ↔ n ∈ s.log)) ∧
      ∀ tok, (s.fail p).refused tok = s.refused tok + tokens [p.1] tok ∧
        (s.fail p).registered tok = s.registered tok ∧ (s.fail p).invoked tok = s.invoked tok := by
  obtain ⟨cb, err⟩ := p
  cases cb with
  | executed t name =>
    refine ⟨rfl, rfl, rfl, fun n hn => ?_, fun tok => ⟨count_token t tok _, rfl, rfl⟩⟩
    show n ∈ Note.refused t err :: s.log ↔ n ∈ s.log
    rw [List.mem_cons, or_iff_right]
    rintro rfl
    cases hn
  | _ => exact ⟨rfl, rfl, rfl, fun _ _ => Iff.rfl, fun tok => ⟨rfl, rfl, rfl⟩⟩

theorem fails_keeps (ps : List (Cb × String)) (s : Session V B) :
    (ps.foldl fail s).chan = s.chan ∧ (ps.foldl fail s).watchers = s.watchers ∧
      (ps.foldl fail s).nextTok = s.nextTok ∧
      (∀ n : Note, n.refusal = none → (n ∈ (ps.foldl fail s).log ↔ n ∈ s.log)) ∧
      ∀ tok, (ps.foldl fail s).refused tok = s.refused tok + tokens (ps.map (·.1)) tok ∧
        (ps.foldl fail s).registered tok = s.registered tok ∧
        (ps.foldl fail s).invoked tok = s.invoked tok := by
  induction ps generalizing s with
  | nil => exact ⟨rfl, rfl, rfl, fun _ _ => Iff.rfl, fun tok => ⟨rfl, rfl, rfl⟩⟩
  | cons p ps ih =>
    obtain ⟨hc, hw, hn, hl, ht⟩ := ih (s.fail p)
    obtain ⟨hc', hw', hn', hl', ht'⟩ := fail_keeps s p
    rw [List.foldl_cons]
    refine ⟨hc.trans hc', hw.trans hw', hn.trans hn', fun n hr => (hl n hr).trans (hl' n hr),
      fun tok => ⟨?_, ?_, ?_⟩⟩
    · rw [(ht tok).1, (ht' tok).1, List.map_cons, tokens_cons p.1 (ps.map (·.1))]
      exact Nat.add_assoc _ _ _
    · rw [(ht tok).2.1, (ht' tok).2.1]
    · rw [(ht tok).2.2, (ht' tok).2.2]

theorem ensure_chan (w : Waiter) : (s.ensure w).chan = (s.chan.ensure w).1 :=
  (fails_keeps (s.chan.ensure w).2 _).1

/-- Client code between two messages: it sends requests and touches its own tables, and no
`on_state` callback is registered, called or lost. -/
structure Acts (s s' : Session V B) : Prop where
  linked : s.chan.Linked → s'.chan.Linked
  here : s.chan.job = true → s'.chan.job = true ∧ s'.chan.seen = s.chan.seen
  watchers : s'.watchers = s.watchers
  nextTok : s'.nextTok = s.nextTok
  open_ : ∀ tok, s'.chan.asking tok + s'.refused tok = s.chan.asking tok + s.refused tok
  registered : ∀ tok, s'.registered tok = s.registered tok
  invoked : ∀ tok, s'.invoked tok = s.invoked tok
  notes : ∀ n : Note, n.refusal = none → (n ∈ s'.log ↔ n ∈ s.log)

theorem Acts.trans (h : s.Acts s') (h' : s'.Acts s'') : s.Acts s'' where
  linked hl := h'.linked (h.linked hl)
  here hj := ⟨(h'.here (h.here hj).1).1, (h'.here (h.here hj).1).2.trans (h.here hj).2⟩
  watchers := h'.watchers.trans h.watchers
  nextTok := h'.nextTok.trans h.nextTok
  open_ tok := (h'.open_ tok).trans (h.open_ tok)
  registered tok := (h'.registered tok).trans (h.registered tok)
  invoked tok := (h'.invoked tok).trans (h.invoked tok)
  notes n hn := (h'.notes n hn).trans (h.notes n hn)

/-- Code that touches neither the channel nor a callback. -/
theorem acts_local (hc : s'.chan = s.chan) (hw : s'.watchers = s.watchers)
    (hn : s'.nextTok = s.nextTok) (hl : s'.log = s.log) : s.Acts s' where
  linked h := hc ▸ h
  here hj := ⟨hc ▸ hj, by rw [hc]⟩
  watchers := hw
  nextTok := hn
  open_ tok := by rw [hc, refused, hl, refused]
  registered tok := by rw [registered, hl, registered]
  invoked tok := by rw [invoked, hl, invoked]
  notes n _ := by rw [hl]

theorem wakes_here (ws : List Waiter) (c : Channel V B) :
    (ws.foldl Channel.wake c).job = c.job ∧ (ws.foldl Channel.wake c).seen = c.seen := by
  induction ws generalizing c with
  | nil => exact ⟨rfl, rfl⟩
  | cons w ws ih =>
    rw [List.foldl_cons, (ih _).1, (ih _).2]
    cases w <;> exact ⟨rfl, rfl⟩

theorem ensure_here (w : Waiter) (hj : s.chan.job = true) :
    (s.chan.ensure w).1.job = true ∧ (s.chan.ensure w).1.seen = s.chan.seen := by
  unfold Channel.ensure
  split
  · cases w <;> exact ⟨hj, rfl⟩
  · rw [if_pos hj]
    exact ⟨hj, rfl⟩

theorem acts_ensure {w : Waiter} (hw : w.Fair) (ht : ∀ cb, w.cb = some cb → cb.token = none) :
    s.Acts (s.ensure w) := by
  obtain ⟨hc, hwatch, hnext, hnotes, hlog⟩ :=
    fails_keeps (s.chan.ensure w).2 { s with chan := (s.chan.ensure w).1 }
  refine ⟨fun h => ?_, fun hj => ?_, hwatch, hnext, fun tok => ?_, fun tok => (hlog tok).2.1,
    fun tok => (hlog tok).2.2, hnotes⟩
  · rw [ensure_chan]
    exact h.ensure hw
  · rw [ensure_chan]
    exact ensure_here w hj
  · have hask := Channel.asking_ensure (c := s.chan) w tok
    have hnone : tokens w.cb.toList tok = 0 := by
      cases hcb : w.cb with
      | none => rfl
      | some cb => exact tokens_none (ht cb hcb) tok
    have hrefused : (s.ensure w).refused tok =
        s.refused tok + tokens ((s.chan.ensure w).2.map (·.1)) tok := (hlog tok).1
    rw [ensure_chan, hrefused]
    omega

theorem acts_request {r : Request} {cb : Cb} (hr : cb.Awaits r) (ht : cb.token = none) :
    s.Acts (s.request r cb) :=
  acts_ensure hr fun _ h => by cases h; exact ht

theorem acts_fail {cb : Cb} (ht : cb.token = none) (err : String) : s.Acts (s.fail (cb, err)) := by
  cases cb with
  | executed => cases ht
  | _ => exact acts_local rfl rfl rfl rfl

theorem acts_connectSaved (name : String) {cb : Cb} (hr : ∀ spec, cb.Awaits (.connect spec))
    (ht : cb.token = none) : s.Acts (s.connectSaved name cb) := by
  unfold connectSaved
  split
  · exact acts_fail ht _
  · exact acts_request (hr _) ht

theorem acts_structureOf {row : RowId} {cb : Cb} (hcb : cb = .nodes row ∨ cb = .adopted row)
    (k : ConnId) : s.Acts (s.structureOf k cb) := by
  rcases hcb with rfl | rfl <;> exact acts_request ⟨k, rfl⟩ rfl

theorem acts_adopt (name : String) (k : ConnId) : s.Acts (s.adopt name k) := by
  unfold adopt
  split
  · exact acts_local rfl rfl rfl rfl
  · split
    · exact acts_local rfl rfl rfl rfl
    · next row _ _ _ =>
      have hset : s.Acts (s.setRow row { s.rows row with connId := some k }) :=
        acts_local rfl rfl rfl rfl
      exact hset.trans (acts_structureOf (.inr rfl) k)

theorem acts_loadSchema (row : RowId) : s.Acts (s.loadSchema row) := by
  unfold loadSchema
  split
  · exact acts_local rfl rfl rfl rfl
  · exact acts_connectSaved _ (fun spec => ⟨spec, rfl⟩) rfl

theorem acts_withConn (name statement : String) : s.Acts (s.withConn name statement) := by
  unfold withConn
  split
  · exact acts_local rfl rfl rfl rfl
  · exact acts_connectSaved _ (fun spec => ⟨spec, rfl⟩) rfl

theorem acts_disconnectRow (row : RowId) (k : ConnId) : s.Acts (s.disconnectRow row k) := by
  have hreq : s.Acts (s.request (.disconnect k) .ignored) := acts_request (.inl ⟨k, rfl⟩) rfl
  exact hreq.trans (acts_local rfl rfl rfl rfl)

theorem acts_deleteRow (row : RowId) : s.Acts (s.deleteRow row) := by
  unfold deleteRow
  split
  · next k _ =>
    have hreq : s.Acts (s.request (.disconnect k) .ignored) := acts_request (.inl ⟨k, rfl⟩) rfl
    exact hreq.trans (acts_local rfl rfl rfl rfl)
  · exact acts_local rfl rfl rfl rfl

theorem acts_greet (hj : s.chan.job = true) : s.Acts { s with chan := s.chan.greet } where
  linked h := h.greet hj
  here _ := by
    obtain ⟨hjob, hseen⟩ := wakes_here s.chan.waiters { s.chan with ready := true, waiters := [] }
    exact ⟨hjob.trans hj, hseen⟩
  watchers := rfl
  nextTok := rfl
  open_ tok := congrArg (· + s.refused tok) (Channel.asking_greet tok)
  registered _ := rfl
  invoked _ := rfl
  notes _ _ := Iff.rfl

/-- An answer to anything but an execute. -/
theorem Answered.acts {cb : Cb} {r : Except String (Reply V)} (h : s.Answered cb r s')
    (ht : cb.token = none) (hj : s.chan.job = true) : s.Acts s' := by
  cases h with
  | greeted p => exact acts_greet hj
  | failed cb e => exact acts_fail ht e
  | opened row k enc tun =>
    have hset : s.Acts (s.setRow row { s.rows row with
        connId := some k, encrypted := some enc, tunneled := some tun }) :=
      acts_local rfl rfl rfl rfl
    exact hset.trans (acts_structureOf (.inl rfl) k)
  | adopted name statement k =>
    exact (acts_adopt name k).trans (acts_local rfl rfl rfl rfl)
  | filled cb row payload => exact acts_local rfl rfl rfl rfl
  | called => cases ht
  | ignored => exact acts_local rfl rfl rfl rfl

/-! ### The invariant -/

structure Kept (s : Session V B) : Prop where
  linked : s.chan.Linked
  place : ∀ tok, s.chan.asking tok + s.refused tok + s.registered tok =
    if tok < s.nextTok then 1 else 0
  fate : ∀ tok, s.registered tok = s.watching tok + s.invoked tok
  keys : (s.watchers.map (·.1)).Nodup
  called : ∀ p ∈ s.watchers, ∃ id, .response id (.ok (.called p.1)) ∈ s.chan.seen
  waited : ∀ p ∈ s.watchers, ∀ n, .state p.1 n ∉ s.chan.seen
  known : ∀ p ∈ s.watchers, .registered p.2 p.1 ∈ s.log
  own : ∀ tok c n, .stated tok c n ∈ s.log → .registered tok c ∈ s.log
  down : s.chan.job = false → s.watchers = []

theorem kept_new : (new : Session V B).Kept where
  linked := Channel.linked_new
  place _ := rfl
  fate _ := rfl
  keys := List.nodup_nil
  called _ h := (List.not_mem_nil h).elim
  waited _ h := (List.not_mem_nil h).elim
  known _ h := (List.not_mem_nil h).elim
  own _ _ _ h := (List.not_mem_nil h).elim
  down _ := rfl

theorem Kept.up (h : s.Kept) {p : CallId × Token} (hp : p ∈ s.watchers) : s.chan.job = true := by
  cases hj : s.chan.job with
  | true => rfl
  | false =>
    rw [h.down hj] at hp
    cases hp

theorem Kept.acts (h : s.Kept) (ha : s.Acts s') : s'.Kept := by
  have hseen : ∀ p ∈ s'.watchers, s'.chan.seen = s.chan.seen := fun p hp =>
    (ha.here (h.up (ha.watchers ▸ hp))).2
  refine ⟨ha.linked h.linked, fun tok => ?_, fun tok => ?_, ?_, fun p hp => ?_, fun p hp => ?_,
    fun p hp => ?_, fun tok c n hn => ?_, fun hj => ?_⟩
  · rw [ha.open_, ha.registered, ha.nextTok]
    exact h.place tok
  · rw [ha.registered, ha.invoked, watching, ha.watchers]
    exact h.fate tok
  · rw [ha.watchers]
    exact h.keys
  · rw [hseen p hp]
    exact h.called p (ha.watchers ▸ hp)
  · rw [hseen p hp]
    exact h.waited p (ha.watchers ▸ hp)
  · exact (ha.notes _ rfl).mpr (h.known p (ha.watchers ▸ hp))
  · exact (ha.notes _ rfl).mpr (h.own tok c n ((ha.notes _ rfl).mp hn))
  · rw [ha.watchers]
    cases hj' : s.chan.job with
    | false => exact h.down hj'
    | true =>
      rw [(ha.here hj').1] at hj
      cases hj

/-- A step of the channel that loses no request and shows the client nothing. -/
theorem Kept.chan (h : s.Kept) {c : Channel V B} (hl : c.Linked)
    (hp : c.pending = s.chan.pending) (hw : c.waiters = s.chan.waiters)
    (hj : c.job = s.chan.job) (hseen : c.seen = s.chan.seen) : ({ s with chan := c } : Session V B).Kept := by
  refine h.acts ⟨fun _ => hl, fun hj' => ⟨hj.trans hj', hseen⟩, rfl, rfl, fun tok => ?_,
    fun _ => rfl, fun _ => rfl, fun _ _ => Iff.rfl⟩
  show c.asking tok + s.refused tok = s.chan.asking tok + s.refused tok
  rw [Channel.asking, Channel.callbacks, hp, hw]
  rfl

/-- The client has read a line that is no state of a call it watches. -/
theorem Kept.read (h : s.Kept) {l : Line V} {c : Channel V B} (hr : s.chan.read = some (l, c))
    (hl : ∀ p ∈ s.watchers, ∀ n, l ≠ .state p.1 n) : ({ s with chan := c } : Session V B).Kept := by
  have hlinked := h.linked.read hr
  unfold Channel.read at hr
  split at hr
  · cases hr
  · cases hr
    refine ⟨hlinked, h.place, h.fate, h.keys, fun p hp => ?_, fun p hp n hmem => ?_, h.known,
      h.own, h.down⟩
    · exact (h.called p hp).imp fun _ hm => List.mem_append_left _ hm
    · rcases List.mem_append.mp hmem with hm | hm
      · exact h.waited p hp n hm
      · exact hl p hp n (List.mem_singleton.mp hm).symm

theorem read_seen {c c' : Channel V B} {l : Line V} (hr : c.read = some (l, c')) :
    c'.seen = c.seen ++ [l] ∧ ∃ out, c.server.out = l :: out ∧ c'.server.out = out := by
  unfold Channel.read at hr
  split at hr
  · cases hr
  · next out ho =>
    cases hr
    exact ⟨rfl, _, ho, rfl⟩

/-- A request other than an execute has been answered. -/
theorem Kept.drop (h : s.Kept) {id : ReqId} {cb : Cb} (hl : s.chan.pending.lookup id = some cb)
    (ht : cb.token = none) : ({ s with chan := s.chan.drop id } : Session V B).Kept := by
  refine ⟨h.linked.drop id, fun tok => ?_, h.fate, h.keys, h.called, h.waited, h.known, h.own,
    h.down⟩
  have hdrop := Channel.asking_drop h.linked.distinct hl tok
  rw [tokens_none ht] at hdrop
  show (s.chan.drop id).asking tok + s.refused tok + s.registered tok = _
  rw [← h.place tok, hdrop]
  rfl

/-- An execute has been answered with an error. -/
theorem Kept.refuse (h : s.Kept) {id : ReqId} {tok : Token} {name : Option String}
    (hl : s.chan.pending.lookup id = some (.executed tok name)) (e : String) :
    (({ s with chan := s.chan.drop id } : Session V B).tell (.refused tok e)).Kept := by
  refine ⟨h.linked.drop id, fun t => ?_, h.fate, h.keys, h.called, h.waited,
    fun p hp => List.mem_cons_of_mem _ (h.known p hp), fun t c n hn => ?_, h.down⟩
  · have hdrop := Channel.asking_drop h.linked.distinct hl t
    have hone : tokens [Cb.executed tok name] t = ([tok] : List Token).count t := rfl
    have hplace := h.place t
    show (s.chan.drop id).asking t + (tok :: s.log.filterMap Note.refusal).count t +
      s.registered t = if t < s.nextTok then 1 else 0
    rw [count_token]
    show (s.chan.drop id).asking t + (s.refused t + _) + s.registered t =
      if t < s.nextTok then 1 else 0
    omega
  · rcases List.mem_cons.mp hn with hn | hn
    · cases hn
    · exact List.mem_cons_of_mem _ (h.own t c n hn)

/-- An execute has been answered with the number of its call, which was not watched for. -/
theorem Kept.register (h : s.Kept) {id : ReqId} {tok : Token} {name : Option String} {c : CallId}
    (hl : s.chan.pending.lookup id = some (.executed tok name))
    (hnew : ∀ p ∈ s.watchers, p.1 ≠ c) (hj : s.chan.job = true)
    (hcalled : ∃ id, .response id (.ok (.called c)) ∈ s.chan.seen)
    (hwaited : ∀ n, .state c n ∉ s.chan.seen) :
    (({ s with chan := s.chan.drop id, watchers := (c, tok) :: s.watchers.filter (·.1 ≠ c) } :
      Session V B).tell (.registered tok c)).Kept := by
  have hfilter : s.watchers.filter (·.1 ≠ c) = s.watchers :=
    List.filter_eq_self.mpr fun p hp => decide_eq_true (hnew p hp)
  rw [hfilter]
  have hregistered : ∀ t, (tok :: s.log.filterMap Note.registration).count t =
      s.registered t + ([tok] : List Token).count t :=
    fun t => count_token tok t _
  refine ⟨h.linked.drop id, fun t => ?_, fun t => ?_, ?_, fun p hp => ?_, fun p hp n => ?_,
    fun p hp => ?_, fun t c' n hn => ?_, fun hj' => ?_⟩
  · have hdrop := Channel.asking_drop h.linked.distinct hl t
    have hone : tokens [Cb.executed tok name] t = ([tok] : List Token).count t := rfl
    have hplace := h.place t
    show (s.chan.drop id).asking t + s.refused t + (tok :: s.log.filterMap Note.registration).count t =
      if t < s.nextTok then 1 else 0
    rw [hregistered]
    omega
  · have hfate := h.fate t
    show (tok :: s.log.filterMap Note.registration).count t =
      (tok :: s.watchers.map (·.2)).count t + s.invoked t
    rw [hregistered, count_token tok t (s.watchers.map _)]
    rw [watching] at hfate
    omega
  · rw [tell_watchers, List.map_cons, List.nodup_cons]
    refine ⟨fun hm => ?_, h.keys⟩
    obtain ⟨p, hp, hpc⟩ := List.mem_map.mp hm
    exact hnew p hp hpc
  · rcases List.mem_cons.mp hp with rfl | hp
    · exact hcalled
    · exact h.called p hp
  · rcases List.mem_cons.mp hp with rfl | hp
    · exact hwaited n
    · exact h.waited p hp n
  · rcases List.mem_cons.mp hp with rfl | hp
    · exact List.mem_cons_self
    · exact List.mem_cons_of_mem _ (h.known p hp)
  · rcases List.mem_cons.mp hn with hn | hn
    · cases hn
    · exact List.mem_cons_of_mem _ (h.own t c' n hn)
  · rw [show s.chan.job = false from hj'] at hj
    cases hj

/-- The state of a call has been read. -/
theorem Kept.route (h : s.Kept) {c : CallId} {n : StateNote} {chan : Channel V B}
    (hr : s.chan.read = some (.state c n, chan)) :
    (({ s with chan } : Session V B).route c n).Kept := by
  unfold Session.route
  split
  · next hl =>
    refine h.read hr fun p hp n' he => ?_
    cases he
    have hnone := (List.lookup_eq_none_iff.mp hl) p hp
    simp at hnone
  · next tok hl =>
    have hperm := perm_lookup h.keys hl
    have hlinked := h.linked.read hr
    have hsub : ∀ p ∈ s.watchers.filter (·.1 ≠ c), p ∈ s.watchers ∧ p.1 ≠ c := fun p hp =>
      ⟨(List.mem_filter.mp hp).1, of_decide_eq_true (List.mem_filter.mp hp).2⟩
    have hwatch : ∀ t, s.watching t =
        ((s.watchers.filter (·.1 ≠ c)).map (·.2)).count t + ([tok] : List Token).count t := by
      intro t
      have hcount : s.watching t = (tok :: (s.watchers.filter (·.1 ≠ c)).map (·.2)).count t :=
        (hperm.map Prod.snd).count_eq t
      rw [hcount, count_token]
    have hinvoked : ∀ t, (tok :: s.log.filterMap Note.invocation).count t =
        s.invoked t + ([tok] : List Token).count t :=
      fun t => count_token tok t _
    have hsame : chan.pending = s.chan.pending ∧ chan.waiters = s.chan.waiters ∧
        chan.job = s.chan.job := by
      unfold Channel.read at hr
      split at hr
      · cases hr
      · cases hr
        exact ⟨rfl, rfl, rfl⟩
    obtain ⟨hseen, -⟩ := read_seen hr
    refine ⟨hlinked, fun t => ?_, fun t => ?_, ?_, fun p hp => ?_, fun p hp m => ?_,
      fun p hp => List.mem_cons_of_mem _ (h.known p (hsub p hp).1), fun t c' m hm => ?_,
      fun hj => ?_⟩
    · have hplace := h.place t
      show chan.asking t + s.refused t + s.registered t = if t < s.nextTok then 1 else 0
      rwa [Channel.asking, Channel.callbacks, hsame.1, hsame.2.1]
    · have hfate := h.fate t
      show s.registered t = ((s.watchers.filter (·.1 ≠ c)).map (·.2)).count t +
        (tok :: s.log.filterMap Note.invocation).count t
      rw [hinvoked]
      rw [hwatch] at hfate
      omega
    · exact (List.filter_sublist.map _).nodup h.keys
    · obtain ⟨hp, -⟩ := hsub p hp
      show ∃ id, _ ∈ chan.seen
      rw [hseen]
      exact (h.called p hp).imp fun _ hm => List.mem_append_left _ hm
    · obtain ⟨hp, hne⟩ := hsub p hp
      show _ ∉ chan.seen
      rw [hseen]
      intro hm
      rcases List.mem_append.mp hm with hm | hm
      · exact h.waited p hp m hm
      · rw [List.mem_singleton, Line.state.injEq] at hm
        exact hne hm.1
    · rcases List.mem_cons.mp hm with hm | hm
      · rw [Note.stated.injEq] at hm
        obtain ⟨rfl, rfl, -⟩ := hm
        refine List.mem_cons_of_mem _ (h.known (_, _) ?_)
        exact hperm.mem_iff.mpr List.mem_cons_self
      · exact List.mem_cons_of_mem _ (h.own t c' m hm)
    · have hnil := h.down (hsame.2.2 ▸ hj)
      show s.watchers.filter (·.1 ≠ c) = []
      rw [hnil]
      rfl

/-! ### Steps -/

/-- Nothing of a call was read before the answer with its number. -/
theorem first_of_call {c : Channel V B} (h : c.Linked) {id : ReqId} {k : CallId}
    {out : List (Line V)} (ho : c.server.out = .response id (.ok (.called k)) :: out) :
    (∀ id', .response id' (.ok (.called k)) ∉ c.seen) ∧ ∀ n, .state k n ∉ c.seen := by
  obtain ⟨lost, hlines, -⟩ := h.lines
  have hsplit : linesOf c.server.hist =
      c.seen ++ .response id (.ok (.called k)) :: (out ++ lost) := by
    rw [← hlines, ho]
    simp
  have honce := h.spoken.number_once hsplit
  refine ⟨honce, fun n hn => ?_⟩
  obtain ⟨pre, post, hseen⟩ := List.append_of_mem hn
  obtain ⟨id', hid'⟩ := h.spoken.number_before_state
    (show linesOf c.server.hist =
      pre ++ .state k n :: (post ++ .response id (.ok (.called k)) :: (out ++ lost)) by
        rw [hsplit, hseen]
        simp)
  refine honce id' ?_
  rw [hseen]
  exact List.mem_append_left _ hid'

theorem Kept.deliver [BsonCells V B] {bld : Build} (h : s.Kept)
    (hst : s.step bld .deliver = some s') : s'.Kept := by
  obtain ⟨⟨l, c⟩, hr, hm⟩ := Option.bind_eq_some_iff.mp hst
  obtain ⟨hseen, out, ho, -⟩ := read_seen hr
  cases l with
  | response id r =>
    have h₁ := h.read hr fun _ _ _ he => by cases he
    have hpending : c.pending = s.chan.pending := by
      simp only [Channel.read, ho, Option.some.injEq, Prod.mk.injEq] at hr
      rw [← hr.2]
    simp only [onMessage] at hm
    split at hm
    · cases hm
      exact h₁
    · next cb hl =>
      have hj : c.job = true := by
        cases hj : c.job with
        | true => rfl
        | false =>
          rw [(h₁.linked.idle hj).1] at hl
          cases hl
      have hans := answer_cases hm
      cases ht : cb.token with
      | none => exact (h₁.drop hl ht).acts (hans.acts ht hj)
      | some tok =>
        cases hans with
        | failed cb e =>
          cases cb with
          | executed tok' name => exact h₁.refuse hl e
          | _ => cases ht
        | called tok' name k =>
          obtain ⟨hnew, hwaited⟩ := first_of_call h.linked ho
          refine h₁.register hl (fun p hp hpk => ?_) hj ⟨id, ?_⟩ fun n hn => ?_
          · obtain ⟨id', hid'⟩ := h.called p hp
            exact hnew id' (hpk ▸ hid')
          · show _ ∈ c.seen
            rw [hseen]
            exact List.mem_append_right _ (List.mem_singleton_self _)
          · change _ ∈ c.seen at hn
            rw [hseen] at hn
            rcases List.mem_append.mp hn with hn | hn
            · exact hwaited n hn
            · cases List.mem_singleton.mp hn
        | filled cb row payload hcb => rcases hcb with rfl | rfl <;> cases ht
        | _ => cases ht
  | state k n =>
    cases hm
    exact h.route hr
  | log level message =>
    cases hm
    exact h.read hr fun _ _ _ he => by cases he

theorem Kept.teardown (h : s.Kept) (err : String) : (s.teardown err).Kept := by
  obtain ⟨hc, hwatch, hnext, hnotes, hlog⟩ :=
    fails_keeps (s.chan.teardown err).2 { s with chan := (s.chan.teardown err).1 }
  have hchan : (s.teardown err).chan = (s.chan.teardown err).1 := hc
  have hlogs : ∀ (f : Note → Option Token) tok, ((s.teardown err).log.filterMap f).count tok =
      ((s.watchers.map (.torn ·.2)).filterMap f).count tok +
        (((s.chan.teardown err).2.foldl fail
          { s with chan := (s.chan.teardown err).1 }).log.filterMap f).count tok := by
    intro f tok
    simp only [Session.teardown, List.filterMap_append, List.count_append,
      List.filterMap_reverse, List.count_reverse]
  have hnone : ∀ (f : Note → Option Token) tok, (∀ t, f (.torn t) = none) →
      ((s.watchers.map (Note.torn ·.2)).filterMap f).count tok = 0 := by
    intro f tok hf
    rw [List.filterMap_map, List.filterMap_eq_nil_iff.mpr fun p _ => hf p.2]
    rfl
  have hall : ∀ tok, ((s.watchers.map (Note.torn ·.2)).filterMap Note.invocation).count tok =
      s.watching tok := by
    intro tok
    have hsome : (Note.invocation ∘ fun p : CallId × Token => Note.torn p.2) = some ∘ Prod.snd :=
      rfl
    rw [List.filterMap_map, hsome, List.filterMap_eq_map]
    rfl
  obtain hask := fun tok => Channel.asking_teardown (c := s.chan) err tok
  refine ⟨hchan ▸ h.linked.teardown err, fun tok => ?_, fun tok => ?_, List.nodup_nil,
    fun _ hp => (List.not_mem_nil hp).elim, fun _ hp => (List.not_mem_nil hp).elim,
    fun _ hp => (List.not_mem_nil hp).elim, fun tok c n hn => ?_, fun _ => rfl⟩
  · have hplace := h.place tok
    have hnext' : (s.teardown err).nextTok = s.nextTok := hnext
    rw [hchan, hnext', (hask tok).1, refused, registered, hlogs, hlogs,
      hnone Note.refusal tok (fun _ => rfl), hnone Note.registration tok (fun _ => rfl)]
    have h1 := (hlog tok).1
    have h2 := (hlog tok).2.1
    rw [(hask tok).2] at h1
    simp only [refused, registered] at h1 h2 hplace
    omega
  · have hfate := h.fate tok
    rw [registered, invoked, hlogs, hlogs, hnone Note.registration tok (fun _ => rfl), hall]
    have h2 := (hlog tok).2.1
    have h3 := (hlog tok).2.2
    simp only [registered, invoked] at h2 h3 hfate
    show _ = 0 + _
    omega
  · rcases List.mem_append.mp hn with hn | hn
    · obtain ⟨p, -, hp⟩ := List.mem_map.mp (List.mem_reverse.mp hn)
      cases hp
    · have hold := h.own tok c n ((hnotes _ rfl).mp hn)
      exact List.mem_append_right _ ((hnotes _ rfl).mpr hold)

/-- A new callback goes out with its request. -/
theorem Kept.execute (h : s.Kept) (k : ConnId) (statement : String) (name : Option String) :
    (s.execute k statement name).Kept := by
  let w : Waiter := .request (.execute k statement) (.executed s.nextTok name)
  obtain ⟨hc, hwatch, hnext, hnotes, hlog⟩ := fails_keeps (s.chan.ensure w).2
    { s with chan := (s.chan.ensure w).1, nextTok := s.nextTok + 1 }
  have hchan : (s.execute k statement name).chan = (s.chan.ensure w).1 := hc
  have hwatch' : (s.execute k statement name).watchers = s.watchers := hwatch
  have hregistered : ∀ tok, (s.execute k statement name).registered tok = s.registered tok :=
    fun tok => (hlog tok).2.1
  have hinvoked : ∀ tok, (s.execute k statement name).invoked tok = s.invoked tok :=
    fun tok => (hlog tok).2.2
  have hw : w.Fair := ⟨k, statement, rfl⟩
  refine ⟨hchan ▸ h.linked.ensure hw, fun tok => ?_, fun tok => ?_, hwatch' ▸ h.keys,
    fun p hp => ?_, fun p hp => ?_, fun p hp => (hnotes _ rfl).mpr (h.known p (hwatch' ▸ hp)),
    fun tok c n hn => (hnotes _ rfl).mpr (h.own tok c n ((hnotes _ rfl).mp hn)), fun hj => ?_⟩
  · have hplace := h.place tok
    have hask := Channel.asking_ensure (c := s.chan) w tok
    have hrefused : (s.execute k statement name).refused tok =
        s.refused tok + tokens ((s.chan.ensure w).2.map (·.1)) tok := (hlog tok).1
    have hnext' : (s.execute k statement name).nextTok = s.nextTok + 1 := hnext
    have hcount : tokens w.cb.toList tok = ([s.nextTok] : List Token).count tok := rfl
    rw [hchan, hrefused, hregistered, hnext']
    by_cases ht : tok = s.nextTok
    · subst ht
      rw [List.count_singleton_self] at hcount
      rw [if_neg (Nat.lt_irrefl _)] at hplace
      rw [if_pos (Nat.lt_succ_self _)]
      omega
    · have hzero : ([s.nextTok] : List Token).count tok = 0 :=
        List.count_eq_zero.mpr fun hm => ht (List.mem_singleton.mp hm)
      have hlt : tok < s.nextTok + 1 ↔ tok < s.nextTok :=
        ⟨fun hle => Nat.lt_of_le_of_ne (Nat.le_of_lt_succ hle) ht, Nat.lt_succ_of_lt⟩
      rw [if_congr hlt rfl rfl, ← hplace]
      omega
  · rw [hregistered, hinvoked, watching, hwatch']
    exact h.fate tok
  · have hp' : p ∈ s.watchers := hwatch' ▸ hp
    rw [hchan, (ensure_here w (h.up hp')).2]
    exact h.called p hp'
  · have hp' : p ∈ s.watchers := hwatch' ▸ hp
    rw [hchan, (ensure_here w (h.up hp')).2]
    exact h.waited p hp'
  · rw [hwatch']
    cases hj' : s.chan.job with
    | false => exact h.down hj'
    | true =>
      rw [hchan, (ensure_here w hj').1] at hj
      cases hj

variable {bld : Build} [BsonCells V B]

theorem Kept.step (h : s.Kept) {i : Input V B} (hst : s.step bld i = some s') : s'.Kept := by
  cases i with
  | save name spec => cases hst; exact h.acts (acts_local rfl rfl rfl rfl)
  | load => cases hst; exact h.acts (acts_local rfl rfl rfl rfl)
  | dropRun j => cases hst; exact h.acts (acts_local rfl rfl rfl rfl)
  | run name statement => cases hst; exact h.acts (acts_withConn name statement)
  | ensure => cases hst; exact h.acts (acts_ensure trivial fun _ hcb => by cases hcb)
  | execute k statement => cases hst; exact h.execute k statement none
  | openSchema name =>
    obtain ⟨row, -, rfl⟩ := Option.map_eq_some_iff.mp hst
    exact h.acts (acts_loadSchema row)
  | browse name statement =>
    obtain ⟨k, -, rfl⟩ := Option.map_eq_some_iff.mp hst
    exact h.acts (acts_local rfl rfl rfl rfl)
  | sendRun j =>
    obtain ⟨run, -, rfl⟩ := Option.map_eq_some_iff.mp hst
    have hdrop : ({ s with runs := s.runs.eraseIdx j } : Session V B).Kept :=
      h.acts (acts_local rfl rfl rfl rfl)
    exact hdrop.execute _ _ _
  | disconnect name =>
    obtain ⟨row, -, hst⟩ := Option.bind_eq_some_iff.mp hst
    obtain ⟨k, -, rfl⟩ := Option.map_eq_some_iff.mp hst
    exact h.acts (acts_disconnectRow row k)
  | delete name =>
    obtain ⟨row, -, rfl⟩ := Option.map_eq_some_iff.mp hst
    exact h.acts (acts_deleteRow row)
  | api request =>
    simp only [Session.step, Option.ite_none_right_eq_some] at hst
    obtain ⟨hapi, hst⟩ := hst
    cases hst
    exact h.acts (acts_request (.inr hapi) rfl)
  | setLaunch launch =>
    cases hst
    have hl := h.linked
    exact h.chan ⟨hl.fresh, hl.awaits, hl.pending, hl.distinct, hl.wire, hl.waiting, hl.owed,
      hl.spoken, hl.lines, hl.idle, hl.numbered⟩ rfl rfl rfl rfl
  | receive =>
    obtain ⟨c, hc, rfl⟩ := Option.map_eq_some_iff.mp hst
    have hl := h.linked.receive hc
    unfold Channel.receive at hc
    split at hc
    · cases hc
    · rw [Option.ite_none_right_eq_some] at hc
      obtain ⟨-, hc⟩ := hc
      cases hc
      exact h.chan hl rfl rfl rfl rfl
  | engine j =>
    obtain ⟨c, hc, rfl⟩ := Option.map_eq_some_iff.mp hst
    have hl := h.linked.engine hc
    cases j with
    | arrive => cases hc
    | _ =>
      simp only [Channel.engine, Option.ite_none_right_eq_some, Option.map_eq_some_iff] at hc
      obtain ⟨-, server, -, rfl⟩ := hc
      exact h.chan hl rfl rfl rfl rfl
  | deliver => exact h.deliver hst
  | die n =>
    obtain ⟨c, hc, rfl⟩ := Option.map_eq_some_iff.mp hst
    have hl := h.linked.die hc
    unfold Channel.die at hc
    rw [Option.ite_none_right_eq_some] at hc
    obtain ⟨-, hc⟩ := hc
    cases hc
    exact h.chan hl rfl rfl rfl rfl
  | exited =>
    simp only [Session.step, Option.ite_none_right_eq_some] at hst
    obtain ⟨-, hst⟩ := hst
    cases hst
    exact h.teardown _

theorem run_kept {is : List (Input V B)} (h : (machine bld).Run Lib.Machine.free s is s')
    (hs : s.Kept) : s'.Kept :=
  h.invariant Kept (fun _ _ _ _ hi hst => hi.step hst) hs

/-! ### At rest -/

/-- Neither the engine nor the client has anything left to do. -/
def Quiet (bld : Build) (s : Session V B) : Prop :=
  ∀ i : Input V B, i.isInternal = true → s.step bld i = none

theorem Kept.deliver_some (h : s.Kept) {l : Line V} {out : List (Line V)}
    (ho : s.chan.server.out = l :: out) : ∃ s', s.step bld .deliver = some s' := by
  simp only [Session.step, Channel.read, ho, Option.bind_some]
  cases l with
  | state | log => exact ⟨_, rfl⟩
  | response id r =>
    simp only [onMessage]
    split
    · exact ⟨_, rfl⟩
    · next cb hl =>
      have hmem : (id, cb) ∈ s.chan.pending := by
        obtain ⟨l₁, l₂, hp, -⟩ := List.lookup_eq_some_iff.mp hl
        have hp' : s.chan.pending = l₁ ++ (id, cb) :: l₂ := hp
        rw [hp']
        exact List.mem_append_right _ List.mem_cons_self
      obtain ⟨_, -, -, hexp⟩ := h.linked.expects ho hmem
      exact answer_some _ hexp

/-- At rest nobody is watched for: a watched call would have had its state written, or its
process would have been seen to exit. -/
theorem Kept.quiet (h : s.Kept) (hq : s.Quiet bld) : s.watchers = [] := by
  have hout : s.chan.server.out = [] := by
    cases ho : s.chan.server.out with
    | nil => rfl
    | cons l out =>
      obtain ⟨s', hs'⟩ : ∃ s', s.step bld .deliver = some s' := h.deliver_some ho
      rw [hq .deliver rfl] at hs'
      cases hs'
  cases hw : s.watchers with
  | nil => rfl
  | cons p ps =>
    have hp : p ∈ s.watchers := by
      rw [hw]
      exact List.mem_cons_self
    have hj := h.up hp
    obtain ⟨id, hid⟩ := h.called p hp
    cases ha : s.chan.alive with
    | false =>
      have hexit := hq .exited rfl
      simp [Session.step, Channel.isOver, hj, ha, hout] at hexit
    | true =>
      obtain ⟨lost, hlines, hlost⟩ := h.linked.lines
      rw [hlost ha, hout, List.append_nil, List.append_nil] at hlines
      have hidle : ¬ s.chan.server.Busy bld := by
        rintro (⟨t, e, server, hst⟩ | ⟨c, e, server, hst⟩)
        · have hnone := hq (.engine (.handler t e)) rfl
          simp [Session.step, onChannel, Channel.engine, ha, Server.step, hst] at hnone
        · have hnone := hq (.engine (.worker c e)) rfl
          simp [Session.step, onChannel, Channel.engine, ha, Server.step, hst] at hnone
      rw [hlines] at hid
      obtain ⟨n, hn⟩ := h.linked.spoken.state_written hidle hid
      rw [← hlines] at hn
      exact absurd hn (h.waited p hp n)

/-- Every `query.state` comes after the answer with its call's number. Every `on_state` callback
is with an unanswered request, refused or registered, once; it is called once at most, for the
call it was registered for, and once exactly when everything has come to rest. -/
structure Outcomes (bld : Build) (s : Session V B) : Prop where
  order : ∀ pre c n post, s.chan.seen ++ s.chan.server.out = pre ++ .state c n :: post →
    ∃ id, .response id (.ok (.called c)) ∈ pre
  placed : ∀ tok, tok < s.nextTok → s.chan.asking tok + s.refused tok + s.registered tok = 1
  once : ∀ tok, s.invoked tok ≤ s.registered tok ∧ s.registered tok ≤ 1
  own : ∀ tok c n, .stated tok c n ∈ s.log → .registered tok c ∈ s.log
  settled : s.Quiet bld → ∀ tok, s.invoked tok = s.registered tok

theorem execute_outcomes {is : List (Input V B)}
    (h : (machine bld).Run Lib.Machine.free new is s) : s.Outcomes bld := by
  have hk := run_kept h kept_new
  refine ⟨fun pre c n post hl => ?_, fun tok ht => ?_, fun tok => ⟨?_, ?_⟩, hk.own, fun hq tok => ?_⟩
  · obtain ⟨lost, hlines, -⟩ := hk.linked.lines
    have hsplit : linesOf s.chan.server.hist = pre ++ .state c n :: (post ++ lost) := by
      rw [← hlines, hl, List.append_assoc, List.cons_append]
    exact hk.linked.spoken.number_before_state hsplit
  · rw [hk.place tok, if_pos ht]
  · rw [hk.fate tok]
    exact Nat.le_add_left _ _
  · have hplace := hk.place tok
    split at hplace <;> omega
  · rw [hk.fate tok, watching, hk.quiet hq]
    exact (Nat.zero_add _).symm

/-- One saved connection, and one statement run on it to its end. -/
def oneStatement : List (Input ℕ ℕ) :=
  [.save "a" ⟨"mongodb", []⟩, .load, .run "a" "find", .receive] ++
    List.replicate 2 (.engine (.handler 0 {})) ++ [.deliver, .receive] ++
    List.replicate 5 (.engine (.handler 1 { dial := .ok (true, false) })) ++
    [.deliver, .sendRun 0, .receive, .receive] ++ List.replicate 2 (.engine (.handler 3 {})) ++
    List.replicate 9 (.engine (.worker 1 {})) ++ [.deliver, .deliver]

theorem execute_outcomes_one_statement :
    ∃ s, (machine .checked).exec new oneStatement = some s ∧ s.registered 0 = 1 ∧
      s.invoked 0 = 1 ∧ s.Outcomes .checked := by
  obtain ⟨s, hs, hr⟩ := (machine .checked).exists_run new oneStatement rfl
  have hcounts : ((machine .checked).exec new oneStatement).map
      (fun s => (s.registered 0, s.invoked 0)) = some (1, 1) := rfl
  rw [hs, Option.map_some, Option.some.injEq, Prod.mk.injEq] at hcounts
  exact ⟨s, hs, hcounts.1, hcounts.2, execute_outcomes hr⟩

end Session
end LvimDb.Client
