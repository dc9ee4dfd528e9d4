import LvimDb.Result.Callbacks
import LvimDb.Result.Tickets

/-!
# What an `on_done` tells its caller

Whatever the engine answers, a question is run at most once, before its `on_done` is called
with true, and never after a call; and `on_done` is called once at most.
-/

namespace LvimDb.Result
open Engine (ConnId CallId CallStatus)
open Lib (Justified)

variable {V : Type}

/-- The `on_done` of a run. -/
def Event.runs : Event V → Option ℕ
  | .ran _ _ _ done => done
  | _ => none

/-- The `on_done` of a run that a callback or a closure goes on with. -/
def Cont.started : Cont V → Option ℕ
  | .run _ _ _ done | .watch _ _ done => done
  | _ => none

def Task.started : Task V → Option ℕ
  | .failed done | .landed _ done => done
  | _ => none

def Reports (pre : List (Event V)) : Event V → Prop
  | .asked n _ => ∀ a, .asked n a ∉ pre
  | .ran why _ q (some n) => (∃ judged, why = .user n judged) ∧ .asked n q.ask ∈ pre ∧
      (∀ e ∈ pre, e.serves ≠ some n) ∧ ∀ ok, .finished n ok ∉ pre
  | .finished n ok => (∃ a, .asked n a ∈ pre) ∧ (∀ ok', .finished n ok' ∉ pre) ∧
      (ok = true → ∃ e ∈ pre, e.runs = some n)
  | _ => True

namespace Dock
variable (env : Env V) (s : Dock V)

/-- The statement of `n` has been sent. -/
def Sent (n : ℕ) : Prop := ∃ e ∈ s.hist, e.runs = some n

/-- What goes on with a run was sent. -/
structure Started : Prop where
  waiting : ∀ c ∈ s.waiting, ∀ n, c.started = some n → s.Sent n
  queued : ∀ k ∈ s.queue, ∀ n, k.started = some n → s.Sent n

structure Reporting : Prop where
  tickets : s.Ticketed
  owed : s.Owed false none
  started : s.Started
  hist : Justified Reports s.hist

variable {env s}

/-! ### What was sent -/

theorem Sent.tell {n : ℕ} (h : s.Sent n) (e : Event V) : (s.tell e).Sent n :=
  h.imp fun _ he => ⟨List.mem_cons_of_mem _ he.1, he.2⟩

/-- What was sent stays sent. -/
theorem keeps_sent (n : ℕ) : Keeps every (Sent (V := V) · n) where
  plain := by decide
  face := fun _ h => h
  pend := fun _ h => h
  tell := fun _ h => h.tell _
  wait := fun _ h => h
  later := fun _ h => h
  next := fun _ h => h
  source := fun _ h => h
  amend := fun _ h => h
  addEntry := fun h => h
  data := fun _ h => h
  page := fun _ h => h
  count := fun _ _ h => h
  register := fun _ _ h => h
  bind := fun _ h => h

theorem started_new : (new : Dock V).Started :=
  ⟨fun _ h => (List.not_mem_nil h).elim, fun _ h => (List.not_mem_nil h).elim⟩

theorem Started.tell (h : s.Started) (e : Event V) : (s.tell e).Started :=
  ⟨fun c hc n hn => (h.waiting c hc n hn).tell e, fun k hk n hn => (h.queued k hk n hn).tell e⟩

theorem Started.wait {c : Cont V} (h : s.Started) (hc : ∀ n, c.started = some n → s.Sent n) :
    (s.wait c).Started where
  waiting := fun c' hm n hn => by
    rcases List.mem_append.mp hm with hm | hm
    · exact h.waiting c' hm n hn
    · cases List.mem_singleton.mp hm
      exact hc n hn
  queued := h.queued

theorem Started.later {k : Task V} (h : s.Started) (hk : ∀ n, k.started = some n → s.Sent n) :
    (s.later k).Started where
  waiting := h.waiting
  queued := fun k' hm n hn => by
    rcases List.mem_append.mp hm with hm | hm
    · exact h.queued k' hm n hn
    · cases List.mem_singleton.mp hm
      exact hk n hn

theorem keeps_started (V : Type) : Keeps undone (Started : Dock V → Prop) where
  plain := by decide
  face := fun _ h => ⟨h.waiting, h.queued⟩
  pend := fun _ h => ⟨h.waiting, h.queued⟩
  tell := fun _ h => h.tell _
  wait := fun {s c} hc h => h.wait fun n hn => by
    have hno : c.done = none := cont_no_done hc
    cases c with
    | run | watch =>
      cases hno.symm.trans hn
    | _ => cases hn
  later := fun {s k} hk h => h.later fun n hn => by
    have hno : k.done = none := task_no_done hk
    cases k with
    | failed | landed =>
      cases hno.symm.trans hn
    | _ => cases hn
  next := fun _ h => ⟨h.waiting, h.queued⟩
  source := fun _ h => ⟨h.waiting, h.queued⟩
  amend := fun _ h => ⟨h.waiting, h.queued⟩
  addEntry := fun h => ⟨h.waiting, h.queued⟩
  data := fun _ h => ⟨h.waiting, h.queued⟩
  page := fun _ h => ⟨h.waiting, h.queued⟩
  count := fun _ _ h => ⟨h.waiting, h.queued⟩
  register := fun _ _ h => ⟨h.waiting, h.queued⟩
  bind := fun _ h => ⟨h.waiting, h.queued⟩

theorem Started.dropped (h : s.Started) (n : ℕ) : (s.drop n).Started :=
  ⟨fun c hm => h.waiting c (List.mem_of_mem_eraseIdx hm), h.queued⟩

theorem Started.popped (h : s.Started) {k : Task V} {ks : List (Task V)} (hq : s.queue = k :: ks) :
    ({ s with queue := ks } : Dock V).Started :=
  ⟨h.waiting, fun k' hm => h.queued k' (hq ▸ List.mem_cons_of_mem _ hm)⟩

theorem Started.run (h : s.Started) (why : Why) (q : Query) (offset : ℕ) (done : Option ℕ) :
    (s.run env why q offset done).Started := by
  unfold Dock.run
  split
  · exact ((keeps_started V).cancelEdit h).tell _
  have hc : (s.clear env q).Started := (keeps_started V).clear (by decide) (by decide) (by decide) h q
  refine (hc.tell _).wait fun n hn => ?_
  exact ⟨_, List.mem_cons_self .., hn⟩

theorem Started.finish (h : s.Started) (done : Option ℕ) (ok : Bool) : (s.finish done ok).Started := by
  cases done with
  | none => exact h
  | some n => exact h.tell _

theorem Started.want (h : s.Started) (q : Query) : (s.want q).Started :=
  (keeps_started V).next (Nat.le_succ _) (h.tell _)

theorem Started.judged (h : s.Started) (q : Query) (t : Ticket) (dangerous : Bool) :
    (s.judged q t dangerous).Started := by
  unfold Dock.judged
  split
  · exact h.later nofun
  · exact h.later nofun

theorem Started.runGuarded (h : s.Started) (q : Query) (notify : Bool) :
    (s.runGuarded env q notify).Started := by
  unfold Dock.runGuarded
  dsimp only
  split
  · split
    · exact (h.want q).judged q _ _
    · exact ((h.want q).tell _).wait nofun
  · exact (h.want q).judged q _ _

theorem Started.land (h : s.Started) (offset : ℕ) (done : Option ℕ) :
    (s.land env offset done).Started := by
  have ho : (openDock { s with face := { s.face with view := .result } }).Started :=
    (keeps_started V).openDock ((keeps_started V).face (.inl (.inl rfl)) h)
  unfold Dock.land
  dsimp only
  split
  · exact ho
  · exact ((keeps_started V).gotoPage ho offset).finish done true

theorem Started.settle (h : s.Started) {done : Option ℕ} (hd : ∀ n, done = some n → s.Sent n)
    (k : ℕ) {st : CallStatus} (hst : st ≠ .running) (offset : ℕ) :
    (s.settle k st offset done).Started := by
  have hset := (keeps_started V).settled h k hst
  have hsent : ∀ n, done = some n → ((s.amend k fun e => { e with state := st }).relog).Sent n :=
    fun n hn => (keeps_sent n).settled (hd n hn) k hst
  unfold Dock.settle
  dsimp only
  split
  · exact hset.later hsent
  · exact hset.later hsent

theorem Started.register (h : s.Started) {done : Option ℕ} (hd : ∀ n, done = some n → s.Sent n)
    (k : ℕ) (q : Query) (offset : ℕ) (cid : CallId) :
    (s.register env k q offset done cid).Started := by
  have hi : (s.issue cid (some q)).Started := ⟨h.waiting, h.queued⟩
  have hw : ((s.issue cid (some q)).wait (.watch k offset done)).Started := hi.wait hd
  unfold Dock.register
  refine (keeps_started V).evict ?_ _ _
  exact ⟨hw.waiting, hw.queued⟩

theorem Started.step {i : Input V} {t : Dock V} (h : s.Started) (hst : s.step env i = some t) :
    t.Started := by
  refine (keeps_started V).step (by decide) h (fun q notify _ => h.runGuarded q notify)
    (fun k _ => (keeps_started V).openCached (by decide) (by decide) h k) (fun _ => ?_)
    (fun hed => (keeps_started V).edited (by decide) (by decide) (by decide)
      (fun _ _ _ _ _ h' => (keeps_started V).writeRow (by decide) h' _ _ _ _ _) hed h hst)
    (fun k ks _ hq => ?_) (fun n r c _ hc hr => ?_) hst
  · unfold Dock.rerunCall
    split
    · exact (h.want _).run _ _ _ _
    · exact h
  · have hp := h.popped hq
    refine (keeps_started V).perform hp (fun done _ => hp.finish done false)
      (fun offset done _ => hp.land offset done) (fun q t _ => hp.run _ _ _ _)
      (fun q t _ => hp.wait nofun) (fun n on plan statement target _ => hp.wait nofun)
      (fun on target _ => ?_)
    unfold Dock.refresh
    split
    · exact hp.run _ _ _ _
    · exact hp
  · have hd := h.dropped n
    have hsent := h.waiting c (List.mem_of_getElem? hc)
    refine hr.keeps (P := Started) (fun hp => (keeps_started V).answeredRest (by decide) hr hp hd)
      (fun cid _ p _ => (keeps_started V).turn (by decide) hd cid p) (fun _ _ _ _ _ _ => hd)
      (fun k q offset done cid heq _ => ?_) (fun k offset done st heq hne => ?_)
      (fun q t b _ _ => hd.judged q t b) (fun q t _ _ => (hd.tell _).run _ _ _ _)
      (fun q t _ => hd.finish t.done false) (fun _ _ _ => hd)
    · subst heq
      exact hd.register hsent k q offset cid
    · subst heq
      exact hd.settle hsent k hne offset

/-! ### What is reported -/

def Reported (s : Dock V) : Prop := Justified Reports s.hist

theorem Reported.tell (h : s.Reported) {e : Event V} (he : Reports s.hist e) :
    (s.tell e).Reported :=
  h.cons he

theorem keeps_reported (V : Type) : Keeps unguarded (Reported : Dock V → Prop) where
  plain := by decide
  face := fun _ h => h
  pend := fun _ h => h
  tell := fun {s e} he h => by
    refine h.tell ?_
    cases e with
    | asked n a => exact absurd (show Part.runs ∈ unguarded from he) (by decide)
    | ran why k q done => exact absurd (show Part.runs ∈ unguarded from he) (by decide)
    | finished n ok => exact absurd (show Part.runs ∈ unguarded from he) (by decide)
    | _ => trivial
  wait := fun _ h => h
  later := fun _ h => h
  next := fun _ h => h
  source := fun _ h => h
  amend := fun _ h => h
  addEntry := fun h => h
  data := fun _ h => h
  page := fun _ h => h
  count := fun _ _ h => h
  register := fun _ _ h => h
  bind := fun _ h => h

/-- An `on_done` that was just taken from where it was has not been called. -/
theorem Owed.uncalled {n : ℕ} {strict : Bool} (h : s.Owed strict (some n)) (ok : Bool) :
    .finished n ok ∉ s.hist := by
  intro hm
  have hcount : s.hist.countP (doneOf n).event = 0 := by
    have hzero := (h.gap n rfl).2
    unfold tally at hzero
    omega
  exact List.countP_eq_zero.mp hcount _ hm (beq_self_eq_true (some n))

theorem Reported.finish (h : s.Reported) {done : Option ℕ} {ok : Bool} (ho : s.Owed false done)
    (ha : ∀ n, done = some n → ∃ a, .asked n a ∈ s.hist)
    (hs : ok = true → ∀ n, done = some n → s.Sent n) : (s.finish done ok).Reported := by
  cases done with
  | none => exact h
  | some n => exact h.tell ⟨ha n rfl, fun ok' => ho.uncalled ok', fun hok => hs hok n rfl⟩

/-- What was sent was asked for. -/
theorem Reported.asked (h : s.Reported) {n : ℕ} (hs : s.Sent n) : ∃ a, .asked n a ∈ s.hist := by
  obtain ⟨e, hm, hn⟩ := hs
  obtain ⟨pre, hsuffix⟩ := Lib.suffix_of_mem hm
  cases e with
  | ran why k q done =>
    cases hn
    exact ⟨q.ask, hsuffix.subset (List.mem_cons_of_mem _ (h pre _ hsuffix).2.1)⟩
  | _ => cases hn

theorem Reported.run (h : s.Reported) {why : Why} {q : Query} {done : Option ℕ}
    (ho : s.Owed false done) (hd : s.Due why q)
    (hw : ∀ n, done = some n → ∃ judged, why = .user n judged) (offset : ℕ) :
    (s.run env why q offset done).Reported := by
  unfold Dock.run
  split
  · exact Reported.tell ((keeps_reported V).cancelEdit h) trivial
  have hclear : (s.clear env q).Reported :=
    (keeps_reported V).clear (by decide) (by decide) (by decide) h q
  have howed : (s.clear env q).Owed false done :=
    (keeps_owed false done).clear (by decide) (by decide) (by decide) ho q
  have hgrows : ∃ es, (s.clear env q).hist = es ++ s.hist := clear_hist q
  obtain ⟨es, hes⟩ := hgrows
  refine hclear.tell ?_
  cases done with
  | none => trivial
  | some n =>
    obtain ⟨judged, rfl⟩ := hw n rfl
    refine ⟨⟨judged, rfl⟩, ?_, clear_unserved hd.2 q, howed.uncalled⟩
    rw [hes]
    exact List.mem_append_right _ hd.1

theorem Reported.want (h : s.Reported) (ht : s.Ticketed) (q : Query) : (s.want q).Reported := by
  refine (keeps_reported V).next (Nat.le_succ _) (h.tell fun a hm => ?_)
  exact absurd (ht.asked _ a hm) (Nat.lt_irrefl _)

theorem Reported.judged (h : s.Reported) (q : Query) (t : Ticket) (dangerous : Bool) :
    (s.judged q t dangerous).Reported := by
  unfold Dock.judged
  split
  · exact h
  · exact h

theorem Reported.runGuarded (h : s.Reported) (ht : s.Ticketed) (q : Query) (notify : Bool) :
    (s.runGuarded env q notify).Reported := by
  have hw := h.want ht q
  unfold Dock.runGuarded
  dsimp only
  split
  · split
    · exact hw.judged q _ _
    · exact hw.tell trivial
  · exact hw.judged q _ _

theorem Reported.land (h : s.Reported) {done : Option ℕ} (ho : s.Owed false done)
    (hs : ∀ n, done = some n → s.Sent n) (offset : ℕ) : (s.land env offset done).Reported := by
  have hface : ({ s with face := { s.face with view := .result } } : Dock V).Owed false done :=
    (keeps_owed false done).face (.inl (.inl rfl)) ho
  have howed := (keeps_owed false done).openDock hface
  have hopen : (openDock { s with face := { s.face with view := .result } }).Reported :=
    (keeps_reported V).openDock ((keeps_reported V).face (.inl (.inl rfl)) h)
  unfold Dock.land
  dsimp only
  split
  · exact hopen
  · have hgo : ((openDock { s with face := { s.face with view := .result } }).gotoPage env
        offset).Reported := (keeps_reported V).gotoPage hopen offset
    have hsent : ∀ n, done = some n →
        ((openDock { s with face := { s.face with view := .result } }).gotoPage env offset).Sent n := by
      intro n hn
      have hfaced : ({ s with face := { s.face with view := .result } } : Dock V).Sent n := hs n hn
      exact (keeps_sent n).gotoPage ((keeps_sent n).openDock hfaced) offset
    exact hgo.finish ((keeps_owed false done).gotoPage howed offset)
      (fun n hn => hgo.asked (hsent n hn)) fun _ => hsent

theorem Reported.settle (h : s.Reported) (k : ℕ) {st : CallStatus} (hst : st ≠ .running)
    (offset : ℕ) (done : Option ℕ) : (s.settle k st offset done).Reported := by
  have hset := (keeps_reported V).settled h k hst
  unfold Dock.settle
  dsimp only
  split
  · exact hset
  · exact hset

theorem Reported.register (h : s.Reported) (k : ℕ) (q : Query) (offset : ℕ) (done : Option ℕ)
    (cid : CallId) : (s.register env k q offset done cid).Reported := by
  unfold Dock.register
  refine (keeps_reported V).evict ?_ _ _
  exact h

theorem ticket_done {t : Ticket} {n : ℕ} (h : t.done = some n) : t.n = n := by
  unfold Ticket.done at h
  split at h
  · exact Option.some.inj h
  · cases h

theorem reported_step {i : Input V} {t : Dock V} (h : s.Reporting) (hst : s.step env i = some t) :
    t.Reported := by
  have hh : s.Reported := h.hist
  refine (keeps_reported V).step (by decide) hh (fun q notify _ => hh.runGuarded h.tickets q notify)
    (fun k _ => (keeps_reported V).openCached (by decide) (by decide) hh k) (fun _ => ?_)
    (fun hed => (keeps_reported V).edited (by decide) (by decide) (by decide)
      (fun _ _ _ _ _ h' => (keeps_reported V).writeRow (by decide) h' _ _ _ _ _) hed hh hst)
    (fun k ks hi hq => ?_) (fun n r c _ hc hr => ?_) hst
  · unfold Dock.rerunCall
    split
    · rename_i c _
      obtain ⟨-, hdue⟩ := h.tickets.want c.query
      have hd : (s.want c.query).Due (.user s.next none) { c.query with origin := none } := hdue
      exact (hh.want h.tickets c.query).run (h.owed.want c.query false) hd nofun _
    · exact hh
  · have hp : ({ s with queue := ks } : Dock V).Reported := hh
    have howed : ({ s with queue := ks } : Dock V).Owed false k.done := h.owed.popped hq
    obtain ⟨-, hfree⟩ := h.tickets.popped hq
    have hsent : ∀ n, k.started = some n → ({ s with queue := ks } : Dock V).Sent n :=
      h.started.queued k (hq ▸ List.mem_cons_self ..)
    cases k with
    | render => exact (keeps_reported V).render hp
    | failed done => exact hp.finish howed (fun n hn => hp.asked (hsent n hn)) nofun
    | landed offset done => exact hp.land howed hsent offset
    | guarded q t =>
      have hd : ({ s with queue := ks } : Dock V).Due (.user t.n (some false)) q := hfree q t rfl
      exact hp.run howed hd (fun n hn => ⟨_, by rw [ticket_done hn]⟩) _
    | askRun q t => exact hp
    | askWrite n on plan statement target => exact hp
    | refresh on target =>
      unfold Dock.perform Dock.refresh
      dsimp only
      split
      · rename_i statement _
        have hd : ({ s with queue := ks } : Dock V).Due
            (.refresh (browseOf { s with queue := ks } target) on.id)
            ⟨on, statement, s.origin.map Origin.source⟩ := trivial
        exact hp.run howed hd nofun _
      · exact hp
  · have hd : (s.drop n).Reported := hh
    have howed := h.owed.dropped hc
    obtain ⟨-, hfree⟩ := h.tickets.dropped hc
    refine hr.keeps (P := Reported) (fun hp => (keeps_reported V).answeredRest (by decide) hr hp hd)
      (fun cid _ p _ => (keeps_reported V).turn (by decide) hd cid p) (fun _ _ _ _ _ _ => hd)
      (fun k q offset done cid _ _ => hd.register k q offset done cid)
      (fun k offset done st _ hne => hd.settle k hne offset done)
      (fun q t b _ _ => hd.judged q t b) (fun q t heq _ => ?_) (fun q t heq => ?_) (fun _ _ _ => hd)
    · subst heq
      obtain ⟨ha, hz⟩ := hfree q t rfl
      have ht : ((s.drop n).tell (.confirmed t.n)).Reported := hd.tell trivial
      have ho : ((s.drop n).tell (.confirmed t.n)).Owed false t.done := howed.tell rfl nofun
      have hdue : ((s.drop n).tell (.confirmed t.n)).Due (.user t.n (some true)) q :=
        ⟨List.mem_cons_of_mem _ ha, by rw [tally_tell, hz]; rfl⟩
      exact ht.run ho hdue (fun m hm => ⟨_, by rw [ticket_done hm]⟩) _
    · subst heq
      refine hd.finish howed (fun m hm => ⟨q.ask, ?_⟩) nofun
      rw [← ticket_done hm]
      exact (hfree q t rfl).1

theorem Reporting.step {i : Input V} {t : Dock V} (h : s.Reporting) (hst : s.step env i = some t) :
    t.Reporting where
  tickets := h.tickets.step hst
  owed := h.owed.step nofun hst
  started := h.started.step hst
  hist := reported_step h hst

theorem reporting_new : (new : Dock V).Reporting :=
  ⟨ticketed_new, owed_new, started_new, Lib.justified_nil⟩

/-- The history only grows. -/
theorem keeps_extends (old : List (Event V)) : Keeps every fun s : Dock V => old <:+ s.hist where
  plain := by decide
  face := fun _ h => h
  pend := fun _ h => h
  tell := fun {s e} _ h => h.trans (List.suffix_cons e s.hist)
  wait := fun _ h => h
  later := fun _ h => h
  next := fun _ h => h
  source := fun _ h => h
  amend := fun _ h => h
  addEntry := fun h => h
  data := fun _ h => h
  page := fun _ h => h
  count := fun _ _ h => h
  register := fun _ _ h => h
  bind := fun _ h => h

theorem step_extends {i : Input V} {t : Dock V} (hst : s.step env i = some t) :
    s.hist <:+ t.hist :=
  (keeps_extends s.hist).always id (fun _ h => h) (List.suffix_refl _) hst

/-! ### Where a done run is reported -/

def Unreported (s : Dock V) (n : ℕ) : Prop := .finished n true ∉ s.hist

variable {n : ℕ}

theorem Unreported.tell (h : s.Unreported n) {e : Event V} (he : e ≠ .finished n true) :
    (s.tell e).Unreported n := by
  intro hm
  rcases List.mem_cons.mp hm with heq | hm
  · exact he heq.symm
  · exact h hm

theorem keeps_unreported (n : ℕ) : Keeps unguarded (Unreported (V := V) · n) where
  plain := by decide
  face := fun _ h => h
  pend := fun _ h => h
  tell := fun he h => h.tell fun heq => by
    subst heq
    exact absurd (show Part.runs ∈ unguarded from he) (by decide)
  wait := fun _ h => h
  later := fun _ h => h
  next := fun _ h => h
  source := fun _ h => h
  amend := fun _ h => h
  addEntry := fun h => h
  data := fun _ h => h
  page := fun _ h => h
  count := fun _ _ h => h
  register := fun _ _ h => h
  bind := fun _ h => h

theorem Unreported.run (h : s.Unreported n) (why : Why) (q : Query) (offset : ℕ)
    (done : Option ℕ) : (s.run env why q offset done).Unreported n := by
  unfold Dock.run
  split
  · exact Unreported.tell ((keeps_unreported n).cancelEdit h) nofun
  have hclear : (s.clear env q).Unreported n :=
    (keeps_unreported n).clear (by decide) (by decide) (by decide) h q
  exact hclear.tell nofun

theorem Unreported.finish (h : s.Unreported n) {done : Option ℕ} {ok : Bool}
    (hd : ok = true → done ≠ some n) : (s.finish done ok).Unreported n := by
  cases done with
  | none => exact h
  | some m =>
    refine h.tell fun heq => ?_
    cases heq
    exact hd rfl rfl

theorem Unreported.land (h : s.Unreported n) {done : Option ℕ} (hd : done ≠ some n) (offset : ℕ) :
    (s.land env offset done).Unreported n := by
  have ho : (openDock { s with face := { s.face with view := .result } }).Unreported n :=
    (keeps_unreported n).openDock ((keeps_unreported n).face (.inl (.inl rfl)) h)
  unfold Dock.land
  dsimp only
  split
  · exact ho
  · have hgo : ((openDock { s with face := { s.face with view := .result } }).gotoPage env
        offset).Unreported n := (keeps_unreported n).gotoPage ho offset
    exact hgo.finish fun _ => hd

theorem Unreported.judged (h : s.Unreported n) (q : Query) (t : Ticket) (dangerous : Bool) :
    (s.judged q t dangerous).Unreported n := by
  unfold Dock.judged
  split
  · exact h
  · exact h

theorem Unreported.settle (h : s.Unreported n) (k : ℕ) {st : CallStatus} (hst : st ≠ .running)
    (offset : ℕ) (done : Option ℕ) : (s.settle k st offset done).Unreported n := by
  have hset := (keeps_unreported n).settled h k hst
  unfold Dock.settle
  dsimp only
  split
  · exact hset
  · exact hset

theorem Unreported.runGuarded (h : s.Unreported n) (q : Query) (notify : Bool) :
    (s.runGuarded env q notify).Unreported n := by
  have hw : (s.want q).Unreported n := h.tell nofun
  unfold Dock.runGuarded
  dsimp only
  split
  · split
    · exact hw.judged q _ _
    · exact hw.tell nofun
  · exact hw.judged q _ _

/-- Only the closure of a done run reports that it is done. -/
theorem step_reports {i : Input V} {t : Dock V} (hst : s.step env i = some t)
    (hno : s.Unreported n) (hyes : .finished n true ∈ t.hist) :
    i = .tick ∧ ∃ offset ks, s.queue = .landed offset (some n) :: ks := by
  by_contra hnot
  have k := keeps_unreported (V := V) n
  refine absurd hyes ?_
  refine k.step (P := (Unreported · n)) (by decide) hno (fun q notify _ => hno.runGuarded q notify)
    (fun j _ => k.openCached (by decide) (by decide) hno j) (fun _ => ?_)
    (fun hed => k.edited (by decide) (by decide) (by decide)
      (fun _ _ _ _ _ h' => k.writeRow (by decide) h' _ _ _ _ _) hed hno hst)
    (fun j ks hi hq => ?_) (fun m r c _ hc hr => ?_) hst
  · unfold Dock.rerunCall
    split
    · rename_i c _
      have hw : (s.want c.query).Unreported n := hno.tell nofun
      exact hw.run _ _ _ _
    · exact hno
  · have hp : ({ s with queue := ks } : Dock V).Unreported n := hno
    refine k.perform hp (fun done _ => hp.finish nofun) (fun offset done heq => hp.land ?_ offset)
      (fun q t _ => hp.run _ _ _ _) (fun q t _ => hp) (fun m on plan statement target _ => hp)
      (fun on target _ => ?_)
    · rintro rfl
      subst heq
      exact hnot ⟨hi, offset, ks, hq⟩
    · unfold Dock.refresh
      split
      · exact hp.run _ _ _ _
      · exact hp
  · have hd : (s.drop m).Unreported n := hno
    refine hr.keeps (P := (Unreported · n)) (fun hp => k.answeredRest (by decide) hr hp hd)
      (fun cid _ p _ => k.turn (by decide) hd cid p) (fun _ _ _ _ _ _ => hd)
      (fun j q offset done cid _ _ => ?_) (fun j offset done st _ hne => hd.settle j hne offset done)
      (fun q t b _ _ => hd.judged q t b) (fun q t _ _ => ?_) (fun q t _ => hd.finish nofun)
      (fun _ _ _ => hd)
    · unfold Dock.register
      refine k.evict ?_ _ _
      exact hd
    · have ht : ((s.drop m).tell (.confirmed t.n)).Unreported n := hd.tell nofun
      exact ht.run _ _ _ _

end Dock
end LvimDb.Result
