import LvimDb.Result.Tickets

/-!
# What the destructive guard lets through

`run_guarded` classifies a statement and asks before it runs a dangerous one. The log's
re-run, the refresh of a write, a document write and the row count do not pass the guard.
-/

namespace LvimDb.Result
open Engine (ConnId CallId CallStatus)
open Lib (Justified)

variable {V : Type}

/-- What `M.classify` may answer with the guard on: the engine's verdict, or the patterns where
the engine is too old or could not be asked. -/
def Env.Classified (env : Env V) (driver statement : String) (dangerous : Bool) : Prop :=
  env.proto < 4 ∧ dangerous = env.isDestructive statement ∨
    4 ≤ env.proto ∧
      (dangerous = env.verdict driver statement ∨ dangerous = env.isDestructive statement)

instance (env : Env V) (driver statement : String) (dangerous : Bool) :
    Decidable (env.Classified driver statement dangerous) :=
  inferInstanceAs (Decidable (_ ∨ _))

/-- What is classified dangerous is executed after a yes for this very execution, and what
passes by the guard is not dangerous. -/
def Guards (env : Env V) (pre : List (Event V)) : Event V → Prop
  | .ran (.user n (some dangerous)) _ q _ =>
    env.Classified q.conn.driver q.statement dangerous ∧
      (dangerous = true → .confirmed n ∈ pre ∧ .asked n q.ask ∈ pre ∧
        ∀ e ∈ pre, e.serves ≠ some n)
  | .ran _ _ q _ => ¬ env.Classified q.conn.driver q.statement true
  | .wrote on statement | .counted on statement => ¬ env.Classified on.driver statement true
  | _ => True

/-- The row count of a source is not dangerous. -/
def CountSafe (env : Env V) (on : Conn) (origin : Option Source) : Prop :=
  ∀ src ∈ origin, ∀ statement ∈ env.count on.driver src,
    ¬ env.Classified on.driver statement true

instance (env : Env V) (on : Conn) (origin : Option Source) : Decidable (CountSafe env on origin) :=
  inferInstanceAs (Decidable (∀ src ∈ origin, ∀ statement ∈ env.count on.driver src, _))

namespace Dock
variable (env : Env V) (s : Dock V)

/-- The input runs the focused call again. -/
def reruns : Input V → Bool
  | .rerun => true
  | .enter => s.face.view = .log && (s.reopens env .enter).isNone
  | _ => false

/-- What a step sends past the guard is not dangerous: a call run again, the refresh of a
write, a document, a row count. -/
def Harmless : Input V → Prop
  | .answer n (.answer true) =>
    match s.waiting[n]? with
    | some (.guardDialog q _) => CountSafe env q.conn q.origin
    | _ => True
  | .answer n (.typed text) =>
    match s.waiting[n]? with
    | some (.docInput _ object) => ∀ c ∈ s.conn,
        ∀ statement ∈ env.replaceDocument c.driver object text,
          ¬ env.Classified c.driver statement true
    | _ => True
  | .tick =>
    match s.queue with
    | .guarded q _ :: _ => CountSafe env q.conn q.origin
    | .refresh on _ :: _ => CountSafe env on (s.origin.map Origin.source) ∧
        ∀ statement ∈ s.statement, ¬ env.Classified on.driver statement true
    | _ => True
  | i =>
    (∀ k ∈ s.reopens env i, ∀ e ∈ s.heap[k]?, CountSafe env e.query.conn e.query.origin) ∧
      (s.reruns env i = true → ∀ k ∈ s.focusedCall, ∀ e ∈ s.heap[k]?,
        ¬ env.Classified e.query.conn.driver e.query.statement true)

instance (i : Input V) : Decidable (s.Harmless env i) := by
  unfold Harmless
  rcases i with _ | _ <;> (try dsimp only) <;> try infer_instance
  · rcases s.queue with _ | ⟨k, ks⟩
    · infer_instance
    · rcases k with _ | _ <;> infer_instance
  · rename_i n r
    rcases r with _ | _ <;> (try dsimp only) <;> try infer_instance
    · rename_i yes
      rcases yes with _ | _ <;> (try dsimp only) <;> try infer_instance
      rcases s.waiting[n]? with _ | c
      · infer_instance
      · rcases c with _ | _ <;> infer_instance
    · rcases s.waiting[n]? with _ | c
      · infer_instance
      · rcases c with _ | _ <;> infer_instance

/-- What waits in the guard was classified. -/
structure Screened : Prop where
  asking : ∀ q t, .classify q t ∈ s.waiting → 4 ≤ env.proto
  dialogs : ∀ q t, .guardDialog q t ∈ s.waiting →
    env.Classified q.conn.driver q.statement true
  guarded : ∀ q t, .guarded q t ∈ s.queue → env.Classified q.conn.driver q.statement false
  dangerous : ∀ q t, .askRun q t ∈ s.queue → env.Classified q.conn.driver q.statement true

variable {env s}

theorem screened_new : (new : Dock V).Screened env where
  asking := fun _ _ h => (List.not_mem_nil h).elim
  dialogs := fun _ _ h => (List.not_mem_nil h).elim
  guarded := fun _ _ h => (List.not_mem_nil h).elim
  dangerous := fun _ _ h => (List.not_mem_nil h).elim

/-! ### The guard -/

theorem Screened.tell (h : s.Screened env) (e : Event V) : (s.tell e).Screened env :=
  ⟨h.asking, h.dialogs, h.guarded, h.dangerous⟩

theorem Screened.wait {c : Cont V} (h : s.Screened env)
    (hc : ∀ q t, c = .classify q t → 4 ≤ env.proto)
    (hd : ∀ q t, c = .guardDialog q t → env.Classified q.conn.driver q.statement true) :
    (s.wait c).Screened env where
  asking := fun q t hm => by
    rcases List.mem_append.mp hm with hm | hm
    · exact h.asking q t hm
    · exact hc q t (List.mem_singleton.mp hm).symm
  dialogs := fun q t hm => by
    rcases List.mem_append.mp hm with hm | hm
    · exact h.dialogs q t hm
    · exact hd q t (List.mem_singleton.mp hm).symm
  guarded := h.guarded
  dangerous := h.dangerous

theorem Screened.later {k : Task V} (h : s.Screened env)
    (hg : ∀ q t, k = .guarded q t → env.Classified q.conn.driver q.statement false)
    (hd : ∀ q t, k = .askRun q t → env.Classified q.conn.driver q.statement true) :
    (s.later k).Screened env where
  asking := h.asking
  dialogs := h.dialogs
  guarded := fun q t hm => by
    rcases List.mem_append.mp hm with hm | hm
    · exact h.guarded q t hm
    · exact hg q t (List.mem_singleton.mp hm).symm
  dangerous := fun q t hm => by
    rcases List.mem_append.mp hm with hm | hm
    · exact h.dangerous q t hm
    · exact hd q t (List.mem_singleton.mp hm).symm

theorem keeps_screened (env : Env V) : Keeps unguarded (Screened (V := V) env) where
  plain := by decide
  face := fun _ h => ⟨h.asking, h.dialogs, h.guarded, h.dangerous⟩
  pend := fun _ h => ⟨h.asking, h.dialogs, h.guarded, h.dangerous⟩
  tell := fun _ h => h.tell _
  wait := fun hc h => h.wait (fun q t heq => by
      have hno := cont_no_ticket hc
      rw [heq] at hno
      cases hno) fun q t heq => by
      have hno := cont_no_ticket hc
      rw [heq] at hno
      cases hno
  later := fun hk h => h.later (fun q t heq => by
      have hno := task_no_ticket hk
      rw [heq] at hno
      cases hno) fun q t heq => by
      have hno := task_no_ticket hk
      rw [heq] at hno
      cases hno
  next := fun _ h => ⟨h.asking, h.dialogs, h.guarded, h.dangerous⟩
  source := fun _ h => ⟨h.asking, h.dialogs, h.guarded, h.dangerous⟩
  amend := fun _ h => ⟨h.asking, h.dialogs, h.guarded, h.dangerous⟩
  addEntry := fun h => ⟨h.asking, h.dialogs, h.guarded, h.dangerous⟩
  data := fun _ h => ⟨h.asking, h.dialogs, h.guarded, h.dangerous⟩
  page := fun _ h => ⟨h.asking, h.dialogs, h.guarded, h.dangerous⟩
  count := fun _ _ h => ⟨h.asking, h.dialogs, h.guarded, h.dangerous⟩
  register := fun _ _ h => ⟨h.asking, h.dialogs, h.guarded, h.dangerous⟩
  bind := fun _ h => ⟨h.asking, h.dialogs, h.guarded, h.dangerous⟩

theorem Screened.dropped (h : s.Screened env) (n : ℕ) : (s.drop n).Screened env :=
  ⟨fun q t hm => h.asking q t (List.mem_of_mem_eraseIdx hm),
    fun q t hm => h.dialogs q t (List.mem_of_mem_eraseIdx hm), h.guarded, h.dangerous⟩

theorem Screened.popped (h : s.Screened env) {k : Task V} {ks : List (Task V)}
    (hq : s.queue = k :: ks) : ({ s with queue := ks } : Dock V).Screened env :=
  ⟨h.asking, h.dialogs, fun q t hm => h.guarded q t (hq ▸ List.mem_cons_of_mem _ hm),
    fun q t hm => h.dangerous q t (hq ▸ List.mem_cons_of_mem _ hm)⟩

theorem Screened.judged (h : s.Screened env) {q : Query} (t : Ticket) {b : Bool}
    (hb : env.Classified q.conn.driver q.statement b) : (s.judged q t b).Screened env := by
  unfold Dock.judged
  split
  · rename_i hdanger
    refine h.later nofun fun q' t' heq => ?_
    cases heq
    exact hdanger ▸ hb
  · rename_i hsafe
    refine h.later (fun q' t' heq => ?_) nofun
    cases heq
    exact Bool.eq_false_iff.mpr hsafe ▸ hb

theorem Screened.want (h : s.Screened env) (q : Query) : (s.want q).Screened env :=
  ⟨h.asking, h.dialogs, h.guarded, h.dangerous⟩

theorem Screened.runGuarded (hon : env.confirmDestructive = true) (h : s.Screened env) (q : Query)
    (notify : Bool) : (s.runGuarded env q notify).Screened env := by
  have hw : (s.want q).Screened env := h.want q
  unfold Dock.runGuarded
  dsimp only
  rw [if_pos hon]
  split
  · rename_i hold
    exact hw.judged _ (.inl ⟨hold, rfl⟩)
  · rename_i hnew
    exact (hw.tell _).wait (fun _ _ _ => Nat.not_lt.mp hnew) nofun

theorem Screened.run (h : s.Screened env) (why : Why) (q : Query) (offset : ℕ) (done : Option ℕ) :
    (s.run env why q offset done).Screened env := by
  unfold Dock.run
  split
  · exact ((keeps_screened env).cancelEdit h).tell _
  · have hclear : (s.clear env q).Screened env :=
      (keeps_screened env).clear (by decide) (by decide) (by decide) h q
    exact (hclear.tell _).wait nofun nofun

theorem Screened.rerunCall (h : s.Screened env) : (s.rerunCall env).Screened env := by
  unfold Dock.rerunCall
  split
  · rename_i c hc
    have hw : (s.want c.query).Screened env := h.want c.query
    exact hw.run _ _ _ _
  · exact h

theorem Screened.finish (h : s.Screened env) (done : Option ℕ) (ok : Bool) :
    (s.finish done ok).Screened env := by
  cases done with
  | none => exact h
  | some n => exact h.tell _

theorem Screened.land (h : s.Screened env) (offset : ℕ) (done : Option ℕ) :
    (s.land env offset done).Screened env := by
  have ho : (Dock.openDock { s with face := { s.face with view := .result } }).Screened env :=
    (keeps_screened env).openDock ((keeps_screened env).face (.inl (.inl rfl)) h)
  unfold Dock.land
  dsimp only
  split
  · exact ho
  · exact ((keeps_screened env).gotoPage ho offset).finish done true

theorem Screened.settle (h : s.Screened env) (k : ℕ) {st : CallStatus} (hst : st ≠ .running)
    (offset : ℕ) (done : Option ℕ) : (s.settle k st offset done).Screened env := by
  have hset := (keeps_screened env).settled h k hst
  unfold Dock.settle
  dsimp only
  split
  · exact hset.later nofun nofun
  · exact hset.later nofun nofun

theorem Screened.register (h : s.Screened env) (k : ℕ) (q : Query) (offset : ℕ)
    (done : Option ℕ) (cid : CallId) : (s.register env k q offset done cid).Screened env := by
  have hi : (s.issue cid (some q)).Screened env := ⟨h.asking, h.dialogs, h.guarded, h.dangerous⟩
  have hw : ((s.issue cid (some q)).wait (.watch k offset done)).Screened env := hi.wait nofun nofun
  unfold Dock.register
  refine (keeps_screened env).evict ?_ _ _
  exact ⟨hw.asking, hw.dialogs, hw.guarded, hw.dangerous⟩

theorem Screened.step {i : Input V} {t : Dock V} (hon : env.confirmDestructive = true)
    (h : s.Screened env) (hst : s.step env i = some t) : t.Screened env := by
  refine (keeps_screened env).step (by decide) h (fun q notify _ => h.runGuarded hon q notify)
    (fun k _ => (keeps_screened env).openCached (by decide) (by decide) h k) (fun _ => h.rerunCall)
    (fun hed => (keeps_screened env).edited (by decide) (by decide) (by decide)
      (fun _ _ _ _ _ h' => (keeps_screened env).writeRow (by decide) h' _ _ _ _ _) hed h hst)
    (fun k ks _ hq => ?_) (fun n r c _ hc hr => ?_) hst
  · have hp := h.popped hq
    refine (keeps_screened env).perform hp (fun done _ => hp.finish done false)
      (fun offset done _ => hp.land offset done) (fun q t _ => hp.run _ _ _ _) (fun q t heq => ?_)
      (fun n on plan statement target _ => hp.wait nofun nofun) (fun on target _ => ?_)
    · subst heq
      refine hp.wait nofun fun q' t' heq => ?_
      cases heq
      exact h.dangerous q t (hq ▸ List.mem_cons_self ..)
    · unfold Dock.refresh
      split
      · exact hp.run _ _ _ _
      · exact hp
  · have hd := h.dropped n
    refine hr.keeps (P := Screened env) (fun hp => (keeps_screened env).answeredRest (by decide) hr hp hd)
      (fun cid _ p _ => (keeps_screened env).turn (by decide) hd cid p) (fun _ _ _ _ _ _ => hd)
      (fun k q offset done cid _ _ => hd.register k q offset done cid)
      (fun k offset done st _ hne => hd.settle k hne offset done) (fun q t b heq hb => ?_)
      (fun q t _ _ => (hd.tell _).run _ _ _ _) (fun q t _ => hd.finish t.done false) (fun _ _ _ => hd)
    subst heq
    have hnew := h.asking q t (List.mem_of_getElem? hc)
    refine hd.judged t (.inr ⟨hnew, ?_⟩)
    rcases hb with ⟨-, hb⟩ | ⟨-, hb⟩
    · exact .inl hb
    · exact .inr hb

/-! ### The history -/

def Guarded (env : Env V) (s : Dock V) : Prop := Justified (Guards env) s.hist

theorem Guarded.tell (h : s.Guarded env) {e : Event V} (he : Guards env s.hist e) :
    (s.tell e).Guarded env :=
  h.cons he

/-- All that executes nothing. -/
def passive : List Part := [.plain, .data, .pages, .starts, .edits, .locks, .inserts, .writes]

theorem keeps_guards (env : Env V) : Keeps passive (Guarded (V := V) env) where
  plain := by decide
  face := fun _ h => h
  pend := fun _ h => h
  tell := fun {s e} he h => by
    refine h.cons ?_
    cases e with
    | ran why k q done => exact absurd (show Part.runs ∈ passive from he) (by decide)
    | wrote on statement => exact absurd (show Part.docs ∈ passive from he) (by decide)
    | counted on statement => exact absurd (show Part.counts ∈ passive from he) (by decide)
    | _ => trivial
  wait := fun _ h => h
  later := fun _ h => h
  next := fun _ h => h
  source := fun _ h => h
  amend := fun _ h => h
  addEntry := fun h => h
  data := fun _ h => h
  page := fun _ h => h
  count := fun hn => absurd hn (by decide)
  register := fun _ _ h => h
  bind := fun _ h => h

theorem guards_countRows (h : s.Guarded env) {q : Query}
    (hs : s.conn = some q.conn) (hc : CountSafe env q.conn q.origin) :
    (s.countRows env q).Guarded env := by
  unfold countRows
  split
  · rename_i src hsrc
    unfold fetchTotal
    split
    · rename_i c hconn
      cases hs.symm.trans hconn
      split
      · rename_i statement hst
        exact h.cons (hc src hsrc statement hst)
      · exact h
    · exact h
  · exact h

theorem guards_clear (h : s.Guarded env) {q : Query}
    (hc : CountSafe env q.conn q.origin) : (s.clear env q).Guarded env := by
  have hcancel : s.cancelEdit.Guarded env := (keeps_guards env).cancelEdit h
  have hcount : (countRows env { s.cancelEdit.retarget q none 0 with page := none } q).Guarded env :=
    guards_countRows (s := { s.cancelEdit.retarget q none 0 with page := none }) hcancel rfl hc
  exact (keeps_guards env).relog ((keeps_guards env).addEntry hcount)

/-- What `M.run` may be called with. -/
def Cleared (env : Env V) (s : Dock V) (why : Why) (q : Query) : Prop :=
  match why with
  | .user n (some dangerous) => env.Classified q.conn.driver q.statement dangerous ∧
      s.Due why q ∧ (dangerous = true → .confirmed n ∈ s.hist)
  | _ => ¬ env.Classified q.conn.driver q.statement true

theorem guards_run (h : s.Guarded env) {why : Why} {q : Query}
    (hc : CountSafe env q.conn q.origin) (hw : Cleared env s why q) (offset : ℕ)
    (done : Option ℕ) : (s.run env why q offset done).Guarded env := by
  unfold Dock.run
  split
  · exact Justified.cons ((keeps_guards env).cancelEdit h) trivial
  have hgrows : ∃ es, (s.clear env q).hist = es ++ s.hist := clear_hist q
  obtain ⟨es, hes⟩ := hgrows
  refine (guards_clear h hc).cons ?_
  cases why with
  | refresh browse on => exact hw
  | user n judged =>
    cases judged with
    | none => exact hw
    | some dangerous =>
      obtain ⟨hclass, ⟨hasked, hfree⟩, hconfirmed⟩ := hw
      refine ⟨hclass, fun hdanger => ⟨?_, ?_, clear_unserved hfree q⟩⟩
      · rw [hes]
        exact List.mem_append_right _ (hconfirmed hdanger)
      · rw [hes]
        exact List.mem_append_right _ hasked

theorem guards_openCached (h : s.Guarded env) {k : ℕ}
    (hc : ∀ e ∈ s.heap[k]?, CountSafe env e.query.conn e.query.origin) :
    (s.openCached env k).Guarded env := by
  unfold Dock.openCached
  split
  · rename_i e he
    split
    · rename_i cid hcid
      have hcount : ((s.retarget e.query (some cid) e.offset).countRows env e.query).Guarded env :=
        guards_countRows (s := s.retarget e.query (some cid) e.offset) h rfl (hc e he)
      have hv := (keeps_guards env).setView hcount .result
      dsimp only
      split
      · exact hv
      · exact (keeps_guards env).gotoPage hv _
    · exact h
  · exact h

theorem guards_finish (h : s.Guarded env) (done : Option ℕ) (ok : Bool) :
    (s.finish done ok).Guarded env := by
  cases done with
  | none => exact h
  | some n => exact h.cons trivial

theorem guards_land (h : s.Guarded env) (offset : ℕ) (done : Option ℕ) :
    (s.land env offset done).Guarded env := by
  have ho : (Dock.openDock { s with face := { s.face with view := .result } }).Guarded env :=
    (keeps_guards env).openDock ((keeps_guards env).face (.inl (.inl rfl)) h)
  unfold Dock.land
  dsimp only
  split
  · exact ho
  · exact guards_finish ((keeps_guards env).gotoPage ho offset) done true

theorem guards_judged (h : s.Guarded env) (q : Query) (t : Ticket)
    (dangerous : Bool) : (s.judged q t dangerous).Guarded env := by
  unfold Dock.judged
  split
  · exact h
  · exact h

theorem guards_guarded (h : s.Guarded env) (q : Query) (notify : Bool) :
    (s.runGuarded env q notify).Guarded env := by
  have hw : (s.want q).Guarded env := h.cons trivial
  unfold Dock.runGuarded
  dsimp only
  split
  · split
    · exact guards_judged hw q _ _
    · exact hw.cons trivial
  · exact guards_judged hw q _ _

theorem guards_settle (h : s.Guarded env) (k : ℕ) {st : CallStatus}
    (hst : st ≠ .running) (offset : ℕ) (done : Option ℕ) :
    (s.settle k st offset done).Guarded env := by
  have hset := (keeps_guards env).settled h k hst
  unfold Dock.settle
  dsimp only
  split
  · exact hset
  · exact hset

theorem guards_register (h : s.Guarded env) (k : ℕ) (q : Query) (offset : ℕ)
    (done : Option ℕ) (cid : CallId) :
    (s.register env k q offset done cid).Guarded env := by
  unfold Dock.register
  refine (keeps_guards env).evict ?_ _ _
  exact h

theorem guards_rerun (h : s.Guarded env)
    (hk : ∀ k ∈ s.focusedCall, ∀ e ∈ s.heap[k]?,
      ¬ env.Classified e.query.conn.driver e.query.statement true) :
    (s.rerunCall env).Guarded env := by
  unfold Dock.rerunCall
  split
  · rename_i c hc
    obtain ⟨k, hfocus, hentry⟩ := Option.bind_eq_some_iff.mp hc
    have hw : (s.want c.query).Guarded env := h.cons trivial
    have hclear : Cleared env (s.want c.query) (.user s.next none) { c.query with origin := none } :=
      hk k hfocus c hentry
    exact guards_run hw (fun src hsrc => by cases hsrc) hclear 0 none
  · exact h

theorem guards_replaceDoc (h : s.Guarded env) {f : Focus V} {object text : String}
    (hc : ∀ c ∈ s.conn, ∀ statement ∈ env.replaceDocument c.driver object text,
      ¬ env.Classified c.driver statement true) :
    (s.replaceDoc env f object text).Guarded env := by
  unfold Dock.replaceDoc
  split
  · split
    · rename_i statement hst
      have hcancel : s.cancelEdit.Guarded env := (keeps_guards env).cancelEdit h
      have hconn : s.cancelEdit.conn = s.conn := by
        unfold cancelEdit
        split <;> rfl
      split
      · exact hcancel
      unfold Dock.write
      split
      · rename_i c hcc
        have hs : s.conn = some c := hconn.symm.trans hcc
        refine hcancel.cons (hc c hs statement ?_)
        unfold driver at hst
        rw [hs] at hst
        exact hst
      · exact hcancel
    · exact h
  · exact h

/-- An answer to a write or a count. -/
theorem guards_answered {n : ℕ} {c : Cont V} {r : Reply V} {t : Dock V}
    (h : s.Guarded env) (hc : s.waiting[n]? = some c) (hg : s.Harmless env (.answer n r))
    (hp : c.part ∈ Keeps.rest) (hr : Resumed env (s.drop n) c r t) :
    t.Guarded env := by
  have hd : (s.drop n).Guarded env := h
  have hedits : Part.edits ∈ passive := by decide
  have hlocks : Part.locks ∈ passive := by decide
  have hwr : ∀ {s : Dock V} (set key : List (String × V)) (delete insert : Bool)
      (target : Target V), s.Guarded env →
        (s.writeRow set key delete insert target).Guarded env :=
    fun _ _ _ _ _ h' => (keeps_guards env).writeRow (by decide) h' _ _ _ _ _
  cases hr with
  | counting cid hu => exact hd
  | totalling cid => exact hd.cons trivial
  | counted cid r => exact hd.cons trivial
  | described ref op fields =>
    have hset := (keeps_guards env).setOrigin hd ref fun o : Origin =>
      (rfl : ({ o with metaColumns := some fields } : Origin).source = o.source)
    exact (keeps_guards env).described hedits hset
      (Keeps.goes hwr (keeps_guards env) hedits hlocks hset op) _ _
  | returned m on plan target text => exact hd.cons trivial
  | accepted m on plan statement target =>
    have ht : ((s.drop n).tell (.accepted m statement)).Guarded env := hd.cons trivial
    unfold Dock.applyRow
    split
    · exact ht.cons trivial
    · exact ht
  | written k on target => exact hd
  | unwritten k on target => exact hd
  | writing k on target cid hu => exact hd
  | wrote k on target st hne =>
    split
    · exact hd
    · exact hd
  | popup f where_ cols origin texts => exact Keeps.savePopup hwr (keeps_guards env) hlocks hd _ _ _ _ _
  | insertForm fields m texts => exact Keeps.saveInsert hwr (keeps_guards env) hedits hd _ _ _
  | cellInput id f ci col text => exact (keeps_guards env).applyCell hd _ _ _ _ _
  | docInput f object text =>
    simp only [Harmless, hc] at hg
    exact guards_replaceDoc hd hg
  | gone c r h1 h2 => exact hd
  | _ => simp [Cont.part, Keeps.rest] at hp

theorem guards_step {i : Input V} {t : Dock V} (h : s.Guarded env)
    (hs : s.Screened env) (ht : s.Ticketed) (hg : s.Harmless env i)
    (hst : s.step env i = some t) : t.Guarded env := by
  refine (keeps_guards env).step (by decide) h (fun q notify _ => guards_guarded h q notify)
    (fun k hk => ?_) (fun hi => ?_)
    (fun hed => (keeps_guards env).edited (by decide) (by decide) (by decide)
      (fun _ _ _ _ _ h' => (keeps_guards env).writeRow (by decide) h' _ _ _ _ _) hed h hst)
    (fun k ks hi hq => ?_) (fun n r c hi hc hr => ?_) hst
  · cases i with
    | enter => exact guards_openCached h (hg.1 k hk)
    | openLog => exact guards_openCached h (hg.1 k hk)
    | _ => cases hk
  · rcases hi with rfl | ⟨rfl, hview, hnone⟩
    · exact guards_rerun h (hg.2 rfl)
    · refine guards_rerun h (hg.2 ?_)
      have hlog : s.face.view = .log := by
        cases hv : s.face.view with
        | result => exact absurd hv hview
        | log => rfl
      simp [reruns, hlog, hnone]
  · subst hi
    have hp : ({ s with queue := ks } : Dock V).Guarded env := h
    obtain ⟨-, hfree⟩ := ht.popped hq
    refine (keeps_guards env).perform hp (fun done _ => guards_finish hp done false)
      (fun offset done _ => guards_land hp offset done) (fun q t heq => ?_) (fun q t _ => hp)
      (fun n on plan statement target _ => hp) (fun on target heq => ?_)
    · subst heq
      simp only [Harmless, hq] at hg
      have hclass := hs.guarded q t (hq ▸ List.mem_cons_self ..)
      have hw : Cleared env ({ s with queue := ks } : Dock V) (.user t.n (some false)) q :=
        ⟨hclass, hfree q t rfl, nofun⟩
      exact guards_run hp hg hw _ _
    · subst heq
      simp only [Harmless, hq] at hg
      unfold Dock.refresh
      split
      · rename_i statement hstate
        have hw : Cleared env ({ s with queue := ks } : Dock V)
            (.refresh (browseOf { s with queue := ks } target) on.id)
            ⟨on, statement, s.origin.map Origin.source⟩ := hg.2 statement hstate
        exact guards_run hp hg.1 hw _ _
      · exact hp
  · subst hi
    have hd : (s.drop n).Guarded env := h
    obtain ⟨-, hfree⟩ := ht.dropped hc
    refine hr.keeps (P := Guarded env)
      (fun hp => guards_answered h hc hg hp hr)
      (fun cid _ p _ => (keeps_guards env).turn (by decide) hd cid p) (fun _ _ _ _ _ _ => hd)
      (fun k q offset done cid _ _ => guards_register hd k q offset done cid)
      (fun k offset done st _ hne => guards_settle hd k hne offset done)
      (fun q t b _ _ => guards_judged hd q t b) (fun q t heq hyes => ?_)
      (fun q t _ => guards_finish hd t.done false) (fun _ _ _ => hd)
    subst heq
    obtain ⟨ha, hz⟩ := hfree q t rfl
    subst hyes
    simp only [Harmless, hc] at hg
    have ht : ((s.drop n).tell (.confirmed t.n)).Guarded env := hd.tell trivial
    have hw : Cleared env ((s.drop n).tell (.confirmed t.n)) (.user t.n (some true)) q :=
      ⟨hs.dialogs q t (List.mem_of_getElem? hc),
        ⟨List.mem_cons_of_mem _ ha, by rw [tally_tell, hz]; rfl⟩, fun _ => List.mem_cons_self ..⟩
    exact guards_run ht hg hw _ _

theorem dangerous_confirmed (hon : env.confirmDestructive = true) {is : List (Input V)}
    (h : (machine env).Run (Harmless env) new is s) : Justified (Guards env) s.hist :=
  (h.invariant (fun s : Dock V => s.Ticketed ∧ s.Screened env ∧ s.Guarded env)
    (fun _ _ _ hg ⟨ht, hs, hi⟩ hst => ⟨ht.step hst, hs.step hon hst, guards_step hi hs ht hg hst⟩)
    ⟨ticketed_new, screened_new, Lib.justified_nil⟩).2.2

/-- An engine that calls every drop dangerous. -/
def guardEnv : Env ℕ :=
  { tableEnv with confirmDestructive := true, verdict := fun _ statement => statement == "drop" }

/-- A drop, and the yes to its dialog. -/
def dropping : List (Input ℕ) :=
  [.run ⟨connA, "drop", none⟩ false, .answer 0 (.verdict true), .tick, .answer 0 (.answer true)]

theorem dangerous_confirmed_one_drop :
    ∃ s, (machine guardEnv).Run (Harmless guardEnv) new dropping s ∧
      (s.hist.head?.bind Event.serves) = some 0 ∧ Justified (Guards guardEnv) s.hist := by
  let check := fun (s : Dock ℕ) (i : Input ℕ) => decide (s.Harmless guardEnv i)
  have hsome : ((machine guardEnv).execWith check new dropping).map
      (fun s => s.hist.head?.bind Event.serves) = some (some 0) := by decide
  obtain ⟨s, hs, hlast⟩ := Option.map_eq_some_iff.mp hsome
  have hrun : (machine guardEnv).Run (Harmless guardEnv) new dropping s :=
    Lib.Machine.run_of_execWith (fun _ _ => of_decide_eq_true) hs
  exact ⟨s, hrun, hlast, dangerous_confirmed rfl hrun⟩

/-- The drop is run again from the log. -/
def dropAgain : List (Input ℕ) := dropping ++ [.showLog, .update, .rerun]

/-- What was last run, and how it was judged. -/
def lastJudged (s : Dock V) : Option (Why × String × String) :=
  match s.hist with
  | .ran why _ q _ :: _ => some (why, q.conn.driver, q.statement)
  | _ => none

theorem rerun_not_confirmed :
    ∃ s, (machine guardEnv).exec new dropAgain = some s ∧
      s.lastJudged = some (.user 2 none, "sqlite", "drop") ∧
      ¬ Justified (Guards guardEnv) s.hist := by
  have hsome : ((machine guardEnv).exec new dropAgain).map lastJudged =
      some (some (.user 2 none, "sqlite", "drop")) := by decide
  obtain ⟨s, hs, hlast⟩ := Option.map_eq_some_iff.mp hsome
  refine ⟨s, hs, hlast, fun h => ?_⟩
  unfold lastJudged at hlast
  split at hlast
  · rename_i why k q done rest hhist
    simp only [Option.some.injEq, Prod.mk.injEq] at hlast
    obtain ⟨rfl, hdriver, hstatement⟩ := hlast
    have hsuffix : (.ran (.user 2 none) k q done :: rest) <:+ s.hist := by rw [hhist]
    refine h rest _ hsuffix ?_
    rw [hdriver, hstatement]
    decide
  · cases hlast

end Dock
end LvimDb.Result
