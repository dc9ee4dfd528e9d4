import LvimDb.Lib.History
import LvimDb.Result.Tally

/-!
# What the user asked for is run once

A statement the user asks for gets a number. The number waits in the guard, then in a
closure, and is used up by the run.
-/

namespace LvimDb.Result
open Engine (ConnId CallId CallStatus)
open Lib (Justified)

variable {V : Type}

/-- The question a callback of the guard holds. -/
def Cont.ticket : Cont V → Option (Query × Ticket)
  | .classify q t | .guardDialog q t => some (q, t)
  | _ => none

def Task.ticket : Task V → Option (Query × Ticket)
  | .guarded q t | .askRun q t => some (q, t)
  | _ => none

/-- The number whose run an event is. -/
def Event.serves : Event V → Option ℕ
  | .ran (.user n _) _ _ _ => some n
  | _ => none

/-- Who holds the number `n`. -/
def holding (n : ℕ) : Marks V where
  cont c := c.ticket.map (·.2.n) == some n
  task k := k.ticket.map (·.2.n) == some n
  event e := e.serves == some n

/-- All but the guard and the runs. -/
def unguarded : List Part :=
  [.plain, .data, .pages, .starts, .counts, .edits, .locks, .inserts, .writes, .docs]

theorem cont_no_ticket {c : Cont V} (h : c.part ∈ unguarded) : c.ticket = none := by
  cases c with
  | classify q t => exact absurd (show Part.runs ∈ unguarded from h) (by decide)
  | guardDialog q t => exact absurd (show Part.runs ∈ unguarded from h) (by decide)
  | _ => rfl

theorem task_no_ticket {k : Task V} (h : k.part ∈ unguarded) : k.ticket = none := by
  cases k with
  | guarded q t => exact absurd (show Part.runs ∈ unguarded from h) (by decide)
  | askRun q t => exact absurd (show Part.runs ∈ unguarded from h) (by decide)
  | _ => rfl

theorem event_serves_none {e : Event V} (h : e.part ∈ unguarded) : e.serves = none := by
  cases e with
  | ran why k q done => exact absurd (show Part.runs ∈ unguarded from h) (by decide)
  | _ => rfl

theorem keeps_holding (n N : ℕ) : Keeps unguarded fun s : Dock V => s.tally (holding n) = N :=
  Dock.keeps_tally (by decide) (fun c hc => by simp [holding, cont_no_ticket hc])
    (fun k hk => by simp [holding, task_no_ticket hk])
    (fun e he => by simp [holding, event_serves_none he]) N

namespace Dock
variable (env : Env V) (s : Dock V)

structure Ticketed : Prop where
  asked : ∀ n a, .asked n a ∈ s.hist → n < s.next
  waiting : ∀ c ∈ s.waiting, ∀ q t, c.ticket = some (q, t) → .asked t.n q.ask ∈ s.hist
  queued : ∀ k ∈ s.queue, ∀ q t, k.ticket = some (q, t) → .asked t.n q.ask ∈ s.hist
  once : ∀ n, s.tally (holding n) ≤ 1
  fresh : ∀ n, s.next ≤ n → s.tally (holding n) = 0

/-- The run a number may still be used for. -/
def Due (why : Why) (q : Query) : Prop :=
  match why with
  | .user n _ => .asked n q.ask ∈ s.hist ∧ s.tally (holding n) = 0
  | .refresh _ _ => True

variable {env s}

theorem ticketed_new : (new : Dock V).Ticketed where
  asked := fun _ _ h => (List.not_mem_nil h).elim
  waiting := fun _ h => (List.not_mem_nil h).elim
  queued := fun _ h => (List.not_mem_nil h).elim
  once := fun n => by
    rw [tally_new]
    exact Nat.zero_le 1
  fresh := fun _ _ => tally_new _

theorem Ticketed.tell {e : Event V} (h : s.Ticketed) (ha : ∀ n a, e = .asked n a → n < s.next)
    (he : ∀ n, e.serves = some n → s.tally (holding n) = 0 ∧ n < s.next) : (s.tell e).Ticketed where
  asked := fun n a hm => by
    rcases List.mem_cons.mp hm with heq | hm
    · exact ha n a heq.symm
    · exact h.asked n a hm
  waiting := fun c hc q t ht => List.mem_cons_of_mem _ (h.waiting c hc q t ht)
  queued := fun k hk q t ht => List.mem_cons_of_mem _ (h.queued k hk q t ht)
  once := fun n => by
    rw [tally_tell]
    by_cases hn : e.serves = some n
    · rw [(he n hn).1, Nat.zero_add]
      exact Bool.toNat_le _
    · have hoff : (holding n).event e = false := beq_false_of_ne hn
      rw [hoff]
      exact h.once n
  fresh := fun n hn => by
    rw [tally_tell]
    by_cases hs : e.serves = some n
    · exact absurd (he n hs).2 (Nat.not_lt.mpr hn)
    · have hoff : (holding n).event e = false := beq_false_of_ne hs
      rw [hoff]
      exact h.fresh n hn

theorem Ticketed.wait {c : Cont V} (h : s.Ticketed)
    (hc : ∀ q t, c.ticket = some (q, t) →
      .asked t.n q.ask ∈ s.hist ∧ s.tally (holding t.n) = 0) : (s.wait c).Ticketed where
  asked := h.asked
  waiting := fun c' hm q t ht => by
    rcases List.mem_append.mp hm with hm | hm
    · exact h.waiting c' hm q t ht
    · cases List.mem_singleton.mp hm
      exact (hc q t ht).1
  queued := h.queued
  once := fun n => by
    rw [tally_wait]
    by_cases hn : c.ticket.map (·.2.n) = some n
    · obtain ⟨⟨q, t⟩, ht, rfl⟩ := Option.map_eq_some_iff.mp hn
      rw [(hc q t ht).2, Nat.zero_add]
      exact Bool.toNat_le _
    · have hoff : (holding n).cont c = false := beq_false_of_ne hn
      rw [hoff]
      exact h.once n
  fresh := fun n hn => by
    rw [tally_wait]
    by_cases hs : c.ticket.map (·.2.n) = some n
    · obtain ⟨⟨q, t⟩, ht, rfl⟩ := Option.map_eq_some_iff.mp hs
      exact absurd (h.asked _ _ (hc q t ht).1) (Nat.not_lt.mpr hn)
    · have hoff : (holding n).cont c = false := beq_false_of_ne hs
      rw [hoff]
      exact h.fresh n hn

theorem Ticketed.later {k : Task V} (h : s.Ticketed)
    (hk : ∀ q t, k.ticket = some (q, t) →
      .asked t.n q.ask ∈ s.hist ∧ s.tally (holding t.n) = 0) : (s.later k).Ticketed where
  asked := h.asked
  waiting := h.waiting
  queued := fun k' hm q t ht => by
    rcases List.mem_append.mp hm with hm | hm
    · exact h.queued k' hm q t ht
    · cases List.mem_singleton.mp hm
      exact (hk q t ht).1
  once := fun n => by
    rw [tally_later]
    by_cases hn : k.ticket.map (·.2.n) = some n
    · obtain ⟨⟨q, t⟩, ht, rfl⟩ := Option.map_eq_some_iff.mp hn
      rw [(hk q t ht).2, Nat.zero_add]
      exact Bool.toNat_le _
    · have hoff : (holding n).task k = false := beq_false_of_ne hn
      rw [hoff]
      exact h.once n
  fresh := fun n hn => by
    rw [tally_later]
    by_cases hs : k.ticket.map (·.2.n) = some n
    · obtain ⟨⟨q, t⟩, ht, rfl⟩ := Option.map_eq_some_iff.mp hs
      exact absurd (h.asked _ _ (hk q t ht).1) (Nat.not_lt.mpr hn)
    · have hoff : (holding n).task k = false := beq_false_of_ne hs
      rw [hoff]
      exact h.fresh n hn

theorem keeps_ticketed (V : Type) : Keeps unguarded (Ticketed : Dock V → Prop) where
  plain := by decide
  face := fun _ h => ⟨h.asked, h.waiting, h.queued, h.once, h.fresh⟩
  pend := fun _ h => ⟨h.asked, h.waiting, h.queued, h.once, h.fresh⟩
  tell := fun {s e} he h => by
    refine h.tell (fun n a heq => ?_) fun n hn => ?_
    · subst heq
      exact absurd (show Part.runs ∈ unguarded from he) (by decide)
    · rw [event_serves_none he] at hn
      cases hn
  wait := fun hc h => h.wait fun q t ht => by
    rw [cont_no_ticket hc] at ht
    cases ht
  later := fun hk h => h.later fun q t ht => by
    rw [task_no_ticket hk] at ht
    cases ht
  next := fun hn h =>
    ⟨fun n a hm => (h.asked n a hm).trans_le hn, h.waiting, h.queued, h.once,
      fun n hle => h.fresh n (hn.trans hle)⟩
  source := fun _ h => ⟨h.asked, h.waiting, h.queued, h.once, h.fresh⟩
  amend := fun _ h => ⟨h.asked, h.waiting, h.queued, h.once, h.fresh⟩
  addEntry := fun h => ⟨h.asked, h.waiting, h.queued, h.once, h.fresh⟩
  data := fun _ h => ⟨h.asked, h.waiting, h.queued, h.once, h.fresh⟩
  page := fun _ h => ⟨h.asked, h.waiting, h.queued, h.once, h.fresh⟩
  count := fun _ _ h => ⟨h.asked, h.waiting, h.queued, h.once, h.fresh⟩
  register := fun _ _ h => ⟨h.asked, h.waiting, h.queued, h.once, h.fresh⟩
  bind := fun _ h => ⟨h.asked, h.waiting, h.queued, h.once, h.fresh⟩

/-- The callback that is answered gives its number up. -/
theorem Ticketed.dropped (h : s.Ticketed) {n : ℕ} {c : Cont V} (hc : s.waiting[n]? = some c) :
    (s.drop n).Ticketed ∧ ∀ q t, c.ticket = some (q, t) →
      .asked t.n q.ask ∈ (s.drop n).hist ∧ (s.drop n).tally (holding t.n) = 0 := by
  refine ⟨⟨h.asked, fun c' hm => h.waiting c' (List.mem_of_mem_eraseIdx hm), h.queued, fun m => ?_,
    fun m hm => ?_⟩, fun q t ht => ⟨h.waiting c (List.mem_of_getElem? hc) q t ht, ?_⟩⟩
  · have hle := h.once m
    rw [tally_drop (holding m) hc] at hle
    omega
  · have hzero := h.fresh m hm
    rw [tally_drop (holding m) hc] at hzero
    omega
  · have hle := h.once t.n
    have hon : (holding t.n).cont c = true := by simp [holding, ht]
    rw [tally_drop (holding t.n) hc, hon, Bool.toNat_true] at hle
    omega

/-- The closure that runs gives its number up. -/
theorem Ticketed.popped (h : s.Ticketed) {k : Task V} {ks : List (Task V)} (hq : s.queue = k :: ks) :
    ({ s with queue := ks } : Dock V).Ticketed ∧ ∀ q t, k.ticket = some (q, t) →
      .asked t.n q.ask ∈ s.hist ∧ ({ s with queue := ks } : Dock V).tally (holding t.n) = 0 := by
  refine ⟨⟨h.asked, h.waiting, fun k' hm => h.queued k' (hq ▸ List.mem_cons_of_mem _ hm),
    fun m => ?_, fun m hm => ?_⟩,
    fun q t ht => ⟨h.queued k (hq ▸ List.mem_cons_self ..) q t ht, ?_⟩⟩
  · have hle := h.once m
    rw [tally_pop (holding m) hq] at hle
    omega
  · have hzero := h.fresh m hm
    rw [tally_pop (holding m) hq] at hzero
    exact Nat.eq_zero_of_add_eq_zero_right hzero
  · have hle := h.once t.n
    have hon : (holding t.n).task k = true := by simp [holding, ht]
    rw [tally_pop (holding t.n) hq, hon, Bool.toNat_true] at hle
    omega

theorem clear_hist (q : Query) : ∃ es, (s.clear env q).hist = es ++ s.hist := by
  have hcancel : s.cancelEdit.hist = s.hist := by
    unfold cancelEdit
    split <;> rfl
  have hcount : ∀ s' : Dock V, ∃ es, (s'.countRows env q).hist = es ++ s'.hist := fun s' => by
    unfold countRows fetchTotal
    split
    · split
      · split
        · exact ⟨[_], rfl⟩
        · exact ⟨[], rfl⟩
      · exact ⟨[], rfl⟩
    · exact ⟨[], rfl⟩
  have hrelog : ∀ s' : Dock V, s'.relog.hist = s'.hist := fun s' => by
    unfold relog
    split <;> rfl
  obtain ⟨es, hes⟩ := hcount { s.cancelEdit.retarget q none 0 with page := none }
  refine ⟨es, ?_⟩
  unfold clear
  rw [hrelog]
  show (countRows env _ q).hist = es ++ s.hist
  rw [hes, ← hcancel]
  rfl

theorem clear_holding (q : Query) (n : ℕ) :
    (s.clear env q).tally (holding n) = s.tally (holding n) :=
  (keeps_holding n (s.tally (holding n))).clear (by decide) (by decide) (by decide) rfl q

/-- A number nobody holds was not run for. -/
theorem clear_unserved {n : ℕ} (h : s.tally (holding n) = 0) (q : Query) :
    ∀ e ∈ (s.clear env q).hist, e.serves ≠ some n := by
  intro e he
  have hzero : (s.clear env q).tally (holding n) = 0 := (clear_holding q n).trans h
  have hcount : (s.clear env q).hist.countP (holding n).event = 0 := by
    unfold tally at hzero
    omega
  exact beq_eq_false_iff_ne.mp (Bool.eq_false_iff.mpr (List.countP_eq_zero.mp hcount e he))

theorem Ticketed.run (h : s.Ticketed) {why : Why} {q : Query} (hd : s.Due why q) (offset : ℕ)
    (done : Option ℕ) : (s.run env why q offset done).Ticketed := by
  unfold Dock.run
  split
  · have hcancel : s.cancelEdit.Ticketed := (keeps_ticketed V).cancelEdit h
    exact hcancel.tell (fun n a heq => by cases heq) fun n hn => by cases hn
  have hclear : (s.clear env q).Ticketed :=
    (keeps_ticketed V).clear (by decide) (by decide) (by decide) h q
  have hgrows : ∃ es, (s.clear env q).hist = es ++ s.hist := clear_hist q
  obtain ⟨es, hes⟩ := hgrows
  have htell : ((s.clear env q).tell
      (.ran why ((s.clear env q).heap.length - 1) q done)).Ticketed := by
    refine hclear.tell (fun n a heq => by cases heq) fun n hn => ?_
    cases why with
    | refresh browse on => cases hn
    | user m judged =>
      cases hn
      refine ⟨by rw [clear_holding]; exact hd.2, hclear.asked n q.ask ?_⟩
      rw [hes]
      exact List.mem_append_right _ hd.1
  exact htell.wait fun _ _ ht => by cases ht

theorem Ticketed.want (h : s.Ticketed) (q : Query) :
    (s.want q).Ticketed ∧ .asked s.next q.ask ∈ (s.want q).hist ∧
      (s.want q).tally (holding s.next) = 0 := by
  have hnext : ({ s with next := s.next + 1 } : Dock V).Ticketed :=
    (keeps_ticketed V).next (Nat.le_succ _) h
  have htell : (({ s with next := s.next + 1 } : Dock V).tell (.asked s.next q.ask)).Ticketed := by
    refine hnext.tell (fun n a heq => ?_) fun _ hn => by cases hn
    cases heq
    exact Nat.lt_succ_self _
  have htally := tally_tell (s := s) (holding s.next) (.asked s.next q.ask)
  refine ⟨htell, List.mem_cons_self .., ?_⟩
  show (s.tell (.asked s.next q.ask)).tally (holding s.next) = 0
  rw [htally, h.fresh _ le_rfl]
  rfl

theorem Ticketed.judged (h : s.Ticketed) {q : Query} {t : Ticket}
    (ht : .asked t.n q.ask ∈ s.hist ∧ s.tally (holding t.n) = 0) (dangerous : Bool) :
    (s.judged q t dangerous).Ticketed := by
  unfold Dock.judged
  split
  · exact h.later fun q' t' heq => by
      cases heq
      exact ht
  · exact h.later fun q' t' heq => by
      cases heq
      exact ht

theorem Ticketed.runGuarded (h : s.Ticketed) (q : Query) (notify : Bool) :
    (s.runGuarded env q notify).Ticketed := by
  obtain ⟨hw, hfree⟩ := h.want q
  unfold Dock.runGuarded
  dsimp only
  split
  · split
    · exact hw.judged hfree _
    · have htell : ((s.want q).tell (.classified q.conn.driver q.statement)).Ticketed :=
        (keeps_ticketed V).tell (show Part.plain ∈ unguarded by decide) hw
      refine htell.wait fun q' t' heq => ?_
      cases heq
      exact ⟨List.mem_cons_of_mem _ hfree.1, by rw [tally_tell, hfree.2]; rfl⟩
  · exact hw.judged hfree _

theorem Ticketed.again (h : s.Ticketed) (q : Query) : (s.again env q).Ticketed := by
  obtain ⟨hw, hfree⟩ := h.want q
  have hdue : (s.want q).Due (.user s.next none) { q with origin := none } := hfree
  exact hw.run hdue 0 none

theorem Ticketed.finish (h : s.Ticketed) (done : Option ℕ) (ok : Bool) :
    (s.finish done ok).Ticketed := by
  cases done with
  | none => exact h
  | some n => exact h.tell (fun _ _ heq => by cases heq) fun _ hn => by cases hn

theorem Ticketed.land (h : s.Ticketed) (offset : ℕ) (done : Option ℕ) :
    (s.land env offset done).Ticketed := by
  have ho : (Dock.openDock { s with face := { s.face with view := .result } }).Ticketed :=
    (keeps_ticketed V).openDock ((keeps_ticketed V).face (.inl (.inl rfl)) h)
  unfold Dock.land
  dsimp only
  split
  · exact ho
  · exact ((keeps_ticketed V).gotoPage ho offset).finish done true

theorem Ticketed.settle (h : s.Ticketed) (k : ℕ) {st : CallStatus} (hst : st ≠ .running)
    (offset : ℕ) (done : Option ℕ) : (s.settle k st offset done).Ticketed := by
  unfold Dock.settle
  dsimp only
  split
  · exact ((keeps_ticketed V).settled h k hst).later fun _ _ ht => by cases ht
  · exact ((keeps_ticketed V).settled h k hst).later fun _ _ ht => by cases ht

theorem Ticketed.register (h : s.Ticketed) {cid : CallId} (hu : s.unissued cid = true) (k : ℕ)
    (q : Query) (offset : ℕ) (done : Option ℕ) : (s.register env k q offset done cid).Ticketed := by
  have hi : (s.issue cid (some q)).Ticketed := (keeps_ticketed V).register (by decide) hu h
  have hw : ((s.issue cid (some q)).wait (.watch k offset done)).Ticketed :=
    hi.wait fun _ _ ht => by cases ht
  exact (keeps_ticketed V).evict
    ((keeps_ticketed V).data (by decide) ((keeps_ticketed V).bind (by decide) hw)) _ _

theorem Ticketed.step {i : Input V} {t : Dock V} (h : s.Ticketed) (hst : s.step env i = some t) :
    t.Ticketed := by
  refine (keeps_ticketed V).step (by decide) h (fun q notify _ => h.runGuarded q notify)
    (fun k _ => (keeps_ticketed V).openCached (by decide) (by decide) h k) (fun _ => ?_)
    (fun hed => (keeps_ticketed V).edited (by decide) (by decide) (by decide)
      (fun _ _ _ _ _ h' => (keeps_ticketed V).writeRow (by decide) h' _ _ _ _ _) hed h hst)
    (fun k ks _ hq => ?_) (fun n r c _ hc hr => ?_) hst
  · unfold Dock.rerunCall
    split
    · exact h.again _
    · exact h
  · obtain ⟨hp, hfree⟩ := h.popped hq
    refine (keeps_ticketed V).perform hp (fun done _ => hp.finish done false)
      (fun offset done _ => hp.land offset done) (fun q t heq => ?_) (fun q t heq => ?_)
      (fun n on plan statement target _ => hp.wait fun _ _ ht => by cases ht) (fun on target _ => ?_)
    · subst heq
      have hdue : ({ s with queue := ks } : Dock V).Due (.user t.n (some false)) q := hfree q t rfl
      exact hp.run hdue 0 t.done
    · subst heq
      refine hp.wait fun q' t' heq => ?_
      cases heq
      exact hfree q t rfl
    · unfold Dock.refresh
      split
      · rename_i statement _
        have hdue : ({ s with queue := ks } : Dock V).Due
            (.refresh (({ s with queue := ks } : Dock V).browseOf target) on.id)
            ⟨on, statement, s.origin.map Origin.source⟩ := trivial
        exact hp.run hdue _ _
      · exact hp
  · obtain ⟨hd, hfree⟩ := h.dropped hc
    refine hr.keeps (fun hp => (keeps_ticketed V).answeredRest (by decide) hr hp hd)
      (fun cid _ p _ => (keeps_ticketed V).turn (by decide) hd cid p) (fun _ _ _ _ _ _ => hd)
      (fun k q offset done cid _ hu => hd.register hu k q offset done)
      (fun k offset done st _ hst => hd.settle k hst offset done)
      (fun q t b heq _ => ?_) (fun q t heq _ => ?_) (fun q t heq => hd.finish t.done false)
      (fun _ _ _ => hd)
    · subst heq
      exact hd.judged (hfree q t rfl) b
    · subst heq
      obtain ⟨ha, hz⟩ := hfree q t rfl
      have htell : ((s.drop n).tell (.confirmed t.n)).Ticketed :=
        hd.tell (fun _ _ heq => by cases heq) fun _ hn => by cases hn
      have hdue : ((s.drop n).tell (.confirmed t.n)).Due (.user t.n (some true)) q :=
        ⟨List.mem_cons_of_mem _ ha, by rw [tally_tell, hz]; rfl⟩
      exact htell.run hdue 0 t.done

end Dock
end LvimDb.Result
