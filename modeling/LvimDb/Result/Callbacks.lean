import LvimDb.Result.Coherence
import LvimDb.Result.Tally

/-!
# What a run calls back

`on_done` is passed on from the guard to the run, from the run's request to its state, and
from there to the closure that calls it; the log entry leaves `running` with the state.
-/

namespace LvimDb.Result
open Engine (ConnId CallId CallStatus)

variable {V : Type}

/-- The `on_done` a callback or a closure holds. -/
def Cont.done : Cont V → Option ℕ
  | .run _ _ _ done | .watch _ _ done => done
  | .classify _ t | .guardDialog _ t => t.done
  | _ => none

def Task.done : Task V → Option ℕ
  | .failed done | .landed _ done => done
  | .guarded _ t | .askRun _ t => t.done
  | _ => none

/-- The `on_done` an event calls. -/
def Event.calls : Event V → Option ℕ
  | .finished n _ => some n
  | _ => none

/-- The log entry and the `on_done` of a run's request. -/
def Cont.awaits : Cont V → Option (ℕ × ℕ)
  | .run k _ _ done | .watch k _ done => done.map (k, ·)
  | _ => none

/-- Who holds `on_done` number `n` or has called it. -/
def doneOf (n : ℕ) : Marks V where
  cont c := c.done == some n
  task k := k.done == some n
  event e := e.calls == some n

namespace Dock
variable (env : Env V) (s : Dock V)

/-- No request or closure of `n` is left. -/
def Idle (n : ℕ) : Prop := (∀ c ∈ s.waiting, c.done ≠ some n) ∧ ∀ k ∈ s.queue, k.done ≠ some n

/-- How often `on_done` was called. -/
def calledBack (n : ℕ) : ℕ := s.hist.countP (doneOf n).event

/-- A run that is judged or confirmed does not raise when it has an `on_done`. -/
def Smooth (t : Ticket) : Prop := t.notify = true → s.cancelRaises = false

/-- An execute whose run has an `on_done` is answered with a call, and neither the run's
`cancel_edit` nor the render of its closure raises. -/
def Answered : Input V → Prop
  | .answer n .failed =>
    match s.waiting[n]? with
    | some (.run _ _ _ (some _)) => False
    | _ => True
  | .answer n (.answer true) =>
    match s.waiting[n]? with
    | some (.guardDialog _ t) => s.Smooth t
    | _ => True
  | .tick =>
    match s.queue with
    | .landed _ (some _) :: _ =>
      raises { s with face := { s.face with view := .result } } = false
    | .guarded _ t :: _ => s.Smooth t
    | _ => True
  | _ => True

instance (t : Ticket) : Decidable (s.Smooth t) :=
  inferInstanceAs (Decidable (t.notify = true → s.cancelRaises = false))

instance (i : Input V) : Decidable (s.Answered i) := by
  unfold Answered
  rcases i with _ | _ <;> (try dsimp only) <;> try infer_instance
  · rcases s.queue with _ | ⟨k, _⟩
    · infer_instance
    · rcases k with _ | _ | ⟨_, _ | _⟩ | _ <;> infer_instance
  · rename_i n r
    rcases r with _ | _ <;> (try dsimp only) <;> try infer_instance
    · rcases s.waiting[n]? with _ | _ | ⟨_, _, _, _ | _⟩ | _ <;> infer_instance
    · rename_i yes
      rcases yes with _ | _ <;> (try dsimp only) <;> try infer_instance
      rcases s.waiting[n]? with _ | _ | _ <;> infer_instance

/-- Every `on_done` is in one place at most, and where none is lost that of a run in exactly
one; `miss` has just been taken from where it was. -/
structure Owed (strict : Bool) (miss : Option ℕ) : Prop where
  once : ∀ n, s.tally (doneOf n) ≤ 1
  fresh : ∀ n, s.next ≤ n → s.tally (doneOf n) = 0
  held : strict = true → ∀ why k q n, .ran why k q (some n) ∈ s.hist → miss ≠ some n →
    s.tally (doneOf n) = 1
  gap : ∀ n, miss = some n → n < s.next ∧ s.tally (doneOf n) = 0

/-- A request of the run `n` with the log entry `k` is on its way. -/
def Awaits (k n : ℕ) : Prop := ∃ c ∈ s.waiting, c.awaits = some (k, n)

/-- No run with an `on_done` was stopped, and its log entry is marked running only while its request
is on its way; `gap` is the one whose answer is being taken. -/
structure Settling (gap : Option (ℕ × ℕ)) : Prop where
  started : ∀ n, .raised (some n) ∉ s.hist
  entries : ∀ why k q n, .ran why k q (some n) ∈ s.hist →
    ∃ e, s.heap[k]? = some e ∧ (e.state = .running → s.Awaits k n ∨ gap = some (k, n))

variable {env s} {strict : Bool} {miss : Option ℕ}

/-! ### The callbacks -/

theorem owed_new : (new : Dock V).Owed strict none where
  once := fun n => by
    rw [tally_new]
    exact Nat.zero_le 1
  fresh := fun _ _ => tally_new _
  held := fun _ _ _ _ _ h => (List.not_mem_nil h).elim
  gap := fun _ h => by cases h

theorem beq_toNat (x : Option ℕ) (n : ℕ) : (x == some n).toNat = if x = some n then 1 else 0 := by
  by_cases h : x = some n
  · rw [if_pos h, h]
    simp
  · rw [if_neg h, beq_false_of_ne h]
    rfl

/-- Whoever gets what is missing. -/
theorem Owed.repaid {t : Dock V} (h : s.Owed strict miss) (hnext : s.next ≤ t.next)
    (hran : ∀ why k q n, .ran why k q (some n) ∈ t.hist → miss ≠ some n →
      ∃ why k q, .ran why k q (some n) ∈ s.hist)
    (htally : ∀ n, t.tally (doneOf n) = s.tally (doneOf n) + (miss == some n).toNat) :
    t.Owed strict none where
  once := fun n => by
    have ho := h.once n
    have ht := htally n
    rw [beq_toNat] at ht
    split at ht
    · have hg := (h.gap n ‹_›).2
      omega
    · omega
  fresh := fun n hn => by
    have hf := h.fresh n (hnext.trans hn)
    have ht := htally n
    rw [beq_toNat] at ht
    split at ht
    · have hg := (h.gap n ‹_›).1
      omega
    · omega
  held := fun hs why k q n hm _ => by
    have ht := htally n
    rw [beq_toNat] at ht
    split at ht
    · have hg := (h.gap n ‹_›).2
      omega
    · rename_i hne
      obtain ⟨why', k', q', hm'⟩ := hran why k q n hm hne
      have hh := h.held hs why' k' q' n hm' hne
      omega
  gap := fun _ hn => by cases hn

/-- Whoever gives up what he holds. -/
theorem Owed.lent {t : Dock V} (h : s.Owed strict none) (hnext : t.next = s.next) (hhist : t.hist = s.hist)
    (htally : ∀ n, s.tally (doneOf n) = t.tally (doneOf n) + (miss == some n).toNat) :
    t.Owed strict miss where
  once := fun n => by
    have ho := h.once n
    have ht := htally n
    omega
  fresh := fun n hn => by
    have hf := h.fresh n (hnext ▸ hn)
    have ht := htally n
    omega
  held := fun hs why k q n hm hne => by
    have hh := h.held hs why k q n (hhist ▸ hm) nofun
    have ht := htally n
    rw [beq_toNat, if_neg hne] at ht
    omega
  gap := fun n hn => by
    have ho := h.once n
    have ht := htally n
    rw [beq_toNat, if_pos hn] at ht
    refine ⟨?_, by omega⟩
    by_contra hle
    have hf := h.fresh n (by omega)
    omega

theorem Owed.dropped (h : s.Owed strict none) {n : ℕ} {c : Cont V} (hc : s.waiting[n]? = some c) :
    (s.drop n).Owed strict c.done :=
  h.lent rfl rfl fun m => tally_drop (doneOf m) hc

theorem Owed.popped (h : s.Owed strict none) {k : Task V} {ks : List (Task V)} (hq : s.queue = k :: ks) :
    ({ s with queue := ks } : Dock V).Owed strict k.done :=
  h.lent rfl rfl fun m => tally_pop (doneOf m) hq

theorem Owed.wait {c : Cont V} (h : s.Owed strict miss) (hc : c.done = miss) : (s.wait c).Owed strict none := by
  subst hc
  exact h.repaid le_rfl (fun why k q n hm _ => ⟨why, k, q, hm⟩) fun n => tally_wait (doneOf n) c

theorem Owed.later {k : Task V} (h : s.Owed strict miss) (hk : k.done = miss) : (s.later k).Owed strict none := by
  subst hk
  exact h.repaid le_rfl (fun why k q n hm _ => ⟨why, k, q, hm⟩) fun n => tally_later (doneOf n) k

/-- All but what runs. -/
def undone : List Part :=
  [.plain, .data, .pages, .counts, .edits, .locks, .inserts, .writes, .docs]

theorem cont_no_done {c : Cont V} (h : c.part ∈ undone) : c.done = none := by
  cases c with
  | run k q offset done => exact absurd (show Part.starts ∈ undone from h) (by decide)
  | watch k offset done => exact absurd (show Part.runs ∈ undone from h) (by decide)
  | classify q t => exact absurd (show Part.runs ∈ undone from h) (by decide)
  | guardDialog q t => exact absurd (show Part.runs ∈ undone from h) (by decide)
  | _ => rfl

theorem task_no_done {k : Task V} (h : k.part ∈ undone) : k.done = none := by
  cases k with
  | failed done => exact absurd (show Part.runs ∈ undone from h) (by decide)
  | landed offset done => exact absurd (show Part.runs ∈ undone from h) (by decide)
  | guarded q t => exact absurd (show Part.runs ∈ undone from h) (by decide)
  | askRun q t => exact absurd (show Part.runs ∈ undone from h) (by decide)
  | _ => rfl

theorem event_no_run {e : Event V} (h : e.part ∈ undone) :
    e.calls = none ∧ ∀ why k q done, e ≠ .ran why k q done := by
  cases e with
  | ran why k q done => exact absurd (show Part.runs ∈ undone from h) (by decide)
  | raised done => exact absurd (show Part.runs ∈ undone from h) (by decide)
  | finished n ok => exact absurd (show Part.runs ∈ undone from h) (by decide)
  | _ => exact ⟨rfl, fun why k q done heq => by cases heq⟩

theorem Owed.same {t : Dock V} (h : s.Owed strict miss) (hnext : s.next ≤ t.next)
    (hran : ∀ why k q done, .ran why k q done ∈ t.hist → .ran why k q done ∈ s.hist)
    (htally : ∀ n, t.tally (doneOf n) = s.tally (doneOf n)) : t.Owed strict miss where
  once := fun n => (htally n).trans_le (h.once n)
  fresh := fun n hn => (htally n).trans (h.fresh n (hnext.trans hn))
  held := fun hs why k q n hm hne =>
    (htally n).trans (h.held hs why k q n (hran _ _ _ _ hm) hne)
  gap := fun n hn => ⟨(h.gap n hn).1.trans_le hnext, (htally n).trans (h.gap n hn).2⟩

theorem Owed.tell {e : Event V} (h : s.Owed strict miss) (he : e.calls = none)
    (hr : ∀ why k q done, e ≠ .ran why k q done) : (s.tell e).Owed strict miss := by
  refine h.same le_rfl (fun why k q done hm => ?_) fun n => ?_
  · rcases List.mem_cons.mp hm with heq | hm
    · exact absurd heq.symm (hr why k q done)
    · exact hm
  · rw [tally_tell]
    simp [doneOf, he]

theorem keeps_owed (strict : Bool) (miss : Option ℕ) :
    Keeps undone (Owed (V := V) · strict miss) where
  plain := by decide
  face := fun _ h => ⟨h.once, h.fresh, h.held, h.gap⟩
  pend := fun _ h => ⟨h.once, h.fresh, h.held, h.gap⟩
  tell := fun he h => h.tell (event_no_run he).1 (event_no_run he).2
  wait := fun {s c} hc h => h.same le_rfl (fun _ _ _ _ hm => hm) fun n => by
    rw [tally_wait]
    simp [doneOf, cont_no_done hc]
  later := fun {s k} hk h => h.same le_rfl (fun _ _ _ _ hm => hm) fun n => by
    rw [tally_later]
    simp [doneOf, task_no_done hk]
  next := fun hn h => h.same hn (fun _ _ _ _ hm => hm) fun _ => rfl
  source := fun _ h => ⟨h.once, h.fresh, h.held, h.gap⟩
  amend := fun _ h => ⟨h.once, h.fresh, h.held, h.gap⟩
  addEntry := fun h => ⟨h.once, h.fresh, h.held, h.gap⟩
  data := fun _ h => ⟨h.once, h.fresh, h.held, h.gap⟩
  page := fun _ h => ⟨h.once, h.fresh, h.held, h.gap⟩
  count := fun _ _ h => ⟨h.once, h.fresh, h.held, h.gap⟩
  register := fun _ _ h => ⟨h.once, h.fresh, h.held, h.gap⟩
  bind := fun _ h => ⟨h.once, h.fresh, h.held, h.gap⟩

/-- Whoever never calls back. -/
theorem Owed.lost (h : s.Owed strict miss) (hs : strict = true → ∀ n, miss ≠ some n) :
    s.Owed strict none :=
  ⟨h.once, h.fresh, fun hst why k q n hm _ => h.held hst why k q n hm (hs hst n), nofun⟩

theorem Owed.finish {done : Option ℕ} (h : s.Owed strict done) (ok : Bool) :
    (s.finish done ok).Owed strict none := by
  cases done with
  | none => exact h
  | some n =>
    refine h.repaid le_rfl (fun why k q m hm _ => ?_) fun m => tally_tell (doneOf m) _
    rcases List.mem_cons.mp hm with heq | hm
    · cases heq
    · exact ⟨why, k, q, hm⟩

theorem Owed.run {done : Option ℕ} (h : s.Owed strict done) (why : Why) (q : Query) (offset : ℕ)
    (hr : strict = true → ∀ n, done = some n → s.cancelRaises = false) :
    (s.run env why q offset done).Owed strict none := by
  unfold Dock.run send
  split
  · rename_i hraises
    have hcancel : s.cancelEdit.Owed strict done := (keeps_owed strict done).cancelEdit h
    refine (hcancel.tell rfl fun _ _ _ _ heq => by cases heq).lost fun hs n hn => ?_
    rw [hr hs n hn] at hraises
    cases hraises
  have hc : (s.clear env q).Owed strict done := (keeps_owed strict done).clear (by decide) (by decide) (by decide) h q
  refine hc.repaid le_rfl (fun why' k' q' n hm hne => ?_) fun n => ?_
  · rcases List.mem_cons.mp hm with heq | hm
    · cases heq
      exact absurd rfl hne
    · exact ⟨why', k', q', hm⟩
  · rw [tally_wait, tally_tell]
    rfl

theorem Owed.want (h : s.Owed strict none) (q : Query) (notify : Bool) :
    (s.want q).Owed strict (Ticket.done ⟨s.next, notify⟩) := by
  have ht : (s.tell (.asked s.next q.ask)).Owed strict none := h.tell rfl nofun
  have hfresh := ht.fresh s.next le_rfl
  have hw : (s.want q).Owed strict none := (keeps_owed strict none).next (Nat.le_succ _) ht
  refine ⟨hw.once, hw.fresh, fun hs why k q' n hm _ => hw.held hs why k q' n hm nofun, fun n hn => ?_⟩
  obtain ⟨-, rfl⟩ : notify = true ∧ s.next = n := by simpa [Ticket.done] using hn
  exact ⟨Nat.lt_succ_self _, hfresh⟩

theorem Owed.judged {q : Query} {t : Ticket} (h : s.Owed strict t.done) (dangerous : Bool) :
    (s.judged q t dangerous).Owed strict none := by
  unfold Dock.judged
  split
  · exact h.later rfl
  · exact h.later rfl

theorem Owed.runGuarded (h : s.Owed strict none) (q : Query) (notify : Bool) :
    (s.runGuarded env q notify).Owed strict none := by
  have hw := h.want q notify
  unfold Dock.runGuarded
  dsimp only
  split
  · split
    · exact hw.judged _
    · have ht : ((s.want q).tell (.classified q.conn.driver q.statement)).Owed strict
          (Ticket.done ⟨s.next, notify⟩) := hw.tell rfl nofun
      exact ht.wait rfl
  · exact hw.judged _

theorem Owed.again (h : s.Owed strict none) (q : Query) : (s.again env q).Owed strict none :=
  (h.want q false).run _ _ _ fun _ _ hn => by cases hn

theorem Owed.land {offset : ℕ} {done : Option ℕ} (h : s.Owed strict done)
    (hr : strict = true → ∀ n, done = some n →
      raises { s with face := { s.face with view := .result } } = false) :
    (s.land env offset done).Owed strict none := by
  have ho : (openDock { s with face := { s.face with view := .result } }).Owed strict done :=
    (keeps_owed strict done).openDock ((keeps_owed strict done).face (.inl (.inl rfl)) h)
  unfold Dock.land
  dsimp only
  split
  · rename_i hraises
    refine ho.lost fun hs n hn => ?_
    rw [hr hs n hn] at hraises
    cases hraises
  · exact ((keeps_owed strict done).gotoPage ho offset).finish true

theorem Owed.settle {done : Option ℕ} (h : s.Owed strict done) (k : ℕ) {st : CallStatus}
    (hst : st ≠ .running) (offset : ℕ) : (s.settle k st offset done).Owed strict none := by
  have hset := (keeps_owed strict done).settled h k hst
  unfold Dock.settle
  dsimp only
  split
  · exact hset.later rfl
  · exact hset.later rfl

theorem Owed.register {done : Option ℕ} (h : s.Owed strict done) (k : ℕ) (q : Query) (offset : ℕ)
    (cid : CallId) : (s.register env k q offset done cid).Owed strict none := by
  have hi : (s.issue cid (some q)).Owed strict done := ⟨h.once, h.fresh, h.held, h.gap⟩
  have hw : ((s.issue cid (some q)).wait (.watch k offset done)).Owed strict none := hi.wait rfl
  unfold Dock.register
  refine (keeps_owed strict none).evict ?_ _ _
  exact ⟨hw.once, hw.fresh, hw.held, hw.gap⟩

theorem notify_of_done {t : Ticket} {n : ℕ} (h : t.done = some n) : t.notify = true := by
  unfold Ticket.done at h
  split at h
  · assumption
  · cases h

/-- A run with an `on_done` does not raise once it was judged. -/
theorem Answered.judged {q : Query} {t : Ticket} {ks : List (Task V)} (h : s.Answered .tick)
    (hq : s.queue = .guarded q t :: ks) {n : ℕ} (hn : t.done = some n) :
    s.cancelRaises = false := by
  have hsmooth : s.Smooth t := by simpa only [Answered, hq] using h
  exact hsmooth (notify_of_done hn)

/-- Nor once it was confirmed. -/
theorem Answered.confirmed {q : Query} {t : Ticket} {m : ℕ} (h : s.Answered (.answer m (.answer true)))
    (hc : s.waiting[m]? = some (.guardDialog q t)) {n : ℕ} (hn : t.done = some n) :
    s.cancelRaises = false := by
  have hsmooth : s.Smooth t := by simpa only [Answered, hc] using h
  exact hsmooth (notify_of_done hn)

theorem Owed.step {i : Input V} {t : Dock V} (h : s.Owed strict none)
    (hg : strict = true → s.Answered i) (hst : s.step env i = some t) : t.Owed strict none := by
  refine (keeps_owed strict none).step (by decide) h (fun q notify _ => h.runGuarded q notify)
    (fun k _ => (keeps_owed strict none).openCached (by decide) (by decide) h k) (fun _ => ?_)
    (fun hed => (keeps_owed strict none).edited (by decide) (by decide) (by decide)
      (fun _ _ _ _ _ h' => (keeps_owed strict none).writeRow (by decide) h' _ _ _ _ _) hed h hst)
    (fun k ks hi hq => ?_) (fun n r c hi hc hr => ?_) hst
  · unfold Dock.rerunCall
    split
    · exact h.again _
    · exact h
  · subst hi
    have hp := h.popped hq
    cases k with
    | render => exact (keeps_owed strict none).render hp
    | failed done => exact hp.finish false
    | landed offset done =>
      refine hp.land fun hs n hn => ?_
      cases hn
      have hraises : raises { s with face := { s.face with view := .result } } = false := by
        simpa only [Answered, hq] using hg hs
      exact hraises
    | guarded q t => exact hp.run _ _ _ fun hs n hn => (hg hs).judged hq hn
    | askRun q t => exact hp.wait rfl
    | askWrite n on plan statement target => exact hp.wait rfl
    | refresh on target =>
      unfold Dock.perform Dock.refresh
      dsimp only
      split
      · exact hp.run _ _ _ fun _ _ hn => by cases hn
      · exact hp
  · subst hi
    have hd := h.dropped hc
    by_cases hp : c.part ∈ Keeps.rest
    · have hnone : c.done = none := cont_no_done (by
        revert hp
        cases c.part <;> decide)
      rw [hnone] at hd
      exact (keeps_owed strict none).answeredRest (by decide) hr hp hd
    · cases hr with
      | turned cid offset p => exact (keeps_owed strict none).turn (by decide) hd cid p
      | refused k q offset done =>
        refine hd.lost fun hs m hm => ?_
        cases hm
        simpa only [Answered, hc] using hg hs
      | registered k q offset done cid hu => exact hd.register k q offset cid
      | settled k offset done st hne => exact hd.settle k hne offset
      | judged q t r b hb => exact hd.judged b
      | confirmed q t =>
        have ht : ((s.drop n).tell (.confirmed t.n)).Owed strict t.done := hd.tell rfl nofun
        exact ht.run _ _ _ fun hs m hm => (hg hs).confirmed hc hm
      | declined q t => exact hd.finish false
      | gone c r h1 h2 =>
        cases c with
        | page cid offset => exact hd
        | run => exact absurd rfl h2
        | watch | classify | guardDialog => exact absurd rfl h1
        | _ => simp [Cont.part, Keeps.rest] at hp
      | _ => simp [Cont.part, Keeps.rest] at hp

/-! ### The log entries -/

variable {gap : Option (ℕ × ℕ)}

theorem settling_new : (new : Dock V).Settling none where
  started := fun _ => List.not_mem_nil
  entries := fun _ _ _ _ h => (List.not_mem_nil h).elim

theorem Awaits.wait {k n : ℕ} (h : s.Awaits k n) (c : Cont V) : (s.wait c).Awaits k n :=
  h.imp fun _ hc => ⟨List.mem_append_left _ hc.1, hc.2⟩

theorem Settling.wait (h : s.Settling gap) (c : Cont V) : (s.wait c).Settling gap where
  started := h.started
  entries := fun why k q n hm => (h.entries why k q n hm).imp fun _ he =>
    ⟨he.1, fun hr => (he.2 hr).imp_left fun ha => ha.wait c⟩

theorem Settling.tell {e : Event V} (h : s.Settling gap) (hs : ∀ n, e ≠ .raised (some n))
    (hr : ∀ why k q done, e ≠ .ran why k q done) : (s.tell e).Settling gap where
  started := fun n hm => by
    rcases List.mem_cons.mp hm with heq | hm
    · exact hs n heq.symm
    · exact h.started n hm
  entries := fun why k q n hm => by
    rcases List.mem_cons.mp hm with heq | hm
    · exact absurd heq.symm (hr why k q (some n))
    · exact h.entries why k q n hm

theorem Settling.amend (h : s.Settling gap) (j : ℕ) {f : Entry → Entry}
    (hf : ∀ e, e.state ≠ .running → (f e).state ≠ .running) : (s.amend j f).Settling gap := by
  refine ⟨h.started, fun why k q n hm => ?_⟩
  obtain ⟨e, he, hr⟩ := h.entries why k q n hm
  refine ⟨_, heap_amended he, fun hrun => hr ?_⟩
  by_contra hne
  split at hrun
  · exact hf e hne hrun
  · exact hne hrun

/-- All that does not run a statement. -/
def idling : List Part :=
  [.plain, .data, .pages, .starts, .counts, .edits, .locks, .inserts, .writes, .docs]

theorem keeps_settling (gap : Option (ℕ × ℕ)) : Keeps idling (Settling (V := V) · gap) where
  plain := by decide
  face := fun _ h => ⟨h.started, h.entries⟩
  pend := fun _ h => ⟨h.started, h.entries⟩
  tell := fun {s e} he h => by
    refine h.tell (fun n heq => ?_) fun why k q done heq => ?_
    · subst heq
      exact absurd (show Part.runs ∈ idling from he) (by decide)
    · subst heq
      exact absurd (show Part.runs ∈ idling from he) (by decide)
  wait := fun _ h => h.wait _
  later := fun _ h => ⟨h.started, h.entries⟩
  next := fun _ h => ⟨h.started, h.entries⟩
  source := fun _ h => ⟨h.started, h.entries⟩
  amend := fun hf h => h.amend _ hf.state
  addEntry := fun h => ⟨h.started, fun why k q n hm =>
    (h.entries why k q n hm).imp fun _ he => ⟨heap_added he.1, he.2⟩⟩
  data := fun _ h => ⟨h.started, h.entries⟩
  page := fun _ h => ⟨h.started, h.entries⟩
  count := fun _ _ h => ⟨h.started, h.entries⟩
  register := fun _ _ h => ⟨h.started, h.entries⟩
  bind := fun _ h => h.amend _ fun _ hne => hne

theorem Settling.dropped (h : s.Settling none) {m : ℕ} {c : Cont V} (hc : s.waiting[m]? = some c) :
    (s.drop m).Settling c.awaits := by
  refine ⟨h.started, fun why k q n hm => ?_⟩
  obtain ⟨e, he, hr⟩ := h.entries why k q n hm
  refine ⟨e, he, fun hrun => ?_⟩
  obtain ⟨c', hmem, ha⟩ := (hr hrun).resolve_right nofun
  by_cases hsame : c.awaits = some (k, n)
  · exact .inr hsame
  · obtain ⟨i, hi⟩ := List.getElem?_of_mem hmem
    refine .inl ⟨c', List.mem_eraseIdx_iff_getElem?.mpr ⟨i, fun heq => ?_, hi⟩, ha⟩
    subst heq
    cases hc.symm.trans hi
    exact hsame ha

/-- The request of a run goes on as its watcher. -/
theorem Settling.passed {c : Cont V} (h : s.Settling c.awaits) : (s.wait c).Settling none := by
  refine ⟨h.started, fun why k q n hm => ?_⟩
  obtain ⟨e, he, hr⟩ := h.entries why k q n hm
  refine ⟨e, he, fun hrun => .inl ?_⟩
  rcases hr hrun with ha | hc
  · exact ha.wait c
  · exact ⟨c, List.mem_append_right _ (List.mem_singleton_self c), hc⟩

theorem Settling.settled {k : ℕ} {done : Option ℕ} (h : s.Settling (done.map (k, ·)))
    {st : CallStatus} (hst : st ≠ .running) :
    (s.amend k fun e => { e with state := st }).Settling none := by
  refine ⟨h.started, fun why j q n hm => ?_⟩
  obtain ⟨e, he, hr⟩ := h.entries why j q n hm
  refine ⟨_, heap_amended he, fun hrun => .inl ?_⟩
  split at hrun
  · exact absurd hrun hst
  · rename_i hne
    rcases hr hrun with ha | hgap
    · exact ha
    · cases done with
      | none => cases hgap
      | some m =>
        cases hgap
        exact absurd rfl hne

theorem Settling.run (h : s.Settling none) (why : Why) (q : Query) (offset : ℕ) {done : Option ℕ}
    (hr : ∀ n, done = some n → s.cancelRaises = false) :
    (s.run env why q offset done).Settling none := by
  unfold Dock.run
  split
  · rename_i hraises
    have hcancel : s.cancelEdit.Settling none := (keeps_settling none).cancelEdit h
    refine hcancel.tell (fun n heq => ?_) nofun
    cases heq
    rw [hr n rfl] at hraises
    cases hraises
  have hc : (s.clear env q).Settling none :=
    (keeps_settling none).clear (by decide) (by decide) (by decide) h q
  refine ⟨fun n hm => ?_, fun why' k q' n hm => ?_⟩
  · rcases List.mem_cons.mp hm with heq | hm
    · cases heq
    · exact hc.started n hm
  · rcases List.mem_cons.mp hm with heq | hm
    · cases heq
      exact ⟨_, clear_heap q, fun _ =>
        .inl ⟨_, List.mem_append_right _ (List.mem_singleton_self _), rfl⟩⟩
    · obtain ⟨e, he, hrun⟩ := hc.entries why' k q' n hm
      exact ⟨e, he, fun he' => (hrun he').imp_left fun ha => ha.wait _⟩

theorem Settling.finish (h : s.Settling gap) (done : Option ℕ) (ok : Bool) :
    (s.finish done ok).Settling gap := by
  cases done with
  | none => exact h
  | some n => exact h.tell nofun nofun

theorem Settling.want (h : s.Settling gap) (q : Query) : (s.want q).Settling gap :=
  (keeps_settling gap).next (Nat.le_succ _) (h.tell nofun nofun)

theorem Settling.judged (h : s.Settling gap) (q : Query) (t : Ticket) (dangerous : Bool) :
    (s.judged q t dangerous).Settling gap := by
  unfold Dock.judged
  split
  · exact ⟨h.started, h.entries⟩
  · exact ⟨h.started, h.entries⟩

theorem Settling.runGuarded (h : s.Settling gap) (q : Query) (notify : Bool) :
    (s.runGuarded env q notify).Settling gap := by
  unfold Dock.runGuarded
  dsimp only
  split
  · split
    · exact (h.want q).judged q _ _
    · have ht : ((s.want q).tell (.classified q.conn.driver q.statement)).Settling gap :=
        (h.want q).tell nofun nofun
      exact ht.wait _
  · exact (h.want q).judged q _ _

theorem Settling.land (h : s.Settling gap) (offset : ℕ) (done : Option ℕ) :
    (s.land env offset done).Settling gap := by
  have ho : (openDock { s with face := { s.face with view := .result } }).Settling gap :=
    (keeps_settling gap).openDock ((keeps_settling gap).face (.inl (.inl rfl)) h)
  unfold Dock.land
  dsimp only
  split
  · exact ho
  · exact ((keeps_settling gap).gotoPage ho offset).finish done true

theorem Settling.settle {k : ℕ} {done : Option ℕ} (h : s.Settling (done.map (k, ·)))
    {st : CallStatus} (hst : st ≠ .running) (offset : ℕ) :
    (s.settle k st offset done).Settling none := by
  have hset := (keeps_settling none).relog (h.settled hst)
  unfold Dock.settle
  dsimp only
  split
  · exact ⟨hset.started, hset.entries⟩
  · exact ⟨hset.started, hset.entries⟩

theorem Settling.register {k : ℕ} {done : Option ℕ} (h : s.Settling (done.map (k, ·))) (q : Query)
    (offset : ℕ) (cid : CallId) : (s.register env k q offset done cid).Settling none := by
  have hw : ((s.issue cid (some q)).wait (.watch k offset done)).Settling none :=
    Settling.passed (c := .watch k offset done) ⟨h.started, h.entries⟩
  unfold Dock.register
  refine (keeps_settling none).evict ?_ _ _
  exact (keeps_settling none).data (by decide) ((keeps_settling none).bind (by decide) hw)

theorem Settling.step {i : Input V} {t : Dock V} (h : s.Settling none) (hg : s.Answered i)
    (hst : s.step env i = some t) : t.Settling none := by
  refine (keeps_settling none).step (by decide) h (fun q notify _ => h.runGuarded q notify)
    (fun k _ => (keeps_settling none).openCached (by decide) (by decide) h k) (fun _ => ?_)
    (fun hed => (keeps_settling none).edited (by decide) (by decide) (by decide)
      (fun _ _ _ _ _ h' => (keeps_settling none).writeRow (by decide) h' _ _ _ _ _) hed h hst)
    (fun k ks hi hq => ?_) (fun n r c hi hc hr => ?_) hst
  · unfold Dock.rerunCall
    split
    · exact (h.want _).run _ _ _ nofun
    · exact h
  · subst hi
    have hp : ({ s with queue := ks } : Dock V).Settling none := ⟨h.started, h.entries⟩
    refine (keeps_settling none).perform hp (fun done _ => hp.finish done false)
      (fun offset done _ => hp.land offset done) (fun q t heq => ?_)
      (fun q t _ => hp.wait _) (fun n on plan statement target _ => hp.wait _) (fun on target _ => ?_)
    · subst heq
      exact hp.run _ _ _ fun n hn => hg.judged hq hn
    · unfold Dock.refresh
      split
      · exact hp.run _ _ _ nofun
      · exact hp
  · subst hi
    have hd := h.dropped hc
    by_cases hp : c.part ∈ Keeps.rest
    · have hnone : c.awaits = none := by
        cases c with
        | run k q offset done => exact absurd (show Part.starts ∈ Keeps.rest from hp) (by decide)
        | watch k offset done => exact absurd (show Part.runs ∈ Keeps.rest from hp) (by decide)
        | _ => rfl
      rw [hnone] at hd
      exact (keeps_settling none).answeredRest (by decide) hr hp hd
    · cases hr with
      | turned cid offset p => exact (keeps_settling none).turn (by decide) hd cid p
      | refused k q offset done =>
        cases done with
        | none => exact hd
        | some m => simp only [Answered, hc] at hg
      | registered k q offset done cid hu => exact hd.register q offset cid
      | settled k offset done st hne => exact hd.settle hne offset
      | judged q t r b hb => exact hd.judged q t b
      | confirmed q t =>
        have ht : ((s.drop n).tell (.confirmed t.n)).Settling none := hd.tell nofun nofun
        exact ht.run _ _ _ fun m hm => hg.confirmed hc hm
      | declined q t => exact hd.finish _ false
      | gone c r h1 h2 =>
        cases c with
        | page cid offset => exact hd
        | run => exact absurd rfl h2
        | watch | classify | guardDialog => exact absurd rfl h1
        | _ => simp [Cont.part, Keeps.rest] at hp
      | _ => simp [Cont.part, Keeps.rest] at hp

/-! ### Every run resolves -/

theorem tally_idle {n : ℕ} (h : s.Idle n) : s.tally (doneOf n) = s.calledBack n := by
  have hw : s.waiting.countP (doneOf n).cont = 0 :=
    List.countP_eq_zero.mpr fun c hc hm => h.1 c hc (beq_iff_eq.mp hm)
  have hq : s.queue.countP (doneOf n).task = 0 :=
    List.countP_eq_zero.mpr fun k hk hm => h.2 k hk (beq_iff_eq.mp hm)
  unfold tally calledBack
  omega

/-- No run is stopped before its request. It has called back at most once, and once nothing of it
is left it is settled and has called back. -/
theorem runs_resolve {is : List (Input V)} (h : (machine env).Run Answered new is s) :
    (∀ n, .raised (some n) ∉ s.hist) ∧
    ∀ why k q n, .ran why k q (some n) ∈ s.hist →
      s.calledBack n ≤ 1 ∧
        (s.Idle n → (∃ e, s.heap[k]? = some e ∧ e.state ≠ .running) ∧ s.calledBack n = 1) := by
  obtain ⟨howed, hset⟩ := h.invariant (fun s : Dock V => s.Owed true none ∧ s.Settling none)
    (fun _ _ _ hg hi hst => ⟨hi.1.step (fun _ => hg) hst, hi.2.step hg hst⟩) ⟨owed_new, settling_new⟩
  refine ⟨hset.started, fun why k q n hm => ?_⟩
  have hone : s.tally (doneOf n) = 1 := howed.held rfl why k q n hm nofun
  refine ⟨?_, fun hidle => ⟨?_, ?_⟩⟩
  · unfold tally at hone
    unfold calledBack
    omega
  · obtain ⟨e, he, hr⟩ := hset.entries why k q n hm
    refine ⟨e, he, fun hrun => ?_⟩
    obtain ⟨c, hc, ha⟩ := (hr hrun).resolve_right nofun
    refine hidle.1 c hc ?_
    cases c with
    | run j q' offset done =>
      cases done with
      | none => cases ha
      | some m =>
        cases ha
        rfl
    | watch j offset done =>
      cases done with
      | none => cases ha
      | some m =>
        cases ha
        rfl
    | _ => cases ha
  · rw [← tally_idle hidle]
    exact hone

/-- The log entry of the run whose `on_done` is `n`. -/
def runOf (s : Dock V) (n : ℕ) : Option ℕ :=
  s.hist.findSome? fun
    | .ran _ k _ (some m) => if m = n then some k else none
    | _ => none

theorem runOf_mem {k n : ℕ} (h : s.runOf n = some k) :
    ∃ why q, .ran why k q (some n) ∈ s.hist := by
  obtain ⟨e, hm, he⟩ := List.exists_of_findSome?_eq_some h
  cases e with
  | ran why j q done =>
    cases done with
    | none => cases he
    | some m =>
      dsimp only at he
      split at he
      · rename_i hmn
        cases he
        exact ⟨why, q, hmn ▸ hm⟩
      · cases he
  | _ => cases he

instance (n : ℕ) : Decidable (s.Idle n) := inferInstanceAs (Decidable (_ ∧ _))

/-- The first run as the user sees it: its log entry, its state, whether anything of it is
left and how often it called back. -/
def firstRun (s : Dock V) : Option ℕ × Option CallStatus × Bool × ℕ :=
  (s.runOf 0, (s.heap[0]?).map Entry.state, decide (s.Idle 0), s.calledBack 0)

theorem runs_resolve_one_statement :
    ∃ s, (machine tableEnv).Run Answered new
        [.run (browseOn connA "t") true, .tick, .answer 0 (.called 1), .answer 0 (.state .failed),
          .tick] s ∧
      (∃ e, s.heap[0]? = some e ∧ e.state ≠ .running) ∧ s.calledBack 0 = 1 := by
  let check := fun (s : Dock ℕ) (i : Input ℕ) => decide (s.Answered i)
  have hsome : ((machine tableEnv).execWith check new
      [.run (browseOn connA "t") true, .tick, .answer 0 (.called 1), .answer 0 (.state .failed),
        .tick]).map firstRun = some (some 0, some .failed, true, 1) := by decide
  obtain ⟨s, hs, hfirst⟩ := Option.map_eq_some_iff.mp hsome
  simp only [firstRun, Prod.mk.injEq, decide_eq_true_eq] at hfirst
  obtain ⟨why, q, hm⟩ := runOf_mem hfirst.1
  have hrun : (machine tableEnv).Run Answered new
      [.run (browseOn connA "t") true, .tick, .answer 0 (.called 1), .answer 0 (.state .failed),
        .tick] s := Lib.Machine.run_of_execWith (fun _ _ => of_decide_eq_true) hs
  exact ⟨s, hrun, ((runs_resolve hrun).2 why 0 q 0 hm).2 hfirst.2.2.1⟩

/-- The engine refuses the execute. -/
theorem refused_run_never_resolves :
    ∃ s, (machine tableEnv).exec new
        [.run (browseOn connA "t") true, .tick, .answer 0 .failed] = some s ∧
      s.firstRun = (some 0, some .running, true, 0) ∧
      ¬ ∀ why k q n, .ran why k q (some n) ∈ s.hist → s.Idle n →
        (∃ e, s.heap[k]? = some e ∧ e.state ≠ .running) ∧ s.calledBack n = 1 := by
  have hsome : ((machine tableEnv).exec new
      [.run (browseOn connA "t") true, .tick, .answer 0 .failed]).map firstRun =
      some (some 0, some .running, true, 0) := by decide
  obtain ⟨s, hs, hfirst⟩ := Option.map_eq_some_iff.mp hsome
  refine ⟨s, hs, hfirst, fun h => ?_⟩
  simp only [firstRun, Prod.mk.injEq, decide_eq_true_eq] at hfirst
  obtain ⟨why, q, hm⟩ := runOf_mem hfirst.1
  have hone := (h why 0 q 0 hm hfirst.2.2.1).2
  omega

end Dock
end LvimDb.Result
