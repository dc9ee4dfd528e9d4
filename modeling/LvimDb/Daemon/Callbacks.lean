import LvimDb.Daemon.Steps
import LvimDb.Lib.History
import LvimDb.Lib.Taken
import Mathlib.Algebra.GroupWithZero.Nat

/-!
# Every callback runs once

A callback given to `M.request` is in one place: it waits for the handshake or for its
answer, stands in a loop that is calling callbacks, or has run. An exit empties the first two,
and its loops end before the next event is looked at.
-/

namespace LvimDb.Daemon
open Lib (Justified)

/-- The callback an event is the call of. -/
def Event.runs : Event → Option Token
  | .ran n _ _ _ => some n
  | _ => none

def owns (n : Token) (o : Option Token) : Bool := o == some n

/-- How often a loop is still to call the callback `n`. -/
def Frame.held (n : Token) : Frame → ℕ
  | .failPending dead _ _ => dead.countP fun x => owns n x.2.cb.token
  | .flush ws _ _ => ws.countP fun w => owns n w.token
  | _ => 0

/-- No answer is looked at and no handshake has just succeeded. -/
def Frame.closes : Frame → Bool
  | .lines _ _ => false
  | .flush _ (.ok _) _ => false
  | _ => true

def Frame.failsWaiters : Frame → Bool
  | .failWaiters _ _ => true
  | _ => false

namespace Client

/-- How often the callback `n` waits or has run. -/
def loose (n : Token) (s : Client) : ℕ :=
  s.pending.countP (fun x => owns n x.2.cb.token) + s.waiters.countP (fun w => owns n w.token) +
    s.hist.countP fun e => owns n e.runs

/-- How often the callback `n` is somewhere or has run. -/
def tally (n : Token) (s : Client) : ℕ := s.loose n + (s.stack.map (Frame.held n)).sum

structure Balanced (s : Client) : Prop where
  keyed : s.Keyed
  count : ∀ n, s.tally n = (decide (n < s.tokens)).toNat

variable {env : Env} {s t : Client} {n : Token} {k : ℕ}

/-! ### Counting -/

theorem tally_of {fs : List Frame} (hs : s.stack = fs) :
    s.tally n = s.loose n + (fs.map (Frame.held n)).sum := by rw [tally, hs]

theorem loose_tell (s : Client) (e : Event) :
    (s.tell e).loose n = s.loose n + (owns n e.runs).toNat := by
  unfold loose tell
  dsimp only
  rw [List.countP_cons]
  cases owns n e.runs <;> simp [Nat.add_assoc]

theorem tally_tell (s : Client) (e : Event) :
    (s.tell e).tally n = s.tally n + (owns n e.runs).toNat := by
  unfold tally
  rw [loose_tell, tell_stack]
  omega

theorem tally_push (s : Client) (fs : List Frame) :
    (s.push fs).tally n = s.tally n + (fs.map (Frame.held n)).sum := by
  rw [tally_of (push_stack s fs), List.map_append, List.sum_append, tally]
  show s.loose n + _ = _
  omega

theorem loose_post (s : Client) (cb : Cb) (r : Request) :
    (s.post cb r).loose n = s.loose n + (owns n cb.token).toNat := by
  have hhist : (s.post cb r).hist.countP (fun e => owns n e.runs) =
      s.hist.countP fun e => owns n e.runs := by
    rw [post_hist]
    split
    · rw [List.countP_cons]
      rfl
    · rfl
  unfold loose
  rw [hhist, post_pending, List.countP_append, List.countP_singleton, post_waiters]
  cases owns n cb.token
  · simp
  · simp only [if_true, Bool.toNat_true]
    omega

theorem tally_post (s : Client) (cb : Cb) (r : Request) :
    (s.post cb r).tally n = s.tally n + (owns n cb.token).toNat := by
  unfold tally
  rw [loose_post, post_stack]
  omega

theorem tally_call (s : Client) (w : Waiter) (res : Except Fault Unit) (cause : Option Pid) :
    (s.call w res cause).tally n = s.tally n + (owns n w.token).toNat := by
  unfold call
  split
  · rw [tally_push]
    rfl
  · exact tally_post s _ _
  · rename_i r cb owner err
    split
    · rename_i m hm
      rw [tally_push, tally_tell]
      show _ = s.tally n + (owns n cb.token).toNat
      rw [hm]
      rfl
    · rename_i hm
      show _ = s.tally n + (owns n cb.token).toNat
      rw [hm]
      rfl

theorem tally_teardown (s : Client) (err : Fault) (cause : Option Pid) :
    (s.teardown err cause).tally n = s.tally n := by
  unfold tally loose
  rw [teardown_pending, teardown_waiters, teardown_stack, teardown_hist, List.countP_nil,
    List.countP_cons]
  simp only [List.map_cons, List.sum_cons, Frame.held]
  have hno : owns n (Event.torn s.job s.carrier cause).runs = false := rfl
  rw [hno, if_neg Bool.false_ne_true]
  omega

/-- The waiters go to a loop that calls them. -/
theorem loose_flush (s : Client) :
    s.loose n = ({ s with waiters := [] } : Client).loose n +
      s.waiters.countP fun w => owns n w.token := by
  unfold loose
  dsimp only
  rw [List.countP_nil]
  omega

theorem tally_flush (s : Client) (res : Except Fault Unit) (cause : Option Pid) :
    ({ s with waiters := [], stack := .flush s.waiters res cause :: s.stack } : Client).tally n =
      s.tally n := by
  have hf := loose_flush (n := n) s
  show ({ s with waiters := [] } : Client).loose n + _ = s.loose n + _
  rw [List.map_cons, List.sum_cons]
  simp only [Frame.held]
  omega

theorem tally_wait (s : Client) (w : Waiter) :
    ({ s with waiters := s.waiters ++ [w] } : Client).tally n =
      s.tally n + (owns n w.token).toNat := by
  unfold tally loose
  dsimp only
  rw [List.countP_append, List.countP_singleton]
  cases owns n w.token
  · simp
  · simp only [if_true, Bool.toNat_true]
    omega

theorem tally_ensure (s : Client) {w : Option Pid → Waiter} {o : Option Token}
    (hw : ∀ p, (w p).token = o) (launch : Launch) :
    (s.ensure w launch).tally n = s.tally n + (owns n o).toNat := by
  unfold ensure
  split
  · rw [tally_call, hw]
  · split
    · rw [tally_wait, hw]
    · exact (tally_flush _ _ _).trans (by rw [tally_wait, hw])
    · exact (tally_flush _ _ _).trans (by rw [tally_wait, hw])
    · rename_i bin hjob
      have hspawn : ({ s with waiters := s.waiters ++ [w (some s.procs.length)] } :
          Client).tally n = (({ s with waiters := s.waiters ++ [w (some s.procs.length)] } :
          Client).spawn bin).tally n := by
        unfold tally loose
        rw [spawn_hist, List.countP_cons]
        rfl
      rw [tally_post, ← hspawn, tally_wait, hw]
      rfl

theorem tally_greet (s : Client) (res : Answer) (cause : Option Pid) :
    (s.greet env res cause).tally n = s.tally n := by
  rcases greet_cases env s res cause with ⟨-, proto, err, heq⟩ | ⟨-, proto, engine, drivers, heq⟩
  · rw [heq]
    exact (tally_teardown _ _ _).trans (tally_flush s (.error err) cause)
  · rw [heq]
    exact tally_flush s (.ok ()) cause

theorem tally_answer (s : Client) {e : Entry} {res : Answer} (hr : raises e.cb res = false)
    (cause : Option Pid) :
    (s.answer env e res cause).tally n = s.tally n + (owns n e.cb.token).toNat := by
  obtain ⟨cb, owner⟩ := e
  cases cb with
  | hello => exact (tally_greet _ _ _).trans (tally_tell s _)
  | user m => exact (tally_push _ _).trans (tally_tell s _)
  | execute m =>
    rcases executed_cases (s.tell (.ran m res owner cause)) m res owner with
      ⟨hyes, -⟩ | ⟨-, watchers, -, heq⟩
    · exact absurd (hyes.symm.trans hr) nofun
    · show ((s.tell (.ran m res owner cause)).executed m res owner).tally n = _
      rw [heq]
      exact (tally_push _ _).trans (tally_tell s _)

/-- What is taken out of `pending` is one entry. -/
theorem tally_drop (h : s.Keyed) {x : ℕ × Entry} (hx : x ∈ s.pending) :
    s.tally n = (s.drop x.1).tally n + (owns n x.2.cb.token).toNat := by
  have hsplit : s.pending.countP (fun y => owns n y.2.cb.token) =
      (s.drop x.1).pending.countP (fun y => owns n y.2.cb.token) + (owns n x.2.cb.token).toNat := by
    obtain ⟨xs, ys, hsplit⟩ := List.append_of_mem hx
    have hd := h.distinct
    rw [hsplit, List.map_append, List.map_cons, List.nodup_append] at hd
    obtain ⟨-, hys, hxs⟩ := hd
    have hleft : xs.filter (·.1 ≠ x.1) = xs := by
      apply List.filter_eq_self.mpr
      intro y hy
      exact decide_eq_true (hxs y.1 (List.mem_map_of_mem hy) x.1 (List.mem_cons_self ..))
    have hright : ys.filter (·.1 ≠ x.1) = ys := by
      apply List.filter_eq_self.mpr
      intro y hy
      refine decide_eq_true fun heq => (List.nodup_cons.mp hys).1 ?_
      exact heq ▸ List.mem_map_of_mem hy
    rw [drop_pending, hsplit, List.filter_append, List.filter_cons_of_neg (by simp), hleft, hright,
      List.countP_append, List.countP_append, List.countP_cons]
    cases owns n x.2.cb.token
    · simp
    · simp only [if_true, Bool.toNat_true]
      omega
  unfold tally loose
  rw [hsplit, drop_waiters, drop_stack, drop_hist]
  omega

theorem addressee_mem {msg : Json} {x : ℕ × Entry} (h : s.addressee msg = some x) :
    x ∈ s.pending := by
  unfold addressee at h
  split at h
  · exact List.mem_of_find?_eq_some h
  · cases h

theorem tally_unwind (s : Client) (stack : List Frame) :
    (s.unwind stack).tally n = s.loose n + (stack.map (Frame.held n)).sum := by
  unfold unwind
  split
  · rename_i p rest stack
    have hl : ({ s.tell (.aborted p) with depth := s.depth - 1, stack := stack } : Client).loose n =
        s.loose n := loose_tell s (.aborted p)
    simp only [List.map_cons, List.sum_cons, Frame.held, Nat.zero_add]
    exact congrArg (· + _) hl
  · rfl

theorem tally_hears (h : s.Keyed) {p : Pid} {msg : Json} (hm : Hears env s p msg t) :
    t.tally n = s.tally n := by
  have hheard : (s.heard p msg).tally n = s.tally n :=
    (tally_push (s.tell (.dispatched p msg)) [.dispatch]).trans (tally_tell s _)
  have hkeyed : (s.heard p msg).Keyed := h.of (List.Sublist.refl _) le_rfl
  have hdrop : ∀ {id e}, s.addressee msg = some (id, e) →
      s.tally n = ((s.heard p msg).drop id).tally n + (owns n e.cb.token).toNat := fun ha => by
    rw [← hheard]
    have hm := addressee_mem ha
    exact tally_drop (x := (_, _)) hkeyed hm
  cases hm with
  | nobody => exact hheard
  | answered ha hr => rw [tally_answer _ hr, hdrop ha]
  | raised ha hr =>
    rw [tally_unwind, hdrop ha, loose_tell]
    show _ + _ + (List.map _ (.dispatch :: s.stack)).sum = _ + (List.map _ (.dispatch :: s.stack)).sum + _
    exact Nat.add_right_comm _ _ _
  | notified hw => exact (tally_push _ _).trans ((tally_tell (s.heard p msg) _).trans hheard)

theorem tally_go (h : s.Keyed) (hg : Goes env s k t) : t.tally n = s.tally n := by
  cases hg with
  | popped hs hf =>
    rw [tally_of hs, List.map_cons, List.sum_cons]
    rcases hf with rfl | ⟨p, rfl⟩ | ⟨err, cause, rfl⟩ | ⟨res, cause, rfl⟩ | ⟨err, cause, rfl⟩ <;>
      simp [tally, loose, Frame.held]
  | dispatched hs =>
    rw [tally_of hs, List.map_cons, List.sum_cons]
    simp [tally, loose, Frame.held]
  | skipped hs hm =>
    rw [tally_of hs]
    simp [tally, loose, Frame.held]
  | message hs hm =>
    refine (tally_hears ?_ (hears_onMessage _ _ _ _)).trans ?_
    · exact h.of (List.Sublist.refl _) le_rfl
    · rw [tally_of hs]
      simp [tally, loose, Frame.held]
  | pending hs hx =>
    rename_i dead err cause stack x
    have hr : raises x.2.cb (.error err) = false := by cases x.2.cb <;> rfl
    rw [tally_answer _ hr, tally_of hs]
    have hk := Lib.countP_eraseIdx (fun y : ℕ × Entry => owns n y.2.cb.token) hx
    show s.loose n + _ + _ = _
    simp only [List.map_cons, List.sum_cons, Frame.held]
    omega
  | waiters hs =>
    have hf := loose_flush (n := n) s
    rw [tally_of hs]
    show ({ s with waiters := [] } : Client).loose n + _ = _
    simp only [List.map_cons, List.sum_cons, Frame.held]
    omega
  | waiter hs =>
    rename_i w ws res cause stack
    rw [tally_call, tally_of hs]
    show s.loose n + _ + _ = _
    simp only [List.map_cons, List.sum_cons, Frame.held, List.countP_cons]
    cases howns : owns n w.token
    · simp
    · simp only [if_true, Bool.toNat_true]
      omega
  | hooks hs =>
    rw [tally_of hs]
    simp [tally, loose, Frame.held]
  | watcher hs hx =>
    rw [tally_of hs]
    exact (tally_push _ _).trans ((tally_tell _ _).trans (by simp [tally, loose, Frame.held]; rfl))

/-! ### Callbacks are numbered by the requests -/

theorem call_tokens (s : Client) (w : Waiter) (res : Except Fault Unit) (cause : Option Pid) :
    (s.call w res cause).tokens = s.tokens := by
  unfold call
  split
  · rfl
  · rfl
  · split <;> rfl

theorem ensure_tokens (s : Client) (w : Option Pid → Waiter) (launch : Launch) :
    (s.ensure w launch).tokens = s.tokens := by
  unfold ensure
  split
  · exact call_tokens _ _ _ _
  · split <;> rfl

theorem stop_tokens (s : Client) : s.stop.tokens = s.tokens := by
  unfold stop
  split <;> rfl

theorem answer_tokens (s : Client) (e : Entry) (res : Answer) (cause : Option Pid) :
    (s.answer env e res cause).tokens = s.tokens := by
  unfold answer
  split
  · rcases greet_cases env (s.tell (.greeted res e.owner cause)) res cause with
      ⟨-, proto, err, heq⟩ | ⟨-, proto, engine, drivers, heq⟩
    · rw [heq]
      rfl
    · rw [heq]
      rfl
  · rfl
  · rename_i m _
    rcases executed_cases (s.tell (.ran m res e.owner cause)) m res e.owner with
      ⟨-, heq⟩ | ⟨-, watchers, -, heq⟩
    · rw [heq]
      rfl
    · rw [heq]
      rfl

theorem hears_tokens {p : Pid} {msg : Json} (hm : Hears env s p msg t) : t.tokens = s.tokens := by
  cases hm with
  | nobody => rfl
  | answered ha hr =>
    rw [answer_tokens]
    rfl
  | raised ha hr =>
    rw [(unwind_fields _ _).2.2.2]
    rfl
  | notified hw => rfl

theorem go_tokens (hg : Goes env s k t) : t.tokens = s.tokens := by
  cases hg with
  | message hs hm => rw [hears_tokens (hears_onMessage _ _ _ _)]
  | pending hs hx => rw [answer_tokens]
  | waiter hs => rw [call_tokens]
  | _ => rfl

theorem balanced_new : new.Balanced where
  keyed := keyed_new
  count := fun _ => rfl

theorem Balanced.of (h : s.Balanced) (hk : t.Keyed) (ht : ∀ n, t.tally n = s.tally n)
    (htok : t.tokens = s.tokens) : t.Balanced where
  keyed := hk
  count := fun n => by rw [ht, htok, h.count]

theorem Balanced.request (h : s.Balanced) (r : Request) (execute : Bool) (launch : Launch) :
    (s.request r execute launch).Balanced where
  keyed := h.keyed.act (.request r execute launch)
  count := fun n => by
    unfold Client.request
    have htok : ({ s.tell (.issued s.tokens) with tokens := s.tokens + 1 } : Client).tally n =
        s.tally n := tally_tell s _
    have hown : ∀ p, (Waiter.request r (if execute then Cb.execute s.tokens else .user s.tokens)
        p).token = some s.tokens := fun p => by cases execute <;> rfl
    rw [tally_ensure _ hown, ensure_tokens, htok, h.count]
    by_cases hn : s.tokens = n
    · subst hn
      simp [owns]
    · have howns : owns n (some s.tokens) = false := by simp [owns, hn]
      have hiff : n < s.tokens + 1 ↔ n < s.tokens :=
        ⟨fun hlt => Nat.lt_of_le_of_ne (Nat.le_of_lt_succ hlt) (Ne.symm hn), Nat.lt_succ_of_lt⟩
      rw [howns]
      show _ = (decide (n < s.tokens + 1)).toNat
      simp only [hiff, Bool.toNat_false, Nat.add_zero]

theorem Balanced.step {i : Input} (h : s.Balanced) (hst : Steps env s i t) : t.Balanced := by
  have hk := h.keyed.step hst
  cases hst with
  | act a hc =>
    cases a with
    | request r execute launch => exact h.request r execute launch
    | ensure launch =>
      refine h.of hk (fun n => ?_) (ensure_tokens _ _ _)
      exact tally_ensure s (w := .ensured) (o := none) (fun _ => rfl) launch
    | stop =>
      refine h.of hk (fun n => ?_) (stop_tokens s)
      show s.stop.tally n = _
      unfold Client.stop
      split
      · exact tally_teardown _ _ _
      · exact tally_teardown _ _ _
  | ret hs =>
    refine h.of hk (fun n => ?_) rfl
    rw [tally_of hs]
    simp [tally, loose, Frame.held]
  | raise hs =>
    refine h.of hk (fun n => ?_) (unwind_fields _ _).2.2.2
    rw [tally_unwind, tally_of hs]
    simp [Frame.held]
  | go hg => exact h.of hk (fun n => tally_go h.keyed hg) (go_tokens hg)
  | stdout hq hs he =>
    refine h.of hk (fun n => ?_) rfl
    rename_i p chunk q
    have hfs : (s.onStdout p chunk).stack =
        [.lines p (Lib.complete s.tail (chunk.splitOn newline)).dropLast] := by
      unfold onStdout
      rw [hs]
    rw [tally_of hfs, tally_of hs]
    simp only [List.map_cons, List.map_nil, List.sum_cons, List.sum_nil, Frame.held]
    exact loose_tell s _
  | die hp => exact h.of hk (fun n => rfl) rfl
  | exit hq hs ha =>
    refine h.of hk (fun n => ?_) rfl
    exact (tally_teardown _ _ _).trans (tally_tell _ _)

/-! ### An exit empties everything -/

def Ran (n : Token) (s : Client) : Prop := ∃ e ∈ s.hist, e.runs = some n

/-- The callback `n` is to be called with an error by what is going on, if it is anywhere. -/
structure Closing (n : Token) (s : Client) : Prop where
  pending : ∀ x ∈ s.pending, x.2.cb.token ≠ some n
  waiters : (∃ w ∈ s.waiters, w.token = some n) → ∃ f ∈ s.stack, f.failsWaiters = true
  stack : ∀ f ∈ s.stack, f.closes = true

theorem Ran.grows (h : s.Ran n) (hs : s.hist <:+ t.hist) : t.Ran n :=
  h.imp fun _ he => ⟨hs.subset he.1, he.2⟩

theorem Closing.frames (h : s.Closing n) {fs : List Frame} (hs : ∀ f ∈ fs, f.closes = true) :
    (s.push fs).Closing n where
  pending := h.pending
  waiters := fun hw => (h.waiters hw).imp fun _ hf => ⟨List.mem_append_right _ hf.1, hf.2⟩
  stack := fun f hf => (List.mem_append.mp hf).elim (hs f) (h.stack f)

theorem Closing.tell (h : s.Closing n) (e : Event) : (s.tell e).Closing n :=
  ⟨h.pending, h.waiters, h.stack⟩

theorem closes_body : ∀ f ∈ [Frame.body], f.closes = true := by
  intro f hf
  rw [List.mem_singleton.mp hf]
  rfl

theorem Closing.post (h : s.Closing n) {cb : Cb} (hcb : cb.token ≠ some n) (r : Request) :
    (s.post cb r).Closing n where
  pending := fun x hx => by
    rcases List.mem_append.mp hx with hx | hx
    · exact h.pending x hx
    · rw [List.mem_singleton.mp hx]
      exact hcb
  waiters := h.waiters
  stack := h.stack

theorem Closing.call (h : s.Closing n) {w : Waiter} {res : Except Fault Unit}
    (hw : res = .ok () → w.token ≠ some n) (cause : Option Pid) :
    (s.call w res cause).Closing n := by
  unfold Client.call
  split
  · exact h.frames closes_body
  · exact h.post (hw rfl) _
  · split
    · exact (h.tell _).frames closes_body
    · exact h

/-- A teardown takes what is pending, and comes to what waits. -/
theorem closing_teardown (hs : ∀ f ∈ s.stack, f.closes = true) (err : Fault) (cause : Option Pid) :
    (s.teardown err cause).Closing n where
  pending := fun _ hx => (List.not_mem_nil hx).elim
  waiters := fun _ => ⟨.failWaiters err cause, by simp, rfl⟩
  stack := fun f hf => by
    rw [teardown_stack] at hf
    simp only [List.mem_cons] at hf
    rcases hf with rfl | rfl | rfl | hf
    · rfl
    · rfl
    · rfl
    · exact hs f hf

theorem Closing.ensure (h : s.Closing n) {w : Option Pid → Waiter} (hw : ∀ p, (w p).token ≠ some n)
    (launch : Launch) : (s.ensure w launch).Closing n := by
  have hwait : ∀ p, ({ s with waiters := s.waiters ++ [w p] } : Client).Closing n := fun p => by
    refine ⟨h.pending, fun ⟨v, hv, hn⟩ => h.waiters ⟨v, ?_, hn⟩, h.stack⟩
    rcases List.mem_append.mp hv with hv | hv
    · exact hv
    · exact absurd (List.mem_singleton.mp hv ▸ hn) (hw p)
  have hrefuse : ∀ p text, (({ s with waiters := s.waiters ++ [w p] } : Client).refuse text).Closing
      n := fun p text => by
    refine ⟨h.pending, fun ⟨v, hv, _⟩ => (List.not_mem_nil hv).elim, fun f hf => ?_⟩
    rcases List.mem_cons.mp hf with rfl | hf
    · rfl
    · exact h.stack f hf
  unfold Client.ensure
  split
  · exact h.call (fun _ => hw _) none
  · split
    · exact hwait _
    · exact hrefuse _ _
    · exact hrefuse _ _
    · refine Closing.post ?_ (fun heq => by cases heq) _
      have hnew := hwait (some s.procs.length)
      exact ⟨hnew.pending, hnew.waiters, hnew.stack⟩

/-- An answer with an error, as the loops of a teardown give it. -/
theorem Closing.answer (h : s.Closing n) (e : Entry) (err : Fault) (cause : Option Pid) :
    (s.answer env e (.error err) cause).Closing n := by
  unfold Client.answer
  split
  · rcases greet_cases env (s.tell (.greeted (.error err) e.owner cause)) (.error err) cause with
      ⟨-, proto, err', heq⟩ | ⟨hgood, -⟩
    · rw [heq]
      refine closing_teardown (fun f hf => ?_) _ _
      rcases List.mem_cons.mp hf with rfl | hf
      · rfl
      · exact h.stack f hf
    · cases hgood
  · exact (h.tell _).frames closes_body
  · rename_i m _
    exact (h.tell _).frames closes_body

/-- The frame on top is taken, and another comes in its place. -/
theorem Closing.under (h : s.Closing n) {f : Frame} {stack fs : List Frame}
    (hs : s.stack = f :: stack) (hf : f.failsWaiters = false) (hfs : ∀ g ∈ fs, g.closes = true) :
    ({ s with stack := fs ++ stack } : Client).Closing n where
  pending := h.pending
  waiters := fun hw => by
    obtain ⟨g, hg, hfail⟩ := h.waiters hw
    rw [hs] at hg
    rcases List.mem_cons.mp hg with rfl | hg
    · rw [hf] at hfail
      cases hfail
    · exact ⟨g, List.mem_append_right _ hg, hfail⟩
  stack := fun g hg => by
    rcases List.mem_append.mp hg with hg | hg
    · exact hfs g hg
    · exact h.stack g (hs ▸ List.mem_cons_of_mem _ hg)

theorem Closing.go (h : s.Closing n) (hg : Goes env s k t) : t.Closing n := by
  have hnil : ∀ g ∈ ([] : List Frame), g.closes = true := fun _ hg => (List.not_mem_nil hg).elim
  have hone : ∀ f : Frame, f.closes = true → ∀ g ∈ [f], g.closes = true := fun f hf g hg =>
    List.mem_singleton.mp hg ▸ hf
  have htop : ∀ f stack, s.stack = f :: stack → f.closes = true := fun f stack hs =>
    h.stack f (hs ▸ List.mem_cons_self ..)
  cases hg with
  | popped hs hf =>
    refine h.under hs ?_ hnil
    rcases hf with rfl | ⟨p, rfl⟩ | ⟨err, cause, rfl⟩ | ⟨res, cause, rfl⟩ | ⟨err, cause, rfl⟩ <;> rfl
  | dispatched hs =>
    have hu := h.under hs rfl hnil
    exact ⟨hu.pending, hu.waiters, hu.stack⟩
  | skipped hs hm => exact absurd (htop _ _ hs) Bool.false_ne_true
  | message hs hm => exact absurd (htop _ _ hs) Bool.false_ne_true
  | pending hs hx => exact Closing.answer (h.under hs rfl (hone (.failPending _ _ _) rfl)) _ _ _
  | waiters hs =>
    rename_i err cause stack
    refine ⟨h.pending, fun ⟨w, hw, _⟩ => (List.not_mem_nil hw).elim, fun f hf => ?_⟩
    rcases List.mem_cons.mp hf with rfl | hf
    · rfl
    · exact h.stack f (hs ▸ List.mem_cons_of_mem _ hf)
  | waiter hs =>
    rename_i w ws res cause stack
    cases res with
    | ok _ => exact absurd (htop _ _ hs) Bool.false_ne_true
    | error err =>
      exact Closing.call (h.under hs rfl (hone (.flush ws (.error err) cause) rfl))
        (fun heq => by cases heq) _
  | hooks hs =>
    rename_i err cause stack
    have hu := h.under hs rfl (hone (.failWatchers s.watchers err cause) rfl)
    exact ⟨hu.pending, hu.waiters, hu.stack⟩
  | watcher hs hx =>
    rename_i dead err cause stack w
    have hu := h.under hs rfl (hone (.failWatchers (dead.eraseIdx k) err cause) rfl)
    exact (hu.tell _).frames closes_body

theorem Closing.act (h : s.Closing n) (hn : n < s.tokens) (a : Action) : (s.act a).Closing n := by
  cases a with
  | request r execute launch =>
    refine Closing.ensure ?_ (fun p => ?_) launch
    · exact ⟨h.pending, h.waiters, h.stack⟩
    · have hne : s.tokens ≠ n := Nat.ne_of_gt hn
      cases execute <;> exact fun heq => hne (Option.some.inj heq)
  | ensure launch => exact h.ensure (fun _ heq => by cases heq) launch
  | stop =>
    show s.stop.Closing n
    unfold Client.stop
    split
    · refine closing_teardown ?_ _ _
      exact h.stack
    · exact closing_teardown h.stack _ _

/-- Between two events a callback that was closing has run. -/
theorem Closing.ran (h : s.Closing n) (hb : s.Balanced) (hn : n < s.tokens) (hs : s.stack = []) :
    s.Ran n := by
  have hcount := hb.count n
  have hpending : s.pending.countP (fun x => owns n x.2.cb.token) = 0 := by
    rw [List.countP_eq_zero]
    exact fun x hx howns => h.pending x hx (eq_of_beq howns)
  have hwaiters : s.waiters.countP (fun w => owns n w.token) = 0 := by
    rw [List.countP_eq_zero]
    intro w hw howns
    obtain ⟨f, hf, -⟩ := h.waiters ⟨w, hw, eq_of_beq howns⟩
    rw [hs] at hf
    cases hf
  rw [tally_of hs, loose, hpending, hwaiters, decide_eq_true hn] at hcount
  have hpos : 0 < s.hist.countP fun e => owns n e.runs := by
    simp only [List.map_nil, List.sum_nil, Bool.toNat_true] at hcount
    omega
  obtain ⟨e, he, howns⟩ := List.countP_pos_iff.mp hpos
  exact ⟨e, he, eq_of_beq howns⟩

theorem leaving_step {i : Input} (h : s.Ran n ∨ s.Closing n) (hb : s.Balanced) (hn : n < s.tokens)
    (hst : Steps env s i t) : t.Ran n ∨ t.Closing n := by
  rcases h with h | h
  · exact .inl (h.grows (hist_step hst))
  · cases hst with
    | act a hc => exact .inr (h.act hn a)
    | ret hs =>
      exact .inr (h.under hs rfl fun _ hg => (List.not_mem_nil hg).elim)
    | raise hs =>
      refine .inr ?_
      unfold Client.unwind
      split
      · rename_i p rest stack
        have hlines : (Frame.lines p rest).closes = true := h.stack _ (by rw [hs]; simp)
        cases hlines
      · exact h.under hs rfl fun _ hg => (List.not_mem_nil hg).elim
    | go hg => exact .inr (h.go hg)
    | stdout hq hs he => exact .inl ((h.ran hb hn hs).grows (List.suffix_cons _ _))
    | die hp => exact .inr ⟨h.pending, h.waiters, h.stack⟩
    | exit hq hs ha =>
      exact .inl ((h.ran hb hn hs).grows ((List.suffix_cons _ _).trans (List.suffix_cons _ _)))

/-! ### Runs -/

structure Served (s : Client) : Prop where
  balanced : s.Balanced
  numbered : ∀ n, .issued n ∈ s.hist → n < s.tokens
  leaving : ∀ pre p, (.exited p :: pre) <:+ s.hist → ∀ n, .issued n ∈ pre → s.Ran n ∨ s.Closing n

theorem served_new : new.Served where
  balanced := balanced_new
  numbered := fun _ h => (List.not_mem_nil h).elim
  leaving := fun _ _ h => absurd (List.suffix_nil.mp h) (List.cons_ne_nil _ _)

/-- A request is issued under the next number, and nothing else is issued. -/
theorem numbered_step {i : Input} (h : ∀ n, .issued n ∈ s.hist → n < s.tokens)
    (hst : Steps env s i t) : ∀ n, .issued n ∈ t.hist → n < t.tokens := by
  intro n hn
  cases hst with
  | act a hc =>
    cases a with
    | request r execute launch =>
      have hm := ((grows_ensure _ _ _).mem rfl).mp hn
      have htok : (s.request r execute launch).tokens = s.tokens + 1 := ensure_tokens _ _ _
      show n < (s.request r execute launch).tokens
      rw [htok]
      rcases List.mem_cons.mp hm with heq | hm
      · cases heq
        exact Nat.lt_succ_self _
      · exact Nat.lt_succ_of_lt (h n hm)
    | ensure launch =>
      show n < (s.ensure Waiter.ensured launch).tokens
      rw [ensure_tokens]
      exact h n (((grows_ensure _ _ _).mem rfl).mp hn)
    | stop =>
      show n < s.stop.tokens
      rw [stop_tokens]
      exact h n (((grows_stop _).mem rfl).mp hn)
  | ret hs => exact h n hn
  | raise hs =>
    rw [(unwind_fields _ _).2.2.2]
    exact h n (((grows_unwind _ _).mem rfl).mp hn)
  | go hg =>
    rw [go_tokens hg]
    exact h n (((grows_handled hg).mem rfl).mp hn)
  | stdout hq hs he => exact h n ((List.mem_cons.mp hn).resolve_left (fun heq => by cases heq))
  | die hp => exact h n hn
  | exit hq hs ha =>
    have hm := (List.mem_cons.mp hn).resolve_left (fun heq => by cases heq)
    exact h n ((List.mem_cons.mp hm).resolve_left (fun heq => by cases heq))

theorem Served.step {i : Input} (h : s.Served) (hst : Steps env s i t) : t.Served where
  balanced := h.balanced.step hst
  numbered := numbered_step h.numbered hst
  leaving := fun pre p hpre n hn => by
    have hold : (.exited p :: pre) <:+ s.hist → t.Ran n ∨ t.Closing n := fun hs => by
      refine leaving_step (h.leaving pre p hs n hn) h.balanced (h.numbered n ?_) hst
      exact hs.subset (List.mem_cons_of_mem _ hn)
    cases hst with
    | act a hc =>
      cases a with
      | request r execute launch =>
        refine hold ?_
        have hs := (grows_ensure _ _ _).past rfl hpre
        exact (List.suffix_cons_iff.mp hs).resolve_left (fun heq => by cases heq)
      | ensure launch => exact hold ((grows_ensure _ _ _).past rfl hpre)
      | stop => exact hold ((grows_stop _).past rfl hpre)
    | ret hs => exact hold hpre
    | raise hs => exact hold ((grows_unwind _ _).past rfl hpre)
    | go hg => exact hold ((grows_handled hg).past rfl hpre)
    | stdout hq hs he =>
      exact hold ((List.suffix_cons_iff.mp hpre).resolve_left (fun heq => by cases heq))
    | die hp => exact hold hpre
    | exit hq hs ha =>
      refine .inr (closing_teardown (fun f hf => ?_) _ _)
      rw [show _ = [] from hs] at hf
      cases hf

/-- How often the callback `n` was called. -/
def timesRun (n : Token) (s : Client) : ℕ := s.hist.countP fun e => owns n e.runs

theorem callbacks_once {is : List Input} (h : (machine env).Run Lib.Machine.free new is s) :
    (∀ n, s.timesRun n ≤ 1) ∧
    (s.stack = [] → ∀ pre p, (.exited p :: pre) <:+ s.hist → ∀ n, .issued n ∈ pre →
      s.timesRun n = 1) := by
  have hs : s.Served := h.invariant Served
    (fun s i t _ hs hst => hs.step (steps_of_step hst)) served_new
  have honce : ∀ n, s.timesRun n ≤ 1 := fun n => by
    have hcount := hs.balanced.count n
    have hle := Bool.toNat_le (decide (n < s.tokens))
    unfold tally loose at hcount
    unfold timesRun
    omega
  refine ⟨honce, fun hstack pre p hpre n hn => ?_⟩
  have hlt : n < s.tokens := hs.numbered n (hpre.subset (List.mem_cons_of_mem _ hn))
  have hran : s.Ran n := by
    rcases hs.leaving pre p hpre n hn with hran | hclosing
    · exact hran
    · exact hclosing.ran hs.balanced hlt hstack
  obtain ⟨e, he, hruns⟩ := hran
  have hpos : 0 < s.timesRun n := List.countP_pos_iff.mpr ⟨e, he, by rw [owns, hruns]; simp⟩
  have hle := honce n
  omega

/-- No line decodes. -/
def deafEnv : Env where
  decode := fun _ => none
  tonumber := fun _ => none

/-- A process dies before it has answered the handshake, and its exit is handled. -/
def earlyExit : List Input :=
  [.act (.request ⟨"conn.list", none⟩ false (.works "loded")), .die 0, .exit 0] ++
    List.replicate 7 (.go 0) ++ [.ret] ++ List.replicate 6 (.go 0)

theorem callbacks_once_early_exit :
    ∃ s, (machine deafEnv).Run Lib.Machine.free new earlyExit s ∧ s.timesRun 0 = 1 ∧
      (∀ n, s.timesRun n ≤ 1) ∧
      (s.stack = [] → ∀ pre p, (.exited p :: pre) <:+ s.hist → ∀ n, .issued n ∈ pre →
        s.timesRun n = 1) := by
  have hsome : ((machine deafEnv).exec new earlyExit).map (timesRun 0) = some 1 := by decide
  obtain ⟨s, hs, htimes⟩ := Option.map_eq_some_iff.mp hsome
  have hrun : (machine deafEnv).Run Lib.Machine.free new earlyExit s := Lib.Machine.run_of_exec hs
  exact ⟨s, hrun, htimes, callbacks_once hrun⟩

end Client
end LvimDb.Daemon
