import LvimDb.Daemon.Client
import Mathlib.Data.List.Nodup

/-!
# What one step does

Every step of the module's own code by the frame it takes, and what a message, an answer
and a handshake come to.
-/

namespace LvimDb.Daemon

/-- The handshake is answered as it should be. -/
def greets (env : Env) (res : Answer) : Bool :=
  match helloReply env res with
  | .ok (_, proto) => accepts proto
  | .error _ => false

namespace Client
variable {env : Env} {s t : Client} {k : ℕ}

/-- A step of the module's own code. -/
inductive Goes (env : Env) (s : Client) (n : ℕ) : Client → Prop
  | popped {f : Frame} {stack : List Frame} (hs : s.stack = f :: stack)
      (hf : f = .caught ∨ (∃ p, f = .lines p []) ∨ (∃ err cause, f = .failPending [] err cause) ∨
        (∃ res cause, f = .flush [] res cause) ∨ ∃ err cause, f = .failWatchers [] err cause) :
      Goes env s n { s with stack := stack }
  | dispatched {stack : List Frame} (hs : s.stack = .dispatch :: stack) :
      Goes env s n { s with depth := s.depth - 1, stack := stack }
  | skipped {p : Pid} {line : Bytes} {rest : List Bytes} {stack : List Frame}
      (hs : s.stack = .lines p (line :: rest) :: stack) (hm : env.message line = none) :
      Goes env s n { s with stack := .lines p rest :: stack }
  | message {p : Pid} {line : Bytes} {rest : List Bytes} {stack : List Frame} {msg : Json}
      (hs : s.stack = .lines p (line :: rest) :: stack) (hm : env.message line = some msg) :
      Goes env s n (({ s with stack := .lines p rest :: stack } : Client).onMessage env p msg)
  | pending {dead : List (ℕ × Entry)} {err : Fault} {cause : Option Pid} {stack : List Frame}
 {x : ℕ × Entry}
      (hs : s.stack = .failPending dead err cause :: stack)
      (hx : dead[n]? = some x) :
      Goes env s n (({ s with stack := .failPending (dead.eraseIdx n) err cause :: stack } :
        Client).answer env x.2 (.error err) cause)
  | waiters {err : Fault} {cause : Option Pid} {stack : List Frame}
      (hs : s.stack = .failWaiters err cause :: stack) :
      Goes env s n { s with waiters := [], stack := .flush s.waiters (.error err) cause :: stack }
  | waiter {w : Waiter} {ws : List Waiter} {res : Except Fault Unit} {cause : Option Pid}
      {stack : List Frame} (hs : s.stack = .flush (w :: ws) res cause :: stack) :
      Goes env s n (({ s with stack := .flush ws res cause :: stack } : Client).call w res cause)
  | hooks {err : Fault} {cause : Option Pid} {stack : List Frame}
      (hs : s.stack = .hooks err cause :: stack) :
      Goes env s n { s with watchers := [], stack := .failWatchers s.watchers err cause :: stack }
  | watcher {dead : List Watcher} {err : Fault} {cause : Option Pid} {stack : List Frame}
      {w : Watcher} (hs : s.stack = .failWatchers dead err cause :: stack)
      (hx : dead[n]? = some w) :
      Goes env s n ((({ s with stack := .failWatchers (dead.eraseIdx n) err cause :: stack } :
        Client).tell (.stated w.token (.error err) w.owner cause)).push [.body])

theorem goes_of_go {n : ℕ} (h : s.go env n = some t) : Goes env s n t := by
  unfold go at h
  split at h
  · rename_i p rest stack hs
    split at h
    · cases h
      exact .popped hs (.inr (.inl ⟨p, rfl⟩))
    · split at h
      · rename_i msg hm
        cases h
        exact .message hs hm
      · rename_i hm
        cases h
        exact .skipped hs hm
  · rename_i stack hs
    cases h
    exact .popped hs (.inl rfl)
  · rename_i stack hs
    cases h
    exact .dispatched hs
  · rename_i dead err cause stack hs
    split at h
    · rename_i x hx
      cases h
      exact .pending hs hx
    · split at h
      · rename_i hnil
        cases h
        exact .popped hs (.inr (.inr (.inl ⟨err, cause, by rw [hnil]⟩)))
      · cases h
  · rename_i err cause stack hs
    cases h
    exact .waiters hs
  · rename_i ws res cause stack hs
    split at h
    · cases h
      exact .popped hs (.inr (.inr (.inr (.inl ⟨res, cause, rfl⟩))))
    · cases h
      exact .waiter hs
  · rename_i err cause stack hs
    cases h
    exact .hooks hs
  · rename_i dead err cause stack hs
    split at h
    · rename_i w hw
      cases h
      exact .watcher hs hw
    · split at h
      · rename_i hnil
        cases h
        exact .popped hs (.inr (.inr (.inr (.inr ⟨err, cause, by rw [hnil]⟩))))
      · cases h
  · cases h

/-- What the handshake's callback does. -/
theorem greet_cases (env : Env) (s : Client) (res : Answer) (cause : Option Pid) :
    (greets env res = false ∧ ∃ proto err, s.greet env res cause =
      ({ s with waiters := [], proto := proto } : Client).helloFailed s.waiters err cause) ∨
    (greets env res = true ∧ ∃ proto engine drivers, s.greet env res cause =
      ({ s with
        waiters := []
        proto := proto
        engine := engine
        drivers := drivers
        ready := true
        stack := .flush s.waiters (.ok ()) cause :: s.stack } : Client)) := by
  unfold greet greets
  cases helloReply env res with
  | error err => exact .inl ⟨rfl, s.proto, err, rfl⟩
  | ok x =>
    obtain ⟨j, proto⟩ := x
    by_cases hacc : accepts proto = true
    · refine .inr ⟨hacc, ?_⟩
      dsimp only
      rw [if_pos hacc]
      exact ⟨proto, _, _, rfl⟩
    · refine .inl ⟨Bool.eq_false_iff.mpr hacc, ?_⟩
      dsimp only
      rw [if_neg hacc]
      exact ⟨proto, _, rfl⟩

/-- What the closure of `M.execute` does: the user's callback runs, and a watcher of the answer's
process may be kept. -/
theorem executed_cases (s : Client) (n : Token) (res : Answer) (owner : Option Pid) :
    (raises (.execute n) res = true ∧ s.executed n res owner = s) ∨
    (raises (.execute n) res = false ∧ ∃ watchers : List Watcher,
      (∀ w ∈ watchers, w ∈ s.watchers ∨ ((∃ r, res = .ok r) ∧ w.owner = owner)) ∧
      s.executed n res owner = ({ s with watchers := watchers } : Client).push [.body]) := by
  unfold executed raises
  match res with
  | .error err => exact .inr ⟨rfl, s.watchers, fun w hw => .inl hw, rfl⟩
  | .ok none => exact .inr ⟨rfl, s.watchers, fun w hw => .inl hw, rfl⟩
  | .ok (some j) =>
    dsimp only
    by_cases hj : j.isTable = true
    · rw [if_pos hj, hj]
      cases hc : j.field "call_id" with
      | none => exact .inl ⟨rfl, rfl⟩
      | some c =>
        refine .inr ⟨rfl, _, fun w hw => ?_, rfl⟩
        rcases List.mem_append.mp hw with hw | hw
        · exact .inl (List.mem_of_mem_filter hw)
        · rw [List.mem_singleton.mp hw]
          exact .inr ⟨⟨_, rfl⟩, rfl⟩
    · rw [if_neg hj, Bool.eq_false_iff.mpr hj]
      exact .inr ⟨rfl, s.watchers, fun w hw => .inl hw, rfl⟩

/-- A message is logged and its handling begun. -/
@[simps] def heard (s : Client) (p : Pid) (msg : Json) : Client :=
  { s.tell (.dispatched p msg) with
    depth := s.depth + 1
    stack := .dispatch :: s.stack }

/-- `pending[id] = nil`. -/
@[simps] def drop (s : Client) (id : ℕ) : Client := { s with pending := s.pending.filter (·.1 ≠ id) }

/-- What a message comes to. -/
inductive Hears (env : Env) (s : Client) (p : Pid) (msg : Json) : Client → Prop
  | nobody (ha : s.addressee msg = none) : Hears env s p msg (s.heard p msg)
  | answered {id : ℕ} {e : Entry} (ha : s.addressee msg = some (id, e))
      (hr : raises e.cb (answerOf msg) = false) :
      Hears env s p msg (((s.heard p msg).drop id).answer env e (answerOf msg) (some p))
  | raised {id : ℕ} {n : Token} {owner : Option Pid}
      (ha : s.addressee msg = some (id, ⟨.execute n, owner⟩))
      (hr : raises (.execute n) (answerOf msg) = true) :
      Hears env s p msg ((((s.heard p msg).drop id).tell
        (.ran n (answerOf msg) owner (some p))).unwind (.dispatch :: s.stack))
  | notified {w : Watcher} {params : Json} (hw : s.watched msg = some (w, params))
      (ha : s.addressee msg = none) (hid : (msg.field "id").isSome = false) :
      Hears env s p msg ((({ s.heard p msg with watchers := s.watchers.filter (· ≠ w) } :
        Client).tell (.stated w.token (.ok params) w.owner (some p))).push [.body, .caught])

theorem hears_onMessage (env : Env) (s : Client) (p : Pid) (msg : Json) :
    Hears env s p msg (s.onMessage env p msg) := by
  unfold onMessage
  dsimp only
  split
  · split
    · rename_i id e ha
      split
      · rename_i hr
        obtain ⟨cb, owner⟩ := e
        cases cb with
        | hello => cases hr
        | user n => cases hr
        | execute n =>
          rcases executed_cases ((((s.heard p msg).drop id).tell
            (.ran n (answerOf msg) owner (some p)))) n (answerOf msg) owner with ⟨-, heq⟩ | ⟨hno, -⟩
          · have hraised : Hears env s p msg _ := .raised ha hr
            unfold answer
            rw [← heq] at hraised
            exact hraised
          · rw [hr] at hno
            cases hno
      · rename_i hr
        exact .answered ha (Bool.eq_false_iff.mpr hr)
    · rename_i ha
      exact .nobody ha
  · rename_i hid
    have ha : s.addressee msg = none := by
      unfold addressee
      cases hfield : msg.field "id" with
      | none => rfl
      | some j =>
        rw [hfield] at hid
        exact absurd rfl hid
    split
    · rename_i w params hw
      exact .notified hw ha (Bool.eq_false_iff.mpr hid)
    · exact .nobody ha

/-- A step by its input. -/
inductive Steps (env : Env) (s : Client) : Input → Client → Prop
  | act (a : Action) (hc : s.coding = true) : Steps env s (.act a) (s.act a)
  | ret {stack : List Frame} (hs : s.stack = .body :: stack) :
      Steps env s .ret { s with stack := stack }
  | raise {stack : List Frame} (hs : s.stack = .body :: stack) :
      Steps env s .raise (s.unwind stack)
  | go {n : ℕ} {t : Client} (hg : Goes env s n t) : Steps env s (.go n) t
  | stdout {p : Pid} {chunk : Bytes} {q : Proc} (hq : s.procs[p]? = some q) (hs : s.stack = [])
      (he : q.exited = false) : Steps env s (.stdout p chunk) (s.onStdout p chunk)
  | die {p : Pid} (hp : p < s.procs.length) :
      Steps env s (.die p) { s with procs := s.procs.modify p fun q => { q with alive := false } }
  | exit {p : Pid} {q : Proc} (hq : s.procs[p]? = some q) (hs : s.stack = []) (ha : q.alive = false) :
      Steps env s (.exit p)
        ((({ s with procs := s.procs.modify p fun q => { q with exited := true } } : Client).tell
          (.exited p)).teardown (.text "daemon exited") (some p))

theorem steps_of_step {i : Input} (h : s.step env i = some t) : Steps env s i t := by
  cases i with
  | act a =>
    simp only [step, Option.ite_none_right_eq_some] at h
    obtain ⟨hc, h⟩ := h
    cases h
    exact .act a hc
  | ret =>
    simp only [step] at h
    split at h
    · rename_i stack hs
      cases h
      exact .ret hs
    · cases h
  | raise =>
    simp only [step] at h
    split at h
    · rename_i stack hs
      cases h
      exact .raise hs
    · cases h
  | go n => exact .go (goes_of_go h)
  | stdout p chunk =>
    simp only [step] at h
    split at h
    · rename_i q hq
      simp only [Option.ite_none_right_eq_some, Bool.and_eq_true, List.isEmpty_iff,
        Bool.not_eq_true'] at h
      obtain ⟨⟨hs, he⟩, h⟩ := h
      cases h
      exact .stdout hq hs he
    · cases h
  | die p =>
    simp only [step, Option.ite_none_right_eq_some] at h
    obtain ⟨hp, h⟩ := h
    cases h
    exact .die hp
  | exit p =>
    simp only [step] at h
    split at h
    · rename_i q hq
      simp only [Option.ite_none_right_eq_some, Bool.and_eq_true, List.isEmpty_iff,
        Bool.not_eq_true'] at h
      obtain ⟨⟨⟨hs, ha⟩, -⟩, h⟩ := h
      cases h
      exact .exit hq hs ha
    · cases h

/-- An error leaves the loop over the lines, or is caught before. -/
theorem unwind_cases (s : Client) (stack : List Frame) :
    (∃ p rest stack', stack = .dispatch :: .lines p rest :: stack' ∧ s.unwind stack =
      { s with depth := s.depth - 1, stack := stack', hist := .aborted p :: s.hist }) ∨
    ((∀ p rest stack', stack ≠ .dispatch :: .lines p rest :: stack') ∧
      s.unwind stack = { s with stack := stack }) := by
  unfold unwind
  split
  · exact .inl ⟨_, _, _, rfl, rfl⟩
  · rename_i hno
    exact .inr ⟨fun p rest stack' heq => hno p rest stack' heq, rfl⟩

theorem unwind_fields (s : Client) (stack : List Frame) :
    (s.unwind stack).pending = s.pending ∧ (s.unwind stack).idSeq = s.idSeq ∧
      (s.unwind stack).waiters = s.waiters ∧ (s.unwind stack).tokens = s.tokens := by
  unfold unwind
  split <;> exact ⟨rfl, rfl, rfl, rfl⟩

/-! ### What happened stays -/

/-- What happened between the two is of the kind `ok`. -/
def Grows (ok : Event → Bool) (s t : Client) : Prop :=
  ∃ es, t.hist = es ++ s.hist ∧ ∀ e ∈ es, ok e = true

/-- An event of the client's own doing, that is neither a request nor a message. -/
def inner : Event → Bool
  | .spawned _ | .sent _ _ _ _ | .ran _ _ _ _ | .greeted _ _ _ | .stated _ _ _ _ | .torn _ _ _ => true
  | _ => false

theorem grows_same {ok : Event → Bool} (h : t.hist = s.hist) : Grows ok s t :=
  ⟨[], h, fun _ he => (List.not_mem_nil he).elim⟩

theorem grows_one {ok : Event → Bool} {e : Event} (h : t.hist = e :: s.hist) (he : ok e = true) :
    Grows ok s t :=
  ⟨[e], h, fun _ hm => List.mem_singleton.mp hm ▸ he⟩

theorem Grows.trans {ok : Event → Bool} {u : Client} (h : Grows ok s t) (h' : Grows ok t u) :
    Grows ok s u := by
  obtain ⟨es, hes, hok⟩ := h
  obtain ⟨es', hes', hok'⟩ := h'
  refine ⟨es' ++ es, by rw [hes', hes, List.append_assoc], fun e he => ?_⟩
  rcases List.mem_append.mp he with he | he
  · exact hok' e he
  · exact hok e he

theorem Grows.suffix {ok : Event → Bool} (h : Grows ok s t) : s.hist <:+ t.hist := by
  obtain ⟨es, hes, -⟩ := h
  exact ⟨es, hes.symm⟩

theorem Grows.weaken {ok ok' : Event → Bool} (h : Grows ok s t) (hw : ∀ e, ok e = true → ok' e = true) :
    Grows ok' s t :=
  h.imp fun _ hes => ⟨hes.1, fun e he => hw e (hes.2 e he)⟩

/-- An event of another kind was there before. -/
theorem Grows.mem {ok : Event → Bool} (h : Grows ok s t) {e : Event} (he : ok e = false) :
    e ∈ t.hist ↔ e ∈ s.hist := by
  refine ⟨fun hm => ?_, fun hm => h.suffix.subset hm⟩
  obtain ⟨es, hes, hok⟩ := h
  rw [hes] at hm
  rcases List.mem_append.mp hm with hm | hm
  · rw [hok e hm] at he
    cases he
  · exact hm

theorem Grows.past {ok : Event → Bool} (h : Grows ok s t) {e : Event} (he : ok e = false)
    {pre : List Event} (hs : (e :: pre) <:+ t.hist) : (e :: pre) <:+ s.hist := by
  obtain ⟨es, hes, hok⟩ := h
  rw [hes] at hs
  clear hes
  induction es with
  | nil => exact hs
  | cons a es ih =>
    rcases List.suffix_cons_iff.mp hs with heq | hs
    · obtain ⟨rfl, -⟩ := List.cons.inj heq
      rw [hok e (List.mem_cons_self ..)] at he
      cases he
    · exact ih hs fun a ha => hok a (List.mem_cons_of_mem _ ha)

theorem grows_post (s : Client) (cb : Cb) (r : Request) : Grows inner s (s.post cb r) := by
  cases hj : s.job with
  | none => exact grows_same (by rw [post_hist, hj])
  | some p => exact grows_one (e := .sent p _ _ _) (by rw [post_hist, hj]) rfl

theorem grows_call (s : Client) (w : Waiter) (res : Except Fault Unit) (cause : Option Pid) :
    Grows inner s (s.call w res cause) := by
  unfold call
  split
  · exact grows_same rfl
  · exact grows_post _ _ _
  · split
    · exact grows_one rfl rfl
    · exact grows_same rfl

theorem grows_teardown (s : Client) (err : Fault) (cause : Option Pid) :
    Grows inner s (s.teardown err cause) := grows_one rfl rfl

theorem grows_ensure (s : Client) (w : Option Pid → Waiter) (launch : Launch) :
    Grows inner s (s.ensure w launch) := by
  unfold ensure
  split
  · exact grows_call _ _ _ _
  · split
    · exact grows_same rfl
    · exact grows_same rfl
    · exact grows_same rfl
    · refine Grows.trans ?_ (grows_post _ _ _)
      exact grows_one rfl rfl

theorem grows_stop (s : Client) : Grows inner s s.stop := by
  unfold stop
  split
  · exact grows_one rfl rfl
  · exact grows_one rfl rfl

theorem grows_answer (s : Client) (e : Entry) (res : Answer) (cause : Option Pid) :
    Grows inner s (s.answer env e res cause) := by
  unfold answer
  split
  · rcases greet_cases env (s.tell (.greeted res e.owner cause)) res cause with
      ⟨-, proto, err, heq⟩ | ⟨-, proto, engine, drivers, heq⟩
    · rw [heq]
      refine Grows.trans ?_ (grows_teardown _ _ _)
      exact grows_one rfl rfl
    · rw [heq]
      exact grows_one rfl rfl
  · exact grows_one rfl rfl
  · rename_i m _
    rcases executed_cases (s.tell (.ran m res e.owner cause)) m res e.owner with
      ⟨-, heq⟩ | ⟨-, watchers, -, heq⟩
    · rw [heq]
      exact grows_one rfl rfl
    · rw [heq]
      exact grows_one rfl rfl

/-- An event that follows a message. -/
def ensuing (e : Event) : Bool :=
  match e with
  | .aborted _ => true
  | e => inner e

theorem ensuing_of_inner (e : Event) (h : inner e = true) : ensuing e = true := by
  cases e with
  | aborted p => rfl
  | _ => exact h

theorem grows_unwind (s : Client) (stack : List Frame) : Grows ensuing s (s.unwind stack) := by
  unfold unwind
  split
  · exact grows_one rfl rfl
  · exact grows_same rfl

theorem grows_hears {p : Pid} {msg : Json} (hm : Hears env s p msg t) :
    Grows ensuing (s.heard p msg) t := by
  cases hm with
  | nobody => exact grows_same rfl
  | answered ha hr =>
    refine Grows.weaken ?_ ensuing_of_inner
    exact (grows_same rfl).trans (grows_answer ((s.heard p msg).drop _) _ _ _)
  | raised ha hr =>
    refine Grows.trans ?_ (grows_unwind _ _)
    exact grows_one rfl rfl
  | notified hw => exact grows_one rfl rfl

/-- An event of the module's own code. -/
def handled (e : Event) : Bool :=
  match e with
  | .dispatched _ _ => true
  | e => ensuing e

theorem grows_handled (hg : Goes env s k t) : Grows handled s t := by
  have hinner : ∀ e, inner e = true → handled e = true := by
    intro e he
    cases e with
    | dispatched p msg => rfl
    | aborted p => rfl
    | _ => exact he
  cases hg with
  | message hs hm =>
    refine Grows.trans ?_ ((grows_hears (hears_onMessage _ _ _ _)).weaken ?_)
    · exact grows_one rfl rfl
    · intro e he
      cases e with
      | dispatched p msg => rfl
      | _ => exact he
  | pending hs hx =>
    refine Grows.trans ?_ ((grows_answer _ _ _ _).weaken hinner)
    exact grows_same rfl
  | waiter hs =>
    refine Grows.trans ?_ ((grows_call _ _ _ _).weaken hinner)
    exact grows_same rfl
  | watcher hs hx => exact grows_one rfl rfl
  | _ => exact grows_same rfl

/-- What running code does is logged after its request. -/
theorem hist_act (s : Client) (a : Action) : s.hist <:+ (s.act a).hist := by
  cases a with
  | request r execute launch =>
    refine List.IsSuffix.trans ?_ (grows_ensure _ _ _).suffix
    exact List.suffix_cons _ _
  | ensure launch => exact (grows_ensure _ _ _).suffix
  | stop => exact (grows_stop s).suffix

theorem hist_step {i : Input} (hst : Steps env s i t) : s.hist <:+ t.hist := by
  cases hst with
  | act a hc => exact hist_act s a
  | raise hs => exact (grows_unwind s _).suffix
  | go hg => exact (grows_handled hg).suffix
  | stdout hq hs he => exact List.suffix_cons _ _
  | exit hq hs ha => exact (List.suffix_cons _ _).trans (List.suffix_cons _ _)
  | _ => exact List.suffix_refl _

/-! ### Ids -/

/-- Ids are drawn once. -/
structure Keyed (s : Client) : Prop where
  distinct : (s.pending.map Prod.fst).Nodup
  drawn : ∀ x ∈ s.pending, x.1 ≤ s.idSeq

theorem Keyed.of (h : s.Keyed) (hp : t.pending.Sublist s.pending) (hid : s.idSeq ≤ t.idSeq) :
    t.Keyed where
  distinct := h.distinct.sublist (hp.map _)
  drawn := fun x hx => (h.drawn x (hp.subset hx)).trans hid

theorem Keyed.post (h : s.Keyed) (cb : Cb) (r : Request) : (s.post cb r).Keyed where
  distinct := by
    rw [post_pending, List.map_append]
    refine List.nodup_append.mpr ⟨h.distinct, List.nodup_singleton _, fun id hid id' hid' => ?_⟩
    obtain ⟨x, hx, rfl⟩ := List.mem_map.mp hid
    have hdrawn := h.drawn x hx
    rw [List.mem_singleton.mp hid']
    omega
  drawn := fun x hx => by
    rw [post_idSeq]
    rcases List.mem_append.mp hx with hx | hx
    · have hdrawn := h.drawn x hx
      omega
    · rw [List.mem_singleton.mp hx]

theorem Keyed.teardown (h : s.Keyed) (err : Fault) (cause : Option Pid) :
    (s.teardown err cause).Keyed :=
  h.of (List.nil_sublist _) le_rfl

theorem Keyed.call (h : s.Keyed) (w : Waiter) (res : Except Fault Unit) (cause : Option Pid) :
    (s.call w res cause).Keyed := by
  unfold Client.call
  split
  · exact h.of (List.Sublist.refl _) le_rfl
  · exact h.post _ _
  · split
    · exact h.of (List.Sublist.refl _) le_rfl
    · exact h

theorem Keyed.ensure (h : s.Keyed) (w : Option Pid → Waiter) (launch : Launch) :
    (s.ensure w launch).Keyed := by
  unfold Client.ensure
  split
  · exact h.call _ _ _
  · split
    · exact h.of (List.Sublist.refl _) le_rfl
    · exact h.of (List.Sublist.refl _) le_rfl
    · exact h.of (List.Sublist.refl _) le_rfl
    · refine Keyed.post ?_ _ _
      exact h.of (List.Sublist.refl _) le_rfl

theorem Keyed.greet (h : s.Keyed) (res : Answer) (cause : Option Pid) :
    (s.greet env res cause).Keyed := by
  rcases greet_cases env s res cause with ⟨-, proto, err, heq⟩ | ⟨-, proto, engine, drivers, heq⟩
  · rw [heq]
    exact h.of (List.nil_sublist _) le_rfl
  · rw [heq]
    exact h.of (List.Sublist.refl _) le_rfl

theorem Keyed.answer (h : s.Keyed) (e : Entry) (res : Answer) (cause : Option Pid) :
    (s.answer env e res cause).Keyed := by
  unfold Client.answer
  split
  · refine Keyed.greet ?_ _ _
    exact h.of (List.Sublist.refl _) le_rfl
  · exact h.of (List.Sublist.refl _) le_rfl
  · rename_i n _
    rcases executed_cases (s.tell (.ran n res e.owner cause)) n res e.owner with
      ⟨-, heq⟩ | ⟨-, watchers, -, heq⟩
    · rw [heq]
      exact h.of (List.Sublist.refl _) le_rfl
    · rw [heq]
      exact h.of (List.Sublist.refl _) le_rfl

theorem Keyed.unwind (h : s.Keyed) (stack : List Frame) : (s.unwind stack).Keyed := by
  obtain ⟨hp, hid, -⟩ := unwind_fields s stack
  exact h.of (hp ▸ List.Sublist.refl _) (le_of_eq hid.symm)

theorem Keyed.hears (h : s.Keyed) {p : Pid} {msg : Json} (hm : Hears env s p msg t) : t.Keyed := by
  have hdrop : ∀ id, ((s.heard p msg).drop id).Keyed := fun id =>
    h.of List.filter_sublist le_rfl
  cases hm with
  | nobody => exact h.of (List.Sublist.refl _) le_rfl
  | answered ha hr => exact (hdrop _).answer _ _ _
  | raised ha hr =>
    refine Keyed.unwind ?_ _
    exact (hdrop _).of (List.Sublist.refl _) le_rfl
  | notified hw => exact h.of (List.Sublist.refl _) le_rfl

theorem Keyed.go (h : s.Keyed) (hg : Goes env s k t) : t.Keyed := by
  cases hg with
  | message hs hm =>
    refine Keyed.hears ?_ (hears_onMessage _ _ _ _)
    exact h.of (List.Sublist.refl _) le_rfl
  | pending hs hx =>
    refine Keyed.answer ?_ _ _ _
    exact h.of (List.Sublist.refl _) le_rfl
  | waiter hs =>
    refine Keyed.call ?_ _ _ _
    exact h.of (List.Sublist.refl _) le_rfl
  | _ => exact h.of (List.Sublist.refl _) le_rfl

theorem Keyed.act (h : s.Keyed) (a : Action) : (s.act a).Keyed := by
  cases a with
  | request r execute launch =>
    refine Keyed.ensure ?_ _ _
    exact h.of (List.Sublist.refl _) le_rfl
  | ensure launch => exact h.ensure _ _
  | stop =>
    show s.stop.Keyed
    unfold Client.stop
    split
    · exact h.of (List.nil_sublist _) le_rfl
    · exact h.of (List.nil_sublist _) le_rfl

theorem keyed_new : new.Keyed where
  distinct := List.nodup_nil
  drawn := fun _ hx => (List.not_mem_nil hx).elim

theorem Keyed.step {i : Input} (h : s.Keyed) (hst : Steps env s i t) : t.Keyed := by
  cases hst with
  | act a hc => exact h.act a
  | raise hs => exact h.unwind _
  | go hg => exact h.go hg
  | exit hq hs ha => exact h.of (List.nil_sublist _) le_rfl
  | _ => exact h.of (List.Sublist.refl _) le_rfl

end Client
end LvimDb.Daemon
