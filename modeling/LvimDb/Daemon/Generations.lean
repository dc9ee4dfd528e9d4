import LvimDb.Daemon.Owners
import LvimDb.Daemon.Errors

/-!
# Earlier processes and later ones

The exit and the output of a process touch what belongs to a later one unless the steps are
clean: `job`, the waiters, the tail and the watchers carry no mark of their process.
-/

namespace LvimDb.Daemon
open Lib (lines)

/-- What belongs to a process that is none or no later than `p`. -/
def NotAfter (owner : Option Pid) (p : Pid) : Prop := ∀ q ∈ owner, q ≤ p

/-- What comes of a process touches nothing of a later one, and no line is joined to what
another process has begun. A teardown touches the job and the bytes that are carried. -/
def Event.Isolated : Event → Prop
  | .chunk p _ joined => ∀ q ∈ joined, q = p
  | .ran _ _ owner cause | .greeted _ owner cause | .stated _ _ owner cause =>
    ∀ p ∈ cause, NotAfter owner p
  | .torn job tail cause => ∀ p ∈ cause, NotAfter job p ∧ NotAfter tail p
  | _ => True

/-- The call whose state a notification tells. -/
def Json.call (msg : Json) : Option Key :=
  if (msg.field "id").isSome then none
  else
    match msg.field "method", msg.field "params" with
    | some (.str m), some params =>
      if m = "query.state" ∧ params.isTable then (params.field "call_id").bind Json.key else none
    | _, _ => none

theorem Json.call_notified {msg params : Json} {m : String} (hid : (msg.field "id").isSome = false)
    (hm : msg.field "method" = some (.str m)) (hp : msg.field "params" = some params)
    (hc : m = "query.state" ∧ params.isTable) :
    msg.call = (params.field "call_id").bind Json.key := by
  unfold Json.call
  rw [hid, if_neg Bool.false_ne_true, hm, hp]
  exact if_pos hc

/-- The process a frame comes of. -/
def Frame.cause : Frame → Option Pid
  | .lines p _ => some p
  | .failPending _ _ cause | .failWaiters _ cause | .flush _ _ cause | .hooks _ cause
  | .failWatchers _ _ cause => cause
  | _ => none

/-- A request with this id was written to `p`. -/
def Event.asks (p : Pid) (key : Key) : Event → Bool
  | .sent q id _ _ => q == p && key == .num id
  | _ => false

namespace Client
variable {env : Env} {s t : Client} {k : ℕ} {p : Pid}

theorem watched_call {msg : Json} {w : Watcher} {params : Json}
    (h : s.watched msg = some (w, params)) (hid : (msg.field "id").isSome = false) :
    w ∈ s.watchers ∧ ∃ key, msg.call = some key ∧ w.call = some key := by
  unfold watched at h
  split at h
  · rename_i m params' hm hp
    split at h
    · rename_i hc
      rw [Json.call_notified hid hm hp hc]
      split at h
      · rename_i key hkey
        obtain ⟨v, hv, heq⟩ := Option.map_eq_some_iff.mp h
        cases heq
        have hcall := List.find?_some hv
        exact ⟨List.mem_of_find?_eq_some hv, key, hkey, of_decide_eq_true hcall⟩
      · cases h
    · cases h
  · cases h

/-- The message answers a request that was written to `p`, and tells of no call of a later
process. -/
structure Plain (s : Client) (p : Pid) (msg : Json) : Prop where
  answers : ∀ id ∈ (msg.field "id").bind Json.key, ∃ e ∈ s.hist, e.asks p id = true
  call : ∀ w ∈ s.watchers, ∀ key ∈ msg.call, w.call = some key → NotAfter w.owner p

/-- What a frame is still to touch is of no later process than it comes of. -/
def Fits (env : Env) (s : Client) : Frame → Prop
  | .lines p rest => ∀ line ∈ rest,
    NotAfter s.carrier p ∧ ∀ msg ∈ env.message line, s.Plain p msg
  | .failPending dead _ cause => ∀ p ∈ cause, NotAfter s.carrier p ∧
    (∀ x ∈ dead, NotAfter x.2.owner p) ∧ ∀ w ∈ s.watchers, NotAfter w.owner p
  | .failWaiters _ cause | .hooks _ cause => ∀ p ∈ cause, ∀ w ∈ s.watchers, NotAfter w.owner p
  | .flush ws _ cause => ∀ p ∈ cause, ∀ w ∈ ws, NotAfter w.owner p
  | .failWatchers dead _ cause => ∀ p ∈ cause, ∀ w ∈ dead, NotAfter w.owner p
  | _ => True

/-- A teardown that comes of `p` comes to waiters, or to the handshake it fails, of no later
process. -/
def Meets (s : Client) (n : ℕ) : Frame → Prop
  | .failWaiters _ cause => ∀ p ∈ cause, ∀ w ∈ s.waiters, NotAfter w.owner p
  | .failPending dead _ cause => ∀ p ∈ cause, ∀ x ∈ dead[n]?, x.2.cb = .hello →
    NotAfter s.job p ∧ ∀ w ∈ s.waiters, NotAfter w.owner p
  | _ => True

/-- What the client relies on where it does not look whose event it is: the carried bytes are of
the process that writes, which answers what was written to it and tells of no call of a later
one; the process that exits is no earlier than the job and the one whose bytes are carried; and no
later process is spawned in the middle of the teardown of its exit. -/
def Clean (env : Env) (s : Client) : Input → Prop
  | .stdout p chunk => (chunk = [] ∨ s.tail = [] ∨ s.tailOf = p) ∧
    ∀ line ∈ lines newline (s.tail ++ chunk), ∀ msg ∈ env.message line, s.Plain p msg
  | .exit p => NotAfter s.job p ∧ NotAfter s.carrier p
  | .go n => ∀ f ∈ s.stack.head?, s.Meets n f
  | _ => True

/-! ### What comes of `p` -/

/-- All that goes on comes of `p`, and nothing was touched that should not be. -/
structure Isolates (env : Env) (p : Pid) (s : Client) : Prop where
  fits : ∀ f ∈ s.stack, s.Fits env f
  one : ∀ f ∈ s.stack, ∀ q ∈ f.cause, q = p
  isolated : ∀ e ∈ s.hist, e.Isolated

/-- Watchers of no later process may come, and what is carried may go. -/
theorem Fits.mono {f : Frame} (h : s.Fits env f) (hh : s.hist ⊆ t.hist)
    (hb : ∀ q ∈ t.carrier, q ∈ s.carrier)
    (hw : ∀ w ∈ t.watchers, w ∈ s.watchers ∨ ∀ q ∈ f.cause, NotAfter w.owner q) :
    t.Fits env f := by
  cases f with
  | lines q rest =>
    intro line hl
    refine ⟨fun r hr => (h line hl).1 r (hb r hr), fun msg hm => ?_⟩
    have hp := (h line hl).2 msg hm
    refine ⟨fun id ha => ?_, fun w hmem key hk hc => ?_⟩
    · exact (hp.answers id ha).imp fun e he => ⟨hh he.1, he.2⟩
    · exact (hw w hmem).elim (fun hold => hp.call w hold key hk hc) fun hnew => hnew q rfl
  | failPending dead err cause =>
    intro q hq
    obtain ⟨htail, hdead, hold⟩ := h q hq
    exact ⟨fun r hr => htail r (hb r hr), hdead, fun w hmem =>
      (hw w hmem).elim (hold w) fun hnew => hnew q hq⟩
  | failWaiters err cause =>
    exact fun q hq w hmem => (hw w hmem).elim (h q hq w) fun hnew => hnew q hq
  | hooks err cause =>
    exact fun q hq w hmem => (hw w hmem).elim (h q hq w) fun hnew => hnew q hq
  | _ => exact h

theorem Isolates.next (h : s.Isolates env p)
    (hh : t.hist = s.hist ∨ ∃ e : Event, e.Isolated ∧ t.hist = e :: s.hist)
    (hb : ∀ q ∈ t.carrier, s.stack = [] ∨ q ∈ s.carrier)
    (hw : ∀ w ∈ t.watchers, w ∈ s.watchers ∨ NotAfter w.owner p)
    (hf : ∀ f ∈ t.stack, f ∈ s.stack ∨ (t.Fits env f ∧ ∀ q ∈ f.cause, q = p)) :
    t.Isolates env p := by
  have hsub : s.hist ⊆ t.hist := by
    rcases hh with heq | ⟨e, -, heq⟩
    · rw [heq]
      exact List.Subset.refl _
    · rw [heq]
      exact List.subset_cons_self _ _
  refine ⟨fun f hm => ?_, fun f hm => ?_, fun e hm => ?_⟩
  · rcases hf f hm with hold | hnew
    · have hcarried : ∀ q ∈ t.carrier, q ∈ s.carrier := fun q hq =>
        (hb q hq).resolve_left (List.ne_nil_of_mem hold)
      exact (h.fits f hold).mono hsub hcarried fun w hmem =>
        (hw w hmem).imp_right fun hn q hq => h.one f hold q hq ▸ hn
    · exact hnew.1
  · exact (hf f hm).elim (h.one f) And.right
  · rcases hh with heq | ⟨e', he', heq⟩
    · exact h.isolated e (heq ▸ hm)
    · rw [heq] at hm
      rcases List.mem_cons.mp hm with rfl | hm
      · exact he'
      · exact h.isolated e hm

/-- What is carried stays, and the watchers. -/
theorem Isolates.keep (h : s.Isolates env p)
    (hh : t.hist = s.hist ∨ ∃ e : Event, e.Isolated ∧ t.hist = e :: s.hist)
    (hb : t.carrier = s.carrier) (hw : t.watchers = s.watchers)
    (hf : ∀ f ∈ t.stack, f ∈ s.stack ∨ (t.Fits env f ∧ ∀ q ∈ f.cause, q = p)) :
    t.Isolates env p :=
  h.next hh (fun _ hq => .inr (hb ▸ hq)) (fun _ hm => .inl (hw ▸ hm)) hf

/-- A frame that comes of nothing. -/
theorem plain_frame {f : Frame} (hf : f.cause = none) (hl : s.Fits env f) :
    s.Fits env f ∧ ∀ q ∈ f.cause, q = p :=
  ⟨hl, fun q hq => by rw [hf] at hq; cases hq⟩

theorem Isolates.push_body (h : s.Isolates env p) : (s.push [.body]).Isolates env p := by
  refine h.keep (.inl rfl) rfl rfl fun f hf => ?_
  rcases List.mem_cons.mp hf with rfl | hf
  · exact .inr (plain_frame rfl trivial)
  · exact .inl hf

theorem Isolates.tell (h : s.Isolates env p) (e : Event) (he : e.Isolated) :
    (s.tell e).Isolates env p :=
  h.keep (.inr ⟨e, he, rfl⟩) rfl rfl fun _ hf => .inl hf

theorem Isolates.post (h : s.Isolates env p) (cb : Cb) (r : Request) :
    (s.post cb r).Isolates env p := by
  refine h.keep ?_ rfl rfl fun _ hf => .inl hf
  rw [post_hist]
  split
  · exact .inr ⟨.sent _ _ _ _, trivial, rfl⟩
  · exact .inl rfl

theorem Isolates.call (h : s.Isolates env p) {w : Waiter} {cause : Option Pid}
    (hc : ∀ q ∈ cause, NotAfter w.owner q) (res : Except Fault Unit) :
    (s.call w res cause).Isolates env p := by
  unfold Client.call
  split
  · exact h.push_body
  · exact h.post _ _
  · split
    · rename_i n _
      exact (h.tell (.ran n _ _ cause) hc).push_body
    · exact h

/-- A teardown that comes of `p`, when neither the job, the tail nor a watcher is of a later
process. -/
theorem Isolates.teardown (h : s.Isolates env p) (hfiled : s.Filed) {cause : Option Pid}
    (hc : ∀ q ∈ cause, q = p ∧ NotAfter s.job q ∧ NotAfter s.carrier q ∧
      ∀ w ∈ s.watchers, NotAfter w.owner q)
    (err : Fault) : (s.teardown err cause).Isolates env p := by
  have htorn : (Event.torn s.job s.carrier cause).Isolated := fun q hq =>
    ⟨(hc q hq).2.1, (hc q hq).2.2.1⟩
  -- nothing is carried any more
  have hnone : (s.teardown err cause).carrier = none := if_pos rfl
  refine h.next (.inr ⟨_, htorn, rfl⟩) (fun r hr => ?_) (fun _ hw => .inl hw) fun f hf => ?_
  · rw [hnone] at hr
    cases hr
  have hone : ∀ q ∈ cause, q = p := fun q hq => (hc q hq).1
  rw [teardown_stack] at hf
  simp only [List.mem_cons] at hf
  rcases hf with rfl | rfl | rfl | hf
  · refine .inr ⟨fun q hq => ⟨fun r hr => ?_, fun x hx r hr => ?_, (hc q hq).2.2.2⟩, hone⟩
    · rw [hnone] at hr
      cases hr
    · exact (hc q hq).2.1 r (hfiled.pending x hx r hr)
  · exact .inr ⟨fun q hq => (hc q hq).2.2.2, hone⟩
  · exact .inr ⟨fun q hq => (hc q hq).2.2.2, hone⟩
  · exact .inl hf

theorem Isolates.ensure (h : s.Isolates env p) (w : Option Pid → Waiter) (launch : Launch) :
    (s.ensure w launch).Isolates env p := by
  have hnone : ∀ (q : Pid), q ∈ (none : Option Pid) → ∀ o, NotAfter o q := fun q hq => by cases hq
  have hrefuse : ∀ (v : Waiter) (text : String),
      (({ s with waiters := s.waiters ++ [v] } : Client).refuse text).Isolates env p :=
    fun v text => h.keep (.inl rfl) rfl rfl fun f hf => by
      rcases List.mem_cons.mp hf with rfl | hf
      · exact .inr (plain_frame rfl fun q hq => by cases hq)
      · exact .inl hf
  unfold Client.ensure
  split
  · exact h.call (fun q hq => hnone q hq _) _
  · split
    · exact h.keep (.inl rfl) rfl rfl fun _ hf => .inl hf
    · exact hrefuse _ _
    · exact hrefuse _ _
    · refine Isolates.post ?_ _ _
      exact h.keep (.inr ⟨.spawned s.procs.length, trivial, rfl⟩) rfl rfl
        fun _ hf => .inl hf

theorem Isolates.greet (h : s.Isolates env p) (hfiled : s.Filed) {cause : Option Pid}
    (hc : ∀ q ∈ cause, q = p ∧ NotAfter s.job q ∧ NotAfter s.carrier q ∧
      (∀ w ∈ s.watchers, NotAfter w.owner q) ∧ ∀ w ∈ s.waiters, NotAfter w.owner q)
    (res : Answer) :
    (s.greet env res cause).Isolates env p := by
  have hone : ∀ q ∈ cause, q = p := fun q hq => (hc q hq).1
  rcases greet_cases env s res cause with ⟨-, proto, err, heq⟩ | ⟨-, proto, engine, drivers, heq⟩
  · have hpush : (({ s with waiters := [], proto := proto } : Client).push
        [.flush s.waiters (.error err) cause]).Isolates env p := by
      refine h.keep (.inl rfl) rfl rfl fun f hf => ?_
      rcases List.mem_cons.mp hf with rfl | hf
      · exact .inr ⟨fun q hq => (hc q hq).2.2.2.2, hone⟩
      · exact .inl hf
    have hsame : (({ s with waiters := [], proto := proto } : Client).push
        [.flush s.waiters (.error err) cause]).Filed :=
      hfiled.of (.inl rfl) rfl rfl rfl (List.Sublist.refl _) (List.nil_subset _)
        (List.Subset.refl _) fun _ hf _ => List.mem_cons_of_mem _ hf
    rw [heq]
    refine hpush.teardown hsame (fun q hq => ?_) err
    obtain ⟨-, hjob, htail, hwatch, -⟩ := hc q hq
    exact ⟨hone q hq, hjob, htail, hwatch⟩
  · rw [heq]
    refine h.keep (.inl rfl) rfl rfl fun f hf => ?_
    rcases List.mem_cons.mp hf with rfl | hf
    · exact .inr ⟨fun q hq => (hc q hq).2.2.2.2, hone⟩
    · exact .inl hf

/-- An answer that comes of `p` to a request of no later process. -/
theorem Isolates.answer (h : s.Isolates env p) (hfiled : s.Filed) {e : Entry} {res : Answer}
    {cause : Option Pid} (hc : ∀ q ∈ cause, NotAfter e.owner q)
    (hhello : e.cb = .hello → ∀ q ∈ cause, q = p ∧ NotAfter s.job q ∧ NotAfter s.carrier q ∧
      (∀ w ∈ s.watchers, NotAfter w.owner q) ∧ ∀ w ∈ s.waiters, NotAfter w.owner q)
    (hok : (∃ r, res = .ok r) → NotAfter e.owner p) :
    (s.answer env e res cause).Isolates env p := by
  unfold Client.answer
  split
  · rename_i hcb
    refine (h.tell (.greeted res e.owner cause) hc).greet ?_ (hhello hcb) res
    exact hfiled.frames rfl (.inr ⟨_, rfl, rfl⟩) fun _ hf _ => hf
  · rename_i n _
    exact (h.tell (.ran n res e.owner cause) hc).push_body
  · rename_i n _
    rcases executed_cases (s.tell (.ran n res e.owner cause)) n res e.owner with
      ⟨-, heq⟩ | ⟨-, watchers, hwatch, heq⟩
    · rw [heq]
      exact h.tell _ hc
    · rw [heq]
      refine Isolates.push_body ?_
      refine h.next (.inr ⟨.ran n res e.owner cause, hc, rfl⟩) (fun _ => .inr) (fun w hw => ?_)
        fun _ hf => .inl hf
      rcases hwatch w hw with hold | ⟨hres, hown⟩
      · exact .inl hold
      · exact .inr (hown ▸ hok hres)

theorem Isolates.unwind (h : s.Isolates env p) {stack : List Frame}
    (hs : ∀ f ∈ stack, f ∈ s.stack ∨ f = .dispatch) : (s.unwind stack).Isolates env p := by
  have hold : ∀ f ∈ stack, f ∈ s.stack ∨
      ((s.unwind stack).Fits env f ∧ ∀ q ∈ f.cause, q = p) := fun f hf => by
    rcases hs f hf with hf | rfl
    · exact .inl hf
    · exact .inr (plain_frame rfl trivial)
  rcases unwind_cases s stack with ⟨q, rest, stack', rfl, heq⟩ | ⟨-, heq⟩
  · rw [heq] at hold ⊢
    exact h.keep (.inr ⟨.aborted q, trivial, rfl⟩) rfl rfl fun f hf =>
      hold f (List.mem_cons_of_mem _ (List.mem_cons_of_mem _ hf))
  · rw [heq] at hold ⊢
    exact h.keep (.inl rfl) rfl rfl hold

/-- What belongs to a process is of none later than the job. -/
theorem notAfter_job (hfiled : s.Filed) (hjob : s.job = some p) {o : Option Pid}
    (ho : ∀ q ∈ o, q < s.procs.length) : NotAfter o p := by
  intro q hq
  have hlt := ho q hq
  rw [← hfiled.job p hjob] at hlt
  exact Nat.le_of_lt_succ hlt

/-- A message of `p` answers what was written to `p`. -/
theorem Plain.owner (hfiled : s.Filed) {msg : Json} (hp : s.Plain p msg) {x : ℕ × Entry}
    (ha : s.addressee msg = some x) : x.2.owner = some p := by
  obtain ⟨e, he, hasks⟩ := hp.answers (.num x.1) (addressee_answers ha)
  cases e with
  | sent q id m ps =>
    obtain ⟨hq, hid⟩ := Bool.and_eq_true_iff.mp hasks
    obtain rfl := eq_of_beq hq
    have hnum : (x.1 : ℚ) = id := Key.num.inj (eq_of_beq hid)
    exact hfiled.owner x (addressee_mem ha) q m ps (Rat.natCast_inj.mp hnum ▸ he)
  | _ => cases hasks

theorem notAfter_self (p : Pid) : NotAfter (some p) p := fun q hq => by
  cases hq
  exact le_rfl

theorem Isolates.hears (h : s.Isolates env p) (hfiled : s.Filed) {msg : Json}
    (hb : NotAfter s.carrier p) (hp : s.Plain p msg) (hm : Hears env s p msg t) :
    t.Isolates env p := by
  have hone : ∀ {q : Pid}, q ∈ some p → q = p := fun hq => (Option.some.inj hq).symm
  have hheard : (s.heard p msg).Isolates env p := by
    refine h.keep (.inr ⟨.dispatched p msg, trivial, rfl⟩) rfl rfl fun f hf => ?_
    rcases List.mem_cons.mp hf with rfl | hf
    · exact .inr (plain_frame rfl trivial)
    · exact .inl hf
  have hdrop : ∀ id, ((s.heard p msg).drop id).Isolates env p := fun id =>
    hheard.keep (.inl rfl) rfl rfl fun _ hf => .inl hf
  cases hm with
  | nobody ha => exact hheard
  | answered ha hr =>
    rename_i id e
    have howner : e.owner = some p := hp.owner hfiled ha
    have hafter : NotAfter e.owner p := howner ▸ notAfter_self p
    have hjob : s.job = some p := hfiled.pending _ (addressee_mem ha) p howner
    refine (hdrop id).answer ((hfiled.heard p msg).drop id) (fun q hq => hone hq ▸ hafter)
      (fun _ q hq => ?_) fun _ => hafter
    obtain rfl := hone hq
    refine ⟨rfl, hjob.symm ▸ notAfter_self q, hb, fun w hw => ?_, fun w hw => ?_⟩
    · exact notAfter_job hfiled hjob fun r hr => (hfiled.watchers w hw r hr).1
    · exact notAfter_job hfiled hjob (hfiled.waiters w hw)
  | raised ha hr =>
    rename_i id n owner
    have howner : owner = some p := hp.owner hfiled ha
    have hran : (((s.heard p msg).drop id).tell (.ran n (answerOf msg) owner (some p))).Isolates
        env p := (hdrop id).tell _ fun q hq => hone hq ▸ howner ▸ notAfter_self p
    refine hran.unwind fun f hf => ?_
    exact .inl hf
  | notified hw ha hid =>
    rename_i w params
    obtain ⟨hmem, key, hkey, hcall⟩ := watched_call hw hid
    refine hheard.next (.inr ⟨.stated w.token (.ok params) w.owner (some p), fun q hq => ?_, rfl⟩)
      (fun _ => .inr) (fun v hv => .inl (List.mem_of_mem_filter hv)) fun f hf => ?_
    · exact hone hq ▸ hp.call w hmem key hkey hcall
    · simp only [push_stack, List.mem_append, List.mem_cons, List.not_mem_nil, or_false] at hf
      rcases hf with (rfl | rfl) | hf
      · exact .inr (plain_frame rfl trivial)
      · exact .inr (plain_frame rfl trivial)
      · exact .inl hf

/-- The frame on top is replaced by one that comes of the same. -/
theorem Isolates.under (h : s.Isolates env p) {f g : Frame} {stack : List Frame}
    (hs : s.stack = f :: stack) (hg : s.Fits env f → s.Fits env g)
    (hc : ∀ q ∈ g.cause, q ∈ f.cause) :
    ({ s with stack := g :: stack } : Client).Isolates env p := by
  have hmem : f ∈ s.stack := hs ▸ List.mem_cons_self ..
  refine h.keep (.inl rfl) rfl rfl fun f' hf' => ?_
  rcases List.mem_cons.mp hf' with rfl | hf'
  · refine .inr ⟨(hg (h.fits f hmem)).mono (List.Subset.refl _) (fun _ hq => hq)
      fun _ hw => .inl hw, ?_⟩
    exact fun q hq => h.one f hmem q (hc q hq)
  · exact .inl (hs ▸ List.mem_cons_of_mem _ hf')

theorem Isolates.pop (h : s.Isolates env p) {f : Frame} {stack : List Frame}
    (hs : s.stack = f :: stack) : ({ s with stack := stack } : Client).Isolates env p :=
  h.keep (.inl rfl) rfl rfl fun _ hf => .inl (hs ▸ List.mem_cons_of_mem _ hf)

theorem Isolates.go (h : s.Isolates env p) (hfiled : s.Filed) (hclean : s.Clean env (.go k))
    (hg : Goes env s k t) : t.Isolates env p := by
  have htop : ∀ {f : Frame} {stack : List Frame}, s.stack = f :: stack → f ∈ s.stack :=
    fun hs => hs ▸ List.mem_cons_self ..
  have hsame : ∀ {f g : Frame} {stack : List Frame}, s.stack = f :: stack → f.clears = false →
      ({ s with stack := g :: stack } : Client).Filed := fun hs hc =>
    hfiled.frames rfl (.inl rfl) fun e he hec => List.mem_cons_of_mem _ (clears_pop hs hc e he hec)
  cases hg with
  | popped hs hf => exact h.pop hs
  | dispatched hs =>
    exact (h.pop hs).keep (.inl rfl) rfl rfl fun _ hf => .inl hf
  | skipped hs hm =>
    exact h.under hs (fun hl line hmem => hl line (List.mem_cons_of_mem _ hmem)) fun _ hq => hq
  | message hs hm =>
    rename_i q line rest stack msg
    obtain rfl : q = p := h.one _ (htop hs) q rfl
    obtain ⟨htail, hall⟩ := h.fits _ (htop hs) line (List.mem_cons_self ..)
    have hplain := hall msg hm
    have hunder : ({ s with stack := .lines q rest :: stack } : Client).Isolates env q :=
      h.under hs (fun hl line hmem => hl line (List.mem_cons_of_mem _ hmem)) fun _ hr => hr
    exact hunder.hears (hsame hs rfl) htail ⟨hplain.answers, hplain.call⟩ (hears_onMessage _ _ _ _)
  | pending hs hx =>
    rename_i dead err cause stack x
    have hfit := h.fits _ (htop hs)
    have hunder : ({ s with stack := .failPending (dead.eraseIdx k) err cause :: stack } :
        Client).Isolates env p :=
      h.under hs (fun hd q hq => ⟨(hd q hq).1, fun y hy =>
        (hd q hq).2.1 y (List.mem_of_mem_eraseIdx hy), (hd q hq).2.2⟩) fun _ hq => hq
    refine hunder.answer (hsame hs rfl) (fun q hq => ?_) (fun hcb q hq => ?_) ?_
    · exact (hfit q hq).2.1 x (List.mem_of_getElem? hx)
    · have hmeets : s.Meets k (.failPending dead err cause) := hclean _ (by rw [hs]; rfl)
      obtain ⟨hjob, hwaiters⟩ := hmeets q hq x hx hcb
      obtain ⟨htail, -, hwatch⟩ := hfit q hq
      exact ⟨h.one _ (htop hs) q hq, hjob, htail, hwatch, hwaiters⟩
    · rintro ⟨r, hr⟩
      cases hr
  | waiters hs =>
    rename_i err cause stack
    have hmeets := hclean (.failWaiters err cause) (by rw [hs]; rfl)
    refine (h.pop hs).keep (.inl rfl) rfl rfl fun f hf => ?_
    rcases List.mem_cons.mp hf with rfl | hf
    · exact .inr ⟨hmeets, fun q hq => h.one _ (htop hs) q hq⟩
    · exact .inl hf
  | waiter hs =>
    rename_i w ws res cause stack
    have hfit := h.fits _ (htop hs)
    have hunder : ({ s with stack := .flush ws res cause :: stack } : Client).Isolates env p :=
      h.under hs (fun hd q hq v hv => hd q hq v (List.mem_cons_of_mem _ hv)) fun _ hq => hq
    exact hunder.call (fun q hq => hfit q hq w (List.mem_cons_self ..)) res
  | hooks hs =>
    rename_i err cause stack
    have hfit := h.fits _ (htop hs)
    refine (h.pop hs).next (.inl rfl) (fun _ => .inr) (fun _ hw => (List.not_mem_nil hw).elim)
      fun f hf => ?_
    rcases List.mem_cons.mp hf with rfl | hf
    · exact .inr ⟨hfit, fun q hq => h.one _ (htop hs) q hq⟩
    · exact .inl hf
  | watcher hs hx =>
    rename_i dead err cause stack w
    have hfit := h.fits _ (htop hs)
    have hunder : ({ s with stack := .failWatchers (dead.eraseIdx k) err cause :: stack } :
        Client).Isolates env p :=
      h.under hs (fun hd q hq v hv => hd q hq v (List.mem_of_mem_eraseIdx hv)) fun _ hq => hq
    refine (hunder.tell (.stated w.token (.error err) w.owner cause) fun q hq => ?_).push_body
    exact hfit q hq w (List.mem_of_getElem? hx)

theorem Isolates.act (h : s.Isolates env p) (hfiled : s.Filed) (a : Action) :
    (s.act a).Isolates env p := by
  have hnone : ∀ q ∈ (none : Option Pid), q = p ∧ NotAfter s.job q ∧ NotAfter s.carrier q ∧
      ∀ w ∈ s.watchers, NotAfter w.owner q := fun q hq => by cases hq
  cases a with
  | request r execute launch =>
    refine Isolates.ensure ?_ _ _
    exact h.keep (.inr ⟨.issued s.tokens, trivial, rfl⟩) rfl rfl fun _ hf => .inl hf
  | ensure launch => exact h.ensure _ _
  | stop =>
    show s.stop.Isolates env p
    unfold Client.stop
    split
    · rename_i q hjob
      have hasked : ({ s with procs := s.procs.modify q fun r => { r with asked := true } } :
          Client).Isolates env p := h.keep (.inl rfl) rfl rfl fun _ hf => .inl hf
      refine hasked.teardown ?_ hnone _
      exact hfiled.of (.inl rfl) rfl rfl (List.length_modify ..) (List.Sublist.refl _)
        (List.Subset.refl _) (List.Subset.refl _) fun _ hf _ => hf
    · exact h.teardown hfiled hnone _

structure Sound (env : Env) (s : Client) : Prop where
  filed : s.Filed
  reframes : s.Reframes env
  isolates : ∃ p, s.Isolates env p

theorem sound_new : new.Sound env where
  filed := filed_new
  reframes := reframes_new
  isolates := ⟨0, fun _ h => (List.not_mem_nil h).elim, fun _ h => (List.not_mem_nil h).elim,
    fun _ h => (List.not_mem_nil h).elim⟩

/-- What a chunk leaves is carried from its process. -/
theorem carrier_onStdout {chunk : Bytes} (hne : chunk ≠ []) :
    NotAfter (s.onStdout p chunk).carrier p := by
  have hof : (s.onStdout p chunk).tailOf = p := if_neg hne
  intro q hq
  unfold carrier at hq
  split at hq
  · cases hq
  · rw [hof] at hq
    exact notAfter_self p q hq

/-- Between two events nothing comes of anything. -/
theorem Isolates.any (h : s.Isolates env p) (hs : s.stack = []) (q : Pid) : s.Isolates env q where
  fits := h.fits
  one := fun f hf => by
    rw [hs] at hf
    cases hf
  isolated := h.isolated

theorem Sound.step {i : Input} (h : s.Sound env) (hclean : s.Clean env i)
    (hst : s.step env i = some t) : t.Sound env := by
  refine ⟨h.filed.step (steps_of_step hst), h.reframes.step hst, ?_⟩
  obtain ⟨p, hp⟩ := h.isolates
  cases steps_of_step hst with
  | act a hc => exact ⟨p, hp.act h.filed a⟩
  | ret hs => exact ⟨p, hp.pop hs⟩
  | raise hs => exact ⟨p, hp.unwind fun f hf => .inl (hs ▸ List.mem_cons_of_mem _ hf)⟩
  | go hg => exact ⟨p, hp.go h.filed hclean hg⟩
  | stdout hq hs he =>
    rename_i q chunk r
    obtain ⟨hjoin, hlines⟩ := hclean
    have hwhose : (Event.chunk q chunk
        (if s.tail = [] ∨ chunk = [] then none else some s.tailOf)).Isolated := by
      intro p' hp'
      split at hp'
      · cases hp'
      · rename_i hno
        cases hp'
        exact (hjoin.resolve_left fun hnil => hno (.inr hnil)).resolve_left fun hnil =>
          hno (.inl hnil)
    refine ⟨q, (hp.any hs q).next (.inr ⟨_, hwhose, rfl⟩) (fun _ _ => .inl hs)
      (fun _ hw => .inl hw) fun f hf => ?_⟩
    have hflat : newline ∉ s.tail := h.reframes.tail ▸ carried_flat s.hist
    rcases List.mem_cons.mp hf with rfl | hf
    · refine .inr ⟨fun line hline => ?_, fun p' hp' => (Option.some.inj hp').symm⟩
      rw [(Lib.complete_eq hflat chunk).1] at hline
      have hne : chunk ≠ [] := by
        rintro rfl
        rw [List.append_nil, (Lib.of_not_mem hflat).1] at hline
        cases hline
      refine ⟨carrier_onStdout hne, fun msg hm => ?_⟩
      obtain ⟨hans, hcall⟩ := hlines line hline msg hm
      exact ⟨fun id hid => (hans id hid).imp fun e he =>
        ⟨List.mem_cons_of_mem _ he.1, he.2⟩, hcall⟩
    · exact .inl hf
  | die hp' => exact ⟨p, hp.keep (.inl rfl) rfl rfl fun _ hf => .inl hf⟩
  | exit hq hs ha =>
    rename_i q r
    have htell : (({ s with procs := s.procs.modify q fun r => { r with exited := true } } :
        Client).tell (.exited q)).Isolates env q :=
      (hp.any hs q).keep (.inr ⟨.exited q, trivial, rfl⟩) rfl rfl fun _ hf => .inl hf
    refine ⟨q, htell.teardown ?_ (fun p' hp' => ?_) _⟩
    · exact h.filed.of (.inr ⟨.exited q, rfl, rfl⟩) rfl rfl (List.length_modify ..)
        (List.Sublist.refl _) (List.Subset.refl _) (List.Subset.refl _) fun _ hf _ => hf
    · cases hp'
      refine ⟨rfl, hclean.1, hclean.2, fun w hw r hr => ?_⟩
      rcases (h.filed.watchers w hw r hr).2 with hjob | ⟨f, hf, -⟩
      · exact hclean.1 r hjob
      · rw [hs] at hf
        cases hf

/-- What comes of a process touches nothing of a later one. -/
theorem generations_isolated {is : List Input} (h : (machine env).Run (Clean env) new is s) :
    ∀ e ∈ s.hist, e.Isolated := by
  have hs : s.Sound env := h.invariant (Sound env)
    (fun s i t hc hs hst => hs.step hc hst) sound_new
  exact hs.isolates.choose_spec.isolated

instance (o : Option Pid) : Decidable (NotAfter o p) :=
  inferInstanceAs (Decidable (∀ q ∈ o, q ≤ p))

instance (msg : Json) : Decidable (s.Plain p msg) :=
  decidable_of_iff ((∀ id ∈ (msg.field "id").bind Json.key, ∃ e ∈ s.hist, e.asks p id = true) ∧
    ∀ w ∈ s.watchers, ∀ key ∈ msg.call, w.call = some key → NotAfter w.owner p)
    ⟨fun h => ⟨h.1, h.2⟩, fun h => ⟨h.answers, h.call⟩⟩

instance (f : Frame) : Decidable (s.Meets k f) :=
  match f with
  | .failWaiters _ cause =>
    inferInstanceAs (Decidable (∀ p ∈ cause, ∀ w ∈ s.waiters, NotAfter w.owner p))
  | .failPending dead _ cause =>
    inferInstanceAs (Decidable (∀ p ∈ cause, ∀ x ∈ dead[k]?, x.2.cb = .hello →
      NotAfter s.job p ∧ ∀ w ∈ s.waiters, NotAfter w.owner p))
  | .body | .caught | .lines _ _ | .dispatch | .flush _ _ _ | .hooks _ _ | .failWatchers _ _ _ =>
    .isTrue trivial

instance (i : Input) : Decidable (s.Clean env i) :=
  match i with
  | .stdout p chunk =>
    inferInstanceAs (Decidable ((chunk = [] ∨ s.tail = [] ∨ s.tailOf = p) ∧
      ∀ line ∈ lines newline (s.tail ++ chunk), ∀ msg ∈ env.message line, s.Plain p msg))
  | .exit p => inferInstanceAs (Decidable (NotAfter s.job p ∧ NotAfter s.carrier p))
  | .go n => inferInstanceAs (Decidable (∀ f ∈ s.stack.head?, s.Meets n f))
  | .act _ | .ret | .raise | .die _ => .isTrue trivial

/-- The first process has exited before the second is spawned. -/
def inOrder : List Input :=
  [.act (.ensure (.works "loded")), .stdout 0 [72, 10], .go 0, .go 0, .ret, .go 0, .go 0, .go 0,
    .act .stop] ++ List.replicate 5 (.go 0) ++ [.die 0, .exit 0] ++ List.replicate 5 (.go 0) ++
    [.act (.ensure (.works "loded"))]

theorem generations_isolated_in_order :
    ∃ s, (machine helloEnv).Run (Clean helloEnv) new inOrder s ∧
      s.overview = ([false, true], some 1) ∧ ∀ e ∈ s.hist, e.Isolated := by
  let check := fun (s : Client) (i : Input) => decide (s.Clean helloEnv i)
  have hsome : ((machine helloEnv).execWith check new inOrder).map overview =
      some ([false, true], some 1) := by decide
  obtain ⟨s, hs, hview⟩ := Option.map_eq_some_iff.mp hsome
  have hrun : (machine helloEnv).Run (Clean helloEnv) new inOrder s :=
    Lib.Machine.run_of_execWith (fun _ _ => of_decide_eq_true) hs
  exact ⟨s, hrun, hview, generations_isolated hrun⟩

def Event.whose : Event → Option (Option Pid × Option Pid)
  | .torn job _ cause => some (job, cause)
  | _ => none

/-- The exit of a process that was stopped is handled after the next one was spawned. -/
theorem late_exit_clears_job :
    ∃ s, (machine helloEnv).exec new (respawn ++ [.die 0, .exit 0]) = some s ∧
      s.overview = ([false, true], none) ∧ ¬ ∀ e ∈ s.hist, e.Isolated := by
  have hsome : ((machine helloEnv).exec new (respawn ++ [.die 0, .exit 0])).map
      (fun s => (s.overview, s.hist.head?.bind Event.whose)) =
      some (([false, true], none), some (some 1, some 0)) := by decide
  obtain ⟨s, hs, hview⟩ := Option.map_eq_some_iff.mp hsome
  obtain ⟨hover, hwhose⟩ := Prod.mk.inj hview
  refine ⟨s, hs, hover, fun h => ?_⟩
  obtain ⟨e, he, htorn⟩ := Option.bind_eq_some_iff.mp hwhose
  have hmem := List.mem_of_mem_head? he
  cases e with
  | torn job tail cause =>
    obtain ⟨rfl, rfl⟩ := Prod.mk.inj (Option.some.inj htorn)
    -- the second process is later than the first
    have hle := (h _ hmem 0 rfl).1 1 rfl
    cases hle
  | _ => cases htorn

end Client
end LvimDb.Daemon
