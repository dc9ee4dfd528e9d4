import LvimDb.Daemon.Bursts

/-!
# What an error costs

An error of a response callback ends the loop over the lines of its burst. What it costs are
the messages after its own, and nothing where there are none.
-/

namespace LvimDb.Daemon
open Lib (lines rest)

/-- The message answers the request with this id. -/
def Json.answers (msg : Json) (id : ℕ) : Prop := (msg.field "id").bind Json.key = some (.num id)

/-- The event is a call of the callback. -/
def Event.calls (cb : Cb) : Event → Bool
  | .ran n _ _ _ => cb.token == some n
  | .greeted _ _ _ => cb == .hello
  | _ => false

def Event.mute (e : Event) : Bool := e.message.isNone

/-- The callback is about to be called with an error. -/
def Frame.fails (x : ℕ × Entry) : Frame → Prop
  | .failPending dead _ _ => x ∈ dead
  | _ => False

namespace Client
variable {env : Env} {s t u : Client} {x : ℕ × Entry} {h₀ : List Event} {k : ℕ}

/-! ### Entries that wait -/

theorem mute_of_ensuing (e : Event) (h : ensuing e = true) : e.mute = true := by
  cases e with
  | dispatched p msg => cases h
  | _ => rfl

theorem mute_of_inner (e : Event) (h : inner e = true) : e.mute = true :=
  mute_of_ensuing e (ensuing_of_inner e h)

/-- The callback was called between the two. -/
def Called (cb : Cb) (h : List Event) (t : Client) : Prop :=
  ∃ es, t.hist = es ++ h ∧ ∃ e ∈ es, e.calls cb = true

/-- No message is dispatched, and an entry that waits goes on waiting or is failed. -/
structure Holds (x : ℕ × Entry) (s t : Client) : Prop where
  grows : Grows Event.mute s t
  pending : x ∈ s.pending → x ∈ t.pending ∨ ∃ f ∈ t.stack, f.fails x
  stack : (∃ f ∈ s.stack, f.fails x) → ∃ f ∈ t.stack, f.fails x

theorem Holds.trans (h : Holds x s t) (h' : Holds x t u) : Holds x s u where
  grows := h.grows.trans h'.grows
  pending := fun hx => (h.pending hx).elim h'.pending fun hf => .inr (h'.stack hf)
  stack := fun hf => h'.stack (h.stack hf)

theorem holds_of (hg : Grows Event.mute s t) (hp : s.pending ⊆ t.pending)
    (hs : s.stack ⊆ t.stack) : Holds x s t where
  grows := hg
  pending := fun hx => .inl (hp hx)
  stack := fun hf => hf.imp fun _ h => ⟨hs h.1, h.2⟩

theorem holds_post (s : Client) (cb : Cb) (r : Request) : Holds x s (s.post cb r) :=
  holds_of ((grows_post s cb r).weaken mute_of_inner) (List.subset_append_left _ _)
    (List.Subset.refl _)

theorem holds_call (s : Client) (w : Waiter) (res : Except Fault Unit) (cause : Option Pid) :
    Holds x s (s.call w res cause) := by
  have hg := (grows_call s w res cause).weaken mute_of_inner
  unfold call at hg ⊢
  split
  · exact holds_of hg (List.Subset.refl _) (List.subset_append_right _ _)
  · exact holds_post _ _ _
  · split
    · exact holds_of (grows_one rfl rfl) (List.Subset.refl _) (List.subset_append_right _ _)
    · exact holds_of (grows_same rfl) (List.Subset.refl _) (List.Subset.refl _)

theorem holds_teardown (s : Client) (err : Fault) (cause : Option Pid) :
    Holds x s (s.teardown err cause) where
  grows := (grows_teardown s err cause).weaken mute_of_inner
  pending := fun hx => .inr ⟨_, List.mem_cons_self .., hx⟩
  stack := fun ⟨f, hf, hx⟩ =>
    ⟨f, List.mem_cons_of_mem _ (List.mem_cons_of_mem _ (List.mem_cons_of_mem _ hf)), hx⟩

theorem holds_ensure (s : Client) (w : Option Pid → Waiter) (launch : Launch) :
    Holds x s (s.ensure w launch) := by
  unfold ensure
  split
  · exact holds_call _ _ _ _
  · split
    · exact holds_of (grows_same rfl) (List.Subset.refl _) (List.Subset.refl _)
    · exact holds_of (grows_same rfl) (List.Subset.refl _) (List.subset_cons_self _ _)
    · exact holds_of (grows_same rfl) (List.Subset.refl _) (List.subset_cons_self _ _)
    · refine Holds.trans ?_ (holds_post _ _ _)
      exact holds_of (grows_one rfl rfl) (List.Subset.refl _) (List.Subset.refl _)

theorem holds_act (s : Client) (a : Action) : Holds x s (s.act a) := by
  cases a with
  | request r execute launch =>
    refine Holds.trans ?_ (holds_ensure _ _ _)
    exact holds_of (grows_one rfl rfl) (List.Subset.refl _) (List.Subset.refl _)
  | ensure launch => exact holds_ensure _ _ _
  | stop =>
    show Holds x s s.stop
    unfold stop
    split
    · refine Holds.trans ?_ (holds_teardown _ _ _)
      exact holds_of (grows_same rfl) (List.Subset.refl _) (List.Subset.refl _)
    · exact holds_teardown _ _ _

theorem holds_answer (s : Client) (e : Entry) (res : Answer) (cause : Option Pid) :
    Holds x s (s.answer env e res cause) := by
  unfold answer
  split
  · have htell : Holds x s (s.tell (.greeted res e.owner cause)) :=
      holds_of (grows_one rfl rfl) (List.Subset.refl _) (List.Subset.refl _)
    refine htell.trans ?_
    rcases greet_cases env (s.tell (.greeted res e.owner cause)) res cause with
      ⟨-, proto, err, heq⟩ | ⟨-, proto, engine, drivers, heq⟩
    · rw [heq]
      refine Holds.trans ?_ (holds_teardown _ _ _)
      exact holds_of (grows_same rfl) (List.Subset.refl _) (List.subset_append_right _ _)
    · rw [heq]
      exact holds_of (grows_same rfl) (List.Subset.refl _) (List.subset_cons_self _ _)
  · exact holds_of (grows_one rfl rfl) (List.Subset.refl _) (List.subset_append_right _ _)
  · rename_i m _
    rcases executed_cases (s.tell (.ran m res e.owner cause)) m res e.owner with
      ⟨-, heq⟩ | ⟨-, watchers, -, heq⟩
    · rw [heq]
      exact holds_of (grows_one rfl rfl) (List.Subset.refl _) (List.Subset.refl _)
    · rw [heq]
      exact holds_of (grows_one rfl rfl) (List.Subset.refl _) (List.subset_append_right _ _)

/-- What an error unwinds fails nobody. -/
theorem holds_unwind {stack : List Frame} (hs : ∀ f ∈ s.stack, f.fails x → f ∈ stack) :
    Holds x s (s.unwind stack) where
  grows := (grows_unwind s stack).weaken mute_of_ensuing
  pending := fun hx => .inl ((unwind_fields s stack).1 ▸ hx)
  stack := fun ⟨f, hf, hx⟩ => by
    have hm := hs f hf hx
    rcases unwind_cases s stack with ⟨p, rest, stack', rfl, heq⟩ | ⟨-, heq⟩
    · rw [heq]
      rcases List.mem_cons.mp hm with rfl | hm
      · exact hx.elim
      · rcases List.mem_cons.mp hm with rfl | hm
        · exact hx.elim
        · exact ⟨f, hm, hx⟩
    · rw [heq]
      exact ⟨f, hm, hx⟩

/-- An answered callback is called. -/
theorem answer_calls (s : Client) (e : Entry) (res : Answer) (cause : Option Pid) :
    Called e.cb s.hist (s.answer env e res cause) := by
  obtain ⟨cb, owner⟩ := e
  cases cb with
  | hello =>
    have hsub : (s.tell (.greeted res owner cause)).hist <:+
        ((s.tell (.greeted res owner cause)).greet env res cause).hist := by
      rcases greet_cases env (s.tell (.greeted res owner cause)) res cause with
        ⟨-, proto, err, heq⟩ | ⟨-, proto, engine, drivers, heq⟩
      · rw [heq]
        exact List.suffix_cons _ _
      · rw [heq]
    obtain ⟨es, hes⟩ := hsub
    refine ⟨es ++ [.greeted res owner cause], ?_, .greeted res owner cause, by simp, rfl⟩
    rw [List.append_assoc]
    exact hes.symm
  | user n =>
    exact ⟨[.ran n res owner cause], rfl, _, List.mem_singleton_self _, beq_self_eq_true _⟩
  | execute n =>
    refine ⟨[.ran n res owner cause], ?_, _, List.mem_singleton_self _, beq_self_eq_true _⟩
    show ((s.tell (.ran n res owner cause)).executed n res owner).hist = _
    rcases executed_cases (s.tell (.ran n res owner cause)) n res owner with
      ⟨-, heq⟩ | ⟨-, watchers, -, heq⟩
    · rw [heq]
      rfl
    · rw [heq]
      rfl

/-! ### One request through a burst -/

/-- Since `h₀` the callback was called, or no message has answered its request, or it is about
to be failed. -/
inductive Told (h₀ : List Event) (x : ℕ × Entry) (t : Client) : Prop
  | called (h : Called x.2.cb h₀ t)
  | waits (es : List Event) (h : t.hist = es ++ h₀) (hx : x ∈ t.pending)
      (hno : ∀ e ∈ es, ∀ msg, e.message = some msg → ¬ msg.answers x.1)
  | fails (h : h₀ <:+ t.hist) (hf : ∃ f ∈ t.stack, f.fails x)

theorem Called.grows {cb : Cb} (h : Called cb h₀ s) (hs : s.hist <:+ t.hist) :
    Called cb h₀ t := by
  obtain ⟨es, hes, e, he, hcalls⟩ := h
  obtain ⟨es', hes'⟩ := hs
  refine ⟨es' ++ es, ?_, e, List.mem_append_right _ he, hcalls⟩
  rw [← hes', hes, List.append_assoc]

theorem Called.since {cb : Cb} {e : Event} (h : Called cb (e :: h₀) t) : Called cb h₀ t := by
  obtain ⟨es, hes, hcall⟩ := h
  refine ⟨es ++ [e], by rw [hes, List.append_assoc]; rfl, ?_⟩
  exact hcall.imp fun _ he => ⟨List.mem_append_left _ he.1, he.2⟩

theorem Told.suffix (h : Told h₀ x s) : h₀ <:+ s.hist := by
  cases h with
  | called h =>
    obtain ⟨es, hes, -⟩ := h
    exact ⟨es, hes.symm⟩
  | waits es hes hx hno => exact ⟨es, hes.symm⟩
  | fails h hf => exact h

theorem Told.call (h : Told h₀ x s) {cb : Cb} (hcb : x.2.cb = cb) (hc : Called cb s.hist t) :
    Told h₀ x t := by
  obtain ⟨es, hes⟩ := h.suffix
  obtain ⟨es', hes', e, he, hcalls⟩ := hc
  refine .called ⟨es' ++ es, ?_, e, List.mem_append_left _ he, hcb ▸ hcalls⟩
  rw [hes', ← hes, List.append_assoc]

theorem Told.holds (h : Told h₀ x s) (hk : Holds x s t) : Told h₀ x t := by
  have hsub := hk.grows.suffix
  cases h with
  | called h => exact .called (h.grows hsub)
  | waits es hes hx hno =>
    rcases hk.pending hx with hx | hf
    · obtain ⟨es', hes', hmute⟩ := hk.grows
      refine .waits (es' ++ es) (by rw [hes', hes, List.append_assoc]) hx fun e he msg hm => ?_
      rcases List.mem_append.mp he with he | he
      · have hnone := Option.isNone_iff_eq_none.mp (hmute e he)
        rw [hnone] at hm
        cases hm
      · exact hno e he msg hm
    · exact .fails (List.IsSuffix.trans ⟨es, hes.symm⟩ hsub) hf
  | fails h hf => exact .fails (h.trans hsub) (hk.stack hf)

/-- A message that does not answer the request is dispatched. -/
theorem Told.heard (h : Told h₀ x s) {msg : Json} (hno : x ∈ s.pending → ¬ msg.answers x.1)
    (p : Pid) : Told h₀ x (s.heard p msg) := by
  cases h with
  | called h => exact .called (h.grows (List.suffix_cons _ _))
  | waits es hes hx hno' =>
    refine .waits (.dispatched p msg :: es) (congrArg (_ :: ·) hes) hx fun e he m hm => ?_
    rcases List.mem_cons.mp he with rfl | he
    · cases hm
      exact hno hx
    · exact hno' e he m hm
  | fails h hf =>
    refine .fails (h.trans (List.suffix_cons _ _)) ?_
    exact hf.imp fun _ h => ⟨List.mem_cons_of_mem _ h.1, h.2⟩

theorem addressee_answers {msg : Json} {y : ℕ × Entry} (h : s.addressee msg = some y) :
    msg.answers y.1 := by
  unfold addressee at h
  split at h
  · rename_i q hq
    have heq := List.find?_some h
    unfold Json.answers
    rw [hq, of_decide_eq_true heq]
  · cases h

/-- The request that a message answers is the one with its id. -/
theorem addressee_of_answers (hk : s.Keyed) {msg : Json} (ha : msg.answers x.1)
    (hx : x ∈ s.pending) : s.addressee msg = some x := by
  unfold addressee
  rw [show (msg.field "id").bind Json.key = some (.num x.1) from ha]
  dsimp only
  cases hf : s.pending.find? fun y => (y.1 : ℚ) = x.1 with
  | none => exact absurd (decide_eq_true rfl) (List.find?_eq_none.mp hf x hx)
  | some y =>
    have hfound := List.find?_some hf
    have hid : y.1 = x.1 := Rat.natCast_inj.mp (of_decide_eq_true hfound)
    have hy := List.mem_of_find?_eq_some hf
    exact congrArg some (List.inj_on_of_nodup_map hk.distinct hy hx hid)

/-- A message answers the request, or leaves it as it was. -/
theorem Told.drop (h : Told h₀ x s) (hk : s.Keyed) {msg : Json} {y : ℕ × Entry}
    (ha : s.addressee msg = some y) (p : Pid) : x = y ∨ Told h₀ x ((s.heard p msg).drop y.1) := by
  by_cases hy : x ∈ s.pending ∧ msg.answers x.1
  · have hx := addressee_of_answers hk hy.2 hy.1
    exact .inl (Option.some.inj (hx.symm.trans ha))
  · have hheard := h.heard (fun hx hans => hy ⟨hx, hans⟩) p
    refine .inr ?_
    cases hheard with
    | called h => exact .called h
    | waits es hes hx hno =>
      refine .waits es hes (List.mem_filter.mpr ⟨hx, decide_eq_true fun heq => hy ⟨hx, ?_⟩⟩) hno
      exact heq ▸ addressee_answers ha
    | fails h hf => exact .fails h hf

theorem Told.hears (h : Told h₀ x s) (hk : s.Keyed) {p : Pid} {msg : Json}
    (hm : Hears env s p msg t) : Told h₀ x t := by
  cases hm with
  | nobody ha =>
    refine h.heard (fun hx hans => ?_) p
    rw [addressee_of_answers hk hans hx] at ha
    cases ha
  | notified hw ha =>
    have hheard : Told h₀ x (s.heard p msg) := h.heard (fun hx hans => by
      rw [addressee_of_answers hk hans hx] at ha
      cases ha) p
    refine hheard.holds ?_
    exact holds_of (grows_one rfl rfl) (List.Subset.refl _) (List.subset_append_right _ _)
  | answered ha hr =>
    rename_i id e
    rcases h.drop hk ha p with rfl | hdrop
    · exact h.call rfl (answer_calls ((s.heard p msg).drop id) e (answerOf msg) (some p)).since
    · exact hdrop.holds (holds_answer _ _ _ _)
  | raised ha hr =>
    rename_i id n owner
    rcases h.drop hk ha p with rfl | hdrop
    · have hran : Called (.execute n) s.hist (((s.heard p msg).drop id).tell
          (.ran n (answerOf msg) owner (some p))) :=
        ⟨[.ran n (answerOf msg) owner (some p), .dispatched p msg], rfl, _,
          List.mem_cons_self .., beq_self_eq_true _⟩
      exact h.call rfl (hran.grows (grows_unwind _ _).suffix)
    · refine hdrop.holds (Holds.trans ?_ (holds_unwind ?_))
      · exact holds_of (grows_one rfl rfl) (List.Subset.refl _) (List.Subset.refl _)
      · exact fun f hf _ => hf

theorem Told.go (h : Told h₀ x s) (hk : s.Keyed) (hg : Goes env s k t) : Told h₀ x t := by
  -- the frame on top is taken
  have hpop : ∀ {f stack}, s.stack = f :: stack → ¬ f.fails x →
      (∃ f ∈ s.stack, f.fails x) → ∃ f ∈ stack, f.fails x := by
    intro f stack hs hno ⟨g, hg, hx⟩
    rw [hs] at hg
    rcases List.mem_cons.mp hg with rfl | hg
    · exact absurd hx hno
    · exact ⟨g, hg, hx⟩
  have hpush : ∀ {f : Frame} {stack : List Frame}, (∃ f ∈ stack, f.fails x) →
      ∃ g ∈ f :: stack, g.fails x :=
    fun hf => hf.imp fun _ h => ⟨List.mem_cons_of_mem _ h.1, h.2⟩
  cases hg with
  | popped hs hf =>
    refine h.holds ⟨grows_same rfl, .inl, hpop hs ?_⟩
    rcases hf with rfl | ⟨p, rfl⟩ | ⟨err, cause, rfl⟩ | ⟨res, cause, rfl⟩ | ⟨err, cause, rfl⟩
    · exact id
    · exact id
    · exact List.not_mem_nil
    · exact id
    · exact id
  | dispatched hs => exact h.holds ⟨grows_same rfl, .inl, hpop hs id⟩
  | skipped hs hm => exact h.holds ⟨grows_same rfl, .inl, hpush ∘ hpop hs id⟩
  | message hs hm =>
    rename_i p line rest stack msg
    have htop : Told h₀ x { s with stack := .lines p rest :: stack } :=
      h.holds ⟨grows_same rfl, .inl, hpush ∘ hpop hs id⟩
    refine htop.hears ?_ (hears_onMessage _ _ _ _)
    exact hk.of (List.Sublist.refl _) le_rfl
  | pending hs hx =>
    rename_i dead err cause stack y
    by_cases hy : x = y
    · subst hy
      exact h.call rfl (answer_calls _ _ _ _)
    · refine h.holds (Holds.trans ?_ (holds_answer _ _ _ _))
      refine ⟨grows_same rfl, .inl, fun ⟨f, hf, hfx⟩ => ?_⟩
      rw [hs] at hf
      rcases List.mem_cons.mp hf with rfl | hf
      · obtain ⟨i, hi⟩ := List.getElem?_of_mem hfx
        have hik : i ≠ k := by
          rintro rfl
          exact hy (Option.some.inj (hi.symm.trans hx))
        exact ⟨_, List.mem_cons_self .., List.mem_eraseIdx_iff_getElem?.mpr ⟨i, hik, hi⟩⟩
      · exact ⟨f, List.mem_cons_of_mem _ hf, hfx⟩
  | waiters hs => exact h.holds ⟨grows_same rfl, .inl, hpush ∘ hpop hs id⟩
  | waiter hs =>
    refine h.holds (Holds.trans ?_ (holds_call _ _ _ _))
    exact ⟨grows_same rfl, .inl, hpush ∘ hpop hs id⟩
  | hooks hs => exact h.holds ⟨grows_same rfl, .inl, hpush ∘ hpop hs id⟩
  | watcher hs hx =>
    exact h.holds ⟨grows_one rfl rfl, .inl, hpush ∘ hpush ∘ hpop hs id⟩

theorem Told.step {i : Input} (h : Told h₀ x s) (hk : s.Keyed) (hst : Steps env s i t) :
    Told h₀ x t := by
  cases hst with
  | act a hc => exact h.holds (holds_act s a)
  | ret hs =>
    refine h.holds ⟨grows_same rfl, .inl, fun ⟨f, hf, hx⟩ => ?_⟩
    rw [hs] at hf
    rcases List.mem_cons.mp hf with rfl | hf
    · exact hx.elim
    · exact ⟨f, hf, hx⟩
  | raise hs =>
    refine h.holds (holds_unwind fun f hf hx => ?_)
    rw [hs] at hf
    rcases List.mem_cons.mp hf with rfl | hf
    · exact hx.elim
    · exact hf
  | go hg => exact h.go hk hg
  | stdout hq hs he =>
    refine h.holds (holds_of (grows_one rfl rfl) (List.Subset.refl _) ?_)
    exact List.subset_cons_self _ _
  | die hp => exact h.holds (holds_of (grows_same rfl) (List.Subset.refl _) (List.Subset.refl _))
  | exit hq hs ha =>
    refine h.holds (Holds.trans ?_ (holds_teardown _ _ _))
    exact holds_of (grows_one rfl rfl) (List.Subset.refl _) (List.Subset.refl _)

/-! ### Bursts -/

/-- No chunk is read. -/
def Inside (_ : Client) : Input → Prop
  | .stdout _ _ => False
  | _ => True

/-- No error of this step leaves a message unread. -/
def Spares (env : Env) (s : Client) (i : Input) : Prop :=
  (s.spoils env i).filterMap env.message = []

/-- Every message of the chunk was dispatched, every request they answer has had its callback
called, and the tail is as it should be. -/
structure Delivered (env : Env) (s₀ : Client) (chunk : Bytes) (s : Client) : Prop where
  messages : s.messages =
    s₀.messages ++ (lines newline (s₀.tail ++ chunk)).filterMap env.message
  called : ∀ x ∈ s₀.pending, ∀ line ∈ lines newline (s₀.tail ++ chunk), ∀ msg,
    env.message line = some msg → msg.answers x.1 → Called x.2.cb s₀.hist s
  tail : s.tail = carried s.hist

theorem Inside.ne {i : Input} (h : s.Inside i) : ∀ p chunk, i ≠ .stdout p chunk := by
  rintro p chunk rfl
  exact h

theorem Spares.due {i : Input} (h : s.Spares env i) (hi : s.Inside i)
    (hst : s.step env i = some t) : t.due env = s.due env := by
  have hdue := (due_step hst hi.ne).1
  rw [h, List.append_nil] at hdue
  exact hdue

theorem spares_due {js : List Input}
    (hr : (machine env).Run (fun s i => s.Inside i ∧ s.Spares env i) s js t) :
    t.due env = s.due env := by
  induction hr with
  | nil => rfl
  | cons hg hst _ ih => exact ih.trans (hg.2.due hg.1 hst)

/-- What is to be dispatched gets less only where an error leaves a message unread. -/
theorem due_spares {js : List Input} (hr : (machine env).Run Inside s js t) :
    (t.due env).length ≤ (s.due env).length ∧
      ((s.due env).length ≤ (t.due env).length → (machine env).Run (Spares env) s js t) := by
  induction hr with
  | nil => exact ⟨le_rfl, fun _ => .nil _⟩
  | @cons s t u i js hi hst _ ih =>
    have hdue := congrArg List.length (due_step hst hi.ne).1
    have hlen : (t.due env).length + ((s.spoils env i).filterMap env.message).length =
        (s.due env).length := by
      rw [← hdue, Client.due]
      simp only [List.length_append]
      omega
    refine ⟨by omega, fun hle => .cons ?_ hst (ih.2 (by omega))⟩
    exact List.length_eq_zero_iff.mp (by omega)

theorem left_nil (hs : s.stack = []) : s.left = [] := by
  unfold left
  rw [hs]
  rfl

/-- The messages of a burst are all dispatched, and their callbacks called, exactly when every
error of a callback comes after the last of them. -/
theorem burst_delivered {is js : List Input} {p : Pid} {chunk : Bytes} {s₀ s₁ : Client}
    (h : (machine env).Run Lib.Machine.free new is s₀)
    (hst : s₀.step env (.stdout p chunk) = some s₁)
    (hr : (machine env).Run Inside s₁ js s) (hs : s.stack = []) :
    Delivered env s₀ chunk s ↔ (machine env).Run (Spares env) s₁ js s := by
  have htail : s₀.Reframes env := h.invariant (Reframes env)
    (fun s i t _ hs hst => hs.step hst) reframes_new
  have hkeyed : s₀.Keyed := h.invariant Keyed
    (fun s i t _ hs hst => hs.step (steps_of_step hst)) keyed_new
  have hend : s.Reframes env := hr.invariant (Reframes env)
    (fun s i t _ hs hst => hs.step hst) (htail.step hst)
  have hdone : s.due env = s.messages := by
    unfold due
    rw [left_nil hs, List.filterMap_nil, List.append_nil]
  cases steps_of_step hst with
  | stdout hq hs₀ he =>
    obtain ⟨hl, -, hm⟩ := stdout_lines hs₀ htail.tail p chunk
    have hbegin : (s₀.onStdout p chunk).due env =
        s₀.messages ++ (lines newline (s₀.tail ++ chunk)).filterMap env.message := by
      unfold due
      rw [hl, hm]
    constructor
    · intro hd
      refine (due_spares hr).2 (le_of_eq ?_)
      rw [hbegin, hdone, hd.messages]
    · intro hsp
      have hmsgs : s.messages =
          s₀.messages ++ (lines newline (s₀.tail ++ chunk)).filterMap env.message := by
        rw [← hdone, spares_due (hr.and hsp), hbegin]
      refine ⟨hmsgs, fun x hx line hline msg hmsg hans => ?_, hend.tail⟩
      have htold : s.Told s₀.hist x := by
        refine hr.invariant_with Keyed (Told s₀.hist x)
          (fun s i t _ hk hst => hk.step (steps_of_step hst))
          (fun s i t _ hk ht hst => ht.step hk (steps_of_step hst))
          (hkeyed.step (steps_of_step hst)) ?_
        refine .waits [_] rfl hx fun e he msg hm => ?_
        rw [List.mem_singleton.mp he] at hm
        cases hm
      cases htold with
      | called hc => exact hc
      | waits es hes hx' hno =>
        -- the message was dispatched since, and so has answered
        have hnew : es.reverse.filterMap Event.message =
            (lines newline (s₀.tail ++ chunk)).filterMap env.message := by
          have hcut := hmsgs
          unfold messages at hcut
          rw [hes, List.reverse_append, List.filterMap_append] at hcut
          exact List.append_cancel_left hcut
        have hmem : msg ∈ es.reverse.filterMap Event.message :=
          hnew ▸ List.mem_filterMap.mpr ⟨line, hline, hmsg⟩
        obtain ⟨e, he, hem⟩ := List.mem_filterMap.mp hmem
        exact absurd hans (hno e (List.mem_reverse.mp he) msg hem)
      | fails _ hf =>
        obtain ⟨f, hf, -⟩ := hf
        rw [hs] at hf
        cases hf

instance (i : Input) : Decidable (s.Inside i) :=
  match i with
  | .stdout _ _ => .isFalse id
  | .act _ | .ret | .raise | .go _ | .die _ | .exit _ => .isTrue trivial

instance (i : Input) : Decidable (s.Spares env i) :=
  decidable_of_iff _ List.isEmpty_iff

/-- `A` and `B` answer the requests 2 and 3. -/
def answerEnv : Env where
  decode := fun line =>
    if line = [65] then some (.obj [("id", .num 2), ("ok", .bool true)])
    else if line = [66] then some (.obj [("id", .num 3), ("ok", .bool true)])
    else helloEnv.decode line
  tonumber := fun _ => none

/-- The handshake is done and two requests are sent. -/
def twoRequests : List Input :=
  [.act (.ensure (.works "loded")), .stdout 0 [72, 10], .go 0, .go 0, .ret, .go 0, .go 0, .go 0,
    .act (.request ⟨"conn.list", none⟩ false .missing),
    .act (.request ⟨"query.list", none⟩ false .missing)]

/-- The states before a chunk, after it, and after what it leads to. -/
def burst (chunk : Bytes) (check : Client → Input → Bool) (js : List Input) :
    Option (Client × Client × Client) :=
  ((machine answerEnv).exec new twoRequests).bind fun s₀ =>
    (s₀.step answerEnv (.stdout 0 chunk)).bind fun s₁ =>
      ((machine answerEnv).execWith check s₁ js).map fun s => (s₀, s₁, s)

theorem burst_eq_some {chunk : Bytes} {check : Client → Input → Bool} {js : List Input}
    {x : Client × Client × Client} (h : burst chunk check js = some x) :
    (machine answerEnv).exec new twoRequests = some x.1 ∧
      x.1.step answerEnv (.stdout 0 chunk) = some x.2.1 ∧
      (machine answerEnv).execWith check x.2.1 js = some x.2.2 := by
  obtain ⟨s₀, hs₀, h⟩ := Option.bind_eq_some_iff.mp h
  obtain ⟨s₁, hs₁, h⟩ := Option.bind_eq_some_iff.mp h
  obtain ⟨s, hs, rfl⟩ := Option.map_eq_some_iff.mp h
  exact ⟨hs₀, hs₁, hs⟩

/-- The callback of the last message raises. -/
theorem burst_delivered_last :
    ∃ s₀ s₁ s, (machine answerEnv).Run Lib.Machine.free new twoRequests s₀ ∧
      s₀.step answerEnv (.stdout 0 [66, 10, 65, 10, 120]) = some s₁ ∧
      (machine answerEnv).Run Inside s₁ [.go 0, .ret, .go 0, .go 0, .raise] s ∧ s.stack = [] ∧
      Delivered answerEnv s₀ [66, 10, 65, 10, 120] s := by
  let check := fun (s : Client) (i : Input) => decide (s.Inside i) && decide (s.Spares answerEnv i)
  have hsome : (burst [66, 10, 65, 10, 120] check [.go 0, .ret, .go 0, .go 0, .raise]).map
      (fun x => x.2.2.stack.isEmpty) = some true := by decide
  obtain ⟨x, hx, hstack⟩ := Option.map_eq_some_iff.mp hsome
  obtain ⟨hs₀, hs₁, hs⟩ := burst_eq_some hx
  have hrun : (machine answerEnv).Run Lib.Machine.free new twoRequests x.1 :=
    Lib.Machine.run_of_exec hs₀
  have hboth : (machine answerEnv).Run (fun s i => s.Inside i ∧ s.Spares answerEnv i) x.2.1 _ x.2.2 :=
    Lib.Machine.run_of_execWith (fun s i hc => by
      obtain ⟨hi, hsp⟩ := Bool.and_eq_true_iff.mp hc
      exact ⟨of_decide_eq_true hi, of_decide_eq_true hsp⟩) hs
  have hin := hboth.weaken fun _ _ hg => hg.1
  have hend := List.isEmpty_iff.mp hstack
  refine ⟨x.1, x.2.1, x.2.2, hrun, hs₁, hin, hend, ?_⟩
  exact (burst_delivered hrun hs₁ hin hend).mpr (hboth.weaken fun _ _ hg => hg.2)

/-- The callback of the first of two messages raises. -/
theorem second_message_lost :
    ∃ s₀ s₁ s, (machine answerEnv).exec new twoRequests = some s₀ ∧
      s₀.step answerEnv (.stdout 0 [65, 10, 66, 10]) = some s₁ ∧
      (machine answerEnv).exec s₁ [.go 0, .raise] = some s ∧ s.stack = [] ∧
      ¬ Delivered answerEnv s₀ [65, 10, 66, 10] s := by
  have hsome : (burst [65, 10, 66, 10] (fun _ _ => true) [.go 0, .raise]).map (fun x =>
      (x.2.2.stack.isEmpty, x.2.2.messages.length, (x.1.messages ++
        (lines newline (x.1.tail ++ [65, 10, 66, 10])).filterMap answerEnv.message).length)) =
      some (true, 2, 3) := by decide
  obtain ⟨x, hx, hview⟩ := Option.map_eq_some_iff.mp hsome
  simp only [Prod.mk.injEq] at hview
  obtain ⟨hstack, hlen, hall⟩ := hview
  obtain ⟨hs₀, hs₁, hs⟩ := burst_eq_some hx
  refine ⟨x.1, x.2.1, x.2.2, hs₀, hs₁, ?_, List.isEmpty_iff.mp hstack, fun hd => ?_⟩
  · have hrun : (machine answerEnv).Run Lib.Machine.free x.2.1 _ x.2.2 :=
      Lib.Machine.run_of_execWith (fun _ _ _ => trivial) hs
    exact hrun.exec_eq
  · have heq := congrArg List.length hd.messages
    rw [hlen, hall] at heq
    cases heq

end Client
end LvimDb.Daemon
