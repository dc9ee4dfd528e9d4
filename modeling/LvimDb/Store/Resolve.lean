import LvimDb.Store.Backend

/-!
# The backend that is resolved

The first call decides for the session. Where the engine has a usable store, a session stays
with it as long as no call but `M.record` asks for an undecided backend from within a daemon
callback, and no `store.status` is given up on.
-/

namespace LvimDb.Store
open Lib (Machine)

theorem World.fallback_ne (w : World) : w.fallback ≠ .engine := by
  unfold World.fallback
  split <;> decide

namespace Session
variable {w : World} {s t : Session} {c : Call} {m : Mode} {reply : Option Reply}

/-- The backend is not known, or the engine. -/
def Engine (s : Session) : Prop := s.mode = none ∨ s.mode = some .engine

/-- A `store.status` is given up on, or has come to an error. -/
def unanswered (s : Session) : Bool :=
  match s.stack with
  | .status _ reply :: _ => decide (reply ≠ some .answer)
  | _ => false

/-- An undecided backend is asked for from outside of the callbacks, but by `M.record`, and no
`store.status` is left without an answer. -/
def Guarded (s : Session) : Input → Prop
  | .call c => s.mode = none → s.dispatching = true → c = .record
  | .resume => s.unanswered = false
  | _ => True

instance (s : Session) (i : Input) : Decidable (s.Guarded i) :=
  match i with
  | .call _ => inferInstanceAs (Decidable (_ → _ → _))
  | .resume => inferInstanceAs (Decidable (_ = _))
  | .deferred | .hello | .message _ | .lost _ | .ret => isTrue trivial

/-- The engine that answers has reported its protocol. -/
structure Greeted (w : World) (s : Session) : Prop where
  proto : s.proto = none ∨ s.proto = some w.proto
  answered : ∀ c, .status c (some .answer) ∈ s.stack → s.proto = some w.proto

theorem perform_mode : (s.perform c m).mode = s.mode := by
  unfold perform
  split
  · split <;> rfl
  · rfl

theorem perform_proto : (s.perform c m).proto = s.proto := by
  unfold perform
  split
  · split <;> rfl
  · rfl

/-- What a call puts on the stack has no reply yet. -/
theorem perform_answered {c' : Call} (h : .status c' (some .answer) ∈ (s.perform c m).stack) :
    .status c' (some .answer) ∈ s.stack := by
  unfold perform at h
  split at h
  · split at h
    · exact h
    · simpa [push] using h
  · exact h

theorem Greeted.perform (h : Greeted w s) : Greeted w (s.perform c m) where
  proto := by
    rw [perform_proto]
    exact h.proto
  answered c' hc := by
    rw [perform_proto]
    exact h.answered c' (perform_answered hc)

theorem Greeted.push {f : Frame} (h : Greeted w s) (hf : ∀ c, f ≠ .status c (some .answer)) :
    Greeted w (s.push f) where
  proto := h.proto
  answered c hc := by
    rcases List.mem_cons.mp hc with heq | hc
    · exact absurd heq.symm (hf c)
    · exact h.answered c hc

theorem Greeted.choose (h : Greeted w s) : Greeted w (s.choose m) := ⟨h.proto, h.answered⟩

theorem Greeted.stack {stack : List Frame} (h : Greeted w s) (hsub : stack ⊆ s.stack) :
    Greeted w { s with stack := stack } :=
  ⟨h.proto, fun c hc => h.answered c (hsub hc)⟩

theorem Greeted.migrateOnce (h : Greeted w s) : Greeted w (s.migrateOnce c) := by
  unfold Session.migrateOnce
  split
  · exact h.push (by simp)
  · exact h.perform

theorem Greeted.resolve (h : Greeted w s) : Greeted w (s.resolve w c) := by
  unfold Session.resolve
  split
  · exact h.perform
  · split
    · exact h.push (by simp)
    · exact h.choose.perform

theorem Greeted.call (h : Greeted w s) : Greeted w (s.call w c) := by
  unfold Session.call
  split
  · exact ⟨h.proto, h.answered⟩
  · exact h.resolve

theorem Greeted.resolved (h : Greeted w s) : Greeted w (s.resolved w c reply) := by
  unfold Session.resolved
  split
  · exact h.choose.migrateOnce
  · exact h.choose.perform

theorem Greeted.resume (h : Greeted w s) (hst : s.resume w = some t) : Greeted w t := by
  unfold Session.resume at hst
  split at hst
  · rename_i heq
    obtain rfl := Option.some.inj hst
    exact (h.stack (heq ▸ List.subset_cons_self ..)).resolved
  · rename_i heq
    obtain rfl := Option.some.inj hst
    have hg := h.stack (heq ▸ List.subset_cons_self ..)
    exact Greeted.perform ⟨hg.proto, hg.answered⟩
  · rename_i heq
    obtain rfl := Option.some.inj hst
    exact h.stack (heq ▸ List.subset_cons_self ..)
  · cases hst

theorem Greeted.deliver (h : Greeted w s) (hst : s.deliver = some t) : Greeted w t := by
  unfold Session.deliver at hst
  split at hst
  · cases hst
  · obtain rfl := Option.some.inj hst
    exact h.push (by simp)

theorem settle_eq {n : ℕ} {r : Reply} (hst : s.settle n r = some t) :
    ∃ f g, s.stack[n]? = some f ∧ f.settle r = some g ∧
      t = { s with stack := s.stack.set n g } := by
  obtain ⟨g, hg, rfl⟩ := Option.map_eq_some_iff.mp hst
  obtain ⟨f, hf, hfg⟩ := Option.bind_eq_some_iff.mp hg
  exact ⟨f, g, hf, hfg, rfl⟩

/-- The engine answers once it has greeted. -/
theorem Greeted.settle {n : ℕ} {r : Reply} (h : Greeted w s) (hst : s.settle n r = some t)
    (hr : r = .answer → s.proto = some w.proto) : Greeted w t := by
  obtain ⟨f, g, -, hfg, rfl⟩ := settle_eq hst
  refine ⟨h.proto, ?_⟩
  intro c hc
  rcases List.mem_or_eq_of_mem_set hc with hc | rfl
  · exact h.answered c hc
  · apply hr
    cases f with
    | status c' reply =>
      cases reply with
      | none =>
        simp only [Frame.settle, Option.some.injEq, Frame.status.injEq] at hfg
        exact hfg.2
      | some r' => cases hfg
    | callback => cases hfg
    | «import» c' reply =>
      cases reply with
      | none => simp [Frame.settle] at hfg
      | some r' => cases hfg
    | request reply =>
      cases reply with
      | none => simp [Frame.settle] at hfg
      | some r' => cases hfg

theorem Greeted.step {i : Input} (h : Greeted w s) (hst : s.step w i = some t) :
    Greeted w t := by
  cases i with
  | call c =>
    obtain rfl := Option.some.inj hst
    exact h.call
  | deferred =>
    obtain ⟨-, hst⟩ := Option.ite_none_right_eq_some.mp hst
    obtain rfl := Option.some.inj hst
    exact Greeted.call ⟨h.proto, h.answered⟩
  | hello =>
    obtain ⟨-, hst⟩ := Option.ite_none_right_eq_some.mp hst
    exact Greeted.deliver ⟨.inr rfl, fun _ _ => rfl⟩ hst
  | message n =>
    cases n with
    | none => exact h.deliver hst
    | some n =>
      obtain ⟨hp, hst⟩ := Option.ite_none_right_eq_some.mp hst
      obtain ⟨u, hu, hst⟩ := Option.bind_eq_some_iff.mp hst
      refine (h.settle hu fun _ => h.proto.resolve_left ?_).deliver hst
      exact Option.isSome_iff_ne_none.mp hp
  | lost n => exact h.settle hst (by simp)
  | ret =>
    simp only [Session.step] at hst
    split at hst
    · rename_i heq
      obtain rfl := Option.some.inj hst
      exact h.stack (heq ▸ List.subset_cons_self ..)
    · cases hst
  | resume => exact h.resume hst

/-! ### The backend along a step -/

theorem migrateOnce_mode : (s.migrateOnce c).mode = s.mode := by
  unfold migrateOnce
  split
  · rfl
  · exact perform_mode

theorem fallback_not_engine (h : s.mode = some w.fallback) : ¬ s.Engine := by
  rintro (h' | h')
  · rw [h] at h'
    cases h'
  · rw [h] at h'
    exact w.fallback_ne (Option.some.inj h')

/-- An undecided call waits for the engine, outside of a callback. -/
theorem resolve_engine (hb : w.binary = true) (h : s.Engine) :
    (s.resolve w c).Engine ↔ (s.mode = none → s.dispatching = false) := by
  unfold Session.resolve
  rcases h with h | h
  · rw [h]
    cases hd : s.dispatching with
    | false => simp [hb, Engine, h]
    | true =>
      simp only [hb, Bool.not_true, Bool.and_false, Bool.false_eq_true, if_false]
      have hmode : ((s.choose w.fallback).perform c w.fallback).mode = some w.fallback :=
        perform_mode
      simp [fallback_not_engine hmode]
  · rw [h]
    have hmode : (s.perform c .engine).mode = some .engine := perform_mode.trans h
    simp [Engine, hmode]

theorem call_engine (hb : w.binary = true) (h : s.Engine) :
    (s.call w c).Engine ↔ (s.mode = none → s.dispatching = true → c = .record) := by
  unfold Session.call
  split
  · rename_i hc
    simp [Engine, hc.1, hc.2.1]
  · rename_i hc
    rw [resolve_engine hb h]
    constructor
    · intro hd hm hd'
      rw [hd hm] at hd'
      cases hd'
    · intro hg hm
      by_contra hd
      have hd : s.dispatching = true := by simpa using hd
      exact hc ⟨hg hm hd, hm, hd⟩

theorem resolved_engine (hp : STORE_PROTO ≤ w.proto) (ha : w.available = true)
    (hanswer : reply = some .answer → s.proto = some w.proto) :
    (s.resolved w c reply).Engine ↔ reply = some .answer := by
  unfold Session.resolved
  split
  · rename_i hc
    have hmode : ((s.choose .engine).migrateOnce c).mode = some .engine := migrateOnce_mode
    simp [Engine, hmode, hc.1]
  · rename_i hc
    have hmode : ((s.choose w.fallback).perform c w.fallback).mode = some w.fallback :=
      perform_mode
    refine iff_of_false (fallback_not_engine hmode) fun hr => hc ⟨hr, ?_, ha⟩
    rw [hanswer hr]
    exact hp

/-- The mode is all that counts. -/
theorem Engine.congr (h : s.Engine) (hm : t.mode = s.mode) : t.Engine := by
  unfold Engine
  rw [hm]
  exact h

theorem resume_engine (hp : STORE_PROTO ≤ w.proto) (ha : w.available = true)
    (hg : Greeted w s) (h : s.Engine) (hst : s.resume w = some t) :
    t.Engine ↔ s.Guarded .resume := by
  unfold Session.resume at hst
  split at hst
  · rename_i c reply stack heq
    obtain rfl := Option.some.inj hst
    have hanswer : reply = some .answer → s.proto = some w.proto := by
      rintro rfl
      apply hg.answered c
      rw [heq]
      exact List.mem_cons_self ..
    refine (resolved_engine (s := { s with stack := stack }) hp ha hanswer).trans ?_
    simp [Guarded, unanswered, heq]
  · rename_i c reply stack heq
    obtain rfl := Option.some.inj hst
    exact iff_of_true (h.congr perform_mode) (by simp [Guarded, unanswered, heq])
  · rename_i reply stack heq
    obtain rfl := Option.some.inj hst
    exact iff_of_true h (by simp [Guarded, unanswered, heq])
  · cases hst

theorem deliver_mode (hst : s.deliver = some t) : t.mode = s.mode := by
  unfold Session.deliver at hst
  split at hst
  · cases hst
  · obtain rfl := Option.some.inj hst
    rfl

theorem settle_mode {n : ℕ} {r : Reply} (hst : s.settle n r = some t) : t.mode = s.mode := by
  obtain ⟨f, g, -, -, rfl⟩ := settle_eq hst
  rfl

/-- A step stays with the engine exactly when it is guarded. -/
theorem step_engine {i : Input} (hb : w.binary = true) (hp : STORE_PROTO ≤ w.proto)
    (ha : w.available = true) (hg : Greeted w s) (h : s.Engine) (hst : s.step w i = some t) :
    t.Engine ↔ s.Guarded i := by
  cases i with
  | call c =>
    obtain rfl := Option.some.inj hst
    exact call_engine hb h
  | deferred =>
    obtain ⟨-, hst⟩ := Option.ite_none_right_eq_some.mp hst
    obtain rfl := Option.some.inj hst
    have h' : { s with deferred := s.deferred - 1 }.Engine := h
    exact iff_of_true ((call_engine hb h').mpr fun _ _ => rfl) trivial
  | hello =>
    obtain ⟨-, hst⟩ := Option.ite_none_right_eq_some.mp hst
    have h' : { s with proto := some w.proto }.Engine := h
    exact iff_of_true (h'.congr (deliver_mode hst)) trivial
  | message n =>
    refine iff_of_true (h.congr ?_) trivial
    cases n with
    | none => exact deliver_mode hst
    | some n =>
      obtain ⟨-, hst⟩ := Option.ite_none_right_eq_some.mp hst
      obtain ⟨u, hu, hst⟩ := Option.bind_eq_some_iff.mp hst
      exact (deliver_mode hst).trans (settle_mode hu)
  | lost n => exact iff_of_true (h.congr (settle_mode hst)) trivial
  | ret =>
    simp only [Session.step] at hst
    split at hst
    · obtain rfl := Option.some.inj hst
      exact iff_of_true h trivial
    · cases hst
  | resume => exact resume_engine hp ha hg h hst

end Session

/-- With an engine that has a usable store, a session knows no other backend than the engine
exactly when every step is guarded. -/
theorem backend_engine (w : World) (hb : w.binary = true) (hp : STORE_PROTO ≤ w.proto)
    (ha : w.available = true) {is : List Input} {t : Session}
    (h : (machine w).Run Machine.free (machine w).init is t) :
    (machine w).Throughout (machine w).init is Session.Engine ↔
      (machine w).Run Session.Guarded (machine w).init is t := by
  refine h.throughout_iff (Session.Greeted w) Session.Engine ?_ ?_ ?_ ?_
  · intro s i t hk hst
    exact hk.step hst
  · intro s i t hk hP hst
    exact Session.step_engine hb hp ha hk hP hst
  · exact ⟨.inl rfl, by simp [machine, Session.new]⟩
  · exact .inl rfl

/-- An engine that has a usable store, beside a legacy file. -/
def usable : World := ⟨true, 2, true, true, true⟩

/-- The first call is made in the handshake's callback, as the form makes it. -/
def fromHandshake : List Input := [.hello, .call .request]

/-- The first call is made outside of a callback, and a record in between. -/
def fromOutside : List Input :=
  [.call .request, .hello, .call .record, .ret, .message (some 0), .ret, .resume, .message (some 0),
    .ret, .resume, .deferred]

theorem backend_engine_outside :
    ∃ t, (machine usable).Run Session.Guarded (machine usable).init fromOutside t ∧
      (machine usable).Throughout (machine usable).init fromOutside Session.Engine := by
  obtain ⟨t, ht⟩ := Option.isSome_iff_exists.mp
    (show ((machine usable).execWith (fun s i => decide (s.Guarded i)) (machine usable).init
      fromOutside).isSome = true by decide)
  have hrun := Machine.run_of_execWith (fun _ _ h => of_decide_eq_true h) ht
  refine ⟨t, hrun, ?_⟩
  exact (backend_engine usable rfl (by decide) rfl (hrun.weaken fun _ _ _ => trivial)).mpr hrun

/-- A first call that is refused leaves the session with the legacy file. -/
theorem backend_not_engine :
    ∃ t, (machine usable).Run Machine.free (machine usable).init fromHandshake t ∧
      t.mode = some .legacy := by
  obtain ⟨t, ht, hrun⟩ :=
    (machine usable).exists_run (machine usable).init fromHandshake (by decide)
  refine ⟨t, hrun, ?_⟩
  have hmode : ((machine usable).exec (machine usable).init fromHandshake).map Session.mode =
      some (some .legacy) := by decide
  rw [ht] at hmode
  exact Option.some.inj hmode

end LvimDb.Store
