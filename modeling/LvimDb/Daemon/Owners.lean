import LvimDb.Daemon.Processes

/-!
# Which process a callback belongs to

A request belongs to the process it was written to, or the one whose handshake it waits for.
What is pending is the job's, and the job is the process that was spawned last.
-/

namespace LvimDb.Daemon

/-- The loop that takes the watchers is still to come. -/
def Frame.clears : Frame → Bool
  | .hooks _ _ => true
  | _ => false

/-- An event that is no request. -/
def Event.silent : Event → Bool
  | .sent _ _ _ _ => false
  | _ => true

namespace Client
variable {env : Env} {s t : Client} {k : ℕ}

structure Filed (s : Client) : Prop where
  keyed : s.Keyed
  sent : ∀ p id m ps, .sent p id m ps ∈ s.hist → id ≤ s.idSeq
  owner : ∀ x ∈ s.pending, ∀ p m ps, .sent p x.1 m ps ∈ s.hist → x.2.owner = some p
  job : ∀ q ∈ s.job, q + 1 = s.procs.length
  pending : ∀ x ∈ s.pending, ∀ q ∈ x.2.owner, s.job = some q
  waiters : ∀ w ∈ s.waiters, ∀ q ∈ w.owner, q < s.procs.length
  watchers : ∀ w ∈ s.watchers, ∀ q ∈ w.owner, q < s.procs.length ∧
    (s.job = some q ∨ ∃ f ∈ s.stack, f.clears = true)

theorem filed_new : new.Filed where
  keyed := keyed_new
  sent := fun _ _ _ _ h => (List.not_mem_nil h).elim
  owner := fun _ h => (List.not_mem_nil h).elim
  job := fun _ h => by cases h
  pending := fun _ h => (List.not_mem_nil h).elim
  waiters := fun _ h => (List.not_mem_nil h).elim
  watchers := fun _ h => (List.not_mem_nil h).elim

/-- Nothing is sent and the job stays. -/
theorem Filed.of (h : s.Filed) (hh : t.hist = s.hist ∨ ∃ e, e.silent = true ∧ t.hist = e :: s.hist)
    (hid : t.idSeq = s.idSeq) (hj : t.job = s.job) (hl : t.procs.length = s.procs.length)
    (hp : t.pending.Sublist s.pending) (hw : t.waiters ⊆ s.waiters)
    (hv : t.watchers ⊆ s.watchers) (hf : ∀ f ∈ s.stack, f.clears = true → f ∈ t.stack) :
    t.Filed := by
  have hsent : ∀ p id m ps, .sent p id m ps ∈ t.hist → .sent p id m ps ∈ s.hist := by
    intro p id m ps hm
    rcases hh with heq | ⟨e, he, heq⟩
    · exact heq ▸ hm
    · rw [heq] at hm
      rcases List.mem_cons.mp hm with rfl | hm
      · cases he
      · exact hm
  refine ⟨h.keyed.of hp (le_of_eq hid.symm), ?_, ?_, ?_, ?_, ?_, ?_⟩
  · intro p id m ps hm
    rw [hid]
    exact h.sent p id m ps (hsent p id m ps hm)
  · intro x hx p m ps hm
    exact h.owner x (hp.subset hx) p m ps (hsent _ _ _ _ hm)
  · rw [hj, hl]
    exact h.job
  · intro x hx
    rw [hj]
    exact h.pending x (hp.subset hx)
  · intro w hm
    rw [hl]
    exact h.waiters w (hw hm)
  · intro w hm q hq
    rw [hl, hj]
    obtain ⟨hlt, hcase⟩ := h.watchers w (hv hm) q hq
    exact ⟨hlt, hcase.imp_right fun ⟨f, hf', hc⟩ => ⟨f, hf f hf' hc, hc⟩⟩

/-- Only the stack and the history change. -/
theorem Filed.frames (h : s.Filed)
    (ht : t = { s with
      tail := t.tail, tailOf := t.tailOf, depth := t.depth, stack := t.stack, hist := t.hist })
    (hh : t.hist = s.hist ∨ ∃ e, e.silent = true ∧ t.hist = e :: s.hist)
    (hf : ∀ f ∈ s.stack, f.clears = true → f ∈ t.stack) : t.Filed := by
  rw [ht] at hh hf ⊢
  exact h.of hh rfl rfl rfl (List.Sublist.refl _) (List.Subset.refl _) (List.Subset.refl _) hf

/-- Only the frame on top goes. -/
theorem clears_pop {f : Frame} {stack : List Frame} (hs : s.stack = f :: stack)
    (hc : f.clears = false) : ∀ g ∈ s.stack, g.clears = true → g ∈ stack := by
  intro g hg hclears
  rw [hs] at hg
  rcases List.mem_cons.mp hg with rfl | hg
  · rw [hc] at hclears
    cases hclears
  · exact hg

theorem Filed.post (h : s.Filed) (cb : Cb) (r : Request) : (s.post cb r).Filed where
  keyed := h.keyed.post cb r
  sent := by
    intro p id m ps hm
    rw [post_idSeq]
    rw [post_hist] at hm
    split at hm
    · rcases List.mem_cons.mp hm with heq | hm
      · cases heq
        exact le_rfl
      · exact (h.sent p id m ps hm).trans (Nat.le_succ _)
    · exact (h.sent p id m ps hm).trans (Nat.le_succ _)
  owner := by
    intro x hx p m ps hm
    -- the new id was sent to nobody before
    have hnew : .sent p (s.idSeq + 1) m ps ∉ s.hist := fun hm' =>
      Nat.not_succ_le_self _ (h.sent _ _ _ _ hm')
    rw [post_hist] at hm
    rcases List.mem_append.mp hx with hx | hx
    · have hlt := h.keyed.drawn x hx
      split at hm
      · rcases List.mem_cons.mp hm with heq | hm
        · injection heq with _ hid
          rw [hid] at hlt
          exact absurd hlt (Nat.not_succ_le_self _)
        · exact h.owner x hx p m ps hm
      · exact h.owner x hx p m ps hm
    · obtain rfl := List.mem_singleton.mp hx
      split at hm
      · rename_i hjob
        rcases List.mem_cons.mp hm with heq | hm
        · cases heq
          exact hjob
        · exact absurd hm hnew
      · exact absurd hm hnew
  job := h.job
  pending := by
    intro x hx q hq
    rcases List.mem_append.mp hx with hx | hx
    · exact h.pending x hx q hq
    · obtain rfl := List.mem_singleton.mp hx
      exact hq
  waiters := h.waiters
  watchers := h.watchers

theorem Filed.call (h : s.Filed) (w : Waiter) (res : Except Fault Unit) (cause : Option Pid) :
    (s.call w res cause).Filed := by
  unfold Client.call
  split
  · exact h.frames rfl (.inl rfl) fun _ hf _ => List.mem_cons_of_mem _ hf
  · exact h.post _ _
  · split
    · exact h.frames rfl (.inr ⟨_, rfl, rfl⟩) fun _ hf _ => List.mem_cons_of_mem _ hf
    · exact h

/-- A teardown forgets the job and what is pending, and comes to the watchers. -/
theorem Filed.teardown (h : s.Filed) (err : Fault) (cause : Option Pid) :
    (s.teardown err cause).Filed where
  keyed := h.keyed.teardown err cause
  sent := fun p id m ps hm =>
    h.sent p id m ps ((List.mem_cons.mp hm).resolve_left (fun heq => by cases heq))
  owner := fun _ hx => (List.not_mem_nil hx).elim
  job := fun _ hq => by cases hq
  pending := fun _ hx => (List.not_mem_nil hx).elim
  waiters := h.waiters
  watchers := fun w hw q hq =>
    ⟨(h.watchers w hw q hq).1, .inr ⟨.hooks err cause, by simp, rfl⟩⟩

theorem Filed.wait (h : s.Filed) {w : Waiter} (hw : ∀ q ∈ w.owner, q < s.procs.length) :
    ({ s with waiters := s.waiters ++ [w] } : Client).Filed where
  keyed := h.keyed.of (List.Sublist.refl _) le_rfl
  sent := h.sent
  owner := h.owner
  job := h.job
  pending := h.pending
  waiters := fun v hv => by
    rcases List.mem_append.mp hv with hv | hv
    · exact h.waiters v hv
    · rw [List.mem_singleton.mp hv]
      exact hw
  watchers := h.watchers

/-- A process is spawned where there is none. -/
theorem Filed.spawn (h : s.Filed) (hjob : s.job = none) {w : Waiter}
    (hw : w.owner = some s.procs.length) (bin : String) :
    (({ s with waiters := s.waiters ++ [w] } : Client).spawn bin).Filed where
  keyed := h.keyed.of (List.Sublist.refl _) le_rfl
  sent := fun p id m ps hm =>
    h.sent p id m ps ((List.mem_cons.mp hm).resolve_left (fun heq => by cases heq))
  owner := fun x hx p m ps hm =>
    h.owner x hx p m ps ((List.mem_cons.mp hm).resolve_left (fun heq => by cases heq))
  job := fun q hq => by
    cases hq
    rw [spawn_procs, List.length_append]
    rfl
  pending := fun x hx q hq => by
    have hsome := h.pending x hx q hq
    rw [hjob] at hsome
    cases hsome
  waiters := fun v hv q hq => by
    rw [spawn_procs, List.length_append]
    rcases List.mem_append.mp hv with hv | hv
    · exact Nat.lt_succ_of_lt (h.waiters v hv q hq)
    · rw [List.mem_singleton.mp hv, hw] at hq
      cases hq
      exact Nat.lt_succ_self _
  watchers := fun v hv q hq => by
    obtain ⟨hlt, hcase⟩ := h.watchers v hv q hq
    rw [spawn_procs, List.length_append]
    refine ⟨Nat.lt_succ_of_lt hlt, .inr (hcase.resolve_left fun hsome => ?_)⟩
    rw [hjob] at hsome
    cases hsome

theorem Filed.refuse (h : s.Filed) (text : String) : (s.refuse text).Filed :=
  h.of (.inl rfl) rfl rfl rfl (List.Sublist.refl _) (List.nil_subset _) (List.Subset.refl _)
    fun _ hf _ => List.mem_cons_of_mem _ hf

theorem Filed.ensure (h : s.Filed) {w : Option Pid → Waiter} (hw : ∀ p, (w p).owner = p)
    (launch : Launch) : (s.ensure w launch).Filed := by
  have hnone : ∀ q ∈ (w none).owner, q < s.procs.length := fun q hq => by
    rw [hw] at hq
    cases hq
  unfold Client.ensure
  split
  · exact h.call _ _ _
  · split
    · rename_i p hjob
      refine h.wait fun q hq => ?_
      rw [hw] at hq
      cases hq
      exact Nat.lt_of_succ_le (le_of_eq (h.job p hjob))
    · exact (h.wait hnone).refuse _
    · exact (h.wait hnone).refuse _
    · rename_i bin hjob
      exact (h.spawn hjob (hw _) bin).post _ _

theorem Filed.greet (h : s.Filed) (res : Answer) (cause : Option Pid) :
    (s.greet env res cause).Filed := by
  rcases greet_cases env s res cause with ⟨-, proto, err, heq⟩ | ⟨-, proto, engine, drivers, heq⟩
  · rw [heq]
    refine Filed.teardown ?_ _ _
    exact h.of (.inl rfl) rfl rfl rfl (List.Sublist.refl _) (List.nil_subset _)
      (List.Subset.refl _) fun _ hf _ => List.mem_cons_of_mem _ hf
  · rw [heq]
    exact h.of (.inl rfl) rfl rfl rfl (List.Sublist.refl _) (List.nil_subset _)
      (List.Subset.refl _) fun _ hf _ => List.mem_cons_of_mem _ hf

/-- An answer, where the watcher it may bring is of the job. -/
theorem Filed.answer (h : s.Filed) {e : Entry} {res : Answer}
    (ho : (∃ r, res = .ok r) → ∀ q ∈ e.owner, s.job = some q) (cause : Option Pid) :
    (s.answer env e res cause).Filed := by
  have htell : ∀ ev : Event, ev.silent = true → (s.tell ev).Filed := fun ev hev =>
    h.frames rfl (.inr ⟨ev, hev, rfl⟩) fun _ hf _ => hf
  unfold Client.answer
  split
  · exact (htell _ rfl).greet _ _
  · rename_i n _
    exact (htell (.ran n res e.owner cause) rfl).frames rfl (.inl rfl)
      fun _ hf _ => List.mem_cons_of_mem _ hf
  · rename_i n _
    rcases executed_cases (s.tell (.ran n res e.owner cause)) n res e.owner with
      ⟨-, heq⟩ | ⟨-, watchers, hwatch, heq⟩
    · rw [heq]
      exact htell _ rfl
    · rw [heq]
      have hran := htell (.ran n res e.owner cause) rfl
      refine ⟨h.keyed.of (List.Sublist.refl _) le_rfl, hran.sent, hran.owner, h.job, h.pending, h.waiters, fun w hw q hq => ?_⟩
      rcases hwatch w hw with hold | ⟨hok, hown⟩
      · obtain ⟨hlt, hcase⟩ := h.watchers w hold q hq
        exact ⟨hlt, hcase.imp_right fun ⟨f, hf, hc⟩ => ⟨f, List.mem_cons_of_mem _ hf, hc⟩⟩
      · have hjob := ho hok q (hown ▸ hq)
        exact ⟨Nat.lt_of_succ_le (le_of_eq (h.job q hjob)), .inl hjob⟩

theorem Filed.unwind (h : s.Filed) {stack : List Frame}
    (hs : ∀ f ∈ s.stack, f.clears = true → f ∈ stack) : (s.unwind stack).Filed := by
  rcases unwind_cases s stack with ⟨p, rest, stack', rfl, heq⟩ | ⟨-, heq⟩
  · rw [heq]
    refine h.frames rfl (.inr ⟨.aborted p, rfl, rfl⟩) fun f hf hc => ?_
    rcases List.mem_cons.mp (hs f hf hc) with rfl | hm
    · cases hc
    · rcases List.mem_cons.mp hm with rfl | hm
      · cases hc
      · exact hm
  · rw [heq]
    exact h.frames rfl (.inl rfl) hs

theorem Filed.heard (h : s.Filed) (p : Pid) (msg : Json) : (s.heard p msg).Filed :=
  h.frames rfl (.inr ⟨.dispatched p msg, rfl, rfl⟩) fun _ hf _ => List.mem_cons_of_mem _ hf

theorem Filed.drop (h : s.Filed) (id : ℕ) : (s.drop id).Filed :=
  h.of (.inl rfl) rfl rfl rfl List.filter_sublist (List.Subset.refl _) (List.Subset.refl _)
    fun _ hf _ => hf

theorem Filed.hears (h : s.Filed) {p : Pid} {msg : Json} (hm : Hears env s p msg t) :
    t.Filed := by
  cases hm with
  | nobody => exact h.heard p msg
  | answered ha hr =>
    rename_i id e
    exact ((h.heard p msg).drop id).answer (fun _ => h.pending _ (addressee_mem ha)) _
  | raised ha hr =>
    rename_i id n owner
    have hran : ((((s.heard p msg).drop id).tell
        (.ran n (answerOf msg) owner (some p)))).Filed :=
      ((h.heard p msg).drop id).frames rfl (.inr ⟨_, rfl, rfl⟩) fun _ hf _ => hf
    exact hran.unwind fun _ hf _ => hf
  | notified hw ha hid =>
    rename_i w params
    exact (h.heard p msg).of (.inr ⟨.stated w.token (.ok params) w.owner (some p), rfl, rfl⟩)
      rfl rfl rfl (List.Sublist.refl _) (List.Subset.refl _) (List.filter_subset_self _)
      fun _ hf _ => List.mem_append_right _ hf

theorem Filed.go (h : s.Filed) (hg : Goes env s k t) : t.Filed := by
  have hunder : ∀ (fs : List Frame) {f : Frame} {stack : List Frame}, s.stack = f :: stack →
      f.clears = false → ({ s with stack := fs ++ stack } : Client).Filed := fun fs f stack hs hc =>
    h.frames rfl (.inl rfl) fun g hg hgc => List.mem_append_right _ (clears_pop hs hc g hg hgc)
  cases hg with
  | popped hs hf =>
    refine hunder [] hs ?_
    rcases hf with rfl | ⟨p, rfl⟩ | ⟨err, cause, rfl⟩ | ⟨res, cause, rfl⟩ | ⟨err, cause, rfl⟩ <;> rfl
  | dispatched hs =>
    exact h.frames rfl (.inl rfl) (clears_pop hs rfl)
  | skipped hs hm =>
    rename_i p line rest stack
    exact hunder [.lines p rest] hs rfl
  | message hs hm =>
    rename_i p line rest stack msg
    exact (hunder [.lines p rest] hs rfl).hears (hears_onMessage _ _ _ _)
  | pending hs hx =>
    rename_i dead err cause stack x
    refine (hunder [.failPending (dead.eraseIdx k) err cause] hs rfl).answer ?_ _
    rintro ⟨r, hr⟩
    cases hr
  | waiters hs =>
    exact h.of (.inl rfl) rfl rfl rfl (List.Sublist.refl _) (List.nil_subset _)
      (List.Subset.refl _) fun f hf hc => List.mem_cons_of_mem _ (clears_pop hs rfl f hf hc)
  | waiter hs =>
    rename_i w ws res cause stack
    exact (hunder [.flush ws res cause] hs rfl).call _ _ _
  | hooks hs =>
    refine ⟨h.keyed.of (List.Sublist.refl _) le_rfl, h.sent, h.owner, h.job, h.pending, h.waiters,
      fun w hw => ?_⟩
    exact (List.not_mem_nil hw).elim
  | watcher hs hx =>
    rename_i dead err cause stack w
    refine h.frames rfl (.inr ⟨.stated w.token (.error err) w.owner cause, rfl, rfl⟩)
      fun f hf hc => ?_
    exact List.mem_cons_of_mem _ (List.mem_cons_of_mem _ (clears_pop hs rfl f hf hc))

theorem Filed.step {i : Input} (h : s.Filed) (hst : Steps env s i t) : t.Filed := by
  have hsame : ∀ procs : List Proc, procs.length = s.procs.length →
      ({ s with procs := procs } : Client).Filed := fun procs hl =>
    h.of (.inl rfl) rfl rfl hl (List.Sublist.refl _) (List.Subset.refl _) (List.Subset.refl _)
      fun _ hf _ => hf
  cases hst with
  | act a hc =>
    cases a with
    | request r execute launch =>
      refine Filed.ensure ?_ (fun _ => rfl) launch
      exact h.of (.inr ⟨.issued s.tokens, rfl, rfl⟩) rfl rfl rfl (List.Sublist.refl _)
        (List.Subset.refl _) (List.Subset.refl _) fun _ hf _ => hf
    | ensure launch => exact h.ensure (fun _ => rfl) launch
    | stop =>
      show s.stop.Filed
      unfold Client.stop
      split
      · exact (hsame _ (List.length_modify ..)).teardown _ _
      · exact h.teardown _ _
  | ret hs =>
    exact h.frames rfl (.inl rfl) (clears_pop hs rfl)
  | raise hs => exact h.unwind (clears_pop hs rfl)
  | go hg => exact h.go hg
  | stdout hq hs he =>
    rename_i p chunk q
    exact h.frames rfl (.inr ⟨_, rfl, rfl⟩) fun _ hf _ => List.mem_cons_of_mem _ hf
  | die hp => exact hsame _ (List.length_modify ..)
  | exit hq hs ha =>
    rename_i p q
    refine Filed.teardown ?_ _ _
    exact (hsame _ (List.length_modify ..)).frames rfl (.inr ⟨.exited p, rfl, rfl⟩)
      fun _ hf _ => hf

end Client
end LvimDb.Daemon
