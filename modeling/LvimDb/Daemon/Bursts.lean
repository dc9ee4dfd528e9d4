import LvimDb.Daemon.Processes

/-!
# What is dispatched of the engine's output

The lines of a chunk are looked at one after another, and whatever the callbacks do in
between, the rest of them waits on the stack.
-/

namespace LvimDb.Daemon
open Lib (lines rest)

/-- The lines that are still to be looked at. -/
def Frame.left : Frame → List Bytes
  | .lines _ rest => rest
  | _ => []

def Event.message : Event → Option Json
  | .dispatched _ msg => some msg
  | _ => none

def Event.reads : Event → Bool
  | .chunk _ _ _ => true
  | _ => false

def Event.aborts : Event → Bool
  | .aborted _ => true
  | _ => false

/-- The tail after an event that reads nothing. -/
def Event.keeps (tail : Bytes) : Event → Bytes
  | .torn _ _ _ => []
  | _ => tail

/-- What is carried over to the next chunk. -/
def carried : List Event → Bytes
  | [] => []
  | .chunk _ bytes _ :: h => rest newline (carried h ++ bytes)
  | .torn _ _ _ :: _ => []
  | _ :: h => carried h

/-- The complete lines of the chunks. -/
def framed : List Event → List Bytes
  | [] => []
  | .chunk _ bytes _ :: h => framed h ++ lines newline (carried h ++ bytes)
  | _ :: h => framed h

/-- What was read of the engine's output. -/
def received : List Event → Bytes
  | [] => []
  | .chunk _ bytes _ :: h => received h ++ bytes
  | _ :: h => received h

theorem carried_flat (h : List Event) : newline ∉ carried h := by
  induction h with
  | nil => exact List.not_mem_nil
  | cons e h ih =>
    cases e with
    | chunk p bytes joined => exact (Lib.sep_not_mem _).2
    | torn job tail cause => exact List.not_mem_nil
    | _ => exact ih

/-- Where nothing is torn down the lines are those of the whole stream. -/
theorem framed_received {h : List Event} (hno : ∀ j b c, .torn j b c ∉ h) :
    framed h = lines newline (received h) ∧ carried h = rest newline (received h) := by
  induction h with
  | nil => exact ⟨rfl, rfl⟩
  | cons e h ih =>
    have hih := ih fun j b c hm => hno j b c (List.mem_cons_of_mem _ hm)
    cases e with
    | chunk p bytes joined =>
      obtain ⟨hl, hr⟩ : lines newline (received h ++ bytes) = _ ∧
          rest newline (received h ++ bytes) = _ := Lib.resume _ _
      constructor
      · rw [framed, received, hl, hih.1, hih.2]
      · rw [carried, received, hr, hih.2]
    | torn job tail cause => exact absurd (List.mem_cons_self ..) (hno job tail cause)
    | _ => exact hih

namespace Client

/-- What was dispatched, in order. -/
def messages (s : Client) : List Json := s.hist.reverse.filterMap Event.message

def left (s : Client) : List Bytes := s.stack.flatMap Frame.left

variable {env : Env} {s t u : Client} {k : ℕ}

/-! ### What touches no line -/

/-- No chunk is read, and the tail is lost in a teardown only. -/
structure Still (s t : Client) : Prop where
  tail : s.tail = carried s.hist → t.tail = carried t.hist
  framed : framed t.hist = framed s.hist

/-- No line is looked at either. -/
structure Steady (s t : Client) : Prop extends Still s t where
  left : t.left = s.left
  messages : t.messages = s.messages

theorem Still.trans (h : Still s t) (h' : Still t u) : Still s u where
  tail := fun hs => h'.tail (h.tail hs)
  framed := h'.framed.trans h.framed

theorem Steady.trans (h : Steady s t) (h' : Steady t u) : Steady s u where
  toStill := h.toStill.trans h'.toStill
  left := h'.left.trans h.left
  messages := h'.messages.trans h.messages

theorem still_same (ht : t.tail = s.tail) (hh : t.hist = s.hist) : Still s t where
  tail := fun hs => by rw [ht, hh, hs]
  framed := by rw [hh]

theorem still_one {e : Event} (ht : t.tail = e.keeps s.tail) (hh : t.hist = e :: s.hist)
    (hb : e.reads = false) : Still s t where
  tail := fun hs => by
    rw [ht, hh, hs]
    cases e with
    | chunk p bytes joined => cases hb
    | _ => rfl
  framed := by
    rw [hh]
    cases e with
    | chunk p bytes joined => cases hb
    | _ => rfl

theorem steady_same (hl : t.left = s.left) (ht : t.tail = s.tail) (hh : t.hist = s.hist) :
    Steady s t where
  toStill := still_same ht hh
  left := hl
  messages := by unfold Client.messages; rw [hh]

theorem messages_none {e : Event} (hh : t.hist = e :: s.hist) (hm : e.message = none) :
    t.messages = s.messages := by
  unfold messages
  rw [hh, List.reverse_cons, List.filterMap_append]
  simp [hm]

theorem messages_some {p : Pid} {msg : Json} (hh : t.hist = .dispatched p msg :: s.hist) :
    t.messages = s.messages ++ [msg] := by
  unfold messages
  rw [hh, List.reverse_cons, List.filterMap_append]
  rfl

/-- One event that is no message and no chunk. -/
theorem steady_one {e : Event} (hl : t.left = s.left) (ht : t.tail = e.keeps s.tail)
    (hh : t.hist = e :: s.hist) (hm : e.message = none) (hb : e.reads = false) : Steady s t where
  toStill := still_one ht hh hb
  left := hl
  messages := messages_none hh hm

theorem steady_post (s : Client) (cb : Cb) (r : Request) : Steady s (s.post cb r) := by
  cases hj : s.job with
  | none => exact steady_same rfl rfl (by rw [post_hist, hj])
  | some p => exact steady_one (e := .sent p _ _ _) rfl rfl (by rw [post_hist, hj]) rfl rfl

theorem steady_call (s : Client) (w : Waiter) (res : Except Fault Unit) (cause : Option Pid) :
    Steady s (s.call w res cause) := by
  unfold call
  split
  · exact steady_same rfl rfl rfl
  · exact steady_post _ _ _
  · split
    · exact steady_one rfl rfl rfl rfl rfl
    · exact steady_same rfl rfl rfl

theorem steady_teardown (s : Client) (err : Fault) (cause : Option Pid) :
    Steady s (s.teardown err cause) := steady_one rfl rfl rfl rfl rfl

theorem steady_ensure (s : Client) (w : Option Pid → Waiter) (launch : Launch) :
    Steady s (s.ensure w launch) := by
  unfold ensure
  split
  · exact steady_call _ _ _ _
  · split
    · exact steady_same rfl rfl rfl
    · exact steady_same rfl rfl rfl
    · exact steady_same rfl rfl rfl
    · refine Steady.trans ?_ (steady_post _ _ _)
      exact steady_one rfl rfl rfl rfl rfl

theorem steady_act (s : Client) (a : Action) : Steady s (s.act a) := by
  cases a with
  | request r execute launch =>
    refine Steady.trans ?_ (steady_ensure _ _ _)
    exact steady_one rfl rfl rfl rfl rfl
  | ensure launch => exact steady_ensure _ _ _
  | stop =>
    show Steady s s.stop
    unfold stop
    split
    · exact steady_one rfl rfl rfl rfl rfl
    · exact steady_one rfl rfl rfl rfl rfl

theorem steady_answer (s : Client) (e : Entry) (res : Answer) (cause : Option Pid) :
    Steady s (s.answer env e res cause) := by
  unfold answer
  split
  · have hg : Steady s (s.tell (.greeted res e.owner cause)) :=
      steady_one rfl rfl rfl rfl rfl
    rcases greet_cases env (s.tell (.greeted res e.owner cause)) res cause with
      ⟨-, proto, err, heq⟩ | ⟨-, proto, engine, drivers, heq⟩
    · rw [heq]
      exact hg.trans (steady_one rfl rfl rfl rfl rfl)
    · rw [heq]
      exact hg.trans (steady_same rfl rfl rfl)
  · exact steady_one rfl rfl rfl rfl rfl
  · rename_i m _
    rcases executed_cases (s.tell (.ran m res e.owner cause)) m res e.owner with
      ⟨-, heq⟩ | ⟨-, watchers, -, heq⟩
    · rw [heq]
      exact steady_one rfl rfl rfl rfl rfl
    · rw [heq]
      exact steady_one rfl rfl rfl rfl rfl

/-! ### The rest of a burst -/

/-- What is dispatched and what is left to dispatch. -/
def due (env : Env) (s : Client) : List Json := s.messages ++ s.left.filterMap env.message

/-- The lines an error of this step leaves unread: one that a callback of a response raises, or
the closure of `M.execute` when the answer names no call. -/
def spoils (env : Env) (s : Client) : Input → List Bytes
  | .raise =>
    match s.stack with
    | .body :: .dispatch :: .lines _ rest :: _ => rest
    | _ => []
  | .go _ =>
    match s.stack with
    | .lines _ (line :: rest) :: _ =>
      if (env.message line).any fun msg =>
        (s.addressee msg).any fun x => raises x.2.cb (answerOf msg) then rest else []
    | _ => []
  | _ => []

theorem Steady.due (h : Steady s t) : t.due env = s.due env := by
  unfold Client.due
  rw [h.left, h.messages]

theorem unwind_still (s : Client) (stack : List Frame) : Still s (s.unwind stack) := by
  unfold unwind
  split
  · exact still_one rfl rfl rfl
  · exact still_same rfl rfl

theorem unwind_messages (s : Client) (stack : List Frame) :
    (s.unwind stack).messages = s.messages := by
  unfold unwind
  split
  · exact messages_none rfl rfl
  · rfl

theorem hears_still {p : Pid} {msg : Json} (hm : Hears env s p msg t) : Still s t := by
  have hheard : Still s (s.heard p msg) := still_one rfl rfl rfl
  cases hm with
  | nobody => exact hheard
  | answered ha hr =>
    refine Still.trans ?_ (steady_answer _ _ _ _).toStill
    exact hheard.trans (still_same rfl rfl)
  | raised ha hr =>
    refine Still.trans ?_ (unwind_still _ _)
    exact hheard.trans (still_one rfl rfl rfl)
  | notified hw => exact hheard.trans (still_one rfl rfl rfl)

/-- A message is dispatched once, and what was left is left unless an error comes through. -/
theorem hears_due {p : Pid} {msg : Json} (hm : Hears env s p msg t) :
    t.messages = s.messages ++ [msg] ∧
      ((s.addressee msg).any (fun x => raises x.2.cb (answerOf msg)) = false ∧ t.left = s.left ∨
        (s.addressee msg).any (fun x => raises x.2.cb (answerOf msg)) = true ∧
          ∀ q rest stack, s.stack = .lines q rest :: stack →
            t.left = stack.flatMap Frame.left) := by
  have hheard : (s.heard p msg).messages = s.messages ++ [msg] := messages_some rfl
  cases hm with
  | nobody ha => exact ⟨hheard, .inl ⟨by rw [ha]; rfl, rfl⟩⟩
  | answered ha hr =>
    rename_i id e
    have hst : Steady ((s.heard p msg).drop id)
        (((s.heard p msg).drop id).answer env e (answerOf msg) (some p)) := steady_answer _ _ _ _
    exact ⟨hst.messages.trans hheard, .inl ⟨by rw [ha]; exact hr, hst.left⟩⟩
  | raised ha hr =>
    refine ⟨?_, .inr ⟨by rw [ha]; exact hr, fun q rest stack hs => ?_⟩⟩
    · rw [unwind_messages, ← hheard]
      exact messages_none rfl rfl
    · rw [hs]
      rfl
  | notified hw ha =>
    refine ⟨?_, .inl ⟨by rw [ha]; rfl, rfl⟩⟩
    rw [← hheard]
    exact messages_none rfl rfl

theorem steady_spoils {ls : List Bytes} (h : Steady s t) (hl : ls = []) :
    t.messages ++ ls.filterMap env.message ++ t.left.filterMap env.message = s.due env ∧
      Still s t := by
  rw [hl, List.filterMap_nil, List.append_nil]
  exact ⟨h.due, h.toStill⟩

theorem left_pop {f : Frame} {stack : List Frame} (hs : s.stack = f :: stack) (hf : f.left = []) :
    stack.flatMap Frame.left = s.left := by
  unfold left
  rw [hs, List.flatMap_cons, hf]
  rfl

theorem spoils_go {f : Frame} {stack : List Frame} (hs : s.stack = f :: stack) (hf : f.left = []) :
    s.spoils env (.go k) = [] := by
  unfold spoils
  rw [hs]
  cases f with
  | lines p rest =>
    obtain rfl : rest = [] := hf
    rfl
  | _ => rfl

theorem left_popped {f : Frame}
    (hf : f = .caught ∨ (∃ p, f = .lines p []) ∨ (∃ err cause, f = .failPending [] err cause) ∨
      (∃ res cause, f = .flush [] res cause) ∨ ∃ err cause, f = .failWatchers [] err cause) :
    f.left = [] := by
  rcases hf with rfl | ⟨p, rfl⟩ | ⟨err, cause, rfl⟩ | ⟨res, cause, rfl⟩ | ⟨err, cause, rfl⟩ <;> rfl

/-- What is to be dispatched is dispatched, still left, or lost to an error. -/
theorem due_step {i : Input} (hst : s.step env i = some t) (hi : ∀ p chunk, i ≠ .stdout p chunk) :
    t.messages ++ (s.spoils env i).filterMap env.message ++ t.left.filterMap env.message =
      s.due env ∧ Still s t := by
  cases steps_of_step hst with
  | act a hc => exact steady_spoils (steady_act s a) rfl
  | ret hs =>
    refine steady_spoils (steady_same ?_ rfl rfl) rfl
    unfold left
    rw [hs]
    rfl
  | raise hs =>
    refine ⟨?_, unwind_still _ _⟩
    rename_i stack
    rw [unwind_messages]
    rcases unwind_cases s stack with ⟨p, rest, stack', rfl, heq⟩ | ⟨hno, heq⟩
    · rw [heq]
      unfold due spoils left
      rw [hs]
      simp [Frame.left]
    · have hnone : s.spoils env .raise = [] := by
        unfold spoils
        dsimp only
        rw [hs]
        split
        · rename_i hstack
          exact absurd (List.cons.inj hstack).2 (hno _ _ _)
        · rfl
      rw [heq, hnone]
      unfold due left
      rw [hs]
      simp [Frame.left]
  | go hg =>
    cases hg with
    | message hs hm =>
      rename_i k p line rest stack msg
      have hh := hears_onMessage env { s with stack := .lines p rest :: stack } p msg
      obtain ⟨hmsgs, hleft⟩ := hears_due hh
      have hstill := hears_still hh
      have hsame : Still s { s with stack := .lines p rest :: stack } := still_same rfl rfl
      refine ⟨?_, hsame.trans hstill⟩
      have hdue : s.due env = s.messages ++ msg :: (rest.filterMap env.message ++
          (stack.flatMap Frame.left).filterMap env.message) := by
        unfold due left
        rw [hs]
        simp [Frame.left, hm]
      have hspoils : s.spoils env (.go k) =
          if (s.addressee msg).any (fun x => raises x.2.cb (answerOf msg)) then rest else [] := by
        unfold spoils
        rw [hs]
        simp [hm]
      rw [hmsgs, hdue, hspoils]
      rcases hleft with ⟨hno, hleft⟩ | ⟨hyes, hleft⟩
      · have hno' : (s.addressee msg).any (fun x => raises x.2.cb (answerOf msg)) = false := hno
        rw [hno', hleft]
        simp [left, Frame.left, messages]
      · have hyes' : (s.addressee msg).any (fun x => raises x.2.cb (answerOf msg)) = true := hyes
        rw [hyes', hleft p rest stack rfl]
        simp [messages]
    | skipped hs hm =>
      refine ⟨?_, still_same rfl rfl⟩
      unfold spoils due left
      rw [hs]
      simp [Frame.left, hm, messages]
    | popped hs hf =>
      have hnil := left_popped hf
      have hl := left_pop hs hnil
      exact steady_spoils (steady_same hl rfl rfl) (spoils_go hs hnil)
    | dispatched hs =>
      have hl := left_pop hs rfl
      exact steady_spoils (steady_same hl rfl rfl) (spoils_go hs rfl)
    | pending hs hx =>
      have hl := left_pop hs rfl
      refine steady_spoils (Steady.trans ?_ (steady_answer _ _ _ _)) (spoils_go hs rfl)
      exact steady_same hl rfl rfl
    | waiters hs =>
      have hl := left_pop hs rfl
      exact steady_spoils (steady_same hl rfl rfl) (spoils_go hs rfl)
    | waiter hs =>
      have hl := left_pop hs rfl
      refine steady_spoils (Steady.trans ?_ (steady_call _ _ _ _)) (spoils_go hs rfl)
      exact steady_same hl rfl rfl
    | hooks hs =>
      have hl := left_pop hs rfl
      exact steady_spoils (steady_same hl rfl rfl) (spoils_go hs rfl)
    | watcher hs hx =>
      have hl := left_pop hs rfl
      exact steady_spoils (steady_one hl rfl rfl rfl rfl) (spoils_go hs rfl)
  | stdout hq hs he => exact absurd rfl (hi _ _)
  | die hp => exact steady_spoils (steady_same rfl rfl rfl) rfl
  | exit hq hs ha =>
    refine steady_spoils (Steady.trans ?_ (steady_teardown _ _ _)) rfl
    exact steady_one rfl rfl rfl rfl rfl

/-- A chunk completes the carried line, and its last piece is carried on. -/
theorem stdout_lines (hs : s.stack = []) (ht : s.tail = carried s.hist) (p : Pid) (chunk : Bytes) :
    (s.onStdout p chunk).left = lines newline (s.tail ++ chunk) ∧
      (s.onStdout p chunk).tail = rest newline (s.tail ++ chunk) ∧
      (s.onStdout p chunk).messages = s.messages := by
  have hflat : newline ∉ s.tail := ht ▸ carried_flat s.hist
  obtain ⟨hl, hr⟩ := Lib.complete_eq hflat chunk
  refine ⟨?_, hr, messages_none rfl rfl⟩
  unfold left onStdout
  rw [hs, ← hl]
  simp [Frame.left]

/-- Lines are left unread when an error comes through to the loop, and only then. -/
theorem spoils_aborted {i : Input} (hst : s.step env i = some t) (hne : s.spoils env i ≠ []) :
    ∃ p, .aborted p ∈ t.hist := by
  cases steps_of_step hst with
  | raise hs =>
    rename_i stack
    unfold unwind
    split
    · exact ⟨_, List.mem_cons_self ..⟩
    · rename_i hno
      refine absurd ?_ hne
      unfold spoils
      rw [hs]
      dsimp only
      split
      · rename_i hstack
        exact absurd (List.cons.inj hstack).2 (hno _ _ _)
      · rfl
  | go hg =>
    cases hg with
    | message hs hm =>
      rename_i k p line rest stack msg
      have hmust : (s.addressee msg).any (fun x => raises x.2.cb (answerOf msg)) = true := by
        by_contra hno
        refine hne ?_
        unfold spoils
        rw [hs]
        simp [hm, Bool.eq_false_iff.mpr hno]
      have hh := hears_onMessage env { s with stack := .lines p rest :: stack } p msg
      generalize ({ s with stack := .lines p rest :: stack } : Client).onMessage env p msg = u at hh
      cases hh with
      | nobody ha =>
        have ha' : s.addressee msg = none := ha
        rw [ha'] at hmust
        cases hmust
      | answered ha hr =>
        have ha' : s.addressee msg = some _ := ha
        rw [ha', Option.any_some, hr] at hmust
        cases hmust
      | raised ha hr => exact ⟨p, List.mem_cons_self ..⟩
      | notified hw ha =>
        have ha' : s.addressee msg = none := ha
        rw [ha'] at hmust
        cases hmust
    | skipped hs hm =>
      refine absurd ?_ hne
      unfold spoils
      rw [hs]
      simp [hm]
    | popped hs hf => exact absurd (spoils_go hs (left_popped hf)) hne
    | _ hs => exact absurd (spoils_go hs rfl) hne
  | _ => exact absurd rfl hne

/-! ### The stream -/

/-- The tail is what the history says, and without errors nothing but the framed lines is
dispatched or left. -/
structure Reframes (env : Env) (s : Client) : Prop where
  tail : s.tail = carried s.hist
  due : (∀ p, .aborted p ∉ s.hist) → s.due env = (framed s.hist).filterMap env.message

theorem reframes_new : new.Reframes env := ⟨rfl, fun _ => rfl⟩

theorem Reframes.step {i : Input} (h : s.Reframes env) (hst : s.step env i = some t) :
    t.Reframes env := by
  have hsub := hist_step (steps_of_step hst)
  have hstill : (∀ p chunk, i ≠ .stdout p chunk) → t.Reframes env := fun hi => by
    obtain ⟨hdue, hst'⟩ := due_step hst hi
    refine ⟨hst'.tail h.tail, fun hno => ?_⟩
    have hnil : s.spoils env i = [] := by
      by_contra hne
      obtain ⟨p, hp⟩ := spoils_aborted hst hne
      exact hno p hp
    rw [hnil, List.filterMap_nil, List.append_nil] at hdue
    rw [hst'.framed, ← h.due fun p hp => hno p (hsub.subset hp), ← hdue]
    rfl
  cases i with
  | stdout p chunk =>
    cases steps_of_step hst with
    | stdout hq hs he =>
      obtain ⟨hl, hr, hm⟩ := stdout_lines hs h.tail p chunk
      refine ⟨?_, fun hno => ?_⟩
      · rw [hr, h.tail]
        rfl
      · have hold := h.due fun q hq => hno q (hsub.subset hq)
        have hnone : s.left = [] := by
          unfold left
          rw [hs]
          rfl
        unfold Client.due at hold ⊢
        rw [hnone, List.filterMap_nil, List.append_nil] at hold
        rw [hl, hm, hold, h.tail, ← List.filterMap_append]
        rfl
  | _ => exact hstill nofun

/-- What is dispatched of the engine's output, however it is cut into chunks. -/
theorem reframed {is : List Input} (h : (machine env).Run Lib.Machine.free new is s) :
    s.tail = carried s.hist ∧
    (s.stack = [] → (∀ p, .aborted p ∉ s.hist) →
      s.messages = (framed s.hist).filterMap env.message) ∧
    ((∀ j b c, .torn j b c ∉ s.hist) →
      framed s.hist = lines newline (received s.hist) ∧
        carried s.hist = rest newline (received s.hist)) := by
  have hs : s.Reframes env := h.invariant (Reframes env)
    (fun s i t _ hs hst => hs.step hst) reframes_new
  refine ⟨hs.tail, fun hstack hno => ?_, framed_received⟩
  have hdue := hs.due hno
  have hnone : s.left = [] := by
    unfold left
    rw [hstack]
    rfl
  unfold due at hdue
  rw [hnone, List.filterMap_nil, List.append_nil] at hdue
  exact hdue

/-- What there is of a finished burst: nothing more to do, the tail, how many messages there
were, and no error. -/
def outcome (s : Client) : Bool × Bytes × ℕ × Bool :=
  (s.stack.isEmpty, s.tail, s.messages.length, s.hist.all fun e => !e.aborts)

/-- A line comes in two chunks, and the second begins another one. -/
def cutLine : List Input :=
  [.act (.ensure (.works "loded")), .stdout 0 [72], .go 0, .stdout 0 [10, 120], .go 0, .go 0, .ret,
    .go 0, .go 0, .go 0]

theorem reframed_cut_line :
    ∃ s, (machine helloEnv).Run Lib.Machine.free new cutLine s ∧
      s.outcome = (true, [120], 1, true) ∧
      s.tail = carried s.hist ∧
      (s.stack = [] → (∀ p, .aborted p ∉ s.hist) →
        s.messages = (framed s.hist).filterMap helloEnv.message) ∧
      ((∀ j b c, .torn j b c ∉ s.hist) →
        framed s.hist = lines newline (received s.hist) ∧
          carried s.hist = rest newline (received s.hist)) := by
  have hsome : ((machine helloEnv).exec new cutLine).map outcome =
      some (true, [120], 1, true) := by decide
  obtain ⟨s, hs, hout⟩ := Option.map_eq_some_iff.mp hsome
  have hrun : (machine helloEnv).Run Lib.Machine.free new cutLine s :=
    Lib.Machine.run_of_exec hs
  exact ⟨s, hrun, hout, reframed hrun⟩

/-- A handshake that fails in the middle of a chunk. -/
def refusedBurst : List Input :=
  [.act (.ensure (.works "loded")), .stdout 0 [79, 10, 120]] ++ List.replicate 7 (.go 0) ++ [.ret] ++
    List.replicate 3 (.go 0)

/-- The teardown drops the bytes after the last newline. -/
theorem tail_dropped :
    ∃ s, (machine helloEnv).exec new refusedBurst = some s ∧ s.stack = [] ∧
      (∀ p, .aborted p ∉ s.hist) ∧ s.tail ≠ rest newline (received s.hist) := by
  have hsome : ((machine helloEnv).exec new refusedBurst).map
      (fun s => (s.outcome, rest newline (received s.hist))) =
      some ((true, [], 1, true), [120]) := by decide
  obtain ⟨s, hs, hout⟩ := Option.map_eq_some_iff.mp hsome
  simp only [outcome, Prod.mk.injEq] at hout
  obtain ⟨⟨hstack, htail, -, hno⟩, hrest⟩ := hout
  refine ⟨s, hs, List.isEmpty_iff.mp hstack, fun p hp => ?_, ?_⟩
  · have habort := List.all_eq_true.mp hno _ hp
    cases habort
  · rw [htail, hrest]
    exact List.cons_ne_nil _ _ ∘ Eq.symm

end Client
end LvimDb.Daemon
