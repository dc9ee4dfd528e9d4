import LvimDb.Daemon.Callbacks

/-!
# One process at a time

`job` is the handle of the process that runs. A stop asks that process to go before it forgets
the handle; a handshake that fails and a late exit forget it only.
-/

namespace LvimDb.Daemon
namespace Client
variable {env : Env} {s t : Client}

/-- The handle is forgotten, and not by `M.stop`: an exit, a handshake that fails, or the
handshake's callback among those a teardown fails. -/
def tears (env : Env) (s : Client) : Input → Bool
  | .exit _ => true
  | .go n =>
    match s.stack with
    | .failPending dead _ _ :: _ => dead[n]?.any fun x => x.2.cb = .hello
    | .lines _ (line :: _) :: _ =>
      (env.message line).any fun msg =>
        (s.addressee msg).any fun x => x.2.cb = .hello && !greets env (answerOf msg)
    | _ => false
  | _ => false

/-- The process the client has the handle of is alive and has not been asked to stop. -/
def Engaged (s : Client) : Prop := ∃ p ∈ s.job, ∃ q ∈ s.procs[p]?, q.running = true

/-- The handle is not forgotten while its process runs. -/
def Keeps (env : Env) (s : Client) (i : Input) : Prop := s.tears env i = true → ¬ s.Engaged

instance : Decidable s.Engaged := inferInstanceAs (Decidable (∃ p ∈ s.job, ∃ q ∈ s.procs[p]?, _))

instance (i : Input) : Decidable (s.Keeps env i) := inferInstanceAs (Decidable (_ → _))

/-- A process that runs is the one `job` designates. -/
structure Owned (s : Client) : Prop where
  job : ∀ p q, s.procs[p]? = some q → q.running = true → s.job = some p

theorem owned_new : new.Owned := ⟨fun p q h => by cases h⟩

theorem Owned.of (h : s.Owned) (hp : t.procs = s.procs) (hj : t.job = s.job) : t.Owned where
  job := fun p q hq hr => by
    rw [hj]
    rw [hp] at hq
    exact h.job p q hq hr

/-- Nothing runs. -/
theorem Owned.idle (h : s.Owned) (hn : ¬ s.Engaged) (hp : t.procs = s.procs) : t.Owned where
  job := fun p q hq hr => by
    rw [hp] at hq
    exact absurd ⟨p, h.job p q hq hr, q, hq, hr⟩ hn

theorem Owned.call (h : s.Owned) (w : Waiter) (res : Except Fault Unit) (cause : Option Pid) :
    (s.call w res cause).Owned := by
  unfold Client.call
  split
  · exact h.of rfl rfl
  · exact h.of rfl rfl
  · split
    · exact h.of rfl rfl
    · exact h

theorem Owned.ensure (h : s.Owned) (w : Option Pid → Waiter) (launch : Launch) :
    (s.ensure w launch).Owned := by
  unfold Client.ensure
  split
  · exact h.call _ _ _
  · split
    · exact h.of rfl rfl
    · exact h.of rfl rfl
    · exact h.of rfl rfl
    · rename_i bin hjob
      refine ⟨fun p q hq hr => ?_⟩
      change (s.procs ++ [_])[p]? = some q at hq
      by_cases hp : p < s.procs.length
      · rw [List.getElem?_append_left hp] at hq
        -- nothing ran before
        have hsome := h.job p q hq hr
        rw [hjob] at hsome
        cases hsome
      · have hlen := (List.getElem?_eq_some_iff.mp hq).1
        rw [List.length_append, List.length_singleton] at hlen
        have heq : p = s.procs.length :=
          Nat.le_antisymm (Nat.le_of_lt_succ hlen) (Nat.le_of_not_lt hp)
        exact congrArg some heq.symm

/-- `M.stop` asks the process to go first. -/
theorem Owned.stop (h : s.Owned) : s.stop.Owned := by
  unfold Client.stop
  split
  · rename_i p hjob
    refine ⟨fun k q hq hr => ?_⟩
    change (s.procs.modify p _)[k]? = some q at hq
    rw [List.getElem?_modify] at hq
    obtain ⟨q₀, hq₀, rfl⟩ := Option.map_eq_some_iff.mp hq
    split at hr
    · simp [Proc.running] at hr
    · rename_i hne
      have hsome := h.job k q₀ hq₀ hr
      rw [hjob] at hsome
      exact absurd (Option.some.inj hsome) hne
  · rename_i hjob
    refine ⟨fun k q hq hr => ?_⟩
    have hsome := h.job k q hq hr
    rw [hjob] at hsome
    cases hsome

theorem Owned.greet (h : s.Owned) {res : Answer} (hn : greets env res = false → ¬ s.Engaged)
    (cause : Option Pid) : (s.greet env res cause).Owned := by
  rcases greet_cases env s res cause with ⟨hbad, proto, err, heq⟩ | ⟨-, proto, engine, drivers, heq⟩
  · rw [heq]
    exact h.idle (hn hbad) rfl
  · rw [heq]
    exact h.of rfl rfl

theorem Owned.answer (h : s.Owned) {e : Entry} {res : Answer}
    (hn : e.cb = .hello → greets env res = false → ¬ s.Engaged) (cause : Option Pid) :
    (s.answer env e res cause).Owned := by
  unfold Client.answer
  split
  · rename_i hcb
    have htell : (s.tell (.greeted res e.owner cause)).Owned := h.of rfl rfl
    exact htell.greet (hn hcb) _
  · exact h.of rfl rfl
  · rename_i m _
    rcases executed_cases (s.tell (.ran m res e.owner cause)) m res e.owner with
      ⟨-, heq⟩ | ⟨-, watchers, -, heq⟩
    · rw [heq]
      exact h.of rfl rfl
    · rw [heq]
      exact h.of rfl rfl

theorem Owned.unwind (h : s.Owned) (stack : List Frame) : (s.unwind stack).Owned := by
  unfold Client.unwind
  split
  · exact h.of rfl rfl
  · exact h.of rfl rfl

theorem Owned.hears (h : s.Owned) {p : Pid} {msg : Json}
    (hn : ∀ x, s.addressee msg = some x → x.2.cb = .hello → greets env (answerOf msg) = false →
      ¬ s.Engaged) (hm : Hears env s p msg t) : t.Owned := by
  cases hm with
  | nobody => exact h.of rfl rfl
  | answered ha hr =>
    rename_i id e
    have hd : ((s.heard p msg).drop id).Owned := h.of rfl rfl
    exact hd.answer (hn (id, e) ha) _
  | raised ha hr =>
    refine Owned.unwind ?_ _
    exact h.of rfl rfl
  | notified hw => exact h.of rfl rfl

theorem Owned.go {n : ℕ} (h : s.Owned) (hk : s.Keeps env (.go n)) (hgo : s.go env n = some t) :
    t.Owned := by
  cases goes_of_go hgo with
  | message hs hm =>
    rename_i p line rest stack msg
    have hu : ({ s with stack := .lines p rest :: stack } : Client).Owned := h.of rfl rfl
    refine hu.hears (fun x hx hcb hbad => ?_) (hears_onMessage _ _ _ _)
    refine hk ?_
    unfold tears
    rw [hs]
    have ha : s.addressee msg = some x := hx
    simp [hm, ha, hcb, hbad]
  | pending hs hx =>
    rename_i dead err cause stack x
    have hu : ({ s with stack := .failPending (dead.eraseIdx n) err cause :: stack } :
        Client).Owned := h.of rfl rfl
    refine hu.answer (fun hcb _ => hk ?_) _
    unfold tears
    rw [hs]
    simp [hx, hcb]
  | waiter hs =>
    refine Owned.call ?_ _ _ _
    exact h.of rfl rfl
  | _ => exact h.of rfl rfl

theorem Owned.step {i : Input} (h : s.Owned) (hk : s.Keeps env i) (hst : s.step env i = some t) :
    t.Owned := by
  cases steps_of_step hst with
  | act a hc =>
    cases a with
    | request r execute launch =>
      refine Owned.ensure ?_ _ _
      exact h.of rfl rfl
    | ensure launch => exact h.ensure _ _
    | stop => exact h.stop
  | ret hs => exact h.of rfl rfl
  | raise hs => exact h.unwind _
  | go hg => exact h.go hk hst
  | stdout hq hs he => exact h.of rfl rfl
  | die hp =>
    refine ⟨fun k q hq hr => ?_⟩
    change (s.procs.modify _ _)[k]? = some q at hq
    rw [List.getElem?_modify] at hq
    obtain ⟨q₀, hq₀, rfl⟩ := Option.map_eq_some_iff.mp hq
    split at hr
    · simp [Proc.running] at hr
    · exact h.job k q₀ hq₀ hr
  | exit hq hs ha =>
    refine ⟨fun k q hq hr => ?_⟩
    change (s.procs.modify _ _)[k]? = some q at hq
    rw [List.getElem?_modify] at hq
    obtain ⟨q₀, hq₀, rfl⟩ := Option.map_eq_some_iff.mp hq
    have hrun : q₀.running = true := by
      split at hr
      · exact hr
      · exact hr
    exact absurd ⟨k, h.job k q₀ hq₀ hrun, q₀, hq₀, hrun⟩ (hk rfl)

theorem one_process {is : List Input} (h : (machine env).Run (Keeps env) new is s) :
    ∀ p q, s.procs[p]? = some q → q.running = true →
      s.job = some p ∧ ∀ p' q', s.procs[p']? = some q' → q'.running = true → p' = p := by
  have hs : s.Owned := h.invariant Owned (fun s i t hk hs hst => hs.step hk hst) owned_new
  intro p q hq hr
  have hjob := hs.job p q hq hr
  refine ⟨hjob, fun p' q' hq' hr' => ?_⟩
  exact Option.some.inj ((hs.job p' q' hq' hr').symm.trans hjob)

/-- The answer to the first handshake. -/
def helloAnswer (proto : ℚ) : Json :=
  .obj [("id", .num 1), ("ok", .bool true), ("result", .obj [("proto", .num proto)])]

/-- `H` answers the handshake with protocol 1, `O` with protocol 0. -/
def helloEnv : Env where
  decode := fun line =>
    if line = [72] then some (helloAnswer 1)
    else if line = [79] then some (helloAnswer 0)
    else none
  tonumber := fun _ => none

/-- Which processes run, and the one the client has the handle of. -/
def overview (s : Client) : List Bool × Option Pid := (s.procs.map Proc.running, s.job)

/-- A process is greeted and stopped, and another is spawned. -/
def respawn : List Input :=
  [.act (.ensure (.works "loded")), .stdout 0 [72, 10], .go 0, .go 0, .ret, .go 0, .go 0, .go 0,
    .act .stop, .go 0, .go 0, .go 0, .go 0, .go 0, .act (.ensure (.works "loded"))]

theorem one_process_respawn :
    ∃ s, (machine helloEnv).Run (Keeps helloEnv) new respawn s ∧
      s.overview = ([false, true], some 1) ∧
      ∀ p q, s.procs[p]? = some q → q.running = true →
        s.job = some p ∧ ∀ p' q', s.procs[p']? = some q' → q'.running = true → p' = p := by
  let check := fun (s : Client) (i : Input) => decide (s.Keeps helloEnv i)
  have hsome : ((machine helloEnv).execWith check new respawn).map overview =
      some ([false, true], some 1) := by decide
  obtain ⟨s, hs, hview⟩ := Option.map_eq_some_iff.mp hsome
  have hrun : (machine helloEnv).Run (Keeps helloEnv) new respawn s :=
    Lib.Machine.run_of_execWith (fun _ _ => of_decide_eq_true) hs
  exact ⟨s, hrun, hview, one_process hrun⟩

/-- A process that speaks an old protocol is forgotten, and another is spawned. -/
def oldProtocol : List Input :=
  [.act (.ensure (.works "loded")), .stdout 0 [79, 10]] ++ List.replicate 7 (.go 0) ++ [.ret] ++
    List.replicate 3 (.go 0) ++ [.act (.ensure (.works "loded"))]

theorem old_process_left_running :
    ∃ s, (machine helloEnv).exec new oldProtocol = some s ∧
      s.overview = ([true, true], some 1) ∧
      ¬ ∀ p q, s.procs[p]? = some q → q.running = true →
        s.job = some p ∧ ∀ p' q', s.procs[p']? = some q' → q'.running = true → p' = p := by
  have hsome : ((machine helloEnv).exec new oldProtocol).map overview =
      some ([true, true], some 1) := by decide
  obtain ⟨s, hs, hview⟩ := Option.map_eq_some_iff.mp hsome
  refine ⟨s, hs, hview, fun h => ?_⟩
  simp only [overview, Prod.mk.injEq] at hview
  obtain ⟨hprocs, hjob⟩ := hview
  have hfirst : (s.procs.map Proc.running)[0]? = some true := by rw [hprocs]; rfl
  rw [List.getElem?_map] at hfirst
  obtain ⟨q, hq, hr⟩ := Option.map_eq_some_iff.mp hfirst
  have hzero := (h 0 q hq hr).1
  rw [hjob] at hzero
  cases hzero

end Client
end LvimDb.Daemon
