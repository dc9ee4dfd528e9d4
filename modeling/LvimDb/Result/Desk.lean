import LvimDb.Result.Buffers

/-!
# The dock and the engine processes

The dock over the processes it asks. Each process numbers its calls from 1 in the order it
handles the requests; what it was asked fails when it exits, and the next request goes to a
new process. The log stays.
-/

namespace LvimDb.Result
open Engine (ConnId CallId CallStatus PageReply)

variable {V : Type}

/-- A call a process made, and the log entry whose statement it executes, unless it is a
count. -/
structure Made where
  process : ℕ
  call : CallId
  entry : Option ℕ
  deriving DecidableEq, Repr

/-- What there is to know of a callback that waits: the process it was sent to, the call that
process made for it, and the entry `open_cached` asked for with the process the entry's call
id is from. -/
structure Tag where
  process : ℕ
  call : Option CallId
  opened : Option (ℕ × ℕ)
  deriving DecidableEq, Repr

/-- `home` is the process that gave an entry a call id. `shown` keeps for every page that was
asked for by `open_cached` the entry that was opened and the one whose statement gave the
rows. -/
structure Desk (V : Type) where
  dock : Dock V
  process : ℕ
  nextCall : CallId
  made : List Made
  home : ℕ → CallId → ℕ
  tags : List Tag
  shown : List (ℕ × Option ℕ)

inductive Turn (V : Type)
  | dock (i : Input V)
  | execute (n : ℕ)
  | exit

/-- The requests that make a call, and the log entry it is for. -/
def Cont.executed : Cont V → Option (Option ℕ)
  | .run k _ _ _ => some (some k)
  | .write k _ _ => some (some k)
  | .count => some none
  | _ => none

/-- The call a page is asked of. -/
def Cont.paged : Cont V → Option CallId
  | .page cid _ | .countPage cid => some cid
  | _ => none

/-- What does not take an engine: `teardown` fails what waits, the user answers a dialog. -/
def Reply.offline : Reply V → Bool
  | .failed | .state .failed | .answer _ | .typed _ | .saved _ | .closed => true
  | _ => false

namespace Desk
variable (env : Env V) (s : Desk V)

def new : Desk V where
  dock := .new
  process := 0
  nextCall := 1
  made := []
  home := fun _ _ => 0
  tags := []
  shown := []

/-- The call the running process has under a number. -/
def maker (cid : CallId) : Option Made :=
  s.made.find? fun m => m.process = s.process ∧ m.call = cid

/-- The running process can give the answer. -/
def answers (c : Cont V) (tag : Tag) : Reply V → Bool
  | .called cid => tag.process = s.process ∧ tag.call = some cid
  | .page (.ready _) => tag.process = s.process ∧ ((c.paged.bind s.maker).isSome = true)
  | r => r.offline || tag.process = s.process

def admits : Input V → Bool
  | .answer n r =>
    match s.dock.waiting[n]?, s.tags[n]? with
    | some c, some tag => s.answers c tag r
    | _, _ => false
  | _ => true

/-- The tags of the callbacks that an input leaves. -/
def rest : Input V → List Tag
  | .answer n _ => s.tags.eraseIdx n
  | _ => s.tags

/-- The tag of a new request. -/
def tag (i : Input V) : Tag where
  process := s.process
  call := none
  opened := (s.dock.reopens env i).bind fun k =>
    (s.dock.callOf k).map fun cid => (k, s.home k cid)

/-- The answer gives the entry of a run its call id. -/
def registers (i : Input V) (k : ℕ) (cid : CallId) : Bool :=
  match i with
  | .answer n (.called c) =>
    match s.dock.waiting[n]? with
    | some (.run j _ _ _) => j = k ∧ c = cid
    | _ => false
  | _ => false

/-- The processes of the entries' call ids after an input. -/
def homes (i : Input V) (k : ℕ) (cid : CallId) : ℕ :=
  if s.registers i k cid then s.process else s.home k cid

/-- The rows an answer shows for an entry that was opened. -/
def shows : Input V → List (ℕ × Option ℕ)
  | .answer n (.page (.ready _)) =>
    match s.dock.waiting[n]?, s.tags[n]?.bind Tag.opened with
    | some (.page cid _), some (k, _) => [(k, (s.maker cid).bind Made.entry)]
    | _, _ => []
  | _ => []

/-- The dock took an input. -/
def follow (i : Input V) (t : Dock V) : Desk V :=
  { s with
    dock := t
    home := s.homes i
    tags := s.rest i ++ List.replicate (t.waiting.length - (s.rest i).length) (s.tag env i)
    shown := s.shows i ++ s.shown }

/-- A request to execute is handled: `next_call.fetch_add(1)`. -/
def execute (n : ℕ) : Option (Desk V) :=
  match s.dock.waiting[n]?.bind Cont.executed, s.tags[n]? with
  | some entry, some tag =>
    if tag.process = s.process ∧ tag.call = none then
      some { s with
        nextCall := s.nextCall + 1
        made := ⟨s.process, s.nextCall, entry⟩ :: s.made
        tags := s.tags.set n { tag with call := some s.nextCall } }
    else none
  | _, _ => none

def step : Turn V → Option (Desk V)
  -- `made` knows the numbers that are taken, for each process by itself
  | .dock i =>
    if s.admits i then
      (Dock.step env { s.dock with issued := [] } i).map (s.follow env i)
    else none
  | .execute n => s.execute n
  | .exit => some { s with process := s.process + 1, nextCall := 1 }

/-- The rows shown for an entry are those of its own statement. -/
def Own : Prop := ∀ k owner, (k, owner) ∈ s.shown → owner = some k

/-- An entry that was opened is answered with rows only when its call id is from the process
that runs. -/
def Current : Turn V → Prop
  | .dock (.answer n (.page (.ready _))) =>
    ∀ p ∈ s.tags[n]?.bind Tag.opened, p.2 = s.process
  | _ => True

instance (i : Turn V) : Decidable (s.Current i) := by
  unfold Current
  split <;> infer_instance

end Desk

def desk (env : Env V) : Lib.Machine (Desk V) (Turn V) where
  init := .new
  step := Desk.step env

/-! ### What a step of the dock adds -/

namespace Dock
variable {env : Env V} {s t : Dock V}

/-- The callbacks of `w` still wait, in their places, and every call id is a known one. -/
structure Grown (w : List (Cont V)) (held : ℕ → CallId → Prop) (s : Dock V) : Prop where
  waiting : w <+: s.waiting
  held : ∀ j cid, s.callOf j = some cid → held j cid

/-- All but the start of a run. -/
def settled : List Part :=
  [.plain, .data, .pages, .runs, .counts, .edits, .locks, .inserts, .writes, .docs]

variable {w : List (Cont V)} {held : ℕ → CallId → Prop}

theorem Grown.wait (h : Grown w held s) (c : Cont V) : Grown w held (s.wait c) :=
  ⟨h.waiting.trans (List.prefix_append _ _), h.held⟩

theorem keeps_grown (w : List (Cont V)) (held : ℕ → CallId → Prop) :
    Keeps settled (Grown w held) where
  plain := by decide
  face := fun _ h => ⟨h.waiting, h.held⟩
  pend := fun _ h => ⟨h.waiting, h.held⟩
  tell := fun _ h => ⟨h.waiting, h.held⟩
  wait := fun _ h => h.wait _
  later := fun _ h => ⟨h.waiting, h.held⟩
  next := fun _ h => ⟨h.waiting, h.held⟩
  source := fun _ h => ⟨h.waiting, h.held⟩
  amend := fun {s k f} hf h => by
    refine ⟨h.waiting, fun j cid hcid => ?_⟩
    obtain ⟨e, he, hcall⟩ := Option.bind_eq_some_iff.mp hcid
    obtain ⟨e₀, he₀, rfl⟩ := heap_amend he
    have hold : e₀.callId = some cid := by
      split at hcall
      · rcases hf.callId e₀ with heq | heq
        · exact heq ▸ hcall
        · rw [heq] at hcall
          cases hcall
      · exact hcall
    exact h.held j cid (Option.bind_eq_some_iff.mpr ⟨e₀, he₀, hold⟩)
  addEntry := fun {s q} h => by
    refine ⟨h.waiting, fun j cid hcid => ?_⟩
    rw [callOf_addEntry] at hcid
    exact h.held j cid hcid
  data := fun _ h => ⟨h.waiting, h.held⟩
  page := fun _ h => ⟨h.waiting, h.held⟩
  count := fun _ _ h => ⟨h.waiting, h.held⟩
  register := fun hs => absurd hs (by decide)
  bind := fun hs => absurd hs (by decide)

theorem Grown.run (h : Grown w held s) (why : Why) (q : Query) (offset : ℕ) (done : Option ℕ) :
    Grown w held (s.run env why q offset done) := by
  have hruns : Part.runs ∈ settled := by decide
  unfold Dock.run
  split
  · exact (keeps_grown w held).tell hruns ((keeps_grown w held).cancelEdit h)
  have hclear : Grown w held (s.clear env q) :=
    (keeps_grown w held).clear (by decide) (by decide) (by decide) h q
  have htell : Grown w held ((s.clear env q).tell
      (.ran why ((s.clear env q).heap.length - 1) q done)) := (keeps_grown w held).tell hruns hclear
  exact htell.wait _

theorem Grown.perform (h : Grown w held s) (k : Task V) : Grown w held (s.perform env k) := by
  have hruns : Part.runs ∈ settled := by decide
  refine (keeps_grown w held).perform h ?_ ?_ ?_ ?_ ?_ ?_
  · intro done _
    exact (keeps_grown w held).finish hruns h done false
  · intro offset done _
    exact (keeps_grown w held).land hruns h offset done
  · intro q t _
    exact h.run _ q 0 t.done
  · intro q t _
    exact h.wait _
  · intro n on plan statement target _
    exact h.wait _
  · intro on target _
    unfold refresh
    split
    · exact h.run _ _ _ none
    · exact h

theorem Grown.rerunCall (h : Grown w held s) : Grown w held (s.rerunCall env) := by
  unfold Dock.rerunCall
  split
  · exact ((keeps_grown w held).want (by decide) h _).run _ _ 0 none
  · exact h

/-- The entry of a run learns its call id. -/
theorem Grown.register (h : Grown w held s) {k : ℕ} {cid : CallId} (q : Query) (offset : ℕ)
    (done : Option ℕ) (hk : held k cid) : Grown w held (s.register env k q offset done cid) := by
  have hissue : Grown w held (s.issue cid (some q)) := ⟨h.waiting, h.held⟩
  have hwait : Grown w held ((s.issue cid (some q)).wait (.watch k offset done)) := hissue.wait _
  have hbound : Grown w held { (((s.issue cid (some q)).wait (.watch k offset done)).amend k
      fun e => { e with callId := some cid }) with callId := some cid } := by
    refine ⟨hwait.waiting, fun j c hc => ?_⟩
    obtain ⟨e, he, hcall⟩ := Option.bind_eq_some_iff.mp hc
    obtain ⟨e₀, he₀, rfl⟩ := heap_amend he
    split at hcall
    · rename_i hkj
      cases hcall
      exact hkj ▸ hk
    · exact hwait.held j c (Option.bind_eq_some_iff.mpr ⟨e₀, he₀, hcall⟩)
  exact (keeps_grown w held).evict hbound s.callId cid

theorem Grown.resumed (h : Grown w held s) {c : Cont V} {r : Reply V}
    (hk : ∀ k q offset done cid, c = .run k q offset done → r = .called cid → held k cid)
    (hr : s.resume env c r = some t) : Grown w held t := by
  by_cases hrun : c.part = .starts
  · cases c with
    | run k q offset done =>
      cases r with
      | called cid =>
        obtain ⟨-, heq⟩ := Option.ite_none_right_eq_some.mp hr
        cases heq
        exact h.register q offset done (hk k q offset done cid rfl rfl)
      | failed =>
        cases hr
        exact h
      | _ => cases hr
    | _ => cases hrun
  have hruns : Part.runs ∈ settled := by decide
  have hres : Resumed env s c r t := LvimDb.Result.resumed hr
  refine hres.keeps ?_ ?_ ?_ ?_ ?_ ?_ ?_ ?_ ?_
  · intro hc
    exact (keeps_grown w held).answeredRest (by decide) hres hc h
  · intro cid offset p _
    exact (keeps_grown w held).turn (by decide) h cid p
  · intro _ _ _ _ _ _
    exact h
  · intro k q offset done cid hc _
    subst hc
    exact absurd rfl hrun
  · intro k offset done st _ hst
    exact (keeps_grown w held).settle hruns h k hst offset done
  · intro q t b _ _
    exact (keeps_grown w held).judged hruns h q t b
  · intro q t _ _
    have htell : Grown w held (s.tell (.confirmed t.n)) := (keeps_grown w held).tell hruns h
    exact htell.run _ q 0 t.done
  · intro q t _
    exact (keeps_grown w held).finish hruns h t.done false
  · intro _ _ _
    exact h

theorem Grown.openCached (h : Grown w held s) (k : ℕ) : Grown w held (s.openCached env k) :=
  (keeps_grown w held).openCached (by decide) (by decide) h k

/-- The callbacks an input leaves. -/
def left (s : Dock V) : Input V → List (Cont V)
  | .answer n _ => s.waiting.eraseIdx n
  | _ => s.waiting

/-- One input adds callbacks behind those it leaves, and gives a call id to the entry of the run
it answers only. -/
theorem step_grown {i : Input V} (hst : s.step env i = some t)
    (hold : ∀ j cid, s.callOf j = some cid → held j cid)
    (hnew : ∀ n k q offset done cid, i = .answer n (.called cid) →
      s.waiting[n]? = some (.run k q offset done) → held k cid) :
    Grown (s.left i) held t := by
  by_cases hans : ∃ n r, i = .answer n r
  · obtain ⟨n, r, rfl⟩ := hans
    unfold Dock.step at hst
    dsimp only at hst
    split at hst
    · rename_i c hc
      have hdrop : Grown (s.waiting.eraseIdx n) held (s.drop n) := ⟨List.prefix_rfl, hold⟩
      refine hdrop.resumed (fun k q offset done cid heq hr => ?_) hst
      subst heq hr
      exact hnew n k q offset done cid rfl hc
    · cases hst
  have hs : Grown s.waiting held s := ⟨List.prefix_rfl, hold⟩
  have hleft : s.left i = s.waiting := by
    cases i with
    | answer n r => exact absurd ⟨n, r, rfl⟩ hans
    | _ => rfl
  rw [hleft]
  refine (keeps_grown s.waiting held).step (by decide) hs ?_ ?_ ?_ ?_ ?_ ?_ hst
  · intro q notify _
    exact (keeps_grown s.waiting held).runGuarded (by decide) hs q notify
  · intro k _
    exact hs.openCached k
  · intro _
    exact hs.rerunCall
  · intro hed
    exact (keeps_grown s.waiting held).edited (by decide) (by decide) (by decide)
      (fun _ _ _ _ _ h' => (keeps_grown s.waiting held).writeRow (by decide) h' _ _ _ _ _) hed hs hst
  · intro k ks _ _
    have hpop : Grown s.waiting held { s with queue := ks } := ⟨List.prefix_rfl, hold⟩
    exact hpop.perform k
  · intro n r c heq _ _
    exact absurd ⟨n, r, heq⟩ hans

/-! ### What `open_cached` asks for -/

theorem reopens_step {i : Input V} {k : ℕ} (hk : s.reopens env i = some k)
    (hst : s.step env i = some t) : t = s.openCached env k := by
  cases i with
  | openLog =>
    simp only [Dock.step, hk] at hst
    exact (Option.some.inj hst).symm
  | enter =>
    have hview : s.face.view ≠ .result := by
      intro hview
      simp [reopens, hview] at hk
    simp only [Dock.step, Dock.enter, if_neg hview, hk] at hst
    exact (Option.some.inj hst).symm
  | _ => cases hk

theorem countRows_waiting (env : Env V) (q : Query) :
    ∃ added, (s.countRows env q).waiting = s.waiting ++ added ∧
      ∀ c ∈ added, c = .count := by
  unfold countRows fetchTotal
  split
  · split
    · split
      · exact ⟨[.count], rfl, fun c hc => List.mem_singleton.mp hc⟩
      · exact ⟨[], (List.append_nil _).symm, fun c hc => by cases hc⟩
    · exact ⟨[], (List.append_nil _).symm, fun c hc => by cases hc⟩
  · exact ⟨[], (List.append_nil _).symm, fun c hc => by cases hc⟩

theorem countRows_callId (env : Env V) (q : Query) : (s.countRows env q).callId = s.callId := by
  unfold countRows fetchTotal
  split
  · split
    · split
      · rfl
      · rfl
    · rfl
  · rfl

/-- The page is asked of the call of the entry. -/
theorem openCached_waiting (env : Env V) (k : ℕ) :
    ∃ added, (s.openCached env k).waiting = s.waiting ++ added ∧
      ∀ cid offset, .page cid offset ∈ added → s.callOf k = some cid := by
  unfold openCached
  split
  · rename_i e he
    split
    · rename_i cid hcid
      have hcall : s.callOf k = some cid := Option.bind_eq_some_iff.mpr ⟨e, he, hcid⟩
      obtain ⟨added, hwait, hcount⟩ := countRows_waiting
        (s := s.retarget e.query (some cid) e.offset) env e.query
      have hid := countRows_callId (s := s.retarget e.query (some cid) e.offset) env e.query
      dsimp only
      split
      · refine ⟨added, hwait, fun c offset hmem => ?_⟩
        cases hcount _ hmem
      · unfold gotoPage
        split
        · rename_i c hc
          obtain rfl : c = cid := Option.some.inj (hc.symm.trans hid)
          refine ⟨added ++ [.page c e.offset], ?_, fun c' offset hmem => ?_⟩
          · rw [← List.append_assoc]
            exact congrArg (· ++ [.page c e.offset]) hwait
          · rcases List.mem_append.mp hmem with hmem | hmem
            · cases hcount _ hmem
            · cases List.mem_singleton.mp hmem
              exact hcall
        · rename_i hnone
          cases hnone.symm.trans hid
    · exact ⟨[], (List.append_nil _).symm, fun _ _ hmem => by cases hmem⟩
  · exact ⟨[], (List.append_nil _).symm, fun _ _ hmem => by cases hmem⟩

end Dock
end LvimDb.Result
