import LvimDb.Lib.Total
import LvimDb.Engine.Output

/-!
# Disconnecting

`conn.disconnect` takes a connection out of the map and closes it if `Arc::try_unwrap`
gives it back (server.rs:365-372), which it does when nobody else has a clone. The
clones are counted: one for the map entry or the disconnect that took it out, one for
each handler and each worker that has looked the connection up and is not done with it.
-/

namespace LvimDb.Engine
variable {V B : Type}

/-- The connection a handler has a clone of. -/
def Task.clone (task : Task V) : Option ConnId :=
  match task.phase, task.request with
  | .holding, .schema k _ => some k
  | .holding, .execute k _ => some k
  | .locked, .schema k _ => some k
  | .leaving _, .schema k _ => some k
  | _, _ => none

/-- The connection whose entry a disconnect has taken out of the map and not let go. -/
def Task.owns (task : Task V) : Option ConnId :=
  match task.phase, task.request with
  | .removed, .disconnect k => some k
  | _, _ => none

/-- The connection a worker has a clone of, up to its end. -/
def Worker.clone (w : Worker V B) : Option ConnId :=
  match w.phase with
  | .gone => none
  | _ => some w.conn

def hits (k : ConnId) (o : Option ConnId) : ℕ := if o = some k then 1 else 0

@[simp] theorem hits_none (k : ConnId) : hits k none = 0 := rfl

theorem hits_some (k j : ConnId) : hits k (some j) = if k = j then 1 else 0 := by
  simp only [hits, Option.some.injEq, eq_comm]

/-! ### What is wanted of a disconnect -/

/-- A disconnect of `k` that took it out of the map was answered. -/
def Disconnected (k : ConnId) (h : List (Event V B)) : Prop :=
  ∃ id r pre, (.answered id (.disconnect k) r :: pre) <:+ h ∧ .delisted k ∈ pre

/-- A disconnect is answered after the driver's `close`, and no statement starts after it. -/
def Closes (pre : List (Event V B)) : Event V B → Prop
  | .answered _ (.disconnect k) _ => .delisted k ∈ pre → .closed k ∈ pre
  | .handed _ k => ¬ Disconnected k pre
  | _ => True

namespace Server
variable {s s' : Server V B} {t : TaskId} {task : Task V} {x : Option (Task V)}

/-! ### Counting the clones -/

def strong (s : Server V B) (k : ConnId) : ℕ := (s.conns k).elim 0 (·.strong)

def entry (s : Server V B) (k : ConnId) : ℕ := (s.conns k).elim 0 (·.listed.toNat)

def owners (s : Server V B) (k : ConnId) : ℕ :=
  Lib.total s.nextTask s.tasks fun task => hits k task.owns

def handlers (s : Server V B) (k : ConnId) : ℕ :=
  Lib.total s.nextTask s.tasks fun task => hits k task.clone

def cloners (s : Server V B) (k : ConnId) : ℕ :=
  Lib.total s.nextCall s.workers fun w => hits k w.clone

structure Counted (s : Server V B) : Prop where
  balance : ∀ k, s.strong k = s.entry k + s.owners k + s.handlers k + s.cloners k
  owned : ∀ k, s.entry k + s.owners k ≤ 1

theorem counted_new : (new : Server V B).Counted := ⟨fun _ => rfl, fun _ => Nat.zero_le _⟩

theorem strong_setConn (k j : ConnId) (conn : Conn) :
    (s.setConn k conn).strong j = if j = k then conn.strong else s.strong j := by
  by_cases hj : j = k
  · subst hj
    simp only [strong, setConn_conns, Function.update_self, Option.elim_some, if_true]
  · simp only [strong, setConn_conns, Function.update_of_ne hj, if_neg hj]

theorem entry_setConn (k j : ConnId) (conn : Conn) :
    (s.setConn k conn).entry j = if j = k then conn.listed.toNat else s.entry j := by
  by_cases hj : j = k
  · subst hj
    simp only [entry, setConn_conns, Function.update_self, Option.elim_some, if_true]
  · simp only [entry, setConn_conns, Function.update_of_ne hj, if_neg hj]

theorem total_hits {α : Type} {n i : ℕ} {table : ℕ → Option α} {a : α} {x : Option α}
    (f : α → Option ConnId) (hlt : i < n) (ha : table i = some a) (k : ConnId) :
    Lib.total n (Function.update table i x) (fun a => hits k (f a)) + hits k (f a) =
      Lib.total n table (fun a => hits k (f a)) + hits k (x.bind f) := by
  have hupd := Lib.total_update (x := table) hlt x fun a => hits k (f a)
  rw [ha, Option.elim_some] at hupd
  cases x with
  | none => exact hupd
  | some b => exact hupd

/-- A step of a handler that leaves the workers alone: what it does to the count of a connection
it does to the clones it has. -/
theorem Counted.turn (h : s.Counted) (hi : s.Held) (ht : s.tasks t = some task)
    (hx : s'.tasks = Function.update s.tasks t x) (hn : s'.nextTask = s.nextTask)
    (hw : ∀ k, s'.cloners k = s.cloners k)
    (hs : ∀ k, s'.strong k + s.entry k + hits k task.owns + hits k task.clone =
      s.strong k + s'.entry k + hits k (x.bind Task.owns) + hits k (x.bind Task.clone))
    (ho : ∀ k, s'.entry k + hits k (x.bind Task.owns) ≤ s.entry k + hits k task.owns ∨
      s.strong k = 0 ∧ s'.entry k + hits k (x.bind Task.owns) ≤ 1) : s'.Counted := by
  have howners : ∀ k, s'.owners k + hits k task.owns = s.owners k + hits k (x.bind Task.owns) := by
    intro k
    rw [owners, hx, hn]
    exact total_hits Task.owns (hi.task_lt ht) ht k
  have hhandlers : ∀ k,
      s'.handlers k + hits k task.clone = s.handlers k + hits k (x.bind Task.clone) := by
    intro k
    rw [handlers, hx, hn]
    exact total_hits Task.clone (hi.task_lt ht) ht k
  refine ⟨fun k => ?_, fun k => ?_⟩
  · have hold := h.balance k
    have hnew := hs k
    have h1 := howners k
    have h2 := hhandlers k
    rw [hw]
    omega
  · have hold := h.balance k
    have howned := h.owned k
    have h1 := howners k
    have h2 := ho k
    omega

/-- A step of a handler that takes no clone and lets none go. -/
theorem Counted.keep (h : s.Counted) (hi : s.Held) (ht : s.tasks t = some task)
    (hx : s'.tasks = Function.update s.tasks t x) (hn : s'.nextTask = s.nextTask)
    (hw : ∀ k, s'.cloners k = s.cloners k) (hs : ∀ k, s'.strong k = s.strong k)
    (he : ∀ k, s'.entry k = s.entry k) (ho : x.bind Task.owns = task.owns)
    (hc : x.bind Task.clone = task.clone) : s'.Counted := by
  refine h.turn hi ht hx hn hw (fun k => ?_) (fun k => .inl ?_)
  · rw [hs, he, ho, hc]
  · rw [he, ho]

/-- A step of a handler on connection `k`. -/
theorem Counted.change (h : s.Counted) (hi : s.Held) (ht : s.tasks t = some task) {k : ConnId}
    {conn conn' : Conn} (hk : s.conns k = some conn)
    (hx : s'.tasks = Function.update s.tasks t x) (hn : s'.nextTask = s.nextTask)
    (hw : ∀ k, s'.cloners k = s.cloners k)
    (hconns : s'.conns = Function.update s.conns k (some conn'))
    (hother : ∀ j, k ≠ j → hits j (x.bind Task.owns) = hits j task.owns ∧
      hits j (x.bind Task.clone) = hits j task.clone)
    (hs : conn'.strong + conn.listed.toNat + hits k task.owns + hits k task.clone =
      conn.strong + conn'.listed.toNat + hits k (x.bind Task.owns) + hits k (x.bind Task.clone))
    (ho : conn'.listed.toNat + hits k (x.bind Task.owns) ≤
      conn.listed.toNat + hits k task.owns) : s'.Counted := by
  have hold : s.strong k = conn.strong ∧ s.entry k = conn.listed.toNat := by
    rw [strong, entry, hk]
    exact ⟨rfl, rfl⟩
  have hnew : s'.strong k = conn'.strong ∧ s'.entry k = conn'.listed.toNat := by
    rw [strong, entry, hconns, Function.update_self]
    exact ⟨rfl, rfl⟩
  have hsame : ∀ j, j ≠ k → s'.strong j = s.strong j ∧ s'.entry j = s.entry j := by
    intro j hj
    rw [strong, strong, entry, entry, hconns, Function.update_of_ne hj]
    exact ⟨rfl, rfl⟩
  refine h.turn hi ht hx hn hw (fun j => ?_) (fun j => .inl ?_)
  · by_cases hj : j = k
    · subst hj
      rw [hnew.1, hnew.2, hold.1, hold.2]
      exact hs
    · rw [(hsame j hj).1, (hsame j hj).2, (hother j (Ne.symm hj)).1, (hother j (Ne.symm hj)).2]
  · by_cases hj : j = k
    · subst hj
      rw [hnew.2, hold.2]
      exact ho
    · rw [(hsame j hj).2, (hother j (Ne.symm hj)).1]

/-- A handler that gives its clone to a new worker. -/
theorem Counted.spawn (h : s.Counted) (hi : s.Held) (ht : s.tasks t = some task) {w : Worker V B}
    (hc : task.clone = w.clone) (ho : task.owns = none)
    (hx : s'.tasks = Function.update s.tasks t none) (hn : s'.nextTask = s.nextTask)
    (hw : s'.workers = Function.update s.workers s.nextCall (some w))
    (hnc : s'.nextCall = s.nextCall + 1) (hconns : s'.conns = s.conns) : s'.Counted := by
  have hcloners : ∀ k, s'.cloners k = s.cloners k + hits k w.clone := by
    intro k
    rw [cloners, hw, hnc]
    exact Lib.total_fresh _ _
  have hhandlers : ∀ k, s'.handlers k + hits k task.clone = s.handlers k := by
    intro k
    rw [handlers, hx, hn]
    exact total_hits (x := none) Task.clone (hi.task_lt ht) ht k
  have howners : ∀ k, s'.owners k = s.owners k := by
    intro k
    have htotal := total_hits (x := none) Task.owns (hi.task_lt ht) ht k
    rw [ho] at htotal
    rw [owners, hx, hn]
    exact htotal
  have hsame : ∀ k, s'.strong k = s.strong k ∧ s'.entry k = s.entry k := by
    intro k
    rw [strong, entry, hconns]
    exact ⟨rfl, rfl⟩
  refine ⟨fun k => ?_, fun k => ?_⟩
  · have hbalance := h.balance k
    have h1 := hcloners k
    have h2 := hhandlers k
    rw [hc] at h2
    rw [(hsame k).1, (hsame k).2, howners]
    omega
  · rw [(hsame k).2, howners]
    exact h.owned k

theorem Counted.owner (h : s.Counted) (hi : s.Held) (ht : s.tasks t = some task) {k : ConnId}
    (ho : task.owns = some k) : 1 ≤ s.owners k ∧ s.owners k ≤ s.strong k := by
  have hle := Lib.le_total (hi.task_lt ht) ht fun task => hits k task.owns
  have hone : hits k task.owns = 1 := by rw [ho, hits_some, if_pos rfl]
  have hbalance := h.balance k
  refine ⟨?_, by omega⟩
  rw [owners]
  omega

theorem Counted.cloned (h : s.Counted) (hi : s.Held) (ht : s.tasks t = some task) {k : ConnId}
    (hc : task.clone = some k) : 1 ≤ s.handlers k ∧ s.handlers k ≤ s.strong k := by
  have hle := Lib.le_total (hi.task_lt ht) ht fun task => hits k task.clone
  have hone : hits k task.clone = 1 := by rw [hc, hits_some, if_pos rfl]
  have hbalance := h.balance k
  refine ⟨?_, by omega⟩
  rw [handlers]
  omega

theorem Counted.working (h : s.Counted) (hi : s.Staged) {c : CallId} {w : Worker V B}
    (hw : s.workers c = some w) {k : ConnId} (hc : w.clone = some k) :
    1 ≤ s.cloners k ∧ s.cloners k ≤ s.strong k := by
  have hle := Lib.le_total (hi.worker_lt hw) hw fun w => hits k w.clone
  have hone : hits k w.clone = 1 := by rw [hc, hits_some, if_pos rfl]
  have hbalance := h.balance k
  refine ⟨?_, by omega⟩
  rw [cloners]
  omega

variable {bld : Build} [BsonCells V B]

theorem Counted.handler (h : s.Counted) (hi : s.Sound) (ht : s.tasks t = some task)
    (hst : HandlerStep bld s t task s') : s'.Counted := by
  -- the steps that touch no connection, by the phase before and after them
  have plain : ∀ {s' : Server V B} {x : Option (Task V)}, task.clone = none → task.owns = none →
      x.bind Task.clone = none → x.bind Task.owns = none →
      s'.tasks = Function.update s.tasks t x → s'.nextTask = s.nextTask → s'.conns = s.conns →
      s'.workers = s.workers → s'.nextCall = s.nextCall → s'.Counted := by
    intro s' x hc ho hc' ho' hx hn hconns hw hnc
    refine h.keep hi.held ht hx hn (fun k => ?_) (fun k => ?_) (fun k => ?_) (ho'.trans ho.symm)
      (hc'.trans hc.symm)
    · rw [cloners, cloners, hw, hnc]
    · rw [strong, strong, hconns]
    · rw [entry, entry, hconns]
  cases hst with
  | replied _ hp =>
    exact plain (by simp [Task.clone, hp]) (by simp [Task.owns, hp]) rfl rfl rfl rfl rfl rfl rfl
  | concluded _ _ hp =>
    rcases hp with hp | hp | ⟨handle, hp⟩ <;>
      exact plain (by simp [Task.clone, hp]) (by simp [Task.owns, hp]) rfl rfl rfl rfl rfl rfl rfl
  | dialed _ _ hp | drawn _ _ hp | found _ _ _ hp | missed _ _ hp | took _ _ _ _ _ hp
  | tookNothing _ _ _ _ hp | fired _ _ hp | released _ hp =>
    exact plain (by simp [Task.clone, hp]) (by simp [Task.owns, hp]) rfl rfl rfl rfl rfl rfl rfl
  | connected _ enc _ _ hp =>
    cases enc <;>
      exact plain (by simp [Task.clone, hp]) (by simp [Task.owns, hp]) rfl rfl rfl rfl rfl rfl rfl
  | paged _ _ _ _ _ _ answer _ hp =>
    cases answer <;>
      exact plain (by simp [Task.clone, hp]) (by simp [Task.owns, hp]) rfl rfl rfl rfl rfl rfl rfl
  | inserted k enc tun hp =>
    have hnone : s.conns k = none := by
      have hdraws : s.draws t = some k := by simp [draws, ht, Task.draws, hp]
      have hholder := (hi.held.drawn t k hdraws).2.1
      simpa [holderOf] using hholder
    refine h.turn hi.held ht rfl rfl (fun _ => rfl) (fun j => ?_) (fun j => ?_)
    · by_cases hj : j = k
      · subst hj
        simp [strong, entry, hnone, Task.owns, Task.clone, hp]
      · simp [strong, entry, Function.update_of_ne hj, Task.owns, Task.clone, hp]
    · by_cases hj : j = k
      · subst hj
        simp [strong, entry, hnone, Task.owns, hp]
      · simp [strong, entry, Function.update_of_ne hj, Task.owns, hp]
  | delisted k conn hk hp hreq hl =>
    refine h.change hi.held ht hk rfl rfl (fun _ => rfl) rfl ?_ ?_ ?_
    · simp +contextual [Task.owns, Task.clone, hp, hreq, hits]
    · simp [Task.owns, Task.clone, hp, hreq, hits, hl]
    · simp [Task.owns, hp, hreq, hits, hl]
  | closed k conn hk hp hreq hone =>
    refine h.change hi.held ht hk rfl rfl (fun _ => rfl) rfl ?_ ?_ ?_
    · simp +contextual [Task.owns, Task.clone, hp, hreq, hits]
    · simp [Task.owns, Task.clone, hp, hreq, hits, hone, Nat.add_comm]
    · simp [Task.owns, hp, hreq, hits]
  | kept k conn hk hp hreq _ =>
    have howner := h.owner hi.held ht (k := k) (by simp [Task.owns, hp, hreq])
    have hstrong : 1 ≤ conn.strong := by
      have hcount : s.strong k = conn.strong := by rw [strong, hk]; rfl
      omega
    refine h.change hi.held ht hk rfl rfl (fun _ => rfl) rfl ?_ ?_ ?_
    · simp +contextual [Task.owns, Task.clone, hp, hreq, hits]
    · simp [Task.owns, Task.clone, hp, hreq, hits]
      omega
    · simp [Task.owns, hp, hreq, hits]
  | cloned k conn hk _ hp hreq =>
    have hclone : Task.clone (V := V) { task with phase := .holding } = some k := by
      rcases hreq with ⟨op, hreq⟩ | ⟨statement, hreq⟩ <;> simp [Task.clone, hreq]
    refine h.change hi.held ht hk rfl rfl (fun _ => rfl) rfl ?_ ?_ ?_
    · intro j hj
      simp only [Option.bind_some, hclone]
      simp [Task.owns, Task.clone, hp, hits, hj]
    · simp only [Option.bind_some, hclone]
      simp [Task.owns, Task.clone, hp, hits]
      omega
    · simp [Task.owns, hp, hits]
  | locked k conn hk _ hp hreq =>
    obtain ⟨op, hreq⟩ := hreq
    refine h.change hi.held ht hk rfl rfl (fun _ => rfl) rfl ?_ ?_ ?_
    · simp [Task.owns, Task.clone, hp, hreq]
    · simp [Task.owns, Task.clone, hp, hreq]
    · simp [Task.owns, hp, hreq]
  | unlocked k conn r hk hp hreq _ =>
    obtain ⟨op, hreq⟩ := hreq
    refine h.change hi.held ht hk rfl rfl (fun _ => rfl) rfl ?_ ?_ ?_
    · simp [Task.owns, Task.clone, hp, hreq]
    · simp [Task.owns, Task.clone, hp, hreq]
    · simp [Task.owns, hp, hreq]
  | left k conn r hk hp hreq =>
    obtain ⟨op, hreq⟩ := hreq
    have hcloned := h.cloned hi.held ht (k := k) (by simp [Task.clone, hp, hreq])
    have hstrong : 1 ≤ conn.strong := by
      have hcount : s.strong k = conn.strong := by rw [strong, hk]; rfl
      omega
    refine h.change hi.held ht hk rfl rfl (fun _ => rfl) rfl ?_ ?_ ?_
    · simp +contextual [Task.owns, Task.clone, hp, hreq, hits]
    · simp [Task.owns, Task.clone, hp, hreq, hits]
      omega
    · simp [Task.owns, hp, hreq]
  | numbered k statement hp hreq =>
    exact h.spawn hi.held ht (w := ⟨task.id, k, statement, .numbered⟩)
      (by simp [Task.clone, Worker.clone, hp, hreq]) (by simp [Task.owns, hp]) rfl rfl rfl rfl rfl

omit [BsonCells V B] in
/-- A step of a worker that is not the last one. -/
theorem Counted.work (h : s.Counted) (hi : s.Staged) {c : CallId} {w : Worker V B}
    (hw : s.workers c = some w) {p : WorkerPhase V B}
    (hp : Worker.clone { w with phase := p } = w.clone)
    (hworkers : s'.workers = Function.update s.workers c (some { w with phase := p }))
    (hnc : s'.nextCall = s.nextCall) (hs : ∀ k, s'.strong k = s.strong k)
    (he : ∀ k, s'.entry k = s.entry k) (ht : s'.tasks = s.tasks)
    (hn : s'.nextTask = s.nextTask) : s'.Counted := by
  have hcloners : ∀ k, s'.cloners k = s.cloners k := by
    intro k
    have htotal := total_hits (x := some { w with phase := p }) Worker.clone (hi.worker_lt hw) hw k
    rw [Option.bind_some, hp] at htotal
    rw [cloners, hworkers, hnc]
    exact Nat.add_right_cancel htotal
  have htasks : ∀ k, s'.owners k = s.owners k ∧ s'.handlers k = s.handlers k := by
    intro k
    rw [owners, handlers, ht, hn]
    exact ⟨rfl, rfl⟩
  refine ⟨fun k => ?_, fun k => ?_⟩
  · rw [hs, he, (htasks k).1, (htasks k).2, hcloners]
    exact h.balance k
  · rw [he, (htasks k).1]
    exact h.owned k

omit [BsonCells V B] in
theorem holder_counts {k : ConnId} {conn : Conn} (hk : s.conns k = some conn)
    (o : Option Holder) (j : ConnId) :
    (s.setConn k { conn with holder := o }).strong j = s.strong j ∧
      (s.setConn k { conn with holder := o }).entry j = s.entry j := by
  by_cases hj : j = k
  · subst hj
    simp only [strong, entry, setConn_conns, Function.update_self, hk, Option.elim_some, and_self]
  · simp only [strong, entry, setConn_conns, Function.update_of_ne hj, and_self]

theorem Counted.worker (h : s.Counted) (hi : s.Staged) {c : CallId} {w : Worker V B}
    (hw : s.workers c = some w) (hst : WorkerStep s c w s') : s'.Counted := by
  cases hst with
  | registered hp | answered hp | spawned hp | armed _ _ hp | unarmed hp | handed hp
  | returned _ hp | finished _ _ _ _ hp =>
    exact h.work hi hw (by simp [Worker.clone, hp]) rfl rfl (fun _ => rfl) (fun _ => rfl) rfl rfl
  | locked conn hk _ hp | unlocked conn _ hk hp =>
    exact h.work hi hw (by simp [Worker.clone, hp]) rfl rfl
      (fun j => (holder_counts hk _ j).1) (fun j => (holder_counts hk _ j).2) rfl rfl
  | gone conn hk hp =>
    have hclone : w.clone = some w.conn := by simp [Worker.clone, hp]
    have hcloners : ∀ j, Lib.total s.nextCall (Function.update s.workers c
        (some { w with phase := .gone })) (fun w => hits j w.clone) +
          (if j = w.conn then 1 else 0) = s.cloners j := by
      intro j
      have htotal := total_hits (x := some { w with phase := .gone }) Worker.clone
        (hi.worker_lt hw) hw j
      rw [hclone, hits_some] at htotal
      exact htotal
    have hentry : ∀ j, (s.setConn w.conn { conn with strong := conn.strong - 1 }).entry j =
        s.entry j := by
      intro j
      rw [entry_setConn]
      split
      · next hj =>
        subst hj
        rw [entry, hk]
        rfl
      · rfl
    have hworking := h.working hi hw hclone
    have hstrong : s.strong w.conn = conn.strong := by rw [strong, hk]; rfl
    refine ⟨fun j => ?_, fun j => (hentry j).symm ▸ h.owned j⟩
    have hbalance := h.balance j
    have h1 := hcloners j
    change (s.setConn w.conn _).strong j = (s.setConn w.conn _).entry j + s.owners j +
      s.handlers j + Lib.total s.nextCall (Function.update s.workers c _) _
    rw [hentry, strong_setConn]
    by_cases hj : j = w.conn
    · subst hj
      simp only [if_true] at h1 ⊢
      omega
    · simp only [if_neg hj] at h1 ⊢
      omega

theorem Counted.step (h : s.Counted) (hi : s.Sound) (hst : Step bld s s') : s'.Counted := by
  cases hst with
  | arrive id request =>
    have harrives : ∀ (f : Task V → Option ConnId) (k : ConnId),
        f ⟨id, request, .start⟩ = none →
        Lib.total (s.nextTask + 1) (Function.update s.tasks s.nextTask
          (some ⟨id, request, .start⟩)) (fun task => hits k (f task)) =
          Lib.total s.nextTask s.tasks fun task => hits k (f task) := by
      intro f k hf
      rw [Lib.total_fresh, Option.elim_some, hf, hits_none, Nat.add_zero]
    refine ⟨fun k => ?_, fun k => ?_⟩
    · have hbalance := h.balance k
      rw [owners, handlers, ← harrives Task.owns k rfl, ← harrives Task.clone k rfl] at hbalance
      exact hbalance
    · have howned := h.owned k
      rw [owners, ← harrives Task.owns k rfl] at howned
      exact howned
  | handler t task _ ht hst => exact h.handler hi ht hst
  | worker c w _ hw hst => exact h.worker hi.staged hw hst

/-! ### What is delisted, what is closed -/

def owner (s : Server V B) (t : TaskId) : Option ConnId := (s.tasks t).bind Task.owns

omit [BsonCells V B] in
theorem owner_eq {k : ConnId} (h : s.owner t = some k) :
    ∃ id, s.tasks t = some ⟨id, .disconnect k, .removed⟩ := by
  obtain ⟨⟨id, request, phase⟩, ht, ho⟩ := Option.bind_eq_some_iff.mp h
  unfold Task.owns at ho
  split at ho
  · next hp hreq =>
    cases hp
    cases hreq
    cases ho
    exact ⟨id, ht⟩
  · cases ho

/-- A disconnect that has taken the entry out has done so before, or does with this step. -/
theorem owner_step (hst : Step bld s s') {k : ConnId} (h : s'.owner t = some k) :
    s.owner t = some k ∨ .delisted k ∈ s'.hist := by
  have other : ∀ {u : TaskId} {x : Option (Task V)}, s'.tasks = Function.update s.tasks u x →
      x.bind Task.owns ≠ some k → s.owner t = some k := by
    intro u x hx hne
    rw [owner, hx] at h
    by_cases htu : t = u
    · subst htu
      rw [Function.update_self] at h
      exact absurd h hne
    · rwa [Function.update_of_ne htu] at h
  cases hst with
  | arrive id request => exact .inl (other (x := some ⟨id, request, .start⟩) rfl nofun)
  | handler u task _ ht hst =>
    cases hst with
    | delisted j conn _ _ hreq _ =>
      by_cases hj : j = k
      · subst hj
        exact .inr List.mem_cons_self
      · exact .inl (other rfl (by simp [Task.owns, hreq, hj]))
    | connected _ enc => cases enc <;> exact .inl (other rfl nofun)
    | paged _ _ _ _ _ _ answer => cases answer <;> exact .inl (other rfl nofun)
    | _ => exact .inl (other rfl nofun)
  | worker c w _ _ hst => cases hst <;> exact .inl h

/-- A connection nobody has a clone of stays so. -/
theorem strong_step (hc : s.Counted) (hi : s.Held) (hst : Step bld s s') {k : ConnId}
    (h : (s.conns k).map (·.strong) = some 0) : (s'.conns k).map (·.strong) = some 0 := by
  obtain ⟨conn, hk, hzero⟩ := Option.map_eq_some_iff.mp h
  have set : ∀ {j : ConnId} {conn₀ conn' : Conn}, s.conns j = some conn₀ →
      s'.conns = Function.update s.conns j (some conn') →
      (conn₀.strong = 0 → conn'.strong = 0) → (s'.conns k).map (·.strong) = some 0 := by
    intro j conn₀ conn' hj hx hfall
    rw [hx]
    by_cases hkj : k = j
    · subst hkj
      rw [hj, Option.some.injEq] at hk
      subst hk
      rw [Function.update_self, Option.map_some, hfall hzero]
    · rwa [Function.update_of_ne hkj]
  cases hst with
  | arrive => exact h
  | handler u task _ ht hst =>
    cases hst with
    | inserted j enc tun hp =>
      have hdraws : s.draws u = some j := by simp [draws, ht, Task.draws, hp]
      have hnone : s.conns j = none := by simpa [holderOf] using (hi.drawn u j hdraws).2.1
      have hkj : k ≠ j := by
        rintro rfl
        rw [hnone] at hk
        cases hk
      simpa only [goto_conns, note_conns, setConn_conns, Function.update_of_ne hkj] using h
    | delisted j conn₀ hj => exact set hj rfl id
    | closed j conn₀ hj => exact set hj rfl fun _ => rfl
    | kept j conn₀ hj => exact set hj rfl fun hz => by rw [hz]
    | cloned j conn₀ hj hl =>
      refine set hj rfl fun hz => ?_
      have hbalance := hc.balance j
      have hentry : s.entry j = 1 := by rw [entry, hj, Option.elim_some, hl]; rfl
      have hstrong : s.strong j = 0 := by rw [strong, hj, Option.elim_some, hz]
      omega
    | locked j conn₀ hj => exact set hj rfl id
    | unlocked j conn₀ r hj => exact set hj rfl id
    | left j conn₀ r hj => exact set hj rfl fun hz => by rw [hz]
    | connected _ enc => cases enc <;> exact h
    | _ => exact h
  | worker c w _ _ hst =>
    cases hst with
    | locked conn₀ hj => exact set hj rfl id
    | unlocked conn₀ o hj => exact set hj rfl id
    | gone conn₀ hj => exact set hj rfl fun hz => by rw [hz]
    | _ => exact h

/-- A connection is closed with its last clone. -/
theorem closed_step (hst : Step bld s s') {k : ConnId} (h : .closed k ∈ s'.hist)
    (hold : .closed k ∉ s.hist) : (s'.conns k).map (·.strong) = some 0 := by
  have none_logged : ∀ {e : Event V B}, .closed k ∈ e :: s.hist → e = .closed k := by
    intro e hm
    exact ((List.mem_cons.mp hm).resolve_right hold).symm
  cases hst with
  | arrive => exact absurd h hold
  | handler u task _ ht hst =>
    cases hst with
    | closed j conn hj =>
      cases none_logged h
      simp only [conclude_conns, note_conns, setConn_conns, Function.update_self, Option.map_some]
    | replied | inserted | delisted | missed | paged | fired => cases none_logged h
    | connected _ enc =>
      cases enc with
      | true => exact absurd h hold
      | false => cases none_logged h
    | _ => exact absurd h hold
  | worker c w _ _ hst =>
    cases hst with
    | answered | handed | finished => cases none_logged h
    | _ => exact absurd h hold

/-- The disconnect that takes a connection out of the map has it afterwards. -/
theorem delisted_step (hst : Step bld s s') {k : ConnId} (h : .delisted k ∈ s'.hist)
    (hold : .delisted k ∉ s.hist) : ∃ t, s'.owner t = some k := by
  have none_logged : ∀ {e : Event V B}, .delisted k ∈ e :: s.hist → e = .delisted k := by
    intro e hm
    exact ((List.mem_cons.mp hm).resolve_right hold).symm
  cases hst with
  | arrive => exact absurd h hold
  | handler u task _ ht hst =>
    cases hst with
    | delisted j conn _ _ hreq =>
      cases none_logged h
      refine ⟨u, ?_⟩
      simp only [owner, goto_tasks, Function.update_self, Option.bind_some, Task.owns, hreq]
    | replied | inserted | closed | missed | paged | fired => cases none_logged h
    | connected _ enc =>
      cases enc with
      | true => exact absurd h hold
      | false => cases none_logged h
    | _ => exact absurd h hold
  | worker c w _ _ hst =>
    cases hst with
    | answered | handed | finished => cases none_logged h
    | _ => exact absurd h hold

structure Filed (s : Server V B) : Prop where
  sound : s.Sound
  counted : s.Counted
  delisted : ∀ t k, s.owner t = some k → .delisted k ∈ s.hist
  closed : ∀ k, .closed k ∈ s.hist → (s.conns k).map (·.strong) = some 0

omit [BsonCells V B] in
theorem filed_new : (new : Server V B).Filed :=
  ⟨sound_new, counted_new, nofun, fun _ h => absurd h List.not_mem_nil⟩

theorem Filed.step (h : s.Filed) {i : Input V B} (hst : s.step bld i = some s') : s'.Filed := by
  have hs := step_cases hst
  refine ⟨⟨h.sound.staged.step hs, h.sound.held.step h.sound.staged hs⟩,
    h.counted.step h.sound hs, fun t k ht => ?_, fun k hm => ?_⟩
  · rcases owner_step hs ht with ht | hm
    · exact (hist_grows hst).subset (h.delisted t k ht)
    · exact hm
  · by_cases hold : .closed k ∈ s.hist
    · exact strong_step h.counted h.sound.held hs (h.closed k hold)
    · exact closed_step hs hm hold

theorem run_filed {is : List (Input V B)} (h : (machine bld).Run Lib.Machine.free new is s) :
    s.Filed :=
  h.invariant Filed (fun _ _ _ _ hi hst => hi.step hst) filed_new

omit [BsonCells V B] in
/-- Nobody has a clone of a closed connection. -/
theorem Filed.no_clones (h : s.Filed) {k : ConnId} (hm : .closed k ∈ s.hist) :
    s.strong k = 0 := by
  obtain ⟨conn, hk, hzero⟩ := Option.map_eq_some_iff.mp (h.closed k hm)
  rw [strong, hk]
  exact hzero

/-! ### Disconnects that find nobody else on the connection -/

/-- A disconnect reclaims the connection while no request on it runs or waits, and no other
disconnect of it is answered before that. -/
structure Sole (s : Server V B) (i : Input V B) : Prop where
  reclaims : ∀ t e k, i = .handler t e → s.owner t = some k →
    (∀ u task, s.tasks u = some task → task.clone ≠ some k) ∧
      ∀ c w, s.workers c = some w → w.clone ≠ some k
  answers : ∀ t e id k r, i = .handler t e → s.tasks t = some ⟨id, .disconnect k, .reply r⟩ →
    ∀ u, s.owner u ≠ some k

omit [BsonCells V B] in
/-- The count of a connection when its disconnect reclaims it: one if nobody else has a clone,
and more otherwise. -/
theorem Filed.sole (h : s.Filed) {k : ConnId} (ht : s.owner t = some k) :
    s.strong k = 1 ↔ (∀ u task, s.tasks u = some task → task.clone ≠ some k) ∧
      ∀ c w, s.workers c = some w → w.clone ≠ some k := by
  obtain ⟨id, htask⟩ := owner_eq ht
  have hown := (h.counted.owner h.sound.held htask (k := k) rfl).1
  have howned := h.counted.owned k
  have hbalance := h.counted.balance k
  constructor
  · intro hone
    refine ⟨fun u task hu hc => ?_, fun c w hw hc => ?_⟩
    · have hcloned := (h.counted.cloned h.sound.held hu hc).1
      omega
    · have hworking := (h.counted.working h.sound.staged hw hc).1
      omega
  · rintro ⟨htasks, hworkers⟩
    have hhandlers : s.handlers k = 0 :=
      Lib.total_eq_zero fun u task hu => if_neg (htasks u task hu)
    have hcloners : s.cloners k = 0 :=
      Lib.total_eq_zero fun c w hw => if_neg (hworkers c w hw)
    omega

/-- What a run of sole disconnects keeps: a connection out of the map is closed, or the
disconnect that took it out is about to close it. -/
structure Closing (s : Server V B) : Prop where
  filed : s.Filed
  waits : ∀ k, .delisted k ∈ s.hist → .closed k ∈ s.hist ∨ ∃ t, s.owner t = some k
  closes : Lib.Justified Closes s.hist

/-- A sole disconnect that had taken a connection out still has it, or has closed it. -/
theorem waits_step (h : s.Filed) {i : Input V B} (hst : s.step bld i = some s') (hg : s.Sole i)
    {k : ConnId} (ht : s.owner t = some k) :
    .closed k ∈ s'.hist ∨ s'.owner t = some k := by
  obtain ⟨id, htask⟩ := owner_eq ht
  have other : ∀ {u : TaskId} {x : Option (Task V)}, s'.tasks = Function.update s.tasks u x →
      t ≠ u → s'.owner t = some k := by
    intro u x hx hne
    rw [owner, hx, Function.update_of_ne hne]
    exact ht
  cases i with
  | arrive id request =>
    cases hst
    refine .inr (other rfl (Nat.ne_of_lt ?_))
    exact h.sound.held.task_lt htask
  | handler u e =>
    by_cases htu : t = u
    · subst htu
      have hone := (h.sole ht).mpr (hg.reclaims t e k rfl ht)
      obtain ⟨task, htask', hhs⟩ := handlerStep_cases hst
      rw [htask, Option.some.injEq] at htask'
      subst htask'
      cases hhs with
      | closed j conn _ _ hreq =>
        cases hreq
        exact .inl List.mem_cons_self
      | kept j conn hj _ hreq hne =>
        cases hreq
        rw [strong, hj] at hone
        exact absurd hone hne
      | concluded _ _ hp => rcases hp with hp | hp | ⟨_, hp⟩ <;> cases hp
      | replied _ hp | dialed _ _ hp | drawn _ _ hp | inserted _ _ _ hp | connected _ _ _ _ hp
      | delisted _ _ _ hp | cloned _ _ _ _ hp | locked _ _ _ _ hp | unlocked _ _ _ _ hp
      | left _ _ _ _ hp | numbered _ _ hp | found _ _ _ hp | missed _ _ hp
      | paged _ _ _ _ _ _ _ _ hp | took _ _ _ _ _ hp | tookNothing _ _ _ _ hp | fired _ _ hp
      | released _ hp => cases hp
    · obtain ⟨task, -, hhs⟩ := handlerStep_cases hst
      obtain ⟨x, hx, -⟩ := tasks_handler hhs
      exact .inr (other hx htu)
  | worker c e =>
    obtain ⟨w, -, hws⟩ := workerStep_cases hst
    have htasks : s'.tasks = s.tasks := by cases hws <;> rfl
    rw [owner, htasks]
    exact .inr ht

theorem Closing.step (h : s.Closing) {i : Input V B} (hg : s.Sole i)
    (hst : s.step bld i = some s') : s'.Closing := by
  have hgrow := hist_grows hst
  refine ⟨h.filed.step hst, fun k hm => ?_, justified_step hst h.closes fun e hex => ?_⟩
  · by_cases hold : .delisted k ∈ s.hist
    · rcases h.waits k hold with hclosed | ⟨t, ht⟩
      · exact .inl (hgrow.subset hclosed)
      · exact (waits_step h.filed hst hg ht).imp id fun ht' => ⟨t, ht'⟩
    · exact .inr (delisted_step (step_cases hst) hm hold)
  · cases e with
    | answered id request r =>
      cases request with
      | disconnect k =>
        intro hdel
        rcases hex with ⟨t, e, rfl, ht⟩ | ⟨c, w, e, -, -, -, -, hreq, -⟩
        · refine (h.waits k hdel).resolve_right fun ⟨u, hu⟩ => ?_
          exact hg.answers t e id k r rfl ht u hu
        · cases hreq
      | _ => trivial
    | handed c k =>
      obtain ⟨w, e, rfl, hw, hp, rfl⟩ := hex
      rintro ⟨id, r, pre, hpre, hdel⟩
      have hclosed := hpre.subset (List.mem_cons_of_mem _ (h.closes pre _ hpre hdel))
      have hzero := h.filed.no_clones hclosed
      have hworking := h.filed.counted.working h.filed.sound.staged hw (k := w.conn)
        (by simp [Worker.clone, hp])
      omega
    | _ => trivial

theorem run_closing {is : List (Input V B)} (h : (machine bld).Run Sole new is s) :
    s.Closing :=
  h.invariant Closing (fun _ _ _ hg hi hst => hi.step hg hst)
    ⟨filed_new, fun _ hm => absurd hm List.not_mem_nil, Lib.justified_nil⟩

/-! ### A disconnect that does not close -/

/-- A disconnect answered while its connection is out of the map and open. -/
theorem answered_open (h : s.Filed) {id : ReqId} {k : ConnId} {r : Except String (Reply V)}
    (ht : s.tasks t = some ⟨id, .disconnect k, .reply r⟩) (hdel : .delisted k ∈ s.hist)
    (hopen : 1 ≤ s.strong k) {e : Env V B} (hst : s.handlerStep bld t e = some s') :
    ¬ Lib.Justified Closes s'.hist := by
  simp only [handlerStep, ht, Option.bind_some, Option.some.injEq] at hst
  subst hst
  intro hj
  have hclosed := hj s.hist (.answered id (.disconnect k) r) (List.suffix_refl _) hdel
  have hzero := h.no_clones hclosed
  omega

/-- A disconnect that finds somebody else on its connection leaves it open. -/
theorem not_sole_open (h : s.Filed) {i : Input V B} (hst : s.step bld i = some s')
    (hg : ¬ s.Sole i) :
    ¬ Lib.Justified Closes s'.hist ∨
      ∃ j u, s'.step bld j = some u ∧ ¬ Lib.Justified Closes u.hist := by
  by_cases hanswers : ∀ t e id k r, i = .handler t e →
      s.tasks t = some ⟨id, .disconnect k, .reply r⟩ → ∀ u, s.owner u ≠ some k
  · have hreclaims : ¬ ∀ t e k, i = .handler t e → s.owner t = some k →
        (∀ u task, s.tasks u = some task → task.clone ≠ some k) ∧
          ∀ c w, s.workers c = some w → w.clone ≠ some k :=
      fun hreclaims => hg ⟨hreclaims, hanswers⟩
    simp only [not_forall] at hreclaims
    obtain ⟨t, e, k, rfl, ht, hother⟩ := hreclaims
    have hne : s.strong k ≠ 1 := fun hone => hother ((h.sole ht).mp hone)
    obtain ⟨id, htask⟩ := owner_eq ht
    have howner := h.counted.owner h.sound.held htask (k := k) rfl
    obtain ⟨conn, hk⟩ : ∃ conn, s.conns k = some conn := by
      cases hk : s.conns k with
      | none =>
        have hzero : s.strong k = 0 := by rw [strong, hk]; rfl
        omega
      | some conn => exact ⟨conn, rfl⟩
    have hstrong : s.strong k = conn.strong := by rw [strong, hk]; rfl
    have heq : s' = (s.setConn k { conn with strong := conn.strong - 1 }).conclude t
        ⟨id, .disconnect k, .removed⟩ (.ok .empty) := by
      simp only [step, handlerStep, htask, Option.bind_some, dispatchStep, disconnectStep, hk,
        if_neg (hstrong ▸ hne), Option.some.injEq] at hst
      exact hst.symm
    have htask' : s'.tasks t = some ⟨id, .disconnect k, .reply (.ok .empty)⟩ := by
      rw [heq]
      simp only [conclude_tasks, Function.update_self]
    have hdel : .delisted k ∈ s'.hist := (hist_grows hst).subset (h.delisted t k ht)
    have hopen : s'.strong k = conn.strong - 1 := by
      rw [heq]
      exact (strong_setConn k k _).trans (if_pos rfl)
    have hnext : s'.handlerStep bld t {} = some (((s'.send (.response id (.ok .empty))).note
        (.answered id (.disconnect k) (.ok .empty))).setTask t none) := by
      simp only [handlerStep, htask', Option.bind_some]
    exact .inr ⟨.handler t {}, _, hnext,
      answered_open (h.step hst) htask' hdel (by omega) hnext⟩
  · push Not at hanswers
    obtain ⟨t, e, id, k, r, rfl, ht, u, hu⟩ := hanswers
    obtain ⟨id', hu'⟩ := owner_eq hu
    have howner := h.counted.owner h.sound.held hu' (k := k) rfl
    exact .inl (answered_open h ht (h.delisted u k hu) (by omega) hst)

/-- In a run whose disconnects find nobody else on their connection, every one that takes a
connection out is answered after the driver's `close` and no statement starts after it; and a
disconnect that does find somebody, or is answered before another one is done, answers with the
connection open at the latest by its next step. -/
theorem disconnect_closes_iff_sole (bld : Build) :
    (∀ (is : List (Input V B)) s, (machine bld).Run Sole new is s →
        Lib.Justified Closes s.hist) ∧
      ∀ (is : List (Input V B)) i s s', (machine bld).Run Lib.Machine.free new is s →
        s.step bld i = some s' → ¬ s.Sole i → ¬ Lib.Justified Closes s'.hist ∨
          ∃ j u, s'.step bld j = some u ∧ ¬ Lib.Justified Closes u.hist :=
  ⟨fun _ _ h => (run_closing h).closes,
    fun _ _ _ _ hr hst hg => not_sole_open (run_filed hr) hst hg⟩

/-- `Sole`, as it is computed: who takes a connection out has the only clone of it. -/
def sole (s : Server V B) : Input V B → Bool
  | .handler t _ =>
    (s.owner t).all (fun k => s.strong k == 1) &&
      match s.tasks t with
      | some ⟨_, .disconnect k, .reply _⟩ =>
        (List.range s.nextTask).all fun u => s.owner u != some k
      | _ => true
  | _ => true

omit [BsonCells V B] in
theorem sole_of_sole (hi : s.Filed) {i : Input V B} (h : s.sole i = true) : s.Sole i := by
  constructor
  · rintro t e k rfl howner
    obtain ⟨hstrong, -⟩ := Bool.and_eq_true_iff.mp h
    rw [howner, Option.all_some, beq_iff_eq] at hstrong
    exact (hi.sole howner).mp hstrong
  · rintro t e id k r rfl htask u howner
    obtain ⟨-, hnone⟩ := Bool.and_eq_true_iff.mp h
    simp only [htask, List.all_eq_true, List.mem_range] at hnone
    obtain ⟨id', hu⟩ := owner_eq howner
    simpa [howner] using hnone u (hi.sound.held.task_lt hu)

/-- A statement has ended when its connection is disconnected. -/
def disconnectOnce : List (Input ℕ ℕ) :=
  [.arrive 1 (.connect ⟨"mysql", []⟩)] ++
    List.replicate 5 (.handler 0 { dial := .ok (true, false) }) ++
    [.arrive 2 (.execute 1 "delete from t")] ++ List.replicate 2 (.handler 1 {}) ++
    List.replicate 10 (.worker 1 {}) ++
    [.arrive 3 (.disconnect 1)] ++ List.replicate 3 (.handler 2 {})

theorem disconnect_closes_iff_sole_once :
    ∃ s : Server ℕ ℕ, (machine .checked).Run Sole new disconnectOnce s ∧
      .answered 3 (.disconnect 1) (.ok .empty) ∈ s.hist ∧ .closed 1 ∈ s.hist ∧
        Lib.Justified Closes s.hist := by
  have hrun : ∃ s : Server ℕ ℕ, (machine .checked).execWith sole new disconnectOnce = some s ∧
      .answered 3 (.disconnect 1) (.ok .empty) ∈ s.hist ∧ .closed 1 ∈ s.hist :=
    ⟨_, rfl, List.mem_cons_self, List.mem_cons_of_mem _ List.mem_cons_self⟩
  obtain ⟨s, hexec, hanswered, hclosed⟩ := hrun
  have hgood := Lib.Machine.run_of_execWith_known Filed (fun _ _ _ hi hst => hi.step hst)
    (fun _ _ hi => sole_of_sole hi) filed_new hexec
  exact ⟨s, hgood, hanswered, hclosed, (disconnect_closes_iff_sole .checked).1 _ _ hgood⟩

/-- The first statement runs and the second waits while their connection is disconnected: the
disconnect is answered, `close` was not called, and the second statement starts. -/
theorem disconnect_leaves_open :
    ∃ (s : Server ℕ ℕ) (pre : List (Event ℕ ℕ)),
      (machine .checked).exec new
        ([.arrive 1 (.connect ⟨"mysql", []⟩)] ++
          List.replicate 5 (.handler 0 { dial := .ok (true, false) }) ++
          [.arrive 2 (.execute 1 "select sleep(60)")] ++ List.replicate 2 (.handler 1 {}) ++
          List.replicate 6 (.worker 1 {}) ++
          [.arrive 3 (.execute 1 "delete from t")] ++ List.replicate 2 (.handler 2 {}) ++
          List.replicate 3 (.worker 2 {}) ++
          [.arrive 4 (.disconnect 1)] ++ List.replicate 3 (.handler 3 {}) ++
          List.replicate 2 (.worker 1 {}) ++ List.replicate 3 (.worker 2 {})) = some s ∧
      s.hist = .handed 2 1 :: .answered 4 (.disconnect 1) (.ok .empty) :: .delisted 1 :: pre ∧
      s.hist.all (fun
        | .closed _ => false
        | _ => true) = true ∧
      ¬ Lib.Justified Closes s.hist :=
  ⟨_, _, rfl, rfl, rfl, fun hj =>
    hj _ (.handed 2 1) (List.suffix_refl _) ⟨4, _, _, List.suffix_refl _, List.mem_cons_self⟩⟩

end Server
end LvimDb.Engine
