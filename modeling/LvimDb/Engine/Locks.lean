import LvimDb.Engine.Lifecycle

/-!
# Connection locks

Who holds a connection's mutex, and that whoever holds it can be brought to give it
back: a worker that waits for a connection gets it in some continuation of every run.
-/

namespace LvimDb.Engine
variable {V B : Type}

def WorkerPhase.holds : WorkerPhase V B → Bool
  | .locked => true
  | .armed => true
  | .executing => true
  | .returned _ => true
  | _ => false

namespace Task

/-- The connection a schema handler has locked. -/
def locks (task : Task V) : Option ConnId :=
  match task.phase, task.request with
  | .locked, .schema k _ => some k
  | _, _ => none

/-- The connection a handler has a clone of and has not locked. -/
def uses (task : Task V) : Option ConnId :=
  match task.phase, task.request with
  | .holding, .schema k _ => some k
  | .holding, .execute k _ => some k
  | _, _ => none

/-- The connection id drawn by a connect that has not inserted its entry. -/
def draws (task : Task V) : Option ConnId :=
  match task.phase with
  | .drawn k _ _ => some k
  | _ => none

end Task

namespace Server

def holderOf (s : Server V B) (k : ConnId) : Option (Option Holder) := (s.conns k).map (·.holder)

def holds (s : Server V B) (c : CallId) : Option ConnId :=
  (s.workers c).bind fun w => if w.phase.holds then some w.conn else none

def locks (s : Server V B) (t : TaskId) : Option ConnId := (s.tasks t).bind Task.locks

def uses (s : Server V B) (t : TaskId) : Option ConnId := (s.tasks t).bind Task.uses

def draws (s : Server V B) (t : TaskId) : Option ConnId := (s.tasks t).bind Task.draws

structure Held (s : Server V B) : Prop where
  handler : ∀ k t, s.holderOf k = some (some (.handler t)) ↔ s.locks t = some k
  worker : ∀ k c, s.holderOf k = some (some (.worker c)) ↔ s.holds c = some k
  queued : ∀ c w, s.workers c = some w → s.holderOf w.conn ≠ none
  used : ∀ t k, s.uses t = some k → s.holderOf k ≠ none
  numbered : ∀ k, s.holderOf k ≠ none → k < s.nextConn
  drawn : ∀ t k, s.draws t = some k →
    k < s.nextConn ∧ s.holderOf k = none ∧ ∀ t', s.draws t' = some k → t' = t
  fresh : ∀ t, s.nextTask ≤ t → s.tasks t = none

theorem held_new : (new : Server V B).Held where
  handler _ _ := ⟨nofun, nofun⟩
  worker _ _ := ⟨nofun, nofun⟩
  queued _ _ := nofun
  used _ _ := nofun
  numbered _ h := absurd rfl h
  drawn _ _ := nofun
  fresh _ _ := rfl

variable {s s' : Server V B} {t : TaskId} {task : Task V} {x : Option (Task V)}

/-! ### What a step leaves alone -/

theorem bind_update {α : Type} (f : Task V → Option α) (ht : s.tasks t = some task)
    (hx : s'.tasks = Function.update s.tasks t x) (hf : x.bind f = f task) (u : TaskId) :
    (s'.tasks u).bind f = (s.tasks u).bind f := by
  rw [hx]
  by_cases hu : u = t
  · subst hu
    rw [Function.update_self, ht, hf]
    rfl
  · rw [Function.update_of_ne hu]

theorem holderOf_setConn {k : ConnId} {conn : Conn} (hk : s.conns k = some conn) (conn' : Conn)
    (hh : conn'.holder = conn.holder) (j : ConnId) :
    (s.setConn k conn').holderOf j = s.holderOf j := by
  by_cases hj : j = k
  · subst hj
    simp only [holderOf, setConn_conns, Function.update_self, Option.map_some, hk, hh]
  · simp only [holderOf, setConn_conns, Function.update_of_ne hj]

/-- A step of a handler that takes and gives back no lock and draws no number. -/
theorem Held.keep (h : s.Held) (ht : s.tasks t = some task)
    (hx : s'.tasks = Function.update s.tasks t x) (hl : x.bind Task.locks = task.locks)
    (hd : x.bind Task.draws = task.draws)
    (hu : ∀ k, x.bind Task.uses = some k → s.holderOf k ≠ none)
    (hh : ∀ k, s'.holderOf k = s.holderOf k) (hw : ∀ c, s'.holds c = s.holds c)
    (hq : ∀ c w, s'.workers c = some w → s.holderOf w.conn ≠ none)
    (hn : s'.nextConn = s.nextConn) (hm : s'.nextTask = s.nextTask) : s'.Held := by
  have hlocks := bind_update Task.locks ht hx hl
  have hdraws := bind_update Task.draws ht hx hd
  refine ⟨fun k u => ?_, fun k c => ?_, fun c w hc => ?_, fun u k huse => ?_, fun k hk => ?_,
    fun u k hdr => ?_, fun u hle => ?_⟩
  · rw [hh, locks, hlocks]
    exact h.handler k u
  · rw [hh, hw]
    exact h.worker k c
  · rw [hh]
    exact hq c w hc
  · rw [hh]
    rw [uses, hx] at huse
    by_cases hut : u = t
    · subst hut
      rw [Function.update_self] at huse
      exact hu k huse
    · rw [Function.update_of_ne hut] at huse
      exact h.used u k huse
  · rw [hh] at hk
    rw [hn]
    exact h.numbered k hk
  · rw [draws, hdraws] at hdr
    obtain ⟨hlt, hnone, huniq⟩ := h.drawn u k hdr
    refine ⟨by rw [hn]; exact hlt, by rw [hh]; exact hnone, fun u' hu' => huniq u' ?_⟩
    rwa [draws, hdraws] at hu'
  · have hne : u ≠ t := by
      rintro rfl
      rw [h.fresh u (hm ▸ hle)] at ht
      cases ht
    rw [hx, Function.update_of_ne hne]
    exact h.fresh u (hm ▸ hle)

/-- A step that makes `o` the holder of connection `k`. -/
theorem Held.swap (h : s.Held) {k : ConnId} {o : Option Holder}
    (hh : ∀ j, s'.holderOf j = if j = k then some o else s.holderOf j) (hk : k < s.nextConn)
    (hlk : ∀ u, s'.locks u = some k ↔ o = some (.handler u))
    (hlj : ∀ j u, j ≠ k → (s'.locks u = some j ↔ s.locks u = some j))
    (hwk : ∀ c, s'.holds c = some k ↔ o = some (.worker c))
    (hwj : ∀ j c, j ≠ k → (s'.holds c = some j ↔ s.holds c = some j))
    (hq : ∀ c w, s'.workers c = some w → ∃ w', s.workers c = some w' ∧ w'.conn = w.conn)
    (hu : ∀ u j, s'.uses u = some j → s.uses u = some j)
    (hd : ∀ u j, s'.draws u = some j → s.draws u = some j ∧ j ≠ k)
    (hn : s'.nextConn = s.nextConn) (hf : ∀ u, s'.nextTask ≤ u → s'.tasks u = none) :
    s'.Held := by
  have hkeep : ∀ j, s.holderOf j ≠ none → s'.holderOf j ≠ none := by
    intro j hj
    rw [hh]
    split
    · exact Option.some_ne_none _
    · exact hj
  refine ⟨fun j u => ?_, fun j c => ?_, fun c w hc => ?_, fun u j huse => ?_, fun j hj => ?_,
    fun u j hdr => ?_, hf⟩
  · rw [hh]
    split
    · next hjk => rw [hjk, hlk, Option.some.injEq]
    · next hjk => rw [hlj j u hjk, h.handler]
  · rw [hh]
    split
    · next hjk => rw [hjk, hwk, Option.some.injEq]
    · next hjk => rw [hwj j c hjk, h.worker]
  · obtain ⟨w', hw', hconn⟩ := hq c w hc
    exact hkeep _ (hconn ▸ h.queued c w' hw')
  · exact hkeep j (h.used u j (hu u j huse))
  · rw [hn]
    rw [hh] at hj
    split at hj
    · next hjk => rw [hjk]; exact hk
    · exact h.numbered j hj
  · obtain ⟨hdr', hjk⟩ := hd u j hdr
    obtain ⟨hlt, hnone, huniq⟩ := h.drawn u j hdr'
    refine ⟨by rw [hn]; exact hlt, ?_, fun u' hu' => huniq u' (hd u' j hu').1⟩
    rw [hh, if_neg hjk]
    exact hnone

theorem holderOf_set (k j : ConnId) (conn : Conn) :
    (s.setConn k conn).holderOf j = if j = k then some conn.holder else s.holderOf j := by
  by_cases hj : j = k
  · subst hj
    simp only [holderOf, setConn_conns, Function.update_self, Option.map_some, if_true]
  · simp only [holderOf, setConn_conns, Function.update_of_ne hj, hj, if_false]

theorem bind_goto {α : Type} (f : Task V → Option α) (p : Phase V) (u : TaskId) :
    ((s.goto t task p).tasks u).bind f =
      if u = t then f { task with phase := p } else (s.tasks u).bind f := by
  by_cases hu : u = t
  · subst hu
    simp only [goto_tasks, Function.update_self, Option.bind_some, if_true]
  · simp only [goto_tasks, Function.update_of_ne hu, hu, if_false]

/-! ### The handlers -/

theorem Held.draw (h : s.Held) (ht : s.tasks t = some task) {enc tun : Bool}
    (hp : task.phase = .dialed enc tun) :
    ({ s with nextConn := s.nextConn + 1 }.goto t task (.drawn s.nextConn enc tun)).Held := by
  have hlocks : ∀ u, ({ s with nextConn := s.nextConn + 1 }.goto t task
      (.drawn s.nextConn enc tun)).locks u = s.locks u :=
    bind_update Task.locks ht rfl (by simp [Task.locks, hp])
  have hdraws : ∀ u, ({ s with nextConn := s.nextConn + 1 }.goto t task
      (.drawn s.nextConn enc tun)).draws u = if u = t then some s.nextConn else s.draws u :=
    fun u => bind_goto (s := { s with nextConn := s.nextConn + 1 }) Task.draws _ u
  refine ⟨fun k u => ?_, h.worker, h.queued, fun u k hu => ?_,
    fun k hk => Nat.lt_succ_of_lt (h.numbered k hk), fun u k hdr => ?_, fun u hle => ?_⟩
  · rw [hlocks]
    exact h.handler k u
  · rw [uses, bind_goto] at hu
    split at hu
    · cases hu
    · exact h.used u k hu
  · rw [hdraws] at hdr
    split at hdr
    · next hut =>
      cases hdr
      refine ⟨Nat.lt_succ_self _, ?_, fun u' hu' => ?_⟩
      · by_contra hne
        exact Nat.lt_irrefl _ (h.numbered s.nextConn hne)
      · rw [hdraws] at hu'
        split at hu'
        · next heq => rw [heq, hut]
        · exact absurd (h.drawn u' _ hu').1 (Nat.lt_irrefl _)
    · next hut =>
      obtain ⟨hlt, hnone, huniq⟩ := h.drawn u k hdr
      refine ⟨Nat.lt_succ_of_lt hlt, hnone, fun u' hu' => ?_⟩
      rw [hdraws] at hu'
      split at hu'
      · cases hu'
        exact absurd hlt (Nat.lt_irrefl _)
      · exact huniq u' hu'
  · have hne : u ≠ t := by
      rintro rfl
      rw [h.fresh u hle] at ht
      cases ht
    simp only [goto_tasks, Function.update_of_ne hne]
    exact h.fresh u hle

/-- A handler's step that gives connection `k` the holder `o`, or a new connection none. -/
theorem Held.grant (h : s.Held) (ht : s.tasks t = some task) {k : ConnId} {conn : Conn}
    {p : Phase V} {s₁ : Server V B} (hs₁ : s₁ = s.setConn k conn) (hk : k < s.nextConn)
    (hl : ({ task with phase := p } : Task V).locks = some k ↔ conn.holder = some (.handler t))
    (hl' : ∀ j, j ≠ k → (({ task with phase := p } : Task V).locks = some j ↔
      task.locks = some j))
    (hother : ∀ u, u ≠ t → s.locks u ≠ some k) (hother' : ∀ u, conn.holder = some (.handler u) → u = t)
    (hwk : ∀ c, s.holds c ≠ some k) (hwk' : ∀ c, conn.holder ≠ some (.worker c))
    (hu : ({ task with phase := p } : Task V).uses = none)
    (hd : ({ task with phase := p } : Task V).draws = none)
    (hdk : ∀ u, u ≠ t → s.draws u ≠ some k) : (s₁.goto t task p).Held := by
  subst hs₁
  refine h.swap (holderOf_set k · conn) hk (fun u => ?_) (fun j u hjk => ?_)
    (fun c => ⟨fun hc => absurd hc (hwk c), fun hc => absurd hc (hwk' c)⟩)
    (fun j c _ => Iff.rfl) (fun c w hc => ⟨w, hc, rfl⟩) (fun u j huse => ?_) (fun u j hdr => ?_)
    rfl (fun u hle => ?_)
  · rw [locks, bind_goto]
    split
    · next hut => rw [hl, hut]
    · next hut =>
      exact ⟨fun hlk => absurd hlk (hother u hut), fun hc => absurd (hother' u hc) hut⟩
  · rw [locks, bind_goto]
    split
    · next hut => rw [hl' j hjk, hut, locks, ht, Option.bind_some]
    · rfl
  · rw [uses, bind_goto] at huse
    split at huse
    · rw [hu] at huse
      cases huse
    · exact huse
  · rw [draws, bind_goto] at hdr
    split at hdr
    · rw [hd] at hdr
      cases hdr
    · next hut =>
      refine ⟨hdr, ?_⟩
      rintro rfl
      exact hdk u hut hdr
  · have hne : u ≠ t := by
      rintro rfl
      rw [h.fresh u hle] at ht
      cases ht
    simp only [goto_tasks, Function.update_of_ne hne]
    exact h.fresh u hle

/-! ### The workers -/

theorem holds_work {c : CallId} {w : Worker V B} (p : WorkerPhase V B) (d : CallId) :
    (s.work c w p).holds d = if d = c then (if p.holds then some w.conn else none)
      else s.holds d := by
  by_cases hd : d = c
  · subst hd
    simp only [holds, work_workers, Function.update_self, Option.bind_some, if_true]
  · simp only [holds, work_workers, Function.update_of_ne hd, hd, if_false]

theorem worker_work {c : CallId} {w : Worker V B} (hw : s.workers c = some w) (p : WorkerPhase V B)
    (d : CallId) (w' : Worker V B) (hw' : (s.work c w p).workers d = some w') :
    ∃ w₀, s.workers d = some w₀ ∧ w₀.conn = w'.conn := by
  by_cases hd : d = c
  · subst hd
    simp only [work_workers, Function.update_self, Option.some.injEq] at hw'
    exact ⟨w, hw, by rw [← hw']⟩
  · simp only [work_workers, Function.update_of_ne hd] at hw'
    exact ⟨w', hw', rfl⟩

/-- A step of a worker that takes and gives back no lock. -/
theorem Held.workKeep (h : s.Held) {c : CallId} {w : Worker V B} (hw : s.workers c = some w)
    {p : WorkerPhase V B} (hp : p.holds = w.phase.holds) {s₁ : Server V B}
    (hh : ∀ k, s₁.holderOf k = s.holderOf k) (hw₁ : s₁.workers = s.workers)
    (ht : s₁.tasks = s.tasks) (hn : s₁.nextConn = s.nextConn) (hm : s₁.nextTask = s.nextTask) :
    (s₁.work c w p).Held := by
  have hholds : ∀ d, (s₁.work c w p).holds d = s.holds d := by
    intro d
    rw [holds_work]
    split
    · next hd =>
      subst hd
      simp only [holds, hw, Option.bind_some, hp]
    · simp only [holds, hw₁]
  refine ⟨fun k u => ?_, fun k d => ?_, fun d w' hd => ?_, fun u k hu => ?_, fun k hk => ?_,
    fun u k hd => ?_, fun u hle => ?_⟩
  · show s₁.holderOf k = _ ↔ (s₁.tasks u).bind Task.locks = _
    rw [hh, ht]
    exact h.handler k u
  · rw [hholds]
    show s₁.holderOf k = _ ↔ _
    rw [hh]
    exact h.worker k d
  · obtain ⟨w₀, hw₀, hconn⟩ := worker_work (by rw [hw₁]; exact hw) p d w' hd
    show s₁.holderOf w'.conn ≠ none
    rw [hh, ← hconn]
    exact h.queued d w₀ (hw₁ ▸ hw₀)
  · show s₁.holderOf k ≠ none
    rw [hh]
    exact h.used u k (by simpa only [uses, work_tasks, ht] using hu)
  · show k < s₁.nextConn
    rw [hn]
    exact h.numbered k (by rw [← hh]; exact hk)
  · show k < s₁.nextConn ∧ s₁.holderOf k = none ∧ _
    rw [hn, hh]
    obtain ⟨hlt, hnone, huniq⟩ := h.drawn u k (by simpa only [draws, work_tasks, ht] using hd)
    exact ⟨hlt, hnone, fun u' hu' => huniq u' (by simpa only [draws, work_tasks, ht] using hu')⟩
  · show s₁.tasks u = none
    rw [ht]
    exact h.fresh u (hm ▸ hle)

/-- A worker's step that takes or gives back its connection's lock. -/
theorem Held.workSwap (h : s.Held) {c : CallId} {w : Worker V B} (hw : s.workers c = some w)
    {p : WorkerPhase V B} {conn : Conn}
    (ho : s.holderOf w.conn = some none ∨ s.holderOf w.conn = some (some (.worker c)))
    (hp : conn.holder = if p.holds then some (.worker c) else none) :
    ((s.setConn w.conn conn).work c w p).Held := by
  have hsome : s.holderOf w.conn ≠ none := h.queued c w hw
  have hother : ∀ d, d ≠ c → s.holds d ≠ some w.conn := by
    intro d hd hdk
    have hmine := (h.worker w.conn d).mpr hdk
    rcases ho with ho | ho <;> rw [ho] at hmine <;> cases hmine
    exact hd rfl
  refine h.swap (holderOf_set w.conn · conn) (h.numbered _ hsome) (fun u => ?_)
    (fun _ _ _ => Iff.rfl) (fun d => ?_) (fun j d hj => ?_) (fun d w' hd => ?_)
    (fun _ _ hu => hu) (fun u j hdr => ⟨hdr, ?_⟩) rfl h.fresh
  · constructor
    · intro hu
      have hmine := (h.handler w.conn u).mpr hu
      rcases ho with ho | ho <;> rw [ho] at hmine <;> cases hmine
    · intro hu
      rw [hp] at hu
      split at hu <;> cases hu
  · rw [holds_work, hp]
    split
    · next hd => cases hp' : p.holds <;> simp [hd]
    · next hd =>
      refine ⟨fun hdk => absurd hdk (hother d hd), fun hdk => ?_⟩
      split at hdk <;> cases hdk
      exact absurd rfl hd
  · rw [holds_work]
    split
    · next hd =>
      subst hd
      constructor
      · intro hdj
        split at hdj <;> cases hdj
        exact absurd rfl hj
      · intro hdj
        have hconn : j = w.conn := by
          simp only [holds, hw, Option.bind_some, Option.ite_none_right_eq_some,
            Option.some.injEq] at hdj
          exact hdj.2.symm
        exact absurd hconn hj
    · rfl
  · exact worker_work (s := s.setConn w.conn conn) hw p d w' hd
  · rintro rfl
    exact absurd (h.drawn u _ hdr).2.1 hsome

variable {bld : Build} [BsonCells V B]

theorem Held.handlerStep (h : s.Held) (hs : s.Staged) (ht : s.tasks t = some task)
    (hst : HandlerStep bld s t task s') : s'.Held := by
  cases hst with
  | replied r hp =>
    exact h.keep ht rfl (by simp [Task.locks, hp]) (by simp [Task.draws, hp]) (by rintro _ ⟨⟩)
      (fun _ => rfl) (fun _ => rfl) h.queued rfl rfl
  | concluded r _ hp =>
    refine h.keep ht rfl ?_ ?_ (by rintro _ ⟨⟩) (fun _ => rfl) (fun _ => rfl) h.queued rfl rfl
    · rcases hp with hp | hp | ⟨_, hp⟩ <;> simp [Task.locks, hp]
    · rcases hp with hp | hp | ⟨_, hp⟩ <;> simp [Task.draws, hp]
  | dialed enc tun hp =>
    exact h.keep ht rfl (by simp [Task.locks, hp]) (by simp [Task.draws, hp]) (by rintro _ ⟨⟩)
      (fun _ => rfl) (fun _ => rfl) h.queued rfl rfl
  | drawn enc tun hp => exact h.draw ht hp
  | inserted k enc tun hp =>
    obtain ⟨hlt, hnone, huniq⟩ := h.drawn t k (by simp [draws, ht, Task.draws, hp])
    have hfree : ∀ o, s.holderOf k ≠ some o := by simp [hnone]
    have h1 := h.grant ht (p := .inserted k enc tun)
      (rfl : s.setConn k ⟨true, 1, none, false⟩ = s.setConn k ⟨true, 1, none, false⟩) hlt
      (by simp [Task.locks]) (by simp [Task.locks, hp])
      (fun u _ hu => hfree _ ((h.handler k u).mpr hu)) (by simp)
      (fun c hc => hfree _ ((h.worker k c).mpr hc)) (by simp) rfl rfl
      (fun u hut hdr => hut (huniq u hdr))
    exact ⟨h1.handler, h1.worker, h1.queued, h1.used, h1.numbered, h1.drawn, h1.fresh⟩
  | connected k enc tun spec hp =>
    cases enc <;>
      exact h.keep ht rfl (by simp [Task.locks, hp]) (by simp [Task.draws, hp]) (by rintro _ ⟨⟩)
        (fun _ => rfl) (fun _ => rfl) h.queued rfl rfl
  | delisted k conn hk hp =>
    exact h.keep ht rfl (by simp [Task.locks, hp]) (by simp [Task.draws, hp]) (by rintro _ ⟨⟩)
      (holderOf_setConn hk { conn with listed := false } rfl) (fun _ => rfl) h.queued rfl rfl
  | closed k conn hk hp _ =>
    exact h.keep ht rfl (by simp [Task.locks, hp]) (by simp [Task.draws, hp]) (by rintro _ ⟨⟩)
      (holderOf_setConn hk { conn with strong := 0, closed := true } rfl) (fun _ => rfl) h.queued
      rfl rfl
  | kept k conn hk hp _ =>
    exact h.keep ht rfl (by simp [Task.locks, hp]) (by simp [Task.draws, hp]) (by rintro _ ⟨⟩)
      (holderOf_setConn hk { conn with strong := conn.strong - 1 } rfl) (fun _ => rfl) h.queued
      rfl rfl
  | cloned k conn hk _ hp hreq =>
    refine h.keep ht rfl (by simp [Task.locks, hp]) (by simp [Task.draws, hp]) (fun j hj => ?_)
      (holderOf_setConn hk { conn with strong := conn.strong + 1 } rfl) (fun _ => rfl) h.queued
      rfl rfl
    have hjk : j = k := by
      rcases hreq with ⟨op, hreq⟩ | ⟨statement, hreq⟩ <;>
        simpa [Task.uses, hreq, eq_comm] using hj
    simp [hjk, holderOf, hk]
  | locked k conn hk hfree hp hreq =>
    obtain ⟨op, hreq⟩ := hreq
    have hnone : s.holderOf k = some none := by simp [holderOf, hk, hfree]
    refine h.grant ht rfl (h.numbered k (by simp [hnone])) (by simp [Task.locks, hreq])
      (fun j hj => by simp [Task.locks, hp, hreq, Ne.symm hj]) (fun u _ hu => ?_)
      (fun u hu => by simpa [eq_comm] using hu) (fun c hc => ?_) (by simp) (by simp [Task.uses])
      rfl (fun u _ hdr => ?_)
    · exact absurd ((h.handler k u).mpr hu) (by simp [hnone])
    · exact absurd ((h.worker k c).mpr hc) (by simp [hnone])
    · exact absurd (h.drawn u k hdr).2.1 (by simp [hnone])
  | unlocked k conn r hk hp hreq _ =>
    obtain ⟨op, hreq⟩ := hreq
    have hmine : s.holderOf k = some (some (.handler t)) :=
      (h.handler k t).mpr (by simp [locks, ht, Task.locks, hp, hreq])
    refine h.grant ht rfl (h.numbered k (by simp [hmine])) (by simp [Task.locks])
      (fun j hj => by simp [Task.locks, hp, hreq, Ne.symm hj]) (fun u hut hu => ?_)
      (by simp) (fun c hc => ?_) (by simp) rfl rfl (fun u _ hdr => ?_)
    · have hu' := (h.handler k u).mpr hu
      rw [hmine] at hu'
      cases hu'
      exact hut rfl
    · exact absurd ((h.worker k c).mpr hc) (by simp [hmine])
    · exact absurd (h.drawn u k hdr).2.1 (by simp [hmine])
  | left k conn r hk hp =>
    exact h.keep ht rfl (by simp [Task.locks, hp]) (by simp [Task.draws, hp]) (by rintro _ ⟨⟩)
      (holderOf_setConn hk { conn with strong := conn.strong - 1 } rfl) (fun _ => rfl) h.queued
      rfl rfl
  | numbered k statement hp hreq =>
    refine h.keep ht rfl (by simp [Task.locks, hp]) (by simp [Task.draws, hp]) (by rintro _ ⟨⟩)
      (fun _ => rfl) (fun c => ?_) (fun c w hc => ?_) rfl rfl
    · by_cases hc : c = s.nextCall
      · subst hc
        simp [holds, hs.fresh _ (Nat.le_refl _), WorkerPhase.holds]
      · simp [holds, Function.update_of_ne hc]
    · by_cases hcn : c = s.nextCall
      · subst hcn
        simp only [setTask_workers, setWorker_workers, Function.update_self,
          Option.some.injEq] at hc
        subst hc
        exact h.used t k (by simp [uses, ht, Task.uses, hp, hreq])
      · simp only [setTask_workers, setWorker_workers, Function.update_of_ne hcn] at hc
        exact h.queued c w hc
  | found c call _ hp =>
    exact h.keep ht rfl (by simp [Task.locks, hp]) (by simp [Task.draws, hp]) (by rintro _ ⟨⟩)
      (fun _ => rfl) (fun _ => rfl) h.queued rfl rfl
  | missed c _ hp =>
    exact h.keep ht rfl (by simp [Task.locks, hp]) (by simp [Task.draws, hp]) (by rintro _ ⟨⟩)
      (fun _ => rfl) (fun _ => rfl) h.queued rfl rfl
  | paged c call call' fuel from_ n answer _ hp _ _ =>
    refine h.keep ht rfl ?_ ?_ ?_ (fun _ => rfl) (fun _ => rfl) h.queued rfl rfl
    · cases answer <;> simp [Task.locks, hp]
    · cases answer <;> simp [Task.draws, hp]
    · cases answer <;> simp [Task.uses]
  | took c call handle _ _ hp _ =>
    exact h.keep ht rfl (by simp [Task.locks, hp]) (by simp [Task.draws, hp]) (by rintro _ ⟨⟩)
      (fun _ => rfl) (fun _ => rfl) h.queued rfl rfl
  | tookNothing c call _ _ hp _ =>
    exact h.keep ht rfl (by simp [Task.locks, hp]) (by simp [Task.draws, hp]) (by rintro _ ⟨⟩)
      (fun _ => rfl) (fun _ => rfl) h.queued rfl rfl
  | fired c handle hp _ =>
    exact h.keep ht rfl (by simp [Task.locks, hp]) (by simp [Task.draws, hp]) (by rintro _ ⟨⟩)
      (fun _ => rfl) (fun _ => rfl) h.queued rfl rfl
  | released c hp =>
    exact h.keep ht rfl (by simp [Task.locks, hp]) (by simp [Task.draws, hp]) (by rintro _ ⟨⟩)
      (fun _ => rfl) (fun _ => rfl) h.queued rfl rfl

theorem Held.workerStep (h : s.Held) {c : CallId} {w : Worker V B} (hw : s.workers c = some w)
    (hst : WorkerStep s c w s') : s'.Held := by
  cases hst with
  | registered hp => exact h.workKeep hw (by rw [hp]; rfl) (fun _ => rfl) rfl rfl rfl rfl
  | answered hp => exact h.workKeep hw (by rw [hp]; rfl) (fun _ => rfl) rfl rfl rfl rfl
  | spawned hp => exact h.workKeep hw (by rw [hp]; rfl) (fun _ => rfl) rfl rfl rfl rfl
  | locked conn hk hfree hp =>
    exact h.workSwap hw (.inl (by simp [holderOf, hk, hfree])) (by simp [WorkerPhase.holds])
  | armed call _ hp => exact h.workKeep hw (by rw [hp]; rfl) (fun _ => rfl) rfl rfl rfl rfl
  | unarmed hp => exact h.workKeep hw (by rw [hp]; rfl) (fun _ => rfl) rfl rfl rfl rfl
  | handed hp => exact h.workKeep hw (by rw [hp]; rfl) (fun _ => rfl) rfl rfl rfl rfl
  | returned outcome hp => exact h.workKeep hw (by rw [hp]; rfl) (fun _ => rfl) rfl rfl rfl rfl
  | unlocked conn outcome hk hp =>
    have hmine : s.holderOf w.conn = some (some (.worker c)) :=
      (h.worker w.conn c).mpr (by simp [holds, hw, hp, WorkerPhase.holds])
    exact h.workSwap hw (.inr hmine) (by simp [WorkerPhase.holds])
  | finished call outcome ms _ hp =>
    exact h.workKeep hw (by rw [hp]; rfl) (fun _ => rfl) rfl rfl rfl rfl
  | gone conn hk hp =>
    exact h.workKeep hw (by rw [hp]; rfl)
      (holderOf_setConn hk { conn with strong := conn.strong - 1 } rfl) rfl rfl rfl rfl

theorem Held.step (h : s.Held) (hs : s.Staged) (hst : Step bld s s') : s'.Held := by
  cases hst with
  | arrive id request =>
    have hnew := h.fresh s.nextTask (Nat.le_refl _)
    have hkeep : ∀ {α : Type} (f : Task V → Option α), f ⟨id, request, .start⟩ = none →
        ∀ u, ((s.arrive id request).tasks u).bind f = (s.tasks u).bind f := by
      intro α f hf u
      by_cases hu : u = s.nextTask
      · subst hu
        simp only [arrive_tasks, Function.update_self, hnew, Option.bind_some, hf]
        rfl
      · simp only [arrive_tasks, Function.update_of_ne hu]
    refine ⟨fun k u => ?_, h.worker, h.queued, fun u k hu => ?_, h.numbered, fun u k hd => ?_,
      fun u hle => ?_⟩
    · rw [locks, hkeep Task.locks rfl]
      exact h.handler k u
    · rw [uses, hkeep Task.uses rfl] at hu
      exact h.used u k hu
    · rw [draws, hkeep Task.draws rfl] at hd
      obtain ⟨hlt, hnone, huniq⟩ := h.drawn u k hd
      refine ⟨hlt, hnone, fun u' hu' => huniq u' ?_⟩
      rwa [draws, hkeep Task.draws rfl] at hu'
    · have hne : u ≠ s.nextTask := by
        rintro rfl
        exact Nat.not_succ_le_self _ hle
      simp only [arrive_tasks, Function.update_of_ne hne]
      exact h.fresh u (Nat.le_of_succ_le hle)
  | handler t task _ ht hst => exact h.handlerStep hs ht hst
  | worker c w _ hw hst => exact h.workerStep hw hst

/-! ### Whoever holds a lock gives it back -/

structure Sound (s : Server V B) : Prop where
  staged : s.Staged
  held : s.Held

theorem run_sound {is : List (Input V B)} (h : (machine bld).Run Lib.Machine.free s is s')
    (hs : s.Sound) : s'.Sound :=
  h.invariant Sound
    (fun _ _ _ _ hi hst => ⟨hi.staged.step (step_cases hst),
      hi.held.step hi.staged (step_cases hst)⟩) hs

omit [BsonCells V B] in
theorem sound_new : (new : Server V B).Sound := ⟨staged_new, held_new⟩

theorem Sound.worker (hi : s.Sound) {c : CallId} {e : Env V B}
    (hst : s.workerStep c e = some s') : s'.Sound := by
  obtain ⟨w, hw, h⟩ := workerStep_cases hst
  exact ⟨hi.staged.worker hw h, hi.held.workerStep hw h⟩

omit [BsonCells V B] in
theorem Held.task_lt (h : s.Held) (ht : s.tasks t = some task) : t < s.nextTask := by
  by_contra hle
  rw [h.fresh t (Nat.le_of_not_lt hle)] at ht
  cases ht

omit [BsonCells V B] in
theorem Staged.worker_lt (h : s.Staged) {c : CallId} {w : Worker V B}
    (hw : s.workers c = some w) : c < s.nextCall := by
  by_contra hle
  rw [h.fresh c (Nat.le_of_not_lt hle)] at hw
  cases hw

omit [BsonCells V B] in
/-- A call past its registration is there. -/
theorem Staged.call (hs : s.Staged) {c : CallId} {w : Worker V B} (hw : s.workers c = some w)
    (hp : w.phase.isNumbered = false) : ∃ call, s.calls c = some call := by
  have hdom := hs.dom c
  rw [hw, Option.any_some, hp] at hdom
  exact Option.isSome_iff_exists.mp hdom

omit [BsonCells V B] in
theorem Held.conn (h : s.Held) {c : CallId} {w : Worker V B} (hw : s.workers c = some w) :
    ∃ conn, s.conns w.conn = some conn := by
  have hne := h.queued c w hw
  cases hk : s.conns w.conn with
  | none => exact absurd (by simp [holderOf, hk]) hne
  | some conn => exact ⟨conn, rfl⟩

/-- The connection is free and the other workers are where they were. -/
def Freed (s : Server V B) (k : ConnId) (d : CallId) (s' : Server V B) : Prop :=
  s'.holderOf k = some none ∧ ∀ c, c ≠ d → s'.workers c = s.workers c

theorem leads_work {s₁ : Server V B} {d : CallId} {w : Worker V B} {p : WorkerPhase V B}
    {e : Env V B} {k : ConnId} (hst : s.workerStep d e = some (s₁.work d w p))
    (hw : s₁.workers = s.workers)
    (h : (machine bld).Leads (s₁.work d w p) (Freed (s₁.work d w p) k d)) :
    (machine bld).Leads s (Freed s k d) := by
  refine Lib.Machine.leads_step (i := .worker d e) hst (h.trans fun is t _ ht => ?_)
  refine Lib.Machine.leads_here ⟨ht.1, fun c hc => ?_⟩
  rw [ht.2 c hc, work_workers, Function.update_of_ne hc, hw]

theorem returned_gives_back (hi : s.Sound) {d : CallId} {w : Worker V B}
    {o : Except String (ResultStream V B)} (hw : s.workers d = some w)
    (hp : w.phase = .returned o) : (machine bld).Leads s (Freed s w.conn d) := by
  obtain ⟨conn, hconn⟩ := hi.held.conn hw
  have hst : s.workerStep d {} =
      some ((s.setConn w.conn { conn with holder := none }).work d w (.unlocked o)) := by
    simp only [workerStep, hw, Option.bind_some, hp, connStep, hconn]
  refine leads_work hst rfl (Lib.Machine.leads_here ⟨?_, fun _ _ => rfl⟩)
  exact (holderOf_set w.conn w.conn _).trans (if_pos rfl)

theorem executing_gives_back (hi : s.Sound) {d : CallId} {w : Worker V B}
    (hw : s.workers d = some w) (hp : w.phase = .executing) :
    (machine bld).Leads s (Freed s w.conn d) := by
  obtain ⟨conn, hconn⟩ := hi.held.conn hw
  have hst : s.workerStep d {} = some (s.work d w (.returned (.error ""))) := by
    simp only [workerStep, hw, Option.bind_some, hp, connStep, hconn]
    rfl
  have hnext := hi.worker hst
  exact leads_work hst rfl
    (returned_gives_back hnext (w := { w with phase := .returned (.error "") })
      (by simp only [work_workers, Function.update_self]) rfl)

theorem armed_gives_back (hi : s.Sound) {d : CallId} {w : Worker V B}
    (hw : s.workers d = some w) (hp : w.phase = .armed) :
    (machine bld).Leads s (Freed s w.conn d) := by
  obtain ⟨conn, hconn⟩ := hi.held.conn hw
  have hst : s.workerStep d {} = some ((s.note (.handed d w.conn)).work d w .executing) := by
    simp only [workerStep, hw, Option.bind_some, hp, connStep, hconn]
  have hnext := hi.worker hst
  exact leads_work hst rfl
    (executing_gives_back hnext (w := { w with phase := .executing })
      (by simp only [work_workers, Function.update_self]) rfl)

theorem locked_gives_back (hi : s.Sound) {d : CallId} {w : Worker V B}
    (hw : s.workers d = some w) (hp : w.phase = .locked) :
    (machine bld).Leads s (Freed s w.conn d) := by
  obtain ⟨call, hcall⟩ := hi.staged.call hw (by rw [hp]; rfl)
  have hst : s.workerStep d { token := false } = some (s.work d w .armed) := by
    simp only [workerStep, hw, Option.bind_some, hp, callStep, hcall]
    rfl
  have hnext := hi.worker hst
  exact leads_work hst rfl
    (armed_gives_back hnext (w := { w with phase := .armed })
      (by simp only [work_workers, Function.update_self]) rfl)

theorem worker_gives_back (hi : s.Sound) {d : CallId} {w : Worker V B}
    (hw : s.workers d = some w) (hp : w.phase.holds = true) :
    (machine bld).Leads s (Freed s w.conn d) := by
  cases hph : w.phase with
  | returned o => exact returned_gives_back hi hw hph
  | executing => exact executing_gives_back hi hw hph
  | armed => exact armed_gives_back hi hw hph
  | locked => exact locked_gives_back hi hw hph
  | _ => rw [hph] at hp; cases hp

theorem handler_gives_back {k : ConnId} (hi : s.Sound) {u : TaskId} (hu : s.locks u = some k)
    (d : CallId) : (machine bld).Leads s (Freed s k d) := by
  obtain ⟨task, ht, hl⟩ := Option.bind_eq_some_iff.mp hu
  obtain ⟨op, hp, hreq⟩ : ∃ op, task.phase = .locked ∧ task.request = .schema k op := by
    unfold Task.locks at hl
    split at hl
    · next op hp hreq =>
      cases hl
      exact ⟨op, hp, hreq⟩
    · cases hl
  obtain ⟨conn, hconn⟩ : ∃ conn, s.conns k = some conn := by
    have hmine := (hi.held.handler k u).mpr hu
    cases hk : s.conns k with
    | none => simp [holderOf, hk] at hmine
    | some conn => exact ⟨conn, rfl⟩
  have hst : s.handlerStep bld u {} = some ((s.setConn k { conn with holder := none }).goto u task
      (.leaving (.ok (schemaReply op "")))) := by
    simp only [Server.handlerStep, ht, Option.bind_some, hp, dispatchStep, hreq, schemaStep, hconn]
    rfl
  refine Lib.Machine.leads_step (i := .handler u {}) hst
    (Lib.Machine.leads_here ⟨?_, fun _ _ => rfl⟩)
  exact (holderOf_set k k _).trans (if_pos rfl)

/-- Some continuation frees a connection, whoever holds it, and leaves a worker that waits
where it is. -/
theorem leads_free {k : ConnId} (hi : s.Sound) (hk : s.holderOf k ≠ none) (c : CallId)
    (hc : s.holds c = none) :
    (machine bld).Leads s fun s' => s'.holderOf k = some none ∧ s'.workers c = s.workers c := by
  cases ho : s.holderOf k with
  | none => exact absurd ho hk
  | some o =>
    cases o with
    | none => exact Lib.Machine.leads_here ⟨ho, rfl⟩
    | some o =>
      cases o with
      | handler u =>
        refine (handler_gives_back hi ((hi.held.handler k u).mp ho) (c + 1)).trans
          fun is t _ ht => Lib.Machine.leads_here ⟨ht.1, ht.2 c (Nat.ne_of_lt (Nat.lt_succ_self c))⟩
      | worker d =>
        have hd := (hi.held.worker k d).mp ho
        have hcd : c ≠ d := by
          rintro rfl
          rw [hc] at hd
          cases hd
        obtain ⟨w, hw, hwk⟩ := Option.bind_eq_some_iff.mp hd
        simp only [Option.ite_none_right_eq_some, Option.some.injEq] at hwk
        obtain ⟨hp, rfl⟩ := hwk
        refine (worker_gives_back hi hw hp).trans
          fun is t _ ht => Lib.Machine.leads_here ⟨ht.1, ht.2 c hcd⟩

end Server
end LvimDb.Engine
