import LvimDb.Result.Frame

/-!
# What the dock shows

When the page on screen is one of the current call and the dock's connection,
statement and origin are those of the run that created it.
-/

namespace LvimDb.Result
open Engine (ConnId CallId CallStatus PageReply)

namespace Dock
variable {V : Type} (env : Env V) (s : Dock V)

/-- The dock's connection, driver, statement and origin are those of the run. -/
def Shows (q : Query) : Prop :=
  s.conn = some q.conn ∧ s.statement = some q.statement ∧ s.origin.map Origin.source = q.origin

instance (q : Query) : Decidable (s.Shows q) := by
  unfold Shows
  infer_instance

/-- A page on screen is of the current call, and the rest is of the run that created it. -/
def Coherent : Prop :=
  ∀ p, s.page = some p → s.callId = some p.call ∧ ∃ q, s.creator p.call = some q ∧ s.Shows q

/-- A call id is registered only while its own run is shown and no page is, a page is taken
only for the current call, and a logged call is reopened only over a page of its own. -/
def Steady (i : Input V) : Prop :=
  match i with
  | .answer n r =>
    match s.waiting[n]?, r with
    | some (.run _ q _ _), .called _ => s.page.isNone = true ∧ s.Shows q
    | some (.page cid _), .page (.ready _) => s.callId = some cid
    | _, _ => True
  | i => ∀ k ∈ s.reopens env i, ∀ p ∈ s.page, (s.heap[k]?.bind Entry.callId) = some p.call

instance (i : Input V) : Decidable (s.Steady env i) := by
  unfold Steady
  split
  · split <;> infer_instance
  · infer_instance

/-- What holds of the dock as long as every step is steady. -/
structure Tracked : Prop where
  page : ∀ p, s.page = some p → s.callId = some p.call
  shown : ∀ cid, s.callId = some cid → ∃ q, s.creator cid = some q ∧ s.Shows q
  entries : ∀ (k : ℕ) e cid, s.heap[k]? = some e → e.callId = some cid →
    s.creator cid = some e.query
  started : ∀ k q offset done, .run k q offset done ∈ s.waiting →
    ∃ e, s.heap[k]? = some e ∧ e.query = q

variable {env s}

theorem Tracked.coherent (h : s.Tracked) : s.Coherent :=
  fun p hp => ⟨h.page p hp, h.shown p.call (h.page p hp)⟩

theorem tracked_new : (new : Dock V).Tracked where
  page := fun _ hp => by cases hp
  shown := fun _ hc => by cases hc
  entries := fun _ _ _ he => by cases he
  started := fun _ _ _ _ hw => by cases hw

theorem creator_issue {cid c : CallId} {x : Option Query} {q : Query}
    (hu : s.unissued cid = true) (h : s.creator c = some q) :
    (s.issue cid x).creator c = some q := by
  have hne : c ≠ cid := by
    rintro rfl
    rw [creator, Option.isNone_iff_eq_none.mp hu] at h
    cases h
  have hbeq : (c == cid) = false := beq_false_of_ne hne
  unfold creator issue
  rw [List.lookup_cons, hbeq]
  exact h

theorem creator_issued (cid : CallId) (q : Query) : (s.issue cid (some q)).creator cid = some q := by
  unfold creator issue
  rw [List.lookup_cons, beq_self_eq_true]
  rfl

theorem heap_amend {k j : ℕ} {f : Entry → Entry} {e : Entry}
    (h : (s.amend k f).heap[j]? = some e) :
    ∃ e₀, s.heap[j]? = some e₀ ∧ e = if k = j then f e₀ else e₀ := by
  simp only [amend, List.getElem?_modify, Option.map_eq_map, Option.map_eq_some_iff] at h
  obtain ⟨e₀, he₀, rfl⟩ := h
  exact ⟨e₀, he₀, by split <;> rfl⟩

theorem heap_amended {k j : ℕ} {f : Entry → Entry} {e : Entry} (h : s.heap[j]? = some e) :
    (s.amend k f).heap[j]? = some (if k = j then f e else e) := by
  simp only [amend, List.getElem?_modify, h]
  split <;> rfl

theorem heap_addEntry {q : Query} {k : ℕ} {e : Entry} (h : (s.addEntry q).heap[k]? = some e) :
    s.heap[k]? = some e ∨ e = ⟨q, none, .running, 0⟩ := by
  rcases Nat.lt_trichotomy k s.heap.length with hlt | rfl | hgt
  · left
    rw [← h]
    exact (List.getElem?_append_left hlt).symm
  · right
    have hlast : (s.addEntry q).heap[s.heap.length]? = some ⟨q, none, .running, 0⟩ :=
      List.getElem?_concat_length
    rw [hlast] at h
    exact (Option.some.inj h).symm
  · have hout : (s.addEntry q).heap[k]? = none := by
      refine List.getElem?_eq_none ?_
      simp only [addEntry, List.length_append, List.length_singleton]
      omega
    rw [hout] at h
    cases h

theorem heap_added {q : Query} {k : ℕ} {e : Entry} (h : s.heap[k]? = some e) :
    (s.addEntry q).heap[k]? = some e := by
  obtain ⟨hk, _⟩ := List.getElem?_eq_some_iff.mp h
  rw [← h]
  exact List.getElem?_append_left hk

/-- All but a new page, another run's data and the start of a run. -/
def calm : List Part := [.plain, .runs, .counts, .edits, .locks, .inserts, .writes, .docs]

theorem keeps_tracked (V : Type) : Keeps calm (Tracked : Dock V → Prop) where
  plain := by decide
  face := fun _ h => ⟨h.page, h.shown, h.entries, h.started⟩
  pend := fun _ h => ⟨h.page, h.shown, h.entries, h.started⟩
  tell := fun _ h => ⟨h.page, h.shown, h.entries, h.started⟩
  later := fun _ h => ⟨h.page, h.shown, h.entries, h.started⟩
  next := fun _ h => ⟨h.page, h.shown, h.entries, h.started⟩
  wait := fun hc h => by
    refine ⟨h.page, h.shown, h.entries, fun k q offset done hw => ?_⟩
    rcases List.mem_append.mp hw with hw | hw
    · exact h.started k q offset done hw
    · obtain rfl := List.mem_singleton.mp hw
      exact absurd (show Part.starts ∈ _ from hc) (by decide)
  source := fun ho h => by
    refine ⟨h.page, fun cid hcid => ?_, h.entries, h.started⟩
    obtain ⟨q, hq, hconn, hst, horigin⟩ := h.shown cid hcid
    exact ⟨q, hq, hconn, hst, ho.trans horigin⟩
  amend := fun {s k f} hf h => by
    refine ⟨h.page, h.shown, fun j e cid he hcid => ?_, fun j q offset done hw => ?_⟩
    · obtain ⟨e₀, he₀, rfl⟩ := heap_amend he
      split at hcid
      · rename_i hkj
        rw [if_pos hkj, hf.query]
        rcases hf.callId e₀ with heq | heq
        · exact h.entries j e₀ cid he₀ (heq ▸ hcid)
        · rw [heq] at hcid
          cases hcid
      · rename_i hkj
        rw [if_neg hkj]
        exact h.entries j e₀ cid he₀ hcid
    · obtain ⟨e, he, hq⟩ := h.started j q offset done hw
      refine ⟨_, heap_amended he, ?_⟩
      split
      · exact (hf.query e).trans hq
      · exact hq
  addEntry := fun {s q} h => by
    refine ⟨h.page, h.shown, fun k e cid he hcid => ?_, fun k q' offset done hw => ?_⟩
    · rcases heap_addEntry he with he | rfl
      · exact h.entries k e cid he hcid
      · cases hcid
    · obtain ⟨e, he, hq⟩ := h.started k q' offset done hw
      exact ⟨e, heap_added he, hq⟩
  data := fun hd => absurd hd (by decide)
  page := fun hd => absurd hd (by decide)
  count := fun {s cid} _ hu h => by
    refine ⟨h.page, fun c hc => ?_, fun k e c he hc => ?_, h.started⟩
    · obtain ⟨q, hq, hshows⟩ := h.shown c hc
      exact ⟨q, creator_issue hu hq, hshows⟩
    · exact creator_issue hu (h.entries k e c he hc)
  register := fun hd => absurd hd (by decide)
  bind := fun hd => absurd hd (by decide)

theorem Tracked.dropped (h : s.Tracked) (n : ℕ) : (s.drop n).Tracked :=
  ⟨h.page, h.shown, h.entries,
    fun k q offset done hw => h.started k q offset done (List.mem_of_mem_eraseIdx hw)⟩

theorem relog_heap : s.relog.heap = s.heap := by
  unfold relog
  split <;> rfl

/-- The entry of a run that was just started is the last one. -/
theorem clear_heap (q : Query) :
    (s.clear env q).heap[(s.clear env q).heap.length - 1]? = some ⟨q, none, .running, 0⟩ := by
  unfold clear
  rw [relog_heap]
  simp only [addEntry, List.length_append, List.length_singleton, Nat.add_sub_cancel]
  exact List.getElem?_concat_length

theorem Tracked.run (h : s.Tracked) (why : Why) (q : Query) (offset : ℕ) (done : Option ℕ) :
    (s.run env why q offset done).Tracked := by
  have hruns : Part.runs ∈ calm := by decide
  unfold Dock.run
  split
  · exact (keeps_tracked V).tell hruns ((keeps_tracked V).cancelEdit h)
  have hentries := ((keeps_tracked V).cancelEdit h).entries
  have hstarted := ((keeps_tracked V).cancelEdit h).started
  have hclear : (s.clear env q).Tracked := by
    refine (keeps_tracked V).cleared (by decide) ⟨fun _ hp => ?_, fun _ hc => ?_, hentries, hstarted⟩
    · cases hp
    · cases hc
  have htell : ((s.clear env q).tell
      (.ran why ((s.clear env q).heap.length - 1) q done)).Tracked := (keeps_tracked V).tell hruns hclear
  refine ⟨htell.page, htell.shown, htell.entries, fun k q' offset' done' hw => ?_⟩
  rcases List.mem_append.mp hw with hw | hw
  · exact htell.started k q' offset' done' hw
  · cases List.mem_singleton.mp hw
    exact ⟨_, clear_heap q, rfl⟩

theorem Tracked.again (h : s.Tracked) (q : Query) : (s.again env q).Tracked :=
  Tracked.run ((keeps_tracked V).want (by decide) h q) _ _ _ _

theorem Tracked.rerunCall (h : s.Tracked) : (s.rerunCall env).Tracked := by
  unfold Dock.rerunCall
  split
  · exact h.again _
  · exact h

theorem Tracked.openCached (h : s.Tracked) {k : ℕ}
    (hp : ∀ p ∈ s.page, (s.heap[k]?.bind Entry.callId) = some p.call) :
    (s.openCached env k).Tracked := by
  refine (keeps_tracked V).opened (by decide) h k fun e cid he hcid => ?_
  refine ⟨fun p hshown => ?_, fun c hc => ?_, h.entries, h.started⟩
  · have hcall := hp p hshown
    rw [he, Option.bind_some, hcid] at hcall
    exact hcall
  · cases hc
    refine ⟨e.query, h.entries k e cid he hcid, rfl, rfl, ?_⟩
    show Option.map Origin.source (e.query.origin.map (Origin.new s.next)) = e.query.origin
    cases e.query.origin <;> rfl

theorem Tracked.register (h : s.Tracked) {k : ℕ} {q : Query} {offset : ℕ} {done : Option ℕ}
    {cid : CallId} (hu : s.unissued cid = true) (hpage : s.page.isNone = true) (hshows : s.Shows q)
    (hk : ∃ e, s.heap[k]? = some e ∧ e.query = q) :
    (s.register env k q offset done cid).Tracked := by
  unfold Dock.register
  refine (keeps_tracked V).evict ⟨fun p hp => ?_, fun c hc => ?_, fun j e c he hc => ?_, ?_⟩ _ _
  · have hnone : s.page = some p := hp
    rw [hnone] at hpage
    cases hpage
  · cases hc
    exact ⟨q, creator_issued cid q, hshows⟩
  · obtain ⟨e₀, he₀, rfl⟩ := heap_amend he
    have he₀ : s.heap[j]? = some e₀ := he₀
    split at hc
    · rename_i hkj
      subst hkj
      cases hc
      obtain ⟨e, he, hq⟩ := hk
      cases he₀.symm.trans he
      rw [if_pos rfl, hq]
      exact creator_issued cid q
    · rename_i hkj
      rw [if_neg hkj]
      exact creator_issue hu (h.entries j e₀ c he₀ hc)
  · intro j q' offset' done' hw
    have hw : .run j q' offset' done' ∈ s.waiting := by
      rcases List.mem_append.mp hw with hw | hw
      · exact hw
      · cases List.mem_singleton.mp hw
    obtain ⟨e, he, hq⟩ := h.started j q' offset' done' hw
    have he : ((s.issue cid (some q)).wait (.watch k offset done)).heap[j]? = some e := he
    refine ⟨_, heap_amended he, ?_⟩
    split
    · exact hq
    · exact hq

theorem Tracked.turn (h : s.Tracked) {cid : CallId} (hcid : s.callId = some cid)
    (p : PageReply V) : (s.turn cid p).Tracked := by
  refine (keeps_tracked V).turned ⟨fun p' hp => ?_, h.shown, h.entries, h.started⟩
  cases hp
  exact hcid

theorem Tracked.perform (h : s.Tracked) (k : Task V) : (s.perform env k).Tracked := by
  cases k with
  | render => exact (keeps_tracked V).render h
  | failed done => exact (keeps_tracked V).finish (by decide) h done false
  | landed offset done => exact (keeps_tracked V).land (by decide) h offset done
  | guarded q t => exact h.run _ _ _ _
  | askRun q t => exact (keeps_tracked V).wait (show Part.runs ∈ calm by decide) h
  | askWrite n on plan statement target =>
    exact (keeps_tracked V).wait (show Part.writes ∈ calm by decide) h
  | refresh on target =>
    unfold Dock.perform Dock.refresh
    dsimp only
    split
    · exact h.run _ _ _ _
    · exact h

theorem Tracked.resumed {n : ℕ} {c : Cont V} {r : Reply V} {t : Dock V} (h : s.Tracked)
    (hg : s.Steady env (.answer n r)) (hc : s.waiting[n]? = some c)
    (hr : Resumed env (s.drop n) c r t) : t.Tracked := by
  have hd : (s.drop n).Tracked := h.dropped n
  by_cases hp : c.part ∈ Keeps.rest
  · exact (keeps_tracked V).answeredRest (by decide) hr hp hd
  simp only [Steady, hc] at hg
  have hmem : c ∈ s.waiting := List.mem_of_getElem? hc
  cases hr with
  | turned cid offset p => exact hd.turn hg p
  | registered k q offset done cid hu =>
    exact hd.register hu hg.1 hg.2 (h.started k q offset done hmem)
  | settled k offset done st hst => exact (keeps_tracked V).settle (by decide) hd k hst offset done
  | judged => exact (keeps_tracked V).judged (by decide) hd _ _ _
  | confirmed q t =>
    have hruns : Part.runs ∈ calm := by decide
    have ht : ((s.drop n).tell (.confirmed t.n)).Tracked := (keeps_tracked V).tell hruns hd
    exact ht.run _ _ _ _
  | declined => exact (keeps_tracked V).finish (by decide) hd _ _
  | refused | gone => exact hd
  | _ => simp [Cont.part, Keeps.rest] at hp

theorem Steady.opens {i : Input V} (hg : s.Steady env i) {k : ℕ} (hk : k ∈ s.reopens env i) :
    ∀ p ∈ s.page, (s.heap[k]?.bind Entry.callId) = some p.call := by
  unfold Steady at hg
  split at hg
  · cases hk
  · exact hg k hk

theorem Tracked.step {i : Input V} {t : Dock V} (h : s.Tracked) (hg : s.Steady env i)
    (hst : s.step env i = some t) : t.Tracked := by
  refine (keeps_tracked V).step (by decide) h ?_ ?_ ?_ ?_ ?_ ?_ hst
  · intro q notify _
    exact (keeps_tracked V).runGuarded (by decide) h q notify
  · intro k hk
    exact h.openCached (hg.opens hk)
  · intro _
    exact h.rerunCall
  · intro hedit
    exact (keeps_tracked V).edited (by decide) (by decide) (by decide)
      (fun _ _ _ _ _ h' => (keeps_tracked V).writeRow (by decide) h' _ _ _ _ _) hedit h hst
  · intro k ks _ _
    have hks : ({ s with queue := ks } : Dock V).Tracked := ⟨h.page, h.shown, h.entries, h.started⟩
    exact hks.perform k
  · rintro n r c rfl hc hr
    exact h.resumed hg hc hr

theorem run_tracked {is : List (Input V)} (h : (machine env).Run (Steady env) new is s) :
    s.Tracked :=
  h.invariant Tracked (fun _ _ _ hg hi hst => hi.step hg hst) tracked_new

theorem dock_coherent {is : List (Input V)} (h : (machine env).Run (Steady env) new is s) :
    s.Coherent :=
  (run_tracked h).coherent

theorem dock_coherent_one_browse :
    ∃ s, (machine tableEnv).Run (Steady tableEnv) new
        (.ensureOpen :: browsing (browseOn connA "t") 1 [[7, 8]]) s ∧
      s.page.isSome = true ∧ s.Coherent := by
  let check := fun (s : Dock ℕ) (i : Input ℕ) => decide (s.Steady tableEnv i)
  have hsome : (((machine tableEnv).execWith check new
      (.ensureOpen :: browsing (browseOn connA "t") 1 [[7, 8]])).map fun s => s.page.isSome) =
        some true := by decide
  obtain ⟨s, hs, hpage⟩ := Option.map_eq_some_iff.mp hsome
  have hrun : (machine tableEnv).Run (Steady tableEnv) new
      (.ensureOpen :: browsing (browseOn connA "t") 1 [[7, 8]]) s :=
    Lib.Machine.run_of_execWith (fun _ _ => of_decide_eq_true) hs
  exact ⟨s, hrun, hpage, dock_coherent hrun⟩

/-- The next page of a browse comes after another statement was run. -/
def latePage : List (Input ℕ) :=
  .ensureOpen :: browsing (browseOn connA "t") 1 [[7, 8]] ++
    [.next, .run ⟨connB, "select 1", none⟩ false, .tick,
      .answer 0 (.page (.ready (tablePage [[9, 10]])))]

theorem late_page_over_another_run :
    ∃ s, (machine tableEnv).exec new latePage = some s ∧ s.page.map Shown.call = some 1 ∧
      s.callId = none ∧ s.conn = some connB ∧ ¬ s.Coherent := by
  obtain ⟨s, hs, _⟩ := (machine tableEnv).exists_run new latePage (by decide)
  have hview : ((machine tableEnv).exec new latePage).map
      (fun s => (s.page.map Shown.call, s.callId, s.conn)) = some (some 1, none, some connB) := by
    decide
  rw [hs] at hview
  simp only [Option.map_some, Option.some.injEq, Prod.mk.injEq] at hview
  obtain ⟨hpage, hcall, hconn⟩ := hview
  refine ⟨s, hs, hpage, hcall, hconn, fun h => ?_⟩
  obtain ⟨p, hp, _⟩ := Option.map_eq_some_iff.mp hpage
  rw [(h p hp).1] at hcall
  cases hcall

end Dock
end LvimDb.Result
