import Mathlib.Data.List.Nodup
import LvimDb.Result.Ledger

/-!
# One result with the cache off

Without the cache a run that registers its call releases the call the dock shows. The start of a
run forgets that call, so two runs one after the other leave the first one's buffer behind; only
of runs that were all started before the first of them registered is one left at the end.
-/

namespace LvimDb.Result
open Engine (ConnId CallId CallStatus)

namespace Dock
variable {V : Type} {env : Env V} {s t u : Dock V}

/-- The call ids that runs registered, the newest first. -/
def runIds (s : Dock V) : List CallId := s.issued.filterMap fun i => i.2.map fun _ => i.1

/-- Every call id that a run registered has been released, but for the newest. -/
def Alone (s : Dock V) : Prop := ∀ cid ∈ s.runIds.tail, cid ∈ s.freed

/-- A run registers its call before any other has, or while the dock shows the last one that
did: no run was started since. -/
def Prompt (s : Dock V) : Order V → Prop
  | .answer n (.called _) => ∀ k q offset done, s.waiting[n]? = some (.run k q offset done) →
    s.runIds ≠ [] → s.callId ≠ none
  | _ => True

/-! ### What leaves the calls alone -/

/-- The same calls are issued, released and shown, and no further one is counted. -/
structure Aside (s t : Dock V) : Prop where
  issued : t.issued = s.issued
  freed : t.freed = s.freed
  callId : t.callId = s.callId
  counts : t.counts ⊆ s.counts

theorem Aside.refl (s : Dock V) : Aside s s := ⟨rfl, rfl, rfl, List.Subset.refl _⟩

theorem Aside.trans (h : Aside s t) (h' : Aside t u) : Aside s u :=
  ⟨h'.issued.trans h.issued, h'.freed.trans h.freed, h'.callId.trans h.callId,
    List.Subset.trans h'.counts h.counts⟩

theorem aside_face (f : Face V) : Aside s { s with face := f } :=
  ⟨rfl, rfl, rfl, List.Subset.refl _⟩

theorem aside_later (k : Task V) : Aside s (s.later k) := ⟨rfl, rfl, rfl, List.Subset.refl _⟩

theorem aside_page (offset : ℕ) (p : Option (Shown V)) :
    Aside s { s with offset := offset, page := p } :=
  ⟨rfl, rfl, rfl, List.Subset.refl _⟩

theorem aside_queue (ks : List (Task V)) : Aside s { s with queue := ks } :=
  ⟨rfl, rfl, rfl, List.Subset.refl _⟩

theorem aside_amend (k : ℕ) (f : Entry → Entry) : Aside s (s.amend k f) :=
  ⟨rfl, rfl, rfl, List.Subset.refl _⟩

theorem aside_addEntry (q : Query) : Aside s (s.addEntry q) := ⟨rfl, rfl, rfl, List.Subset.refl _⟩

theorem freed_tell (e : Event V) : (s.tell e).freed = e.freed.toList ++ s.freed := by
  unfold freed tell
  dsimp only
  rw [List.filterMap_cons]
  cases e.freed with
  | none => rfl
  | some cid => rfl

theorem aside_tell {e : Event V} (he : e.freed = none) : Aside s (s.tell e) := by
  refine ⟨rfl, ?_, rfl, List.Subset.refl _⟩
  rw [freed_tell, he]
  rfl

theorem aside_wait {c : Cont V} (hc : c.counting = none) : Aside s (s.wait c) := by
  refine ⟨rfl, rfl, rfl, ?_⟩
  rw [counts_wait, hc, Option.toList_none, List.append_nil]
  exact List.Subset.refl _

theorem aside_send {e : Event V} {c : Cont V} (he : e.freed = none) (hc : c.counting = none) :
    Aside s (s.send e c) :=
  (aside_tell he).trans (aside_wait hc)

theorem aside_drop (n : ℕ) : Aside s (s.drop n) :=
  ⟨rfl, rfl, rfl, ((List.eraseIdx_sublist s.waiting n).filterMap _).subset⟩

theorem aside_render : Aside s s.render := aside_face _

theorem aside_cancelEdit : Aside s s.cancelEdit := by
  unfold cancelEdit
  split
  · exact (aside_face _).trans aside_render
  · exact Aside.refl s

theorem aside_relog : Aside s s.relog := by
  unfold relog
  split
  · exact aside_later _
  · exact Aside.refl s

theorem aside_openDock : Aside s s.openDock := by
  unfold openDock
  split
  · exact aside_render
  · exact aside_face _

theorem aside_finish (done : Option ℕ) (ok : Bool) : Aside s (s.finish done ok) := by
  cases done with
  | none => exact Aside.refl s
  | some n => exact aside_tell rfl

theorem aside_gotoPage (offset : ℕ) : Aside s (s.gotoPage env offset) := by
  unfold gotoPage
  split
  · exact aside_send rfl rfl
  · exact Aside.refl s

theorem aside_turn (cid : CallId) (p : Engine.PageReply V) : Aside s (s.turn cid p) := by
  have hpage : Aside s { s with offset := p.from_, page := some ⟨cid, p⟩ } := aside_page _ _
  unfold turn
  dsimp only
  split
  · exact hpage.trans ((aside_amend _ _).trans (aside_later _))
  · exact hpage.trans (aside_later _)

theorem aside_fetchTotal (src : Source) : Aside s (s.fetchTotal env src) := by
  unfold fetchTotal
  split
  · split
    · exact aside_send rfl rfl
    · exact Aside.refl s
  · exact Aside.refl s

theorem aside_countRows (q : Query) : Aside s (s.countRows env q) := by
  unfold countRows
  split
  · exact aside_fetchTotal _
  · exact Aside.refl s

theorem aside_settle (k : ℕ) (st : CallStatus) (offset : ℕ) (done : Option ℕ) :
    Aside s (s.settle k st offset done) := by
  have hrelog : Aside s (s.amend k fun e => { e with state := st }).relog :=
    (aside_amend k _).trans aside_relog
  unfold settle
  dsimp only
  split
  · exact hrelog.trans (aside_later _)
  · exact hrelog.trans (aside_later _)

theorem aside_land (offset : ℕ) (done : Option ℕ) : Aside s (s.land env offset done) := by
  have hopen : Aside s (openDock { s with face := { s.face with view := .result } }) :=
    (aside_face _).trans aside_openDock
  unfold land
  dsimp only
  split
  · exact hopen
  · exact hopen.trans ((aside_gotoPage offset).trans (aside_finish done true))

theorem aside_write (statement : String) (target : Target V) :
    Aside s (s.write statement target) := by
  unfold write
  split
  · exact (aside_addEntry _).trans (aside_send rfl rfl)
  · exact Aside.refl s

/-- A run that starts forgets the call the dock shows, and does no more; one that an error stops
does nothing. -/
theorem aside_run (why : Why) (q : Query) (offset : ℕ) (done : Option ℕ) :
    Aside s (s.run env why q offset done) ∨
      Aside { s with callId := none } (s.run env why q offset done) := by
  unfold Dock.run
  split
  · exact .inl (aside_cancelEdit.trans (aside_tell rfl))
  have hcleared : Aside { s with callId := none }
      { s.cancelEdit.retarget q none 0 with page := none } :=
    ⟨aside_cancelEdit.issued, aside_cancelEdit.freed, rfl, aside_cancelEdit.counts⟩
  have hclear : Aside { s with callId := none } (s.clear env q) :=
    hcleared.trans ((aside_countRows q).trans ((aside_addEntry q).trans aside_relog))
  exact .inr (hclear.trans (aside_send rfl rfl))

/-! ### What is known of the calls -/

structure Numbered (s : Dock V) : Prop where
  nodup : s.ids.Nodup
  counted : ∀ cid ∈ s.counts, (cid, none) ∈ s.issued
  given : ∀ cid ∈ s.freed, cid ∈ s.ids
  newest : ∀ cid, s.runIds.head? = some cid → cid ∉ s.freed
  shown : ∀ cid, s.callId = some cid → s.runIds.head? = some cid

theorem numbered_new : (new : Dock V).Numbered where
  nodup := List.nodup_nil
  counted _ h := by cases h
  given _ h := by cases h
  newest _ h := by cases h
  shown _ h := by cases h

theorem Aside.runIds (h : Aside s t) : t.runIds = s.runIds := by
  unfold Dock.runIds
  rw [h.issued]

theorem Numbered.aside (h : s.Numbered) (ha : Aside s t) : t.Numbered where
  nodup := by
    unfold ids
    rw [ha.issued]
    exact h.nodup
  counted cid hc := by
    rw [ha.issued]
    exact h.counted cid (ha.counts hc)
  given cid hc := by
    unfold ids
    rw [ha.issued]
    exact h.given cid (ha.freed ▸ hc)
  newest cid hc := by
    rw [ha.freed]
    exact h.newest cid (ha.runIds ▸ hc)
  shown cid hc := by
    rw [ha.runIds]
    exact h.shown cid (ha.callId ▸ hc)

theorem Aside.alone (ha : Aside s t) : t.Alone ↔ s.Alone := by
  unfold Alone
  rw [ha.runIds, ha.freed]

theorem Numbered.forget (h : s.Numbered) : ({ s with callId := none } : Dock V).Numbered :=
  ⟨h.nodup, h.counted, h.given, h.newest, nofun⟩

theorem Numbered.run (h : s.Numbered) (why : Why) (q : Query) (offset : ℕ) (done : Option ℕ) :
    (s.run env why q offset done).Numbered ∧ ((s.run env why q offset done).Alone ↔ s.Alone) := by
  rcases aside_run why q offset done with hsame | hrun
  · exact ⟨h.aside hsame, hsame.alone⟩
  · exact ⟨h.forget.aside hrun, hrun.alone⟩

theorem mem_ids_of_run {cid : CallId} (h : cid ∈ s.runIds) : ∃ q, (cid, some q) ∈ s.issued := by
  obtain ⟨⟨c, o⟩, hm, hc⟩ := List.mem_filterMap.mp h
  obtain ⟨q, rfl, rfl⟩ := Option.map_eq_some_iff.mp hc
  exact ⟨q, hm⟩

/-- A call is a run's or it is not. -/
theorem Numbered.one_kind (h : s.Numbered) {cid : CallId} (hrun : cid ∈ s.runIds) :
    (cid, none) ∉ s.issued := by
  intro hnone
  obtain ⟨q, hq⟩ := mem_ids_of_run hrun
  cases List.inj_on_of_nodup_map h.nodup hq hnone rfl

/-- A call that is not a run's is issued. -/
theorem Numbered.issue (h : s.Numbered) {cid : CallId} (hu : s.unissued cid = true) :
    (s.issue cid none).Numbered ∧ ((s.issue cid none).Alone ↔ s.Alone) := by
  refine ⟨⟨?_, ?_, ?_, h.newest, h.shown⟩, Iff.rfl⟩
  · exact List.nodup_cons.mpr ⟨unissued_iff.mp hu, h.nodup⟩
  · exact fun c hc => List.mem_cons_of_mem _ (h.counted c hc)
  · exact fun c hc => List.mem_cons_of_mem _ (h.given c hc)

theorem Numbered.waitCount (h : s.Numbered) {c : Cont V} {cid : CallId} (hc : c.counting = some cid)
    (hi : (cid, none) ∈ s.issued) : (s.wait c).Numbered := by
  refine ⟨h.nodup, fun d hd => ?_, h.given, h.newest, h.shown⟩
  rw [counts_wait, hc] at hd
  rcases List.mem_append.mp hd with hd | hd
  · exact h.counted d hd
  · rw [List.mem_singleton.mp hd]
    exact hi

/-- A count is over. -/
theorem Numbered.counted_released (h : s.Numbered) {cid : CallId} (hi : (cid, none) ∈ s.issued) :
    (s.tell (.released cid)).Numbered ∧ ((s.tell (.released cid)).Alone ↔ s.Alone) := by
  have hfreed : (s.tell (.released cid)).freed = cid :: s.freed := freed_tell _
  have hnot : cid ∉ s.runIds := fun hrun => h.one_kind hrun hi
  refine ⟨⟨h.nodup, h.counted, ?_, ?_, h.shown⟩, ?_⟩
  · intro c hc
    rw [hfreed] at hc
    rcases List.mem_cons.mp hc with rfl | hc
    · exact List.mem_map_of_mem hi
    · exact h.given c hc
  · intro c hc
    rw [hfreed]
    intro hm
    rcases List.mem_cons.mp hm with rfl | hm
    · exact hnot (List.mem_of_mem_head? hc)
    · exact h.newest c hc hm
  · unfold Alone
    rw [hfreed]
    refine forall₂_congr fun c hc => ?_
    rw [List.mem_cons]
    refine or_iff_right ?_
    rintro rfl
    exact hnot (List.mem_of_mem_tail hc)

/-! ### A run registers -/

/-- What a registered run leaves of the calls with the cache off. -/
theorem registered_calls (hcache : env.cache = none) (k : ℕ) (q : Query) (offset : ℕ)
    (done : Option ℕ) (cid : CallId) :
    let t := s.register env k q offset done cid
    t.issued = (cid, some q) :: s.issued ∧ t.callId = some cid ∧ t.counts = s.counts ∧
      t.freed = (match s.callId with
        | some p => if p = cid then [] else [p]
        | none => []) ++ s.freed := by
  have hcounts : ((s.issue cid (some q)).wait (.watch k offset done)).counts = s.counts := by
    rw [counts_wait]
    exact List.append_nil _
  dsimp only
  unfold register evict
  rw [hcache]
  cases s.callId with
  | none => exact ⟨rfl, rfl, hcounts, rfl⟩
  | some p =>
    dsimp only
    split
    · exact ⟨rfl, rfl, hcounts, rfl⟩
    · exact ⟨rfl, rfl, hcounts, rfl⟩

theorem Numbered.register (h : s.Numbered) (ha : s.Alone) (hcache : env.cache = none)
    {cid : CallId} (hu : s.unissued cid = true) (k : ℕ) (q : Query) (offset : ℕ)
    (done : Option ℕ) :
    (s.register env k q offset done cid).Numbered ∧
      ((s.register env k q offset done cid).Alone ↔ (s.runIds ≠ [] → s.callId ≠ none)) := by
  obtain ⟨hissued, hcall, hcounts, hfreed⟩ := registered_calls (s := s) hcache k q offset done cid
  have hnew : cid ∉ s.ids := unissued_iff.mp hu
  have hruns : (s.register env k q offset done cid).runIds = cid :: s.runIds := by
    unfold runIds
    rw [hissued]
    rfl
  have hids : (s.register env k q offset done cid).ids = cid :: s.ids := by
    unfold ids
    rw [hissued]
    rfl
  have hrun_ids : ∀ c ∈ s.runIds, c ∈ s.ids := fun c hc => by
    obtain ⟨q, hq⟩ := mem_ids_of_run hc
    exact List.mem_map_of_mem hq
  have hshown : ∀ p, s.callId = some p → p ∈ s.runIds := fun p hp =>
    List.mem_of_mem_head? (h.shown p hp)
  have hne : ∀ p, s.callId = some p → p ≠ cid := by
    rintro p hp rfl
    exact hnew (hrun_ids p (hshown p hp))
  refine ⟨⟨?_, ?_, ?_, ?_, ?_⟩, ?_⟩
  · rw [hids]
    exact List.nodup_cons.mpr ⟨hnew, h.nodup⟩
  · intro c hc
    rw [hcounts] at hc
    rw [hissued]
    exact List.mem_cons_of_mem _ (h.counted c hc)
  · intro c hc
    rw [hids]
    refine List.mem_cons_of_mem _ ?_
    rw [hfreed] at hc
    cases hp : s.callId with
    | none =>
      rw [hp] at hc
      exact h.given c hc
    | some p =>
      rw [hp] at hc
      dsimp only at hc
      rw [if_neg (hne p hp)] at hc
      rcases List.mem_cons.mp hc with rfl | hc
      · exact hrun_ids c (hshown c hp)
      · exact h.given c hc
  · intro c hc hm
    rw [hruns] at hc
    obtain rfl := Option.some.inj hc
    rw [hfreed] at hm
    cases hp : s.callId with
    | none =>
      rw [hp] at hm
      exact hnew (h.given cid hm)
    | some p =>
      rw [hp] at hm
      dsimp only at hm
      rw [if_neg (hne p hp)] at hm
      rcases List.mem_cons.mp hm with heq | hm
      · exact hne p hp heq.symm
      · exact hnew (h.given cid hm)
  · intro c hc
    rw [hruns, ← hc, hcall]
    rfl
  · unfold Alone
    rw [hruns, hfreed, List.tail_cons]
    cases hr : s.runIds with
    | nil =>
      exact iff_of_true (fun c hc => by cases hc) fun hne => absurd rfl hne
    | cons r rs =>
      have htail : ∀ c ∈ rs, c ∈ s.freed := fun c hc => ha c (by rw [hr]; exact hc)
      cases hp : s.callId with
      | none =>
        refine iff_of_false (fun hall => ?_) fun hsome => hsome (List.cons_ne_nil _ _) rfl
        exact h.newest r (by rw [hr]; rfl) (hall r (List.mem_cons_self ..))
      | some p =>
        have hpr : p = r := by
          have := h.shown p hp
          rw [hr] at this
          exact (Option.some.inj this).symm
        refine iff_of_true (fun c hc => ?_) fun _ => Option.some_ne_none p
        dsimp only
        rw [if_neg (hne p hp)]
        rcases List.mem_cons.mp hc with rfl | hc
        · rw [hpr]
          exact List.mem_cons_self ..
        · exact List.mem_cons_of_mem _ (htail c hc)

/-! ### One order -/

theorem perform_kept (env : Env V) (h : s.Numbered) (k : Task V) :
    (s.perform env k).Numbered ∧ ((s.perform env k).Alone ↔ s.Alone) := by
  have haside : ∀ {t : Dock V}, Aside s t → t.Numbered ∧ (t.Alone ↔ s.Alone) :=
    fun ha => ⟨h.aside ha, ha.alone⟩
  cases k with
  | render => exact haside aside_render
  | failed done => exact haside (aside_finish done false)
  | landed offset done => exact haside (aside_land offset done)
  | guarded q t => exact h.run _ _ _ _
  | askRun q t => exact haside (aside_wait rfl)
  | askWrite n on plan statement target => exact haside (aside_wait rfl)
  | refresh on target =>
    show (s.refresh env on target).Numbered ∧ ((s.refresh env on target).Alone ↔ s.Alone)
    unfold refresh
    split
    · exact h.run _ _ _ _
    · exact ⟨h, Iff.rfl⟩

theorem resumed_kept {c : Cont V} {r : Reply V} (h : s.Numbered) (ha : s.Alone)
    (hcache : env.cache = none) (hc : c.executes = true ∨ ∃ cid offset, c = .page cid offset)
    (hcount : ∀ cid, c.counting = some cid → (cid, none) ∈ s.issued)
    (hr : Resumed env s c r t) :
    t.Numbered ∧ (t.Alone ↔
      ∀ k q offset done cid, c = .run k q offset done → r = .called cid →
        s.runIds ≠ [] → s.callId ≠ none) := by
  have hother : (∀ k q offset done cid, c = .run k q offset done → r ≠ .called cid) →
      t.Numbered ∧ (t.Alone ↔ s.Alone) → t.Numbered ∧ (t.Alone ↔
        ∀ k q offset done cid, c = .run k q offset done → r = .called cid →
          s.runIds ≠ [] → s.callId ≠ none) := fun hno ht =>
    ⟨ht.1, iff_of_true (ht.2.mpr ha) fun k q offset done cid hc hr =>
      absurd hr (hno k q offset done cid hc)⟩
  have haside : ∀ {t : Dock V}, Aside s t → t.Numbered ∧ (t.Alone ↔ s.Alone) :=
    fun ha => ⟨h.aside ha, ha.alone⟩
  cases hr with
  | registered k q offset done cid hu =>
    have hreg := h.register ha hcache hu k q offset done
    refine ⟨hreg.1, hreg.2.trans ⟨fun hp _ _ _ _ _ _ _ => hp, fun hp => ?_⟩⟩
    exact hp k q offset done cid rfl rfl
  | turned cid offset p => exact hother nofun (haside (aside_turn cid p))
  | refused k q offset done => exact hother nofun (haside (Aside.refl s))
  | settled k offset done st hst => exact hother nofun (haside (aside_settle k st offset done))
  | counting cid hu =>
    have hissue := h.issue hu
    exact hother nofun ⟨hissue.1.waitCount rfl (List.mem_cons_self ..), hissue.2⟩
  | totalling cid =>
    have hi : (cid, none) ∈ s.issued := hcount cid rfl
    have htell : Aside s (s.tell (.paged cid 0 1)) := aside_tell rfl
    exact hother nofun ⟨(h.aside htell).waitCount rfl hi, Iff.rfl⟩
  | counted cid r => exact hother nofun (h.counted_released (hcount cid rfl))
  | writing k on target cid hu =>
    have hissue := h.issue hu
    exact hother nofun ⟨hissue.1.aside (aside_wait rfl), hissue.2⟩
  | wrote k on target st hst =>
    refine hother nofun (haside ?_)
    split
    · exact (aside_amend k _).trans (aside_later _)
    · exact aside_amend k _
  | gone c r h1 h2 =>
    refine hother (fun k q offset done cid hc _ => ?_) (haside (Aside.refl s))
    rw [hc] at h2
    exact h2 rfl
  | _ => rcases hc with hc | ⟨cid, offset, hc⟩ <;> cases hc

theorem order_kept (h : s.Numbered) (ha : s.Alone) (hcache : env.cache = none) {o : Order V}
    (hst : s.order env o = some t) : t.Numbered ∧ (t.Alone ↔ s.Prompt o) := by
  have hplain : t.Numbered ∧ (t.Alone ↔ s.Alone) → (s.Prompt o ↔ True) →
      t.Numbered ∧ (t.Alone ↔ s.Prompt o) := fun ht hp =>
    ⟨ht.1, iff_of_true (ht.2.mpr ha) (hp.mpr trivial)⟩
  cases o with
  | run why q offset done =>
    cases hst
    exact hplain (h.run why q offset done) Iff.rfl
  | write statement target =>
    cases hst
    have hw := aside_write (s := s) statement target
    exact hplain ⟨h.aside hw, hw.alone⟩ Iff.rfl
  | count src =>
    cases hst
    have hc : Aside s (s.fetchTotal env src) := aside_fetchTotal src
    exact hplain ⟨h.aside hc, hc.alone⟩ Iff.rfl
  | tick =>
    obtain ⟨k, ks, -, rfl⟩ := ticked hst
    have hpop : Aside s { s with queue := ks } := aside_queue ks
    have hp := perform_kept env (h.aside hpop) k
    exact hplain ⟨hp.1, hp.2.trans hpop.alone⟩ Iff.rfl
  | answer n r =>
    have hans : ∃ c, s.waiting[n]? = some c ∧ Resumed env (s.drop n) c r t ∧
        (c.executes = true ∨ ∃ cid offset, c = .page cid offset) := by
      simp only [order] at hst
      split at hst
      · next cid offset hc =>
        obtain ⟨c, hc', hr⟩ := answered hst
        obtain rfl := Option.some.inj (hc'.symm.trans hc)
        exact ⟨_, hc', hr, .inr ⟨_, _, rfl⟩⟩
      · next c _ hc =>
        rw [Option.ite_none_right_eq_some] at hst
        obtain ⟨he, hst⟩ := hst
        obtain ⟨c', hc', hr⟩ := answered hst
        obtain rfl := Option.some.inj (hc'.symm.trans hc)
        exact ⟨_, hc', hr, .inl he⟩
      · cases hst
    obtain ⟨c, hc, hr, hkind⟩ := hans
    have hdrop : Aside s (s.drop n) := aside_drop n
    have hcount : ∀ cid, c.counting = some cid → (cid, none) ∈ (s.drop n).issued := by
      intro cid hcid
      exact h.counted cid (List.mem_filterMap.mpr ⟨c, List.mem_of_getElem? hc, hcid⟩)
    have hkept := resumed_kept (h.aside hdrop) (hdrop.alone.mpr ha) hcache hkind hcount hr
    refine ⟨hkept.1, hkept.2.trans ?_⟩
    cases r with
    | called cid =>
      constructor
      · intro hp k q offset done hrun
        rw [hc] at hrun
        exact hp k q offset done cid (Option.some.inj hrun) rfl
      · rintro hp k q offset done _ rfl -
        exact hp k q offset done hc
    | _ => exact iff_of_true nofun trivial

/-- With the cache off every run that registers has released the ones before exactly when none of
them registers after a later one has been started. -/
theorem alone_iff_prompt (hcache : env.cache = none) {os : List (Order V)}
    (h : (ledger env).Run Lib.Machine.free new os s) :
    (ledger env).Throughout new os Alone ↔ (ledger env).Run Prompt new os s := by
  refine h.throughout_iff_with Numbered Alone (fun _ _ _ _ hk ha hst => ?_)
    (fun _ _ _ hk ha hst => (order_kept hk ha hcache hst).2) numbered_new (fun _ h => by cases h)
  exact (order_kept hk ha hcache hst).1

/-- The cache is off. -/
def bareCache : Env ℕ := { tableEnv with cache := none }

def selectOne : Query := ⟨connA, "select 1", none⟩
def selectTwo : Query := ⟨connA, "select 2", none⟩

/-- A test of the condition, whatever is answered. -/
def promptly (s : Dock V) : Order V → Bool
  | .answer _ (.called _) => s.runIds.isEmpty || s.callId.isSome
  | _ => true

theorem prompt_of_promptly (s : Dock V) (o : Order V) (h : s.promptly o = true) : s.Prompt o := by
  cases o with
  | answer n r =>
    cases r with
    | called cid =>
      intro k q offset done _ hne hnone
      rw [promptly, hnone] at h
      simp [hne] at h
    | _ => trivial
  | _ => trivial

/-- Two runs are started before either has its call. -/
def overlapping : List (Order ℕ) :=
  [.run (.user 0 none) selectOne 0 none, .run (.user 1 none) selectTwo 0 none,
    .answer 0 (.called 1), .answer 0 (.called 2)]

theorem alone_iff_prompt_overlapping : ∃ s,
    (ledger bareCache).Run Lib.Machine.free new overlapping s ∧ s.runIds = [2, 1] ∧ s.freed = [1] ∧
      (ledger bareCache).Throughout new overlapping Alone := by
  have hview : ((ledger bareCache).execWith promptly new overlapping).map
      (fun s => (s.runIds, s.freed)) = some ([2, 1], [1]) := rfl
  obtain ⟨s, hs, hview⟩ := Option.map_eq_some_iff.mp hview
  obtain ⟨hruns, hfreed⟩ := Prod.mk.inj hview
  have hrun : (ledger bareCache).Run Prompt new overlapping s :=
    Lib.Machine.run_of_execWith prompt_of_promptly hs
  have hfree : (ledger bareCache).Run Lib.Machine.free new overlapping s :=
    hrun.weaken fun _ _ _ => trivial
  exact ⟨s, hfree, hruns, hfreed, (alone_iff_prompt rfl hfree).mpr hrun⟩

/-- The second run is started when the first has its call. -/
def consecutive : List (Order ℕ) :=
  [.run (.user 0 none) selectOne 0 none, .answer 0 (.called 1),
    .run (.user 1 none) selectTwo 0 none, .answer 1 (.called 2)]

theorem earlier_result_alive : ∃ s,
    (ledger bareCache).Run Lib.Machine.free new consecutive s ∧ s.runIds = [2, 1] ∧ s.freed = [] ∧
      ¬ s.Alone := by
  obtain ⟨s, hs, hr⟩ := (ledger bareCache).exists_run new consecutive rfl
  have hview : ((ledger bareCache).exec new consecutive).map (fun s => (s.runIds, s.freed)) =
      some ([2, 1], []) := rfl
  rw [hs, Option.map_some, Option.some.injEq, Prod.mk.injEq] at hview
  obtain ⟨hruns, hfreed⟩ := hview
  refine ⟨s, hr, hruns, hfreed, fun halone => ?_⟩
  have hone := halone 1 (by rw [hruns]; exact List.mem_singleton_self 1)
  rw [hfreed] at hone
  cases hone

end Dock
end LvimDb.Result
