import LvimDb.Completion.Steady

/-!
# Whose schema completion offers

The cache and the connection ids of the drawer outlive the engine process they come from, and
the next process numbers its connections from 1 again. What completion is given comes of the
live connection its id denotes exactly so long as no request meets a tree of an earlier process
or an id that is not its connection's.
-/

namespace LvimDb.Completion
open Engine (ConnId ReqId Reply Request BsonCells Build)
open Client (Session Channel Cb)

variable {V B : Type}

namespace Source
variable {s s' : Source V B}

/-! ### The condition -/

/-- A tree that is kept is of the process that runs, and its id is that of the active
connection; a tree that arrives is for requests whose id is that of their connection. -/
def Tidy (s : Source V B) : Move V B → Prop
  | .get _ => ∀ name k e nodes p, s.active = some name → s.session.liveConn name = some k →
    s.cache k = some e → e.tree = .fetched nodes p →
      s.session.chan.job = true ∧ s.session.chan.process = p ∧ Own s.session.chan name k
  | .drawer (.session .deliver) => ∀ id payload out k e ps,
    s.session.chan.server.out = .response id (.ok (.schema payload)) :: out →
    s.session.chan.pending.lookup id = some .ignored → s.sent.lookup id = some (.nodes k) →
    s.cache k = some e → e.tree = .pending ps → ∀ p ∈ ps, Own s.session.chan p.name k
  | _ => True

/-! ### What is handed out stays so -/

theorem failed_grows (f : Fetch) : s.handed ⊆ (s.failed f).handed := by
  cases f with
  | nodes k =>
    simp only [failed]
    split
    · exact List.Subset.refl _
    · split
      · rw [hands_eq]
        exact List.subset_append_left _ _
      · exact List.Subset.refl _
  | columns k key =>
    simp only [failed]
    split
    · exact List.Subset.refl _
    · split
      · rw [hands_eq]
        exact List.subset_append_left _ _
      · exact List.Subset.refl _

theorem ask_grows (f : Fetch) : s.handed ⊆ (s.ask f).handed := by
  unfold ask
  dsimp only
  split
  · exact List.Subset.refl _
  · split
    · exact List.Subset.refl _
    · exact failed_grows (s := { s with session := s.session.request f.request .ignored }) f

theorem ask_handed (f : Fetch) : ∀ h ∈ (s.ask f).handed, h ∈ s.handed ∨ h.process = none := by
  unfold ask
  dsimp only
  split
  · exact fun _ hm => .inl hm
  · split
    · exact fun _ hm => .inl hm
    · exact (failed_handed (s := { s with session := s.session.request f.request .ignored }) f).2

theorem withColumns_grows (k : ConnId) (schema obj : String) (p : Parked) :
    s.handed ⊆ (s.withColumns k schema obj p).handed := by
  unfold withColumns
  split
  · exact List.subset_append_left _ _
  · next e _ =>
    split
    · exact List.subset_append_left _ _
    · exact List.Subset.refl _
    · exact ask_grows (s := s.setCols k e (schema ++ "." ++ obj) (some (.pending [p]))) _

/-- The tree itself is handed out first. -/
theorem giveTree_hands (k : ConnId) (nodes : List Schema) (process : ℕ) (p : Parked) :
    s.handed ⊆ (s.giveTree k nodes process p).handed ∧
      ∃ items, ⟨p.name, k, some process, items, s.session.chan⟩ ∈
        (s.giveTree k nodes process p).handed := by
  have hlast : ∀ items, ⟨p.name, k, some process, items, s.session.chan⟩ ∈
      (s.hand k (some process) items p).handed := fun items =>
    List.mem_append_right _ (List.mem_singleton.mpr rfl)
  have hold : ∀ items, s.handed ⊆ (s.hand k (some process) items p).handed := fun items =>
    List.subset_append_left _ _
  unfold giveTree
  split
  · exact ⟨hold _, _, hlast _⟩
  · split
    · exact ⟨hold _, _, hlast _⟩
    · next schema obj _ =>
      have hgrows := withColumns_grows (s := s.hand k (some process) [] p) k schema obj p
      exact ⟨fun h hm => hgrows (hold [] hm), [], hgrows (hlast [])⟩

/-- The session moves on by requests of cmp.lua alone. -/
structure Lasts (s s' : Source V B) : Prop where
  orderly : s'.session.Orderly
  job : s'.session.chan.job = true
  same : s.Same s'

theorem withColumns_lasts (ho : s.session.Orderly) (hj : s.session.chan.job = true) (k : ConnId)
    (schema obj : String) (p : Parked) : s.Lasts (s.withColumns k schema obj p) := by
  unfold withColumns
  split
  · exact ⟨ho, hj, Same.refl _⟩
  · next e _ =>
    split
    · exact ⟨ho, hj, Same.refl _⟩
    · exact ⟨ho, hj, Same.refl _⟩
    · let s₁ := s.setCols k e (schema ++ "." ++ obj) (some (.pending [p]))
      have hj₁ : s₁.session.chan.job = true := hj
      obtain ⟨hsame, hj', -, -⟩ := ask_same (s := s₁) ho.kept.linked hj₁
        (.columns k (schema ++ "." ++ obj))
      obtain ⟨sent, waits, heq, -⟩ := ask_running hj₁ (.columns k (schema ++ "." ++ obj))
      refine ⟨?_, hj', hsame⟩
      rw [show (s.setCols k e (schema ++ "." ++ obj) (some (.pending [p]))).ask
        (.columns k (schema ++ "." ++ obj)) = _ from heq]
      exact request_orderly ho (.columns k (schema ++ "." ++ obj))

theorem giveTree_lasts (ho : s.session.Orderly) (hj : s.session.chan.job = true) (k : ConnId)
    (nodes : List Schema) (process : ℕ) (p : Parked) :
    s.Lasts (s.giveTree k nodes process p) := by
  unfold giveTree
  split
  · exact ⟨ho, hj, Same.refl _⟩
  · split
    · exact ⟨ho, hj, Same.refl _⟩
    · next schema obj _ =>
      obtain ⟨horderly, hjob, hsame⟩ :=
        withColumns_lasts (s := s.hand k (some process) [] p) ho hj k schema obj p
      exact ⟨horderly, hjob, hsame⟩

/-- Everyone who is parked is given the tree. -/
theorem gives_hands (ps : List Parked) (ho : s.session.Orderly) (hj : s.session.chan.job = true)
    (k : ConnId) (nodes : List Schema) (process : ℕ) :
    s.handed ⊆ (ps.foldl (fun s p => s.giveTree k nodes process p) s).handed ∧
      ∀ p ∈ ps, ∃ h ∈ (ps.foldl (fun s p => s.giveTree k nodes process p) s).handed,
        h.process = some process ∧
          (Own h.chan h.name h.conn ↔ Own s.session.chan p.name k) := by
  induction ps generalizing s with
  | nil => exact ⟨List.Subset.refl _, fun p hp => (List.not_mem_nil hp).elim⟩
  | cons p ps ih =>
    obtain ⟨hgrows, items, hmem⟩ := giveTree_hands (s := s) k nodes process p
    have hlasts := giveTree_lasts ho hj k nodes process p
    obtain ⟨hrest, hall⟩ := ih hlasts.orderly hlasts.job
    rw [List.foldl_cons]
    refine ⟨fun h hm => hrest (hgrows hm), fun p' hp' => ?_⟩
    rcases List.mem_cons.mp hp' with rfl | hp'
    · exact ⟨_, hrest hmem, rfl, Iff.rfl⟩
    · obtain ⟨h, hm, hprocess, hown⟩ := hall p' hp'
      exact ⟨h, hm, hprocess, hown.trans (hlasts.same.2 p'.name k)⟩

/-! ### Answers -/

theorem fails_handed (fs : List Fetch) : ∀ h ∈ (fs.foldl Source.failed s).handed,
    h ∈ s.handed ∨ h.process = none := by
  induction fs generalizing s with
  | nil => exact fun h hm => .inl hm
  | cons f fs ih =>
    intro h hm
    rcases ih (s := s.failed f) h hm with hm | hnone
    · exact (failed_handed f).2 h hm
    · exact .inr hnone

/-- What was fetched from nowhere is no one's. -/
theorem Fresh.grows (h : s.Fresh) (hm : ∀ x ∈ s'.handed, x ∈ s.handed ∨ x.process = none) :
    s'.Fresh := by
  intro x hx q hq
  rcases hm x hx with hold | hnone
  · exact h x hold q hq
  · rw [hnone] at hq
    cases hq

variable {py : Payloads} {payload : String} {k : ConnId}

theorem filled_columns {key : String} (h : s.Steady fun g => g = .columns k key ∨ still g)
    (hfresh : s.Fresh) (hj : s.session.chan.job = true) :
    (s.filled py (.columns k key) payload).Steady still ∧
      (s.filled py (.columns k key) payload).Fresh := by
  simp only [Source.filled]
  split
  · next hnone =>
    refine ⟨h.drop (fun g hg => hg.elim) fun g hg => .inr ?_, hfresh⟩
    rw [hg.resolve_right id]
    exact hnone
  · next e he =>
    have hset : (s.setCols k e key
        (some (.fetched (py.columns payload) s.session.chan.process))).Steady still := by
      refine h.setCols he (fun g hne => iff_of_false id fun hg => hg.elim hne id) nofun
        (fun cols q hc => ?_) fun hf nodes p ht => ?_
      · cases hc
        exact ⟨rfl, fun nodes p ht => h.flight (.columns k key) e nodes p (.inr (.inl rfl)) he ht⟩
      · exact h.flight (.columns k key) e nodes p (hf.imp_right fun hg => hg.elim) he ht
    split
    · next ps hc =>
      obtain ⟨-, hown⟩ := h.parked k e key ps he hc
      rw [hands_eq]
      refine ⟨hset.handed _, fun x hx => ?_⟩
      rcases List.mem_append.mp hx with hx | hx
      · exact hfresh x hx
      · obtain ⟨p, hp, rfl⟩ := List.mem_map.mp hx
        exact fun q hq => ⟨hj, Option.some.inj hq, hown p hp⟩
    · exact ⟨hset, hfresh⟩

theorem filled_nodes (h : s.Steady fun g => g = .nodes k ∨ still g) (hfresh : s.Fresh)
    (hj : s.session.chan.job = true) (hown : ∀ e ps, s.cache k = some e → e.tree = .pending ps →
      ∀ p ∈ ps, Own s.session.chan p.name k) :
    (s.filled py (.nodes k) payload).Steady still ∧ (s.filled py (.nodes k) payload).Fresh := by
  simp only [Source.filled]
  split
  · next hnone =>
    refine ⟨h.drop (fun g hg => hg.elim) fun g hg => .inr ?_, hfresh⟩
    rw [hg.resolve_right id]
    exact hnone
  · next e he =>
    have hset : (s.setEntry k (some { e with
        tree := .fetched (py.nodes payload) s.session.chan.process })).Steady still := by
      refine h.setEntry (fun _ hg => hg.elim) (fun g hne hg => ?_) nofun (fun f nodes p _ _ ht => ?_)
        (fun key ps hc => ?_) (fun key cols q nodes p hc ht => ?_) fun key cols q hc _ => ?_
      · rw [hg.resolve_right id] at hne
        exact absurd rfl hne
      · exact (Tree.fetched.inj ht).2.symm
      · obtain ⟨hf, hps⟩ := h.parked k e key ps he hc
        exact ⟨hf.imp_right fun hg => hg.elim nofun id, hps⟩
      · rw [← (Tree.fetched.inj ht).2]
        exact h.late k e key cols q he hc (.inr (.inl rfl))
      · exact h.late k e key cols q he hc (.inr (.inl rfl))
    split
    · next ps ht =>
      have hheld : (s.setEntry k (some { e with
          tree := .fetched (py.nodes payload) s.session.chan.process })).Held k
          (py.nodes payload) := ⟨hset, hfresh, hj, _, Function.update_self .., rfl⟩
      have hall := hheld.gives ps rfl (hown e ps he ht)
      exact ⟨hall.steady, hall.fresh⟩
    · exact ⟨hset, hfresh⟩

theorem filled_owned (ho : s.session.Orderly) (hj : s.session.chan.job = true)
    (hfresh : (s.filled py (.nodes k) payload).Fresh) {e : Entry} {ps : List Parked}
    (he : s.cache k = some e) (ht : e.tree = .pending ps) :
    ∀ p ∈ ps, Own s.session.chan p.name k := by
  intro p hp
  simp only [Source.filled, he, ht] at hfresh
  obtain ⟨-, hall⟩ := gives_hands (s := s.setEntry k (some { e with
    tree := .fetched (py.nodes payload) s.session.chan.process })) ps ho hj k (py.nodes payload)
    s.session.chan.process
  obtain ⟨x, hx, hprocess, hown⟩ := hall p hp
  exact hown.mp (hfresh x hx _ hprocess).2.2

/-! ### Steps -/

variable {bld : Build} [BsonCells V B]

omit [BsonCells V B] in
/-- What the next line is to cmp.lua: nothing, the handshake, or the answer to a request. -/
theorem heard_cases (s : Source V B) (session : Session V B) (py : Payloads) :
    s.heard session py = { s with session } ∨
    (∃ sent, s.heard session py = { s with session, sent, waits := [] } ∧
      ∀ g, (∃ id, (id, g) ∈ sent) ↔ s.Flight g) ∨
    ∃ id r out f, s.session.chan.server.out = .response id r :: out ∧
      s.session.chan.pending.lookup id = some .ignored ∧ s.sent.lookup id = some f ∧
      s.heard session py = ({ s with session, sent := s.sent.erase (id, f) }.answered py f r) := by
  unfold heard
  split
  · next id r out hout =>
    split
    · refine .inr (.inl ⟨_, rfl, fun g => ?_⟩)
      simp only [List.mem_append, List.mem_map, Prod.mk.injEq, Prod.exists, exists_or, Flight]
      refine or_congr_right ⟨?_, ?_⟩
      · rintro ⟨id', i, f, hm, -, rfl⟩
        exact ⟨i, hm⟩
      · rintro ⟨i, hm⟩
        exact ⟨_, i, g, hm, rfl, rfl⟩
    · next hp =>
      split
      · next f hf => exact .inr (.inr ⟨id, r, out, f, hout, hp, hf, rfl⟩)
      · exact .inl rfl
    · exact .inl rfl
  · exact .inl rfl

omit [BsonCells V B] in
/-- The request that is answered is on its way no more. -/
theorem Steady.answering (h : s.Steady still) (hj : s.session.chan.job = true) {id : ReqId}
    {f : Fetch} (hf : s.sent.lookup id = some f) :
    ({ s with sent := s.sent.erase (id, f) } : Source V B).Steady fun g => g = f ∨ still g := by
  have hmem : (id, f) ∈ s.sent := by
    obtain ⟨l₁, l₂, hl, -⟩ := List.lookup_eq_some_iff.mp hf
    rw [hl]
    exact List.mem_append_right _ List.mem_cons_self
  refine h.refile (s.sent.erase (id, f)) s.waits (fun g => ?_) fun hj' => ?_
  · constructor
    · rintro ((⟨id', hm⟩ | hm) | rfl | hg)
      · exact .inl (.inl ⟨id', List.mem_of_mem_erase hm⟩)
      · exact .inl (.inr hm)
      · exact .inl (.inl ⟨id, hmem⟩)
      · exact hg.elim
    · rintro ((⟨id', hm⟩ | hm) | hg)
      · by_cases hgf : g = f
        · exact .inr (.inl hgf)
        · refine .inl (.inl ⟨id', (List.mem_erase_of_ne fun heq => ?_).mpr hm⟩)
          exact hgf (Prod.mk.inj heq).2
      · exact .inl (.inr hm)
      · exact hg.elim
  · rw [hj] at hj'
    cases hj'

theorem deliver_kept (h : s.Steady still) (hfresh : s.Fresh) {session : Session V B}
    (hst : s.session.step bld .deliver = some session)
    (ht : s.Tidy (.drawer (.session .deliver))) :
    (s.heard session py).Steady still ∧ (s.heard session py).Fresh := by
  obtain ⟨hj, hstays, hcalm⟩ := deliver_stays h.orderly h.calm hst
  have hmoved : ({ s with session } : Source V B).Steady still :=
    h.moves (fun _ hg => hg.elim) (h.orderly.step hst) hcalm hstays fun k e he => ⟨he, id⟩
  have hj' : session.chan.job = true := hstays.job hj
  rcases heard_cases s session py with heq | ⟨sent, heq, hf⟩ | ⟨id, r, out, f, hout, hp, hf, heq⟩
  · rw [heq]
    exact ⟨hmoved, hfresh⟩
  · rw [heq]
    refine ⟨hmoved.refile sent [] (fun g => ?_) fun hdown => ?_, hfresh⟩
    · refine or_congr_left ?_
      rw [hf]
      exact or_iff_left fun ⟨_, hm⟩ => List.not_mem_nil hm
    · rw [show session.chan.job = false from hdown] at hj'
      cases hj'
  · rw [heq]
    have hans : ({ s with session, sent := s.sent.erase (id, f) } : Source V B).Steady
        fun g => g = f ∨ still g := hmoved.answering hj' hf
    have hfail : (({ s with session, sent := s.sent.erase (id, f) } : Source V B).failed f).Steady
        still ∧ (({ s with session, sent := s.sent.erase (id, f) } : Source V B).failed f).Fresh :=
      ⟨hans.failed, hfresh.grows (failed_handed f).2⟩
    unfold answered
    split
    · next payload =>
      cases f with
      | columns k key => exact filled_columns hans hfresh hj'
      | nodes k =>
        refine filled_nodes hans hfresh hj' fun e ps he hps p hm => ?_
        exact ((deliver_ignored hst hout hp).2 p.name k).mpr
          (ht id payload out k e ps hout hp hf he hps p hm)
    · exact hfail

theorem deliver_tidy (h : s.Steady still) {session : Session V B}
    (hst : s.session.step bld .deliver = some session) (hfresh : (s.heard session py).Fresh) :
    s.Tidy (.drawer (.session .deliver)) := by
  intro id payload out k e ps hout hp hf he ht p hm
  obtain ⟨hj, hstays, -⟩ := deliver_stays h.orderly h.calm hst
  have heq : s.heard session py =
      ({ s with session, sent := s.sent.erase (id, .nodes k) } : Source V B).filled py (.nodes k)
        payload := by
    simp only [heard, hout, hp, hf, answered]
  rw [heq] at hfresh
  have hown := filled_owned (s := { s with session, sent := s.sent.erase (id, .nodes k) })
    (h.orderly.step hst) (hstays.job hj) hfresh he ht p hm
  exact ((deliver_ignored hst hout hp).2 p.name k).mp hown

omit [BsonCells V B] in
theorem exited_kept (h : s.Steady still) (hfresh : s.Fresh) {session : Session V B} {err : String}
    (ho : session.Orderly) (hs : session.chan = (s.session.chan.teardown err).1) :
    (s.exited session).Steady still ∧ (s.exited session).Fresh := by
  have hmem : ∀ g, g ∈ s.sent.map (·.2) ++ s.waits.map (·.2) ↔ s.Flight g := by
    intro g
    simp only [List.mem_append, List.mem_map, Prod.exists, exists_eq_right, Flight]
  have hprocess : session.chan.process = s.session.chan.process := by rw [hs]; rfl
  have hown : ∀ name k, Own session.chan name k ↔ Own s.session.chan name k := fun name k => by
    rw [hs]
    exact own_congr rfl rfl
  have hdown : ({ s with session, sent := [], waits := [] } : Source V B).Steady
      (· ∈ s.sent.map (·.2) ++ s.waits.map (·.2)) := by
    have hback : ∀ g, ({ s with session, sent := [], waits := [] } : Source V B).Flight g ∨
        g ∈ s.sent.map (·.2) ++ s.waits.map (·.2) → s.Flight g := by
      rintro g ((⟨_, hm⟩ | ⟨_, hm⟩) | hm)
      · cases hm
      · cases hm
      · exact (hmem g).mp hm
    refine ⟨ho, ?_, fun _ => ⟨rfl, rfl⟩, fun k e ps he ht => .inr ((hmem _).mpr ?_), ?_, ?_,
      h.kept, ?_⟩
    · show Calm session.chan
      rw [hs]
      exact fun hr => absurd hr Bool.false_ne_true
    · exact (h.tree k e ps he ht).resolve_right id
    · intro g e nodes p hg he ht
      exact (h.flight g e nodes p (.inl (hback g hg)) he ht).trans hprocess.symm
    · intro k e key ps he hc
      obtain ⟨hf, hps⟩ := h.parked k e key ps he hc
      exact ⟨.inr ((hmem _).mpr (hf.resolve_right id)), fun p hp => (hown p.name k).mpr (hps p hp)⟩
    · intro k e key cols q he hc hg
      exact (h.late k e key cols q he hc (.inl (hback _ hg))).trans hprocess.symm
  exact ⟨hdown.fails, hfresh.grows (fails_handed _)⟩

omit [BsonCells V B] in
theorem get_kept (h : s.Steady still) (hfresh : s.Fresh) (dotted : Option String)
    (ht : s.Tidy (.get dotted)) : (s.get dotted).Steady still ∧ (s.get dotted).Fresh := by
  unfold Source.get
  split
  · exact ⟨h, hfresh⟩
  · next name hactive =>
    split
    · exact ⟨h, hfresh⟩
    · next k hlive =>
      unfold withStructure
      split
      · next e he =>
        split
        · next nodes p htree =>
          obtain ⟨hj, rfl, hown⟩ := ht name k e nodes p hactive hlive he htree
          have hheld : s.Held k nodes := ⟨h, hfresh, hj, e, he, htree⟩
          have hgiven := (hheld.giveTree (p := ⟨name, dotted⟩) hown).1
          exact ⟨hgiven.steady, hgiven.fresh⟩
        · exact ⟨h.handed _, hfresh.hand nofun⟩
        · next ps htree =>
          refine ⟨h.setEntry (fun _ hg => hg.elim) (fun _ _ hg => hg.elim) (fun _ _ => ?_) nofun
            (fun key ps' hc => h.parked k e key ps' he hc) nofun
            (fun key cols q hc hf => h.late k e key cols q he hc hf), hfresh⟩
          exact h.tree k e ps he htree
      · exact ⟨h.ask_tree k _, hfresh.grows (ask_handed (s := s.setEntry k _) _)⟩

omit [BsonCells V B] in
theorem get_tidy {dotted : Option String} (hfresh : (s.get dotted).Fresh) :
    s.Tidy (.get dotted) := by
  intro name k e nodes p hactive hlive he ht
  obtain ⟨-, items, hmem⟩ := giveTree_hands (s := s) k nodes p ⟨name, dotted⟩
  have hget : s.get dotted = s.giveTree k nodes p ⟨name, dotted⟩ := by
    simp only [Source.get, hactive, hlive, withStructure, he, ht]
  rw [hget] at hfresh
  exact hfresh _ hmem p rfl

theorem act_kept (h : s.Steady still) (hfresh : s.Fresh) {a : Session.Act V B}
    {session : Session V B} (hst : s.session.act bld a = some session)
    (hd : a ≠ .session .deliver) (he : a ≠ .session .exited) :
    (({ s with session } : Source V B).invalidate (closing s.session a)).Steady still ∧
      (({ s with session } : Source V B).invalidate (closing s.session a)).Fresh := by
  obtain ⟨hstays, hcalm⟩ := act_stays h.orderly h.calm hst hd he
  have ho : session.Orderly := h.orderly.act hst
  unfold invalidate
  split
  · next hnone =>
    refine ⟨h.moves (fun _ hg => hg.elim) ho hcalm hstays fun k e hc => ⟨hc, ?_⟩, hfresh⟩
    rw [hnone]
    exact nofun
  · next k hk =>
    refine ⟨h.moves (fun _ hg => hg.elim) ho hcalm hstays fun k' e hc => ?_, hfresh⟩
    by_cases heq : k' = k
    · rw [heq, Function.update_self] at hc
      cases hc
    · rw [Function.update_of_ne heq] at hc
      rw [hk, Option.some.injEq]
      exact ⟨hc, Ne.symm heq⟩

/-- The steps that are tidy whatever the cache holds. -/
theorem step_drawer {a : Session.Act V B} (hst : s.step bld py (.drawer a) = some s') :
    (a = .session .deliver ∧ ∃ session, s.session.step bld .deliver = some session ∧
      s' = s.heard session py) ∨
    (a = .session .exited ∧ ∃ session, s.session.act bld (.session .exited) = some session ∧
      session.chan = (s.session.chan.teardown "daemon exited").1 ∧ s' = s.exited session) ∨
    (a ≠ .session .deliver ∧ a ≠ .session .exited ∧ ∃ session,
      s.session.act bld a = some session ∧
      s' = ({ s with session } : Source V B).invalidate (closing s.session a)) := by
  by_cases hd : a = .session .deliver
  · subst hd
    obtain ⟨session, hsession, rfl⟩ := Option.map_eq_some_iff.mp hst
    exact .inl ⟨rfl, session, hsession, rfl⟩
  · by_cases he : a = .session .exited
    · subst he
      obtain ⟨session, hsession, rfl⟩ := Option.map_eq_some_iff.mp hst
      refine .inr (.inl ⟨rfl, session, hsession, ?_, rfl⟩)
      simp only [Session.act, Session.step, Option.ite_none_right_eq_some] at hsession
      obtain ⟨-, hsession⟩ := hsession
      cases hsession
      exact (Session.fails_asks (s.session.chan.teardown "daemon exited").2
        { s.session with chan := (s.session.chan.teardown "daemon exited").1 }).2.2
    · have hother : s.step bld py (.drawer a) = (s.session.act bld a).map fun session =>
          ({ s with session } : Source V B).invalidate (closing s.session a) := by
        cases a with
        | session i =>
          cases i with
          | deliver => exact absurd rfl hd
          | exited => exact absurd rfl he
          | _ => rfl
        | _ => rfl
      rw [hother] at hst
      obtain ⟨session, hsession, rfl⟩ := Option.map_eq_some_iff.mp hst
      exact .inr (.inr ⟨hd, he, session, hsession, rfl⟩)

theorem step_kept (h : s.Steady still) (hfresh : s.Fresh) {m : Move V B}
    (hst : s.step bld py m = some s') (ht : s.Tidy m) : s'.Steady still ∧ s'.Fresh := by
  cases m with
  | drawer a =>
    rcases step_drawer hst with ⟨rfl, session, hs, rfl⟩ | ⟨rfl, session, hs, hc, rfl⟩ |
      ⟨hd, he, session, hs, rfl⟩
    · exact deliver_kept h hfresh hs ht
    · exact exited_kept h hfresh (h.orderly.act hs) hc
    · exact act_kept h hfresh hs hd he
  | setActive name =>
    cases hst
    exact ⟨⟨h.orderly, h.calm, h.idle, h.tree, h.flight, h.parked, h.kept, h.late⟩, hfresh⟩
  | get dotted =>
    cases hst
    exact get_kept h hfresh dotted ht

theorem step_tidy (h : s.Steady still) {m : Move V B} (hst : s.step bld py m = some s')
    (hfresh : s'.Fresh) : s.Tidy m := by
  cases m with
  | drawer a =>
    rcases step_drawer hst with ⟨rfl, session, hs, rfl⟩ | ⟨rfl, session, hs, -, rfl⟩ |
      ⟨hd, he, -, -, -⟩
    · exact deliver_tidy h hs hfresh
    · trivial
    · unfold Tidy
      cases a with
      | session i =>
        cases i with
        | deliver => exact absurd rfl hd
        | _ => trivial
      | _ => trivial
  | setActive name => trivial
  | get dotted =>
    cases hst
    exact get_tidy hfresh

/-- All that is handed to completion in a run comes of the connection its id denotes then, for
the connection it was asked for, exactly when every request and every arriving tree of the run
meets what is its own. -/
theorem completion_fresh_iff {ms : List (Move V B)}
    (h : (machine bld py).Run Lib.Machine.free new ms s) :
    (machine bld py).Throughout new ms Fresh ↔ (machine bld py).Run Tidy new ms s := by
  refine h.throughout_iff_with (Steady still) Fresh (fun _ _ _ hg hk hf hst => ?_)
    (fun _ _ _ hk hf hst => ⟨step_tidy hk hst, fun ht => ?_⟩) steady_new nofun
  · exact (step_kept hk hf hst hg).1
  · exact (step_kept hk hf hst ht).2

/-! ### Runs -/

/-- A move that meets no tree. -/
def plainMove (s : Source V B) : Move V B → Bool
  | .get _ =>
    match s.active.bind s.session.liveConn with
    | none => true
    | some k => (s.cache k).isNone
  | .drawer (.session .deliver) =>
    match s.session.chan.server.out with
    | .response id _ :: _ => (s.sent.lookup id).isNone
    | _ => true
  | _ => true

omit [BsonCells V B] in
theorem plainMove_tidy (s : Source V B) (m : Move V B) (h : s.plainMove m = true) : s.Tidy m := by
  cases m with
  | get dotted =>
    intro name k e nodes p hactive hlive he _
    simp [plainMove, hactive, hlive, he] at h
  | setActive name => trivial
  | drawer a =>
    cases a with
    | session i =>
      cases i with
      | deliver =>
        intro id payload out k e ps hout _ hf
        simp [plainMove, hout, hf] at h
      | _ => trivial
    | _ => trivial

/-- A payload names one schema. -/
def plainPayloads : Payloads := ⟨fun payload => [⟨some payload, []⟩], fun _ => []⟩

/-- The steps of the session. -/
def ofSession (is : List (Client.Input ℕ ℕ)) : List (Move ℕ ℕ) :=
  is.map fun i => .drawer (.session i)

/-- Completion asks for the schema of a connection, up to the answer of the engine. -/
def oneTree : List (Move ℕ ℕ) :=
  ofSession (.save "b" ⟨"sqlite", []⟩ ::
      (Session.firstGreeting ++ .deliver :: Session.connecting)) ++
    [.setActive "a", .get none] ++ ofSession ([.receive, .receive] ++
      List.replicate 5 (.engine (.handler 3 { driver := .ok "main" })))

/-- What the process was asked in that run. -/
def oneTreeAsked : ReqId → Option (Request × Cb) :=
  Function.update (Function.update (Function.update (Function.update (fun _ => none)
    1 (some (.hello, .hello)))
    2 (some (.connect ⟨"sqlite", []⟩, .loadSchema (0, "a"))))
    3 (some (.schema 1 .structureNodes, .nodes (0, "a"))))
    4 (some (.schema 1 .structureNodes, .ignored))

theorem oneTree_own {c : Channel ℕ ℕ} (hasked : c.asked = oneTreeAsked)
    (hopened : .opened 2 1 ∈ c.server.hist) : Own c "a" 1 := by
  refine ⟨⟨2, ⟨"sqlite", []⟩, .loadSchema (0, "a"), by rw [hasked]; rfl, rfl, hopened⟩,
    fun id cb hid => ?_⟩
  rw [hasked] at hid
  simp only [oneTreeAsked, Function.update_apply] at hid
  split_ifs at hid <;> cases hid

theorem completion_fresh_iff_one_tree : ∃ s,
    (machine .checked plainPayloads).Run Lib.Machine.free new
      (oneTree ++ [.drawer (.session .deliver), .get none]) s ∧
    s.handed.map (·.process) = [some 1, some 1] ∧
    (machine .checked plainPayloads).Throughout new
      (oneTree ++ [.drawer (.session .deliver), .get none]) Fresh := by
  let M := machine (V := ℕ) (B := ℕ) .checked plainPayloads
  have hsome : ((M.execWith plainMove new oneTree).bind fun s =>
      (M.step s (.drawer (.session .deliver))).bind fun t => M.step t (.get none)).map
        (fun s => s.handed.map (·.process)) = some [some 1, some 1] := rfl
  obtain ⟨s, hs, hhanded⟩ := Option.map_eq_some_iff.mp hsome
  obtain ⟨s₁, h₁, hs⟩ := Option.bind_eq_some_iff.mp hs
  obtain ⟨s₂, h₂, h₃⟩ := Option.bind_eq_some_iff.mp hs
  have hview₁ : (M.execWith plainMove new oneTree).map (fun s => (s.session.chan.asked,
      s.session.chan.server.hist[2]?, s.sent, s.cache 1)) =
      some (oneTreeAsked, some (.opened 2 1), [(4, .nodes 1)],
        some ⟨.pending [⟨"a", none⟩], fun _ => none⟩) := rfl
  have hview₂ : ((M.execWith plainMove new oneTree).bind fun s =>
      M.step s (.drawer (.session .deliver))).map (fun s => (s.session.chan.asked,
        s.session.chan.server.hist[2]?, s.active, s.session.liveConn "a", s.session.chan.job,
        s.session.chan.process, (s.cache 1).map (·.tree))) =
      some (oneTreeAsked, some (.opened 2 1), some "a", some 1, true, 1,
        some (.fetched [⟨some "main", []⟩] 1)) := rfl
  rw [h₁] at hview₁
  rw [h₁, Option.bind_some, h₂] at hview₂
  simp only [Option.map_some, Option.some.injEq, Prod.mk.injEq] at hview₁ hview₂
  obtain ⟨hasked₁, hopened₁, hsent, hcache₁⟩ := hview₁
  obtain ⟨hasked₂, hopened₂, hactive, hlive, hj, hprocess, hcache₂⟩ := hview₂
  have htidy₁ : s₁.Tidy (.drawer (.session .deliver)) := by
    intro id payload out k e ps _ _ hf he ht p hp
    have hk : Fetch.nodes k = .nodes 1 := by
      rw [hsent, List.lookup_cons] at hf
      split at hf
      · exact (Option.some.inj hf).symm
      · cases hf
    obtain rfl := Fetch.nodes.inj hk
    rw [he, Option.some.injEq] at hcache₁
    rw [hcache₁] at ht
    obtain rfl := Tree.pending.inj ht
    rw [List.mem_singleton.mp hp]
    exact oneTree_own hasked₁ (List.mem_of_getElem? hopened₁)
  have htidy₂ : s₂.Tidy (.get none) := by
    intro name k e nodes p hname hk he ht
    obtain rfl := Option.some.inj (hname.symm.trans hactive)
    obtain rfl := Option.some.inj (hk.symm.trans hlive)
    rw [he, Option.map_some, ht, Option.some.injEq] at hcache₂
    refine ⟨hj, ?_, oneTree_own hasked₂ (List.mem_of_getElem? hopened₂)⟩
    rw [hprocess]
    exact (Tree.fetched.inj hcache₂).2.symm
  have hrun : M.Run Tidy new (oneTree ++ [.drawer (.session .deliver), .get none]) s :=
    (Lib.Machine.run_of_execWith plainMove_tidy h₁).append
      (.cons htidy₁ h₂ (.cons htidy₂ h₃ (.nil s)))
  have hfree : M.Run Lib.Machine.free new
      (oneTree ++ [.drawer (.session .deliver), .get none]) s := hrun.weaken fun _ _ _ => trivial
  exact ⟨s, hfree, hhanded, (completion_fresh_iff hfree).mpr hrun⟩

/-- A process is replaced while the cache holds a tree under an id, and the id comes back for
another connection: completion for that one offers the tree. -/
def staleTree : List (Move ℕ ℕ) :=
  oneTree ++ ofSession ([.deliver, .die 0, .exited] ++
    (Session.greeting (.run "b" "select 1") ++ .deliver :: Session.connecting)) ++
    [.setActive "b", .get none]

theorem other_connection_offered : ∃ s,
    (machine .checked plainPayloads).Run Lib.Machine.free new staleTree s ∧ ¬ s.Fresh ∧
      ∃ h ∈ s.handed, h.name = "b" ∧ h.conn = 1 ∧ h.chan.process = 2 ∧
        h.chan.OpenedFor "b" 1 ∧ h.process = some 1 ∧
        h.items = [⟨"main", KIND_SCHEMA, some "schema"⟩] := by
  let M := machine (V := ℕ) (B := ℕ) .checked plainPayloads
  obtain ⟨s, hs, hr⟩ := M.exists_run new staleTree rfl
  have hview : (M.exec new staleTree).map (fun s => s.handed[1]?.map fun h =>
      (h.name, h.conn, h.chan.process, h.chan.asked 6, h.chan.server.hist[1]?, h.process,
        h.items)) =
      some (some ("b", 1, 2, some (.connect ⟨"sqlite", []⟩, .withConn "b" "select 1"),
        some (.opened 6 1), some 1, [⟨"main", KIND_SCHEMA, some "schema"⟩])) := rfl
  rw [hs, Option.map_some, Option.some.injEq, Option.map_eq_some_iff] at hview
  obtain ⟨h, hm, hview⟩ := hview
  simp only [Prod.mk.injEq] at hview
  obtain ⟨hname, hconn, hprocess, hasked, hopened, hfetched, hitems⟩ := hview
  have hmem : h ∈ s.handed := List.mem_of_getElem? hm
  have hfor : h.chan.OpenedFor "b" 1 := ⟨6, _, _, hasked, rfl, List.mem_of_getElem? hopened⟩
  refine ⟨s, hr, fun hfresh => ?_, h, hmem, hname, hconn, hprocess, hfor, hfetched, hitems⟩
  have hsame := (hfresh h hmem 1 hfetched).2.1
  rw [hprocess] at hsame
  cases hsame

end Source
end LvimDb.Completion
