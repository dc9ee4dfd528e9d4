import LvimDb.Completion.Steps

/-!
# The cache of a running process

A tree that is not there yet is on its way. What is kept under one id, and what is fetched for
it, comes of one process, as long as every tree that is handed out is of the process that runs;
and who waits for columns waits for a connection of its own.
-/

namespace LvimDb.Completion
open Engine (ConnId ReqId Reply Request BsonCells Build)
open Client (Session Channel Cb)

variable {V B : Type}

/-- The connection that is asked. -/
def Fetch.conn : Fetch → ConnId
  | .nodes k => k
  | .columns k _ => k

namespace Source
variable {s s' : Source V B}

/-- A request of cmp.lua has no answer yet. -/
def Flight (s : Source V B) (f : Fetch) : Prop :=
  (∃ id, (id, f) ∈ s.sent) ∨ ∃ i, (i, f) ∈ s.waits

/-- The requests in `gone` are being answered. -/
structure Steady (gone : Fetch → Prop) (s : Source V B) : Prop where
  orderly : s.session.Orderly
  calm : Calm s.session.chan
  idle : s.session.chan.job = false → s.sent = [] ∧ s.waits = []
  tree : ∀ k e ps, s.cache k = some e → e.tree = .pending ps →
    s.Flight (.nodes k) ∨ gone (.nodes k)
  flight : ∀ f e nodes p, s.Flight f ∨ gone f → s.cache f.conn = some e →
    e.tree = .fetched nodes p → p = s.session.chan.process
  parked : ∀ k e key ps, s.cache k = some e → e.cols key = some (.pending ps) →
    (s.Flight (.columns k key) ∨ gone (.columns k key)) ∧
      ∀ p ∈ ps, Own s.session.chan p.name k
  kept : ∀ k e key cols q nodes p, s.cache k = some e → e.cols key = some (.fetched cols q) →
    e.tree = .fetched nodes p → q = p
  late : ∀ k e key cols q, s.cache k = some e → e.cols key = some (.fetched cols q) →
    s.Flight (.nodes k) ∨ gone (.nodes k) → q = s.session.chan.process

/-- Nothing is being answered. -/
abbrev still : Fetch → Prop := fun _ => False

theorem steady_new : (new : Source V B).Steady still where
  orderly := Session.orderly_new
  calm h := by cases h
  idle _ := ⟨rfl, rfl⟩
  tree _ _ _ h := by cases h
  flight _ _ _ _ _ h := by cases h
  parked _ _ _ _ h := by cases h
  kept _ _ _ _ _ _ _ h := by cases h
  late _ _ _ _ _ h := by cases h

theorem Steady.running {gone : Fetch → Prop} (h : s.Steady gone) {f : Fetch} (hf : s.Flight f) :
    s.session.chan.job = true := by
  cases hj : s.session.chan.job with
  | true => rfl
  | false =>
    obtain ⟨hsent, hwaits⟩ := h.idle hj
    rcases hf with ⟨id, hm⟩ | ⟨i, hm⟩
    · rw [hsent] at hm
      cases hm
    · rw [hwaits] at hm
      cases hm

variable {gone gone' : Fetch → Prop}

/-- The session moves on and what is kept for `dis` is dropped. -/
theorem Steady.moves (h : s.Steady gone) (hg : ∀ f, gone f → s.session.chan.job = true)
    {session : Session V B} {cache : ConnId → Option Entry} {dis : ConnId → Prop} (ho : session.Orderly)
    (hc : Calm session.chan) (hs : Stays dis s.session.chan session.chan)
    (hcache : ∀ k e, cache k = some e → s.cache k = some e ∧ ¬ dis k) :
    ({ s with session, cache } : Source V B).Steady gone where
  orderly := ho
  calm := hc
  idle hj := by
    refine h.idle ?_
    cases hj' : s.session.chan.job with
    | false => rfl
    | true =>
      rw [hs.job hj'] at hj
      cases hj
  tree k e ps he ht := h.tree k e ps (hcache k e he).1 ht
  flight f e nodes p hf he ht := by
    rw [hs.process (hf.elim h.running (hg _))]
    exact h.flight f e nodes p hf (hcache f.conn e he).1 ht
  parked k e key ps he hk := by
    obtain ⟨hold, hdis⟩ := hcache k e he
    obtain ⟨hf, hown⟩ := h.parked k e key ps hold hk
    have hj := hf.elim h.running (hg _)
    exact ⟨hf, fun p hp => hs.own hj p.name k (hown p hp) hdis⟩
  kept k e key cols q nodes p he := h.kept k e key cols q nodes p (hcache k e he).1
  late k e key cols q he hk hf := by
    rw [hs.process (hf.elim h.running (hg _))]
    exact h.late k e key cols q (hcache k e he).1 hk hf

/-- What has been handed out is of no account here. -/
theorem Steady.handed (h : s.Steady gone) (handed : List (Handed V B)) :
    ({ s with handed } : Source V B).Steady gone :=
  ⟨h.orderly, h.calm, h.idle, h.tree, h.flight, h.parked, h.kept, h.late⟩

theorem hands_eq (k : ConnId) (process : Option ℕ) (items : List Item) (ps : List Parked)
    (s : Source V B) : ps.foldl (fun s p => s.hand k process items p) s =
      { s with
        handed := s.handed ++ ps.map (fun p => ⟨p.name, k, process, items, s.session.chan⟩) } := by
  induction ps generalizing s with
  | nil => rw [List.map_nil, List.append_nil]; rfl
  | cons p ps ih =>
    rw [List.foldl_cons, ih, List.map_cons]
    simp only [hand, List.append_assoc, List.cons_append, List.nil_append]

/-- The entry of one id is written. -/
theorem Steady.setEntry (h : s.Steady gone) {k : ConnId} {e' : Entry}
    (hgone : ∀ f, gone' f → gone f ∨ f.conn = k)
    (hkeep : ∀ f, f.conn ≠ k → gone f → gone' f)
    (htree : ∀ ps, e'.tree = .pending ps → s.Flight (.nodes k) ∨ gone' (.nodes k))
    (hflight : ∀ f nodes p, f.conn = k → s.Flight f ∨ gone' f → e'.tree = .fetched nodes p →
      p = s.session.chan.process)
    (hparked : ∀ key ps, e'.cols key = some (.pending ps) →
      (s.Flight (.columns k key) ∨ gone' (.columns k key)) ∧
        ∀ p ∈ ps, Own s.session.chan p.name k)
    (hkept : ∀ key cols q nodes p, e'.cols key = some (.fetched cols q) →
      e'.tree = .fetched nodes p → q = p)
    (hlate : ∀ key cols q, e'.cols key = some (.fetched cols q) →
      s.Flight (.nodes k) ∨ gone' (.nodes k) → q = s.session.chan.process) :
    (s.setEntry k (some e')).Steady gone' := by
  have hcache : ∀ k' e, (s.setEntry k (some e')).cache k' = some e →
      k' = k ∧ e = e' ∨ k' ≠ k ∧ s.cache k' = some e := by
    intro k' e he
    rw [setEntry_cache] at he
    by_cases hk : k' = k
    · rw [hk, Function.update_self, Option.some.injEq] at he
      exact .inl ⟨hk, he.symm⟩
    · rw [Function.update_of_ne hk] at he
      exact .inr ⟨hk, he⟩
  have hback : ∀ f, f.conn ≠ k → s.Flight f ∨ gone' f → s.Flight f ∨ gone f := fun f hne hf =>
    hf.imp_right fun hg => (hgone f hg).resolve_right hne
  have hforth : ∀ f, f.conn ≠ k → s.Flight f ∨ gone f → s.Flight f ∨ gone' f := fun f hne hf =>
    hf.imp_right (hkeep f hne)
  refine ⟨h.orderly, h.calm, h.idle, ?_, ?_, ?_, ?_, ?_⟩
  · intro k' e ps he ht
    rcases hcache k' e he with ⟨rfl, rfl⟩ | ⟨hne, he⟩
    · exact htree ps ht
    · exact hforth (.nodes k') hne (h.tree k' e ps he ht)
  · intro f e nodes p hf he ht
    rcases hcache f.conn e he with ⟨hk, rfl⟩ | ⟨hne, he⟩
    · exact hflight f nodes p hk hf ht
    · exact h.flight f e nodes p (hback f hne hf) he ht
  · intro k' e key ps he hc
    rcases hcache k' e he with ⟨rfl, rfl⟩ | ⟨hne, he⟩
    · exact hparked key ps hc
    · obtain ⟨hf, hown⟩ := h.parked k' e key ps he hc
      exact ⟨hforth (.columns k' key) hne hf, hown⟩
  · intro k' e key cols q nodes p he hc ht
    rcases hcache k' e he with ⟨rfl, rfl⟩ | ⟨hne, he⟩
    · exact hkept key cols q nodes p hc ht
    · exact h.kept k' e key cols q nodes p he hc ht
  · intro k' e key cols q he hc hf
    rcases hcache k' e he with ⟨rfl, rfl⟩ | ⟨hne, he⟩
    · exact hlate key cols q hc hf
    · exact h.late k' e key cols q he hc (hback (.nodes k') hne hf)

/-- A request for which nothing is kept is answered. -/
theorem Steady.drop (h : s.Steady gone) (hgone : ∀ f, gone' f → gone f)
    (hkeep : ∀ f, gone f → gone' f ∨ s.cache f.conn = none) : s.Steady gone' := by
  have hforth : ∀ f e, s.cache f.conn = some e → s.Flight f ∨ gone f → s.Flight f ∨ gone' f := by
    intro f e he hf
    refine hf.imp_right fun hg => (hkeep f hg).resolve_right ?_
    rw [he]
    exact Option.some_ne_none e
  refine ⟨h.orderly, h.calm, h.idle, fun k e ps he ht => ?_, fun f e nodes p hf => ?_,
    fun k e key ps he hc => ?_, h.kept, fun k e key cols q he hc hf => ?_⟩
  · exact hforth (.nodes k) e he (h.tree k e ps he ht)
  · exact h.flight f e nodes p (hf.imp_right (hgone f))
  · obtain ⟨hf, hown⟩ := h.parked k e key ps he hc
    exact ⟨hforth (.columns k key) e he hf, hown⟩
  · exact h.late k e key cols q he hc (hf.imp_right (hgone _))

/-- The callbacks are filed in another way. -/
theorem Steady.refile (h : s.Steady gone) (sent : List (ReqId × Fetch)) (waits : List (ℕ × Fetch))
    (hf : ∀ g, (((∃ id, (id, g) ∈ sent) ∨ ∃ i, (i, g) ∈ waits) ∨ gone' g) ↔ s.Flight g ∨ gone g)
    (hidle : s.session.chan.job = false → sent = [] ∧ waits = []) :
    ({ s with sent, waits } : Source V B).Steady gone' where
  orderly := h.orderly
  calm := h.calm
  idle := hidle
  tree k e ps he ht := (hf _).mpr (h.tree k e ps he ht)
  flight f e nodes p hg := h.flight f e nodes p ((hf f).mp hg)
  parked k e key ps he hc :=
    ⟨(hf _).mpr (h.parked k e key ps he hc).1, (h.parked k e key ps he hc).2⟩
  kept := h.kept
  late k e key cols q he hc hg := h.late k e key cols q he hc ((hf _).mp hg)

/-- The columns of one object are written. -/
theorem Steady.setCols (h : s.Steady gone) {k : ConnId} {e : Entry} {key : String}
    {c : Option Columns} (he : s.cache k = some e)
    (hgone : ∀ g, g ≠ .columns k key → (gone' g ↔ gone g))
    (hpend : ∀ ps, c = some (.pending ps) →
      (s.Flight (.columns k key) ∨ gone' (.columns k key)) ∧ ∀ p ∈ ps, Own s.session.chan p.name k)
    (hfetched : ∀ cols q, c = some (.fetched cols q) → q = s.session.chan.process ∧
      ∀ nodes p, e.tree = .fetched nodes p → p = s.session.chan.process)
    (hnow : s.Flight (.columns k key) ∨ gone' (.columns k key) →
      ∀ nodes p, e.tree = .fetched nodes p → p = s.session.chan.process) :
    (s.setCols k e key c).Steady gone' := by
  have hkey : ∀ key' c', Function.update e.cols key c key' = some c' →
      key' = key ∧ c = some c' ∨ key' ≠ key ∧ e.cols key' = some c' := by
    intro key' c' hc'
    by_cases hk : key' = key
    · rw [hk, Function.update_self] at hc'
      exact .inl ⟨hk, hc'⟩
    · rw [Function.update_of_ne hk] at hc'
      exact .inr ⟨hk, hc'⟩
  have htree : s.Flight (.nodes k) ∨ gone' (.nodes k) ↔
      s.Flight (.nodes k) ∨ gone (.nodes k) := or_congr_right (hgone _ nofun)
  refine h.setEntry (fun g hg => ?_) (fun g hne hg => ?_) (fun ps ht => ?_)
    (fun g nodes p hk hg ht => ?_) (fun key' ps hc' => ?_) (fun key' cols q nodes p hc' ht => ?_)
    fun key' cols q hc' hf => ?_
  · by_cases hfk : g = .columns k key
    · exact .inr (congrArg Fetch.conn hfk)
    · exact .inl ((hgone g hfk).mp hg)
  · refine (hgone g ?_).mpr hg
    rintro rfl
    exact hne rfl
  · exact htree.mpr (h.tree k e ps he ht)
  · by_cases hfk : g = .columns k key
    · rw [hfk] at hg
      exact hnow hg nodes p ht
    · refine h.flight g e nodes p (hg.imp_right (hgone g hfk).mp) ?_ ht
      rw [hk]
      exact he
  · rcases hkey key' _ hc' with ⟨rfl, hc⟩ | ⟨hne, hc⟩
    · exact hpend ps hc
    · obtain ⟨hf, hown⟩ := h.parked k e key' ps he hc
      refine ⟨hf.imp_right (hgone _ ?_).mpr, hown⟩
      intro heq
      exact hne (Fetch.columns.inj heq).2
  · rcases hkey key' _ hc' with ⟨rfl, hc⟩ | ⟨-, hc⟩
    · rw [(hfetched cols q hc).1, (hfetched cols q hc).2 nodes p ht]
    · exact h.kept k e key' cols q nodes p he hc ht
  · rcases hkey key' _ hc' with ⟨rfl, hc⟩ | ⟨-, hc⟩
    · exact (hfetched cols q hc).1
    · exact h.late k e key' cols q he hc (htree.mp hf)

/-! ### Failing -/

/-- What a failed fetch hands out was fetched from nowhere. -/
theorem failed_handed (f : Fetch) : (s.failed f).session = s.session ∧
    ∀ h ∈ (s.failed f).handed, h ∈ s.handed ∨ h.process = none := by
  have hands : ∀ (k : ConnId) (ps : List Parked) (s₁ : Source V B), s₁.handed = s.handed →
      ∀ h ∈ s₁.handed ++ ps.map (fun p => ⟨p.name, k, none, [], s₁.session.chan⟩),
        h ∈ s.handed ∨ h.process = none := by
    intro k ps s₁ heq h hm
    rcases List.mem_append.mp hm with hm | hm
    · exact .inl (heq ▸ hm)
    · obtain ⟨p, -, rfl⟩ := List.mem_map.mp hm
      exact .inr rfl
  cases f with
  | nodes k =>
    simp only [failed]
    split
    · exact ⟨rfl, fun h hm => .inl hm⟩
    · split
      · rw [hands_eq]
        exact ⟨rfl, hands k _ (s.setEntry k _) rfl⟩
      · exact ⟨rfl, fun h hm => .inl hm⟩
  | columns k key =>
    simp only [failed]
    split
    · exact ⟨rfl, fun h hm => .inl hm⟩
    · split
      · rw [hands_eq]
        exact ⟨rfl, hands k _ (s.setCols k _ key none) rfl⟩
      · exact ⟨rfl, fun h hm => .inl hm⟩

theorem Steady.failed {f : Fetch} (h : s.Steady fun g => g = f ∨ gone g) :
    (s.failed f).Steady gone := by
  cases f with
  | nodes k =>
    simp only [Source.failed]
    split
    · next hnone =>
      refine h.drop (fun g hg => .inr hg) fun g hg => ?_
      rcases hg with rfl | hg
      · exact .inr hnone
      · exact .inl hg
    · next e he =>
      have hset : (s.setEntry k (some { e with tree := .empty })).Steady gone := by
        refine h.setEntry (fun g hg => .inl (.inr hg)) (fun g hne hg => ?_) nofun nofun
          (fun key ps hc => ?_) nofun fun key cols q hc hf => ?_
        · rcases hg with rfl | hg
          · exact absurd rfl hne
          · exact hg
        · obtain ⟨hf, hown⟩ := h.parked k e key ps he hc
          exact ⟨hf.imp_right fun hg => hg.resolve_left nofun, hown⟩
        · exact h.late k e key cols q he hc (hf.imp_right .inr)
      split
      · rw [hands_eq]
        exact hset.handed _
      · exact hset
  | columns k key =>
    simp only [Source.failed]
    split
    · next hnone =>
      refine h.drop (fun g hg => .inr hg) fun g hg => ?_
      rcases hg with rfl | hg
      · exact .inr hnone
      · exact .inl hg
    · next e he =>
      have hset : (s.setCols k e key none).Steady gone := by
        refine h.setCols he (fun g hne => ⟨.inr, fun hg => hg.resolve_left hne⟩) nofun nofun ?_
        intro hf nodes p ht
        exact h.flight (.columns k key) e nodes p (hf.imp_right .inr) he ht
      split
      · rw [hands_eq]
        exact hset.handed _
      · exact hset

/-- One after the other, every request is answered with an error. -/
theorem Steady.fails (fs : List Fetch) (h : s.Steady (· ∈ fs)) : (fs.foldl Source.failed s).Steady still := by
  induction fs generalizing s with
  | nil => exact h.drop (fun _ hg => hg.elim) fun _ hg => (List.not_mem_nil hg).elim
  | cons f fs ih =>
    rw [List.foldl_cons]
    refine ih (Steady.failed ?_)
    exact h.drop (fun g hg => List.mem_cons.mpr hg) fun g hg => .inl (List.mem_cons.mp hg)

/-! ### Asking -/

theorem request_orderly {session : Session V B} (ho : session.Orderly) (f : Fetch) :
    (session.request f.request .ignored).Orderly := by
  refine ho.asks (ho.kept.acts (Session.acts_request (.inr ?_) rfl))
    (Session.asks_ensure _ fun _ _ _ => trivial)
  cases f <;> rfl

theorem request_stays {session : Session V B} (ho : session.Orderly) (f : Fetch) :
    Stays (fun _ => False) session.chan (session.request f.request .ignored).chan := by
  refine stays_asks ho.kept.linked (Session.asks_ensure _ fun k cb heq => ?_)
  cases f <;> cases heq

theorem request_calm {session : Session V B} (ho : session.Orderly) (hc : Calm session.chan)
    (f : Fetch) : Calm (session.request f.request .ignored).chan := by
  have hasks : session.Asks (fun _ => True) (session.request f.request .ignored) :=
    Session.asks_ensure _ fun _ _ _ => trivial
  exact hc.asks ho.kept.linked hasks

/-- While a process runs a request of cmp.lua is on its way. -/
theorem ask_running (hj : s.session.chan.job = true) (f : Fetch) : ∃ sent waits,
    s.ask f = { s with session := s.session.request f.request .ignored, sent, waits } ∧
      ∀ g, ((∃ id, (id, g) ∈ sent) ∨ ∃ i, (i, g) ∈ waits) ↔ s.Flight g ∨ g = f := by
  unfold ask
  dsimp only
  rw [hj, Bool.and_true, Bool.true_or, if_pos rfl]
  split
  · refine ⟨_, _, rfl, fun g => ?_⟩
    simp only [List.mem_append, List.mem_singleton, Prod.mk.injEq, exists_or, Flight]
    constructor
    · rintro ((h | ⟨id, -, rfl⟩) | h)
      · exact .inl (.inl h)
      · exact .inr rfl
      · exact .inl (.inr h)
    · rintro ((h | h) | rfl)
      · exact .inl (.inl h)
      · exact .inr h
      · exact .inl (.inr ⟨_, rfl, rfl⟩)
  · refine ⟨_, _, rfl, fun g => ?_⟩
    simp only [List.mem_append, List.mem_singleton, Prod.mk.injEq, exists_or, Flight]
    constructor
    · rintro (h | h | ⟨id, -, rfl⟩)
      · exact .inl (.inl h)
      · exact .inl (.inr h)
      · exact .inr rfl
    · rintro ((h | h) | rfl)
      · exact .inl h
      · exact .inr (.inl h)
      · exact .inr (.inr ⟨_, rfl, rfl⟩)

theorem Steady.ask {f : Fetch} (h : s.Steady (· = f)) (hj : s.session.chan.job = true) :
    (s.ask f).Steady still := by
  obtain ⟨sent, waits, heq, hf⟩ := ask_running hj f
  have hs := request_stays h.orderly f
  have hmoved := h.moves (fun _ _ => hj) (request_orderly h.orderly f)
    (request_calm h.orderly h.calm f) hs (fun k e he => ⟨he, id⟩)
  rw [heq]
  refine hmoved.refile sent waits (fun g => ?_) fun hj' => ?_
  · rw [hf g]
    exact or_iff_left id
  · rw [hs.job hj] at hj'
    cases hj'

/-- A tree is asked for while nothing is on its way. -/
theorem Steady.first (h : s.Steady still) (hnot : ∀ g, ¬ s.Flight g) {k : ConnId} {p : Parked}
    {session : Session V B} {sent : List (ReqId × Fetch)} {waits : List (ℕ × Fetch)}
    (ho : session.Orderly) (hc : Calm session.chan)
    (hidle : session.chan.job = false → sent = [] ∧ waits = [])
    (hf : ∀ g, (((∃ id, (id, g) ∈ sent) ∨ ∃ i, (i, g) ∈ waits) ∨ gone g) ↔ g = .nodes k) :
    ({ s.setEntry k (some ⟨.pending [p], fun _ => none⟩) with session, sent, waits } :
      Source V B).Steady gone := by
  have hcache : ∀ k' e, (s.setEntry k (some ⟨.pending [p], fun _ => none⟩)).cache k' = some e →
      k' = k ∧ e = ⟨.pending [p], fun _ => none⟩ ∨ k' ≠ k ∧ s.cache k' = some e := by
    intro k' e he
    rw [setEntry_cache] at he
    by_cases hk : k' = k
    · rw [hk, Function.update_self, Option.some.injEq] at he
      exact .inl ⟨hk, he.symm⟩
    · rw [Function.update_of_ne hk] at he
      exact .inr ⟨hk, he⟩
  refine ⟨ho, hc, hidle, ?_, ?_, ?_, ?_, ?_⟩
  · intro k' e ps he ht
    rcases hcache k' e he with ⟨rfl, -⟩ | ⟨-, he⟩
    · exact (hf _).mpr rfl
    · exact absurd ((h.tree k' e ps he ht).resolve_right id) (hnot _)
  · intro g e nodes q hg he ht
    obtain rfl := (hf g).mp hg
    rcases hcache k e he with ⟨-, rfl⟩ | ⟨hne, -⟩
    · cases ht
    · exact absurd rfl hne
  · intro k' e key ps he hcol
    rcases hcache k' e he with ⟨-, rfl⟩ | ⟨-, he⟩
    · cases hcol
    · exact absurd ((h.parked k' e key ps he hcol).1.resolve_right id) (hnot _)
  · intro k' e key cols q nodes q' he hcol ht
    rcases hcache k' e he with ⟨-, rfl⟩ | ⟨-, he⟩
    · cases hcol
    · exact h.kept k' e key cols q nodes q' he hcol ht
  · intro k' e key cols q he hcol hg
    have hk : k' = k := Fetch.nodes.inj ((hf _).mp hg)
    rcases hcache k' e he with ⟨-, rfl⟩ | ⟨hne, -⟩
    · cases hcol
    · exact absurd hk hne

/-- Without a process there is a new one to ask, or the tree stays empty. -/
theorem Steady.ask_tree (h : s.Steady still) (k : ConnId) (p : Parked) :
    ((s.setEntry k (some ⟨.pending [p], fun _ => none⟩)).ask (.nodes k)).Steady still := by
  cases hj : s.session.chan.job with
  | true =>
    have hset : (s.setEntry k (some ⟨.pending [p], fun _ => none⟩)).Steady (· = .nodes k) := by
      refine h.setEntry (fun g hg => .inr (congrArg Fetch.conn hg)) (fun _ _ hg => hg.elim)
        (fun _ _ => .inr rfl) nofun nofun nofun nofun
    exact hset.ask hj
  | false =>
    obtain ⟨hsent, hwaits⟩ := h.idle hj
    have hnot : ∀ g, ¬ s.Flight g := fun g hg => by
      rw [h.running hg] at hj
      cases hj
    have ho := request_orderly h.orderly (.nodes k)
    have hc := request_calm h.orderly h.calm (.nodes k)
    unfold Source.ask
    dsimp only
    rw [setEntry_session, hj, Bool.and_false, if_neg Bool.false_ne_true, Bool.false_or]
    split
    · next hworks =>
      have hchan : (s.session.request (Fetch.nodes k).request .ignored).chan =
          (s.session.chan.ensure (.request (Fetch.nodes k).request .ignored)).1 :=
        Session.ensure_chan _
      refine h.first hnot (p := p) ho hc (fun hj' => ?_) fun g => ?_
      · rw [hchan] at hj'
        unfold Channel.ensure at hj'
        rw [hj, Bool.and_false, if_neg Bool.false_ne_true] at hj'
        dsimp only at hj'
        rw [if_neg Bool.false_ne_true, eq_of_beq hworks] at hj'
        cases hj'
      · show (((∃ id, (id, g) ∈ s.sent) ∨ ∃ i, (i, g) ∈ s.waits ++ [_]) ∨ False) ↔ _
        rw [hsent, hwaits]
        simp
    · have hgone : ∀ g, (((∃ id, (id, g) ∈ s.sent) ∨ ∃ i, (i, g) ∈ s.waits) ∨
          (g = .nodes k ∨ still g)) ↔ g = .nodes k := by
        intro g
        rw [hsent, hwaits]
        simp [still]
      exact (h.first hnot (p := p) ho hc (fun _ => ⟨hsent, hwaits⟩) hgone).failed

end Source

/-! ### Handing out -/

/-- What was fetched is of the process that runs, on a connection that it opened for the name
and that has not been disconnected. -/
def Handed.Sound (h : Handed V B) : Prop := ∀ p, h.process = some p →
  h.chan.job = true ∧ h.chan.process = p ∧ Own h.chan h.name h.conn

namespace Source
variable {s s' : Source V B}

def Fresh (s : Source V B) : Prop := ∀ h ∈ s.handed, h.Sound

theorem Fresh.hand (h : s.Fresh) {k : ConnId} {process : Option ℕ} {items : List Item}
    {p : Parked} (hs : ∀ q, process = some q → s.session.chan.job = true ∧
      s.session.chan.process = q ∧ Own s.session.chan p.name k) :
    (s.hand k process items p).Fresh := by
  intro h' hm
  rcases List.mem_append.mp hm with hm | hm
  · exact h h' hm
  · rw [List.mem_singleton.mp hm]
    exact hs

/-- A tree of the running process is kept under `k`. -/
structure Held (k : ConnId) (nodes : List Schema) (s : Source V B) : Prop where
  steady : s.Steady still
  fresh : s.Fresh
  job : s.session.chan.job = true
  entry : ∃ e, s.cache k = some e ∧ e.tree = .fetched nodes s.session.chan.process

/-- The process is the same, and so is whose a connection is. -/
def Same (s s' : Source V B) : Prop := s'.session.chan.process = s.session.chan.process ∧
  ∀ name k, Own s'.session.chan name k ↔ Own s.session.chan name k

theorem Same.refl (s : Source V B) : s.Same s := ⟨rfl, fun _ _ => Iff.rfl⟩

theorem Same.trans {s'' : Source V B} (h : s.Same s') (h' : s'.Same s'') : s.Same s'' :=
  ⟨h'.1.trans h.1, fun name k => (h'.2 name k).trans (h.2 name k)⟩

theorem ask_same (hl : s.session.chan.Linked) (hj : s.session.chan.job = true) (f : Fetch) :
    s.Same (s.ask f) ∧ (s.ask f).session.chan.job = true ∧ (s.ask f).cache = s.cache ∧
      (s.ask f).handed = s.handed := by
  obtain ⟨sent, waits, heq, -⟩ := ask_running hj f
  have hs : Stays (fun _ => False) s.session.chan (s.session.request f.request .ignored).chan := by
    refine stays_asks hl (Session.asks_ensure _ fun k cb hw => ?_)
    cases f <;> cases hw
  rw [heq]
  exact ⟨⟨hs.process hj, fun name k => own_request hl hj f⟩, hs.job hj, rfl, rfl⟩

variable {k : ConnId} {nodes : List Schema} {p : Parked}

theorem Held.hand (h : s.Held k nodes) (hown : Own s.session.chan p.name k) (items : List Item) :
    (s.hand k (some s.session.chan.process) items p).Held k nodes := by
  refine ⟨h.steady.handed _, h.fresh.hand fun q hq => ?_, h.job, h.entry⟩
  exact ⟨h.job, Option.some.inj hq, hown⟩

theorem setCols_entry {e : Entry} (key : String) (c : Option Columns) :
    (s.setCols k e key c).cache k = some { e with cols := Function.update e.cols key c } :=
  Function.update_self ..

theorem Held.withColumns (h : s.Held k nodes) (hown : Own s.session.chan p.name k)
    (schema obj : String) : (s.withColumns k schema obj p).Held k nodes ∧
      s.Same (s.withColumns k schema obj p) := by
  obtain ⟨e, he, ht⟩ := h.entry
  have hl := h.steady.orderly.kept.linked
  have hone : ∀ nodes p, e.tree = .fetched nodes p → p = s.session.chan.process := by
    intro nodes' p' ht'
    rw [ht] at ht'
    exact (Tree.fetched.inj ht').2.symm
  unfold Source.withColumns
  rw [he]
  dsimp only
  split
  · next cols q hc =>
    rw [h.steady.kept k e _ cols q nodes _ he hc ht]
    exact ⟨h.hand hown _, Same.refl _⟩
  · next ps hc =>
    obtain ⟨hf, hps⟩ := h.steady.parked k e _ ps he hc
    refine ⟨⟨h.steady.setCols he (fun _ _ => Iff.rfl) (fun ps' heq => ?_) nofun fun _ => hone,
      h.fresh, h.job, _, setCols_entry _ _, ht⟩, Same.refl _⟩
    cases heq
    refine ⟨hf, fun p' hp' => ?_⟩
    rcases List.mem_append.mp hp' with hp' | hp'
    · exact hps p' hp'
    · rw [List.mem_singleton.mp hp']
      exact hown
  · next hc =>
    have hset : (s.setCols k e (schema ++ "." ++ obj) (some (.pending [p]))).Steady
        (· = .columns k (schema ++ "." ++ obj)) := by
      refine h.steady.setCols he (fun g hne => ?_) (fun ps heq => ?_) nofun fun _ => hone
      · exact iff_of_false hne id
      · cases heq
        refine ⟨.inr rfl, fun p' hp' => ?_⟩
        rw [List.mem_singleton.mp hp']
        exact hown
    let s₁ := s.setCols k e (schema ++ "." ++ obj) (some (.pending [p]))
    have hj : s₁.session.chan.job = true := h.job
    obtain ⟨hsame, hj', hcache, hhanded⟩ :=
      ask_same (s := s₁) hl hj (.columns k (schema ++ "." ++ obj))
    refine ⟨⟨hset.ask hj, ?_, hj', ?_⟩, hsame⟩
    · unfold Fresh
      rw [hhanded]
      exact h.fresh
    · rw [hcache, hsame.1]
      exact ⟨_, setCols_entry _ _, ht⟩

theorem Held.giveTree (h : s.Held k nodes) (hown : Own s.session.chan p.name k) :
    (s.giveTree k nodes s.session.chan.process p).Held k nodes ∧
      s.Same (s.giveTree k nodes s.session.chan.process p) := by
  unfold Source.giveTree
  split
  · exact ⟨h.hand hown _, Same.refl _⟩
  · split
    · exact ⟨h.hand hown _, Same.refl _⟩
    · exact (h.hand hown []).withColumns hown _ _

theorem Held.gives (ps : List Parked) {process : ℕ} (h : s.Held k nodes)
    (hp : s.session.chan.process = process) (hown : ∀ p ∈ ps, Own s.session.chan p.name k) :
    (ps.foldl (fun s p => s.giveTree k nodes process p) s).Held k nodes := by
  induction ps generalizing s with
  | nil => exact h
  | cons p ps ih =>
    obtain ⟨hheld, hsame⟩ := h.giveTree (hown p List.mem_cons_self)
    rw [hp] at hheld hsame
    rw [List.foldl_cons]
    refine ih hheld (hsame.1.trans hp) fun p' hp' => ?_
    rw [hsame.2]
    exact hown p' (List.mem_cons_of_mem p hp')

end Source
end LvimDb.Completion
