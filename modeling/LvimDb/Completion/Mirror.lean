import LvimDb.Client.Outcomes
import LvimDb.Completion.Get
import LvimDb.Completion.Steady

/-!
# The source over the client is the source by itself

cmp.lua is modelled over the client and its processes, for the schema that is offered, and by
itself, for the callbacks that are called. Whatever happens to the first, its cache, its fetches and
its items are those of a run of the second.
-/

namespace LvimDb.Completion
open Engine (ConnId ReqId Reply Request BsonCells Build)
open Client (Session Channel Cb)
open Lib.Machine (free)

variable {V B : Type}

inductive TreeOf : Tree → Nodes → Prop
  | pending (parked : List Parked) (waiting : List Waiting)
      (same : parked.map Parked.dotted = waiting.map Waiting.dotted) :
      TreeOf (.pending parked) (.pending waiting)
  | empty (n : ℕ) : TreeOf .empty (.fetched [] n)
  | fetched (nodes : List Schema) (process n : ℕ) : TreeOf (.fetched nodes process) (.fetched nodes n)

inductive ColumnsOf : Columns → Cols → Prop
  | pending (parked : List Parked) (ids : List ℕ) (same : parked.length = ids.length) :
      ColumnsOf (.pending parked) (.pending ids)
  | fetched (cols : List Column) (process n : ℕ) :
      ColumnsOf (.fetched cols process) (.fetched cols n)

structure EntryOf (e : Entry) (x : Slot) : Prop where
  tree : TreeOf e.tree x.nodes
  cols : ∀ key, Option.Rel ColumnsOf (e.cols key) (x.cols key)

/-- The engine does not run and cannot be started. -/
def Stuck (c : Channel V B) : Bool := !(c.job || c.launch == .works)

/-- The two sources agree, with these fetches under way: every call has its items from what is handed
out. -/
structure Mirrors (s : Source V B) (t : Cmp) (flying : List Fetch) : Prop where
  cache : ∀ k, Option.Rel EntryOf (s.cache k) (t.cache k)
  flights : (t.flights.map Prod.snd).Perm flying
  down : t.down = Stuck s.session.chan
  items : (t.calls.map Prod.snd).Sublist (s.handed.map Handed.items)

/-- The fetches that are under way. -/
def Source.flying (s : Source V B) : List Fetch := s.sent.map Prod.snd ++ s.waits.map Prod.snd

variable {s s' : Source V B} {t : Cmp} {flying : List Fetch} {k : ConnId} {e : Entry} {x : Slot}

/-! ### The cache -/

theorem Mirrors.entry (h : Mirrors s t flying) (k : ConnId) :
    (s.cache k = none ∧ t.cache k = none) ∨
      ∃ e x, s.cache k = some e ∧ t.cache k = some x ∧ EntryOf e x := by
  have hk := h.cache k
  generalize s.cache k = e at hk ⊢
  generalize t.cache k = x at hk ⊢
  cases hk with
  | none => exact .inl ⟨rfl, rfl⟩
  | some hex => exact .inr ⟨_, _, rfl, rfl, hex⟩

theorem EntryOf.asked (h : EntryOf e x) (key : String) :
    (e.cols key = none ∧ x.cols key = none) ∨
      ∃ c c', e.cols key = some c ∧ x.cols key = some c' ∧ ColumnsOf c c' := by
  have hk := h.cols key
  generalize e.cols key = c at hk ⊢
  generalize x.cols key = c' at hk ⊢
  cases hk with
  | none => exact .inl ⟨rfl, rfl⟩
  | some hc => exact .inr ⟨_, _, rfl, rfl, hc⟩

theorem rel_update {A B C : Type} [DecidableEq A] {R : B → C → Prop} {f : A → Option B}
    {g : A → Option C} (h : ∀ a, Option.Rel R (f a) (g a)) (a : A) {b : Option B} {c : Option C}
    (hbc : Option.Rel R b c) (a' : A) :
    Option.Rel R (Function.update f a b a') (Function.update g a c a') := by
  by_cases heq : a' = a
  · rw [heq, Function.update_self, Function.update_self]
    exact hbc
  · rw [Function.update_of_ne heq, Function.update_of_ne heq]
    exact h a'

theorem Mirrors.setEntry (h : Mirrors s t flying) (k : ConnId) {e : Option Entry}
    {x : Option Slot} (hex : Option.Rel EntryOf e x) :
    Mirrors (s.setEntry k e) (t.setSlot k x) flying where
  cache := rel_update h.cache k hex
  flights := h.flights
  down := h.down
  items := h.items

theorem Mirrors.setTree (h : Mirrors s t flying) (hex : EntryOf e x) (k : ConnId) {tree : Tree}
    {nodes : Nodes} (htree : TreeOf tree nodes) :
    Mirrors (s.setEntry k (some { e with tree := tree }))
      (t.setSlot k (some { x with nodes := nodes })) flying :=
  h.setEntry k (.some ⟨htree, hex.cols⟩)

theorem Mirrors.setCols (h : Mirrors s t flying) (hex : EntryOf e x) (k : ConnId) (key : String)
    {c : Option Columns} {c' : Option Cols} (hc : Option.Rel ColumnsOf c c') :
    Mirrors (s.setCols k e key c) (t.setCols k x key c') flying :=
  h.setEntry k (.some ⟨hex.tree, rel_update hex.cols key hc⟩)

/-! ### What is handed out -/

/-- What is handed to a request before it is called back. -/
theorem Mirrors.hand (h : Mirrors s t flying) (process : Option ℕ) (items : List Item) (p : Parked) :
    Mirrors (s.hand k process items p) t flying where
  cache := h.cache
  flights := h.flights
  down := h.down
  items := by
    rw [Source.hand_handed, List.map_append]
    exact h.items.trans (List.sublist_append_left _ _)

theorem Mirrors.callBack (h : Mirrors s t flying) (process : Option ℕ) (items : List Item)
    (p : Parked) (id : ℕ) : Mirrors (s.hand k process items p) (t.callBack id items) flying where
  cache := h.cache
  flights := h.flights
  down := h.down
  items := by
    rw [Source.hand_handed, Cmp.callBack, List.map_append, List.map_append]
    exact h.items.append (List.Sublist.refl _)

theorem Mirrors.callBacks (process : Option ℕ) (items : List Item) {parked : List Parked}
    {ids : List ℕ} (hlen : parked.length = ids.length) (h : Mirrors s t flying) :
    Mirrors (parked.foldl (fun s p => s.hand k process items p) s)
      (ids.foldl (fun t id => t.callBack id items) t) flying := by
  induction parked generalizing s t ids with
  | nil =>
    obtain rfl := List.length_eq_zero_iff.mp hlen.symm
    exact h
  | cons p parked ih =>
    cases ids with
    | nil => cases hlen
    | cons id ids =>
      rw [List.foldl_cons, List.foldl_cons]
      exact ih (Nat.succ.inj hlen) (h.callBack process items p id)

/-- A request that is given no node is called back with nothing. -/
theorem giveTree_nil (t : Cmp) (k : ConnId) (g : Waiting) : t.giveTree k [] g = t.callBack g.id [] := by
  unfold Cmp.giveTree
  cases g.dotted with
  | none => rfl
  | some dotted => rfl

theorem giveTrees_nil (waiting : List Waiting) (t : Cmp) (k : ConnId) :
    waiting.foldl (fun t g => t.giveTree k [] g) t =
      (waiting.map Waiting.id).foldl (fun t id => t.callBack id []) t := by
  induction waiting generalizing t with
  | nil => rfl
  | cons g waiting ih =>
    rw [List.foldl_cons, giveTree_nil, ih]
    rfl

/-- What the callback of a fetch makes of an error. -/
def Cmp.refused (t : Cmp) (n : ℕ) : Fetch → Cmp
  | .nodes k => t.gotNodes k n none
  | .columns k key => t.gotColumns k key n none

theorem Mirrors.failed (h : Mirrors s t flying) (n : ℕ) (f : Fetch) :
    Mirrors (s.failed f) (t.refused n f) flying := by
  cases f with
  | nodes k =>
    rcases h.entry k with ⟨hs, ht⟩ | ⟨⟨tree, cols⟩, ⟨nodes, cols'⟩, hs, ht, hex⟩
    · simp only [Source.failed, Cmp.refused, Cmp.gotNodes, hs, ht]
      exact h
    · have hset := h.setTree hex k (.empty n)
      simp only [Source.failed, Cmp.refused, Cmp.gotNodes, hs, ht, Option.getD_none, giveTrees_nil]
      obtain ⟨htree, hcols⟩ := hex
      cases htree with
      | pending parked waiting hsame =>
        have hlen : parked.length = (waiting.map Waiting.id).length := by
          simpa using congrArg List.length hsame
        exact hset.callBacks none [] hlen
      | empty => exact hset
      | fetched => exact hset
  | columns k key =>
    rcases h.entry k with ⟨hs, ht⟩ | ⟨e, x, hs, ht, hex⟩
    · simp only [Source.failed, Cmp.refused, Cmp.gotColumns, hs, ht]
      exact h
    · have hset := h.setCols hex k key .none
      simp only [Source.failed, Cmp.refused, Cmp.gotColumns, hs, ht, Option.map_none,
        Option.getD_none]
      rcases hex.asked key with ⟨hc, hc'⟩ | ⟨c, c', hc, hc', hof⟩
      · simp only [hc, hc']
        exact hset
      · cases hof with
        | pending parked ids hlen =>
          simp only [hc, hc']
          exact hset.callBacks none [] hlen
        | fetched =>
          simp only [hc, hc']
          exact hset

/-! ### What is asked -/

theorem request_stuck (session : Session V B) (f : Fetch) :
    Stuck (session.request f.request .ignored).chan = Stuck session.chan := by
  unfold Session.request Session.ensure
  rw [(Session.fails_keeps _ _).1]
  unfold Channel.ensure
  split
  · rfl
  · dsimp only
    split
    · rfl
    · next hjob =>
      have hjob : session.chan.job = false := Bool.eq_false_iff.mpr hjob
      split
      · rfl
      · rfl
      · next hlaunch => simp [Stuck, hjob, hlaunch]

theorem failed_flying (s : Source V B) (f : Fetch) : (s.failed f).flying = s.flying := by
  cases f with
  | nodes k =>
    simp only [Source.failed]
    split
    · rfl
    · split
      · rw [Source.hands_eq]
        rfl
      · rfl
  | columns k key =>
    simp only [Source.failed]
    split
    · rfl
    · split
      · rw [Source.hands_eq]
        rfl
      · rfl

def Cmp.asks (t : Cmp) : Fetch → Cmp
  | .nodes k => t.askNodes k
  | .columns k key => t.askColumns k key

theorem Cmp.asks_eq (t : Cmp) (f : Fetch) :
    t.asks f = if t.down then t.grounded.refused t.asked f else t.flight f := by
  cases f with
  | nodes k => rfl
  | columns k key => rfl

theorem Mirrors.ask (h : Mirrors s t s.flying) (f : Fetch) :
    Mirrors (s.ask f) (t.asks f) (s.ask f).flying := by
  have hdown := (request_stuck s.session f).symm
  rw [← h.down] at hdown
  -- what is asked gets under way
  have hflight : t.down = false → ((t.flight f).flights.map Prod.snd).Perm (s.flying ++ [f]) := by
    intro _
    rw [Cmp.flight, List.map_append]
    exact h.flights.append_right [f]
  rw [Cmp.asks_eq]
  unfold Source.ask
  dsimp only
  split
  · next hready =>
    have hd : t.down = false := by
      rw [h.down, Stuck, (Bool.and_eq_true_iff.mp hready).2, Bool.true_or, Bool.not_true]
    rw [hd, if_neg Bool.false_ne_true]
    refine ⟨h.cache, (hflight hd).trans ?_, hdown, h.items⟩
    simp only [Source.flying, List.map_append, List.append_assoc]
    exact List.perm_append_comm.append_left _
  · split
    · next hlaunch =>
      have hd : t.down = false := by
        rw [h.down, Stuck, hlaunch, Bool.not_true]
      rw [hd, if_neg Bool.false_ne_true]
      refine ⟨h.cache, (hflight hd).trans ?_, hdown, h.items⟩
      simp only [Source.flying, List.map_append, List.append_assoc]
      exact List.Perm.refl _
    · next hlaunch =>
      have hd : t.down = true := by
        rw [h.down, Stuck, Bool.eq_false_iff.mpr hlaunch, Bool.not_false]
      rw [hd, if_pos rfl, failed_flying]
      have hm : Mirrors { s with session := s.session.request f.request .ignored } t.grounded
          s.flying := ⟨h.cache, h.flights, hdown, h.items⟩
      exact hm.failed t.asked f

theorem Mirrors.withColumns (h : Mirrors s t s.flying) (k : ConnId) (schema obj : String)
    (p : Parked) (id : ℕ) :
    Mirrors (s.withColumns k schema obj p) (t.withColumns k schema obj id)
      (s.withColumns k schema obj p).flying := by
  rcases h.entry k with ⟨hs, ht⟩ | ⟨e, x, hs, ht, hex⟩
  · simp only [Source.withColumns, Cmp.withColumns, hs, ht]
    exact h.callBack none [] p id
  · rcases hex.asked (schema ++ "." ++ obj) with ⟨hc, hc'⟩ | ⟨c, c', hc, hc', hof⟩
    · simp only [Source.withColumns, Cmp.withColumns, hs, ht, hc, hc']
      have hset := h.setCols hex k (schema ++ "." ++ obj) (.some (.pending [p] [id] rfl))
      exact hset.ask (.columns k (schema ++ "." ++ obj))
    · simp only [Source.withColumns, Cmp.withColumns, hs, ht, hc, hc']
      cases hof with
      | pending parked ids hlen =>
        refine h.setCols hex k _ (.some (.pending _ _ ?_))
        rw [List.length_append, List.length_append, hlen]
        rfl
      | fetched cols process n => exact h.callBack (some process) (columnItems cols) p id

/-- A tree is given to a request, of which both have what stood before the dot. -/
theorem Mirrors.giveTree (h : Mirrors s t s.flying) (k : ConnId) (nodes : List Schema)
    (process : ℕ) {p : Parked} {g : Waiting} (hsame : p.dotted = g.dotted) :
    Mirrors (s.giveTree k nodes process p) (t.giveTree k nodes g)
      (s.giveTree k nodes process p).flying := by
  unfold Source.giveTree Cmp.giveTree
  rw [hsame]
  cases g.dotted with
  | none => exact h.callBack (some process) (schemaItems nodes) p g.id
  | some dotted =>
    dsimp only
    cases firstObject nodes dotted with
    | none => exact h.callBack (some process) [] p g.id
    | some found =>
      have hhand : Mirrors (s.hand k (some process) [] p) t (s.hand k (some process) [] p).flying :=
        h.hand (some process) [] p
      exact hhand.withColumns k found.1 found.2 p g.id

theorem Mirrors.giveTrees (k : ConnId) (nodes : List Schema) (process : ℕ) {parked : List Parked}
    {waiting : List Waiting} (hsame : parked.map Parked.dotted = waiting.map Waiting.dotted)
    (h : Mirrors s t s.flying) :
    Mirrors (parked.foldl (fun s p => s.giveTree k nodes process p) s)
      (waiting.foldl (fun t g => t.giveTree k nodes g) t)
      (parked.foldl (fun s p => s.giveTree k nodes process p) s).flying := by
  induction parked generalizing s t waiting with
  | nil =>
    obtain rfl := List.map_eq_nil_iff.mp hsame.symm
    exact h
  | cons p parked ih =>
    cases waiting with
    | nil => cases hsame
    | cons g waiting =>
      obtain ⟨hone, hrest⟩ := List.cons.inj hsame
      rw [List.foldl_cons, List.foldl_cons]
      exact ih hrest (h.giveTree k nodes process hone)

theorem Mirrors.withStructure (h : Mirrors s t s.flying) (k : ConnId) {p : Parked} {g : Waiting}
    (hsame : p.dotted = g.dotted) :
    Mirrors (s.withStructure k p) (t.withStructure k g) (s.withStructure k p).flying := by
  rcases h.entry k with ⟨hs, ht⟩ | ⟨⟨tree, cols⟩, ⟨nodes, cols'⟩, hs, ht, hex⟩
  · simp only [Source.withStructure, Cmp.withStructure, hs, ht]
    have hset := h.setEntry k (.some (a := ⟨.pending [p], fun _ => none⟩)
      (b := ⟨.pending [g], fun _ => none⟩)
      ⟨.pending [p] [g] (congrArg (fun d => [d]) hsame), fun _ => .none⟩)
    exact hset.ask (.nodes k)
  · simp only [Source.withStructure, Cmp.withStructure, hs, ht]
    have hcols := hex.cols
    obtain ⟨htree, -⟩ := hex
    cases htree with
    | pending parked waiting hall =>
      refine h.setEntry k (.some ⟨.pending _ _ ?_, hcols⟩)
      rw [List.map_append, List.map_append, hall]
      exact congrArg (_ ++ [·]) hsame
    | empty n =>
      dsimp only
      rw [giveTree_nil]
      exact h.callBack none [] p g.id
    | fetched nodes process n => exact h.giveTree k nodes process hsame

/-! ### Every step -/

theorem Mirrors.filledTree (h : Mirrors s t s.flying) (py : Payloads) (payload : String) (n : ℕ)
    (k : ConnId) : Mirrors (s.filled py (.nodes k) payload) (t.gotNodes k n (some (py.nodes payload)))
      (s.filled py (.nodes k) payload).flying := by
  rcases h.entry k with ⟨hs, ht⟩ | ⟨⟨tree, cols⟩, ⟨nodes, cols'⟩, hs, ht, hex⟩
  · simp only [Source.filled, Cmp.gotNodes, hs, ht]
    exact h
  · have hset := h.setTree hex k (.fetched (py.nodes payload) s.session.chan.process n)
    simp only [Source.filled, Cmp.gotNodes, hs, ht, Option.getD_some]
    obtain ⟨htree, -⟩ := hex
    cases htree with
    | pending parked waiting hsame => exact Mirrors.giveTrees k _ _ hsame hset
    | empty => exact hset
    | fetched => exact hset

theorem Mirrors.filledColumns (h : Mirrors s t s.flying) (py : Payloads) (payload : String) (n : ℕ)
    (k : ConnId) (key : String) :
    Mirrors (s.filled py (.columns k key) payload)
      (t.gotColumns k key n (some (py.columns payload)))
      (s.filled py (.columns k key) payload).flying := by
  rcases h.entry k with ⟨hs, ht⟩ | ⟨e, x, hs, ht, hex⟩
  · simp only [Source.filled, Cmp.gotColumns, hs, ht]
    exact h
  · have hset := h.setCols hex k key
      (.some (.fetched (py.columns payload) s.session.chan.process n))
    simp only [Source.filled, Cmp.gotColumns, hs, ht, Option.map_some, Option.getD_some]
    rcases hex.asked key with ⟨hc, hc'⟩ | ⟨c, c', hc, hc', hof⟩
    · simp only [hc, hc']
      exact hset
    · cases hof with
      | pending parked ids hlen =>
        simp only [hc, hc']
        have hcalls := Mirrors.callBacks (k := k) (some s.session.chan.process)
          (columnItems (py.columns payload)) hlen hset
        rw [Source.hands_eq] at hcalls ⊢
        exact hcalls
      | fetched =>
        simp only [hc, hc']
        exact hset

/-- A fetch that is under way has a number, and lands with whatever it has brought. -/
theorem Mirrors.landed {f : Fetch} (h : Mirrors s t (f :: flying)) :
    ∃ n, (n, f) ∈ t.flights ∧ ∀ trees columns,
      Mirrors s { t.landed n f with trees, columns } flying := by
  obtain ⟨⟨n, f'⟩, hn, heq⟩ := List.mem_map.mp (h.flights.mem_iff.mpr (List.mem_cons_self ..))
  obtain rfl : f' = f := heq
  refine ⟨n, hn, fun trees columns => ⟨h.cache, ?_, h.down, h.items⟩⟩
  have herase := (List.perm_cons_erase hn).map Prod.snd
  exact (herase.symm.trans h.flights).cons_inv

theorem Mirrors.refuse {f : Fetch} (h : Mirrors s t (f :: flying)) :
    ∃ i t', t.step i = some t' ∧ Mirrors (s.failed f) t' flying := by
  obtain ⟨n, hn, hm⟩ := h.landed
  cases f with
  | nodes k => exact ⟨.nodes n k none, _, if_pos hn, (hm _ _).failed n (.nodes k)⟩
  | columns k key =>
    exact ⟨.columns n k key none, _, if_pos hn, (hm _ _).failed n (.columns k key)⟩

theorem Mirrors.arrive {f : Fetch} (h : Mirrors s t (f :: s.flying)) (py : Payloads)
    (payload : String) :
    ∃ i t', t.step i = some t' ∧
      Mirrors (s.filled py f payload) t' (s.filled py f payload).flying := by
  obtain ⟨n, hn, hm⟩ := h.landed
  cases f with
  | nodes k =>
    exact ⟨.nodes n k (some (py.nodes payload)), _, if_pos hn,
      (hm _ _).filledTree py payload n k⟩
  | columns k key =>
    exact ⟨.columns n k key (some (py.columns payload)), _, if_pos hn,
      (hm _ _).filledColumns py payload n k key⟩

/-- Each of the fetches fails. -/
theorem Mirrors.refuseAll (fs : List Fetch) (h : Mirrors s t (fs ++ flying)) :
    ∃ is t', cmpMachine.Run free t is t' ∧ Mirrors (fs.foldl Source.failed s) t' flying := by
  induction fs generalizing s t with
  | nil => exact ⟨[], t, .nil t, h⟩
  | cons f fs ih =>
    obtain ⟨i, t', hstep, hm⟩ := h.refuse
    obtain ⟨is, t'', hrun, hm⟩ := ih hm
    exact ⟨i :: is, t'', .cons trivial hstep hrun, hm⟩

theorem fails_flying (fs : List Fetch) (s : Source V B) :
    (fs.foldl Source.failed s).flying = s.flying := by
  induction fs generalizing s with
  | nil => rfl
  | cons f fs ih => rw [List.foldl_cons, ih, failed_flying]

/-- The client goes on, and the source is as before. -/
theorem Mirrors.moved (h : Mirrors s t flying) (hcache : s'.cache = s.cache)
    (hhanded : s'.handed = s.handed) :
    Mirrors s' { t with down := Stuck s'.session.chan } flying where
  cache k := hcache ▸ h.cache k
  flights := h.flights
  down := rfl
  items := hhanded ▸ h.items

/-- A run of the source by itself leads to what mirrors `s'`. -/
def Follows (t : Cmp) (s' : Source V B) : Prop :=
  ∃ is t', cmpMachine.Run free t is t' ∧ Mirrors s' t' s'.flying

/-- The engine goes up or down, and the run goes on from there. -/
theorem Follows.engine {down : Bool} (h : Follows { t with down } s') : Follows t s' := by
  obtain ⟨is, t', hrun, hm⟩ := h
  exact ⟨.engine down :: is, t', .cons trivial rfl hrun, hm⟩

theorem Mirrors.follows (h : Mirrors s t s.flying) : Follows t s := ⟨[], t, .nil t, h⟩

theorem Mirrors.answered {f : Fetch} (h : Mirrors s t (f :: s.flying)) (py : Payloads)
    (r : Except String (Reply V)) : Follows t (s.answered py f r) := by
  unfold Source.answered
  split
  · next payload =>
    obtain ⟨i, t', hstep, hm⟩ := h.arrive py payload
    exact ⟨[i], t', .cons trivial hstep (.nil t'), hm⟩
  · obtain ⟨i, t', hstep, hm⟩ := h.refuse
    rw [← failed_flying s f] at hm
    exact ⟨[i], t', .cons trivial hstep (.nil t'), hm⟩

theorem Mirrors.heard (h : Mirrors s t s.flying) (session : Session V B) (py : Payloads) :
    Follows t (s.heard session py) := by
  have hmoved : Mirrors { s with session } { t with down := Stuck session.chan } s.flying :=
    h.moved rfl rfl
  unfold Source.heard
  split
  · next id r _ _ =>
    split
    · -- what has waited for the handshake is sent
      have hsent : s.sent.map Prod.snd ++ s.waits.map Prod.snd =
          (s.sent ++ s.waits.map fun w => (Source.idAt s.session.chan w.1, w.2)).map Prod.snd ++
            ([] : List (ℕ × Fetch)).map Prod.snd := by
        simp [Function.comp_def]
      have hm : Mirrors { s with
          session
          sent := s.sent ++ s.waits.map fun w => (Source.idAt s.session.chan w.1, w.2)
          waits := [] } { t with down := Stuck session.chan } s.flying := h.moved rfl rfl
      rw [Source.flying, hsent] at hm
      exact (Mirrors.follows hm).engine
    · split
      · next f hsent =>
        have hmem : (id, f) ∈ s.sent := by
          obtain ⟨before, after, hsplit, -⟩ := List.lookup_eq_some_iff.mp hsent
          rw [hsplit]
          exact List.mem_append_right before (List.mem_cons_self ..)
        have hperm : s.flying.Perm (f :: ((s.sent.erase (id, f)).map Prod.snd ++
            s.waits.map Prod.snd)) :=
          ((List.perm_cons_erase hmem).map Prod.snd).append_right _
        have hm : Mirrors { s with session, sent := s.sent.erase (id, f) }
            { t with down := Stuck session.chan } (f :: ((s.sent.erase (id, f)).map Prod.snd ++
              s.waits.map Prod.snd)) :=
          ⟨h.cache, h.flights.trans hperm, rfl, h.items⟩
        exact (Mirrors.answered hm py r).engine
      · exact hmoved.follows.engine
    · exact hmoved.follows.engine
  · exact hmoved.follows.engine

theorem Mirrors.exited (h : Mirrors s t s.flying) (session : Session V B) :
    Follows t (s.exited session) := by
  have hm : Mirrors { s with session, sent := [], waits := [] }
      { t with down := Stuck session.chan } (s.flying ++ []) := by
    rw [List.append_nil]
    exact h.moved rfl rfl
  obtain ⟨is, t', hrun, hm⟩ := Mirrors.refuseAll s.flying hm
  have hnone : (s.exited session).flying = [] := fails_flying _ _
  refine Follows.engine ⟨is, t', hrun, ?_⟩
  rw [hnone]
  exact hm

theorem Mirrors.get (h : Mirrors s t s.flying) (dotted : Option String) :
    Follows t (s.get dotted) := by
  have hnone : Follows t s :=
    ⟨[.get none dotted], _, .cons trivial rfl (.nil _), h.cache, h.flights, h.down, h.items⟩
  unfold Source.get
  split
  · exact hnone
  · split
    · exact hnone
    · next name _ k _ =>
      have hissue : Mirrors s t.issue s.flying := ⟨h.cache, h.flights, h.down, h.items⟩
      exact ⟨[.get (some k) dotted], _, .cons trivial rfl (.nil _),
        hissue.withStructure k rfl⟩

theorem mirrors_new : Mirrors (Source.new : Source V B) Cmp.new (Source.new : Source V B).flying where
  cache _ := .none
  flights := .refl _
  down := rfl
  items := .slnil

variable [BsonCells V B] {bld : Build} {py : Payloads}

theorem Mirrors.step (h : Mirrors s t s.flying) {a : Move V B} (hst : s.step bld py a = some s') :
    Follows t s' := by
  unfold Source.step at hst
  split at hst
  · obtain ⟨session, -, rfl⟩ := Option.map_eq_some_iff.mp hst
    exact h.heard session py
  · obtain ⟨session, -, rfl⟩ := Option.map_eq_some_iff.mp hst
    exact h.exited session
  · obtain ⟨session, -, rfl⟩ := Option.map_eq_some_iff.mp hst
    have hmoved : Mirrors { s with session } { t with down := Stuck session.chan } s.flying :=
      h.moved rfl rfl
    have hdropped : ∀ conn,
        Follows { t with down := Stuck session.chan } ({ s with session }.invalidate conn) := by
      intro conn
      cases conn with
      | none => exact hmoved.follows
      | some k =>
        exact ⟨[.invalidate (some k)], _, .cons trivial rfl (.nil _), hmoved.setEntry k .none⟩
    exact (hdropped _).engine
  · cases hst
    exact ⟨[], t, .nil t, h.cache, h.flights, h.down, h.items⟩
  · cases hst
    exact h.get _

/-- Every run over the client is a run of the source by itself. -/
theorem follows_run {good : Source V B → Move V B → Prop} {as : List (Move V B)}
    (h : (Source.machine bld py).Run good .new as s) : Follows Cmp.new s := by
  apply h.invariant (fun s => Follows Cmp.new s) _ mirrors_new.follows
  rintro s a s' - ⟨is, t, hrun, hm⟩ hst
  obtain ⟨js, t', hrun', hm'⟩ := hm.step hst
  exact ⟨is ++ js, t', hrun.append hrun', hm'⟩

end LvimDb.Completion
