import LvimDb.Tree.Facets

/-!
# Branches that are open

An open facet lists what was fetched for it, as long as nothing opens a facet by a name that is
another object's: no tree comes with a facet that is already open, and what is acted on and what is
answered for is still listed.
-/

namespace LvimDb.Tree
open Lib

/-- A tree that comes names its nodes apart and has no facet open yet, and an answer for a facet finds
its object listed. -/
def Fits (s : Side) : Req → Reply → Prop
  | .tree c _ _, .nodes nodes => Drawer.Named nodes ∧ ∀ x ∈ objects c nodes, ∀ h : Helper,
    (s.drawer.conns c).isOpen (hkey x.2.1 x.2.2 h) = false
  | .facet c _ sch o _, r =>
    r = .error ∨ ∃ nodes ∈ (s.drawer.conns c).nodes, (c, sch, o) ∈ objects c nodes
  | _, _ => True

/-- What is acted on is listed, and answers fit. -/
def Calm (s : Side) : Input → Prop
  | .toggle n _ | .action n => ∀ row ∈ s.rows[n]?, row ∈ s.drawer.outline.labels
  | .answer n r => ∀ req ∈ s.inflight[n]?, Fits s req r
  | _ => True

/-- A facet that is open has been fetched. -/
def Settled (w : Drawer) : Prop :=
  ∀ c nodes, (w.conns c).nodes = some nodes → Drawer.Named nodes ∧ ∀ x ∈ objects c nodes,
    ∀ h : Helper, h.branch = true → (w.conns c).isOpen (hkey x.2.1 x.2.2 h) = true →
      w.fetched x.2.2 h = true

variable {w w' : Drawer} {c : RowId} {nodes : List Schema}

/-! ### Keys -/

theorem hkey_join (sch : Schema) (o : Obj) (h : Helper) :
    hkey sch o h = Drawer.joinKey (sch.name, some (o.name ++ "#" ++ h.id)) := by
  simp [hkey, okey, skey, Drawer.joinKey, String.append_assoc]

/-- Whose facets have one key. -/
theorem hkey_inj (hn : Drawer.Named nodes) {x y : Place} (hx : x ∈ objects c nodes)
    (hy : y ∈ objects c nodes) {h h' : Helper} (hh : h.branch = true) (hh' : h'.branch = true)
    (heq : hkey x.2.1 x.2.2 h = hkey y.2.1 y.2.2 h') : x = y ∧ h = h' := by
  obtain ⟨cx, sch, o⟩ := x
  obtain ⟨cy, sch', o'⟩ := y
  obtain ⟨rfl, hs, ho⟩ := Side.mem_objects.mp hx
  obtain ⟨rfl, hs', ho'⟩ := Side.mem_objects.mp hy
  rw [hkey_join, hkey_join] at heq
  have hkey := Drawer.joinKey_inj (hn.dotless _ hs) (hn.dotless _ hs') heq
  simp only [Prod.mk.injEq, Option.some.injEq] at hkey
  obtain rfl : sch = sch' := List.inj_on_of_nodup_map hn.schemas hs hs' hkey.1
  obtain ⟨hname, rfl⟩ := Drawer.append_id hh hh' hkey.2
  obtain rfl : o = o' := List.inj_on_of_nodup_map (hn.objects _ hs) ho ho' hname
  exact ⟨rfl, rfl⟩

theorem hkey_ne_skey (hn : Drawer.Named nodes) {x : Place} (hx : x ∈ objects c nodes)
    {sch : Schema} (hs : sch ∈ nodes) (h : Helper) : hkey x.2.1 x.2.2 h ≠ skey sch := by
  obtain ⟨-, hsx, -⟩ := Side.mem_objects.mp hx
  intro heq
  rw [hkey_join, show skey sch = Drawer.joinKey (sch.name, none) from rfl] at heq
  have hkey := Drawer.joinKey_inj (hn.dotless _ hsx) (hn.dotless _ hs) heq
  have htail := congrArg Prod.snd hkey
  cases htail

theorem hkey_ne_okey (hn : Drawer.Named nodes) {x y : Place} (hx : x ∈ objects c nodes)
    (hy : y ∈ objects c nodes) {h : Helper} (hh : h.branch = true) :
    hkey x.2.1 x.2.2 h ≠ okey y.2.1 y.2.2 := by
  obtain ⟨cx, sch, o⟩ := x
  obtain ⟨cy, sch', o'⟩ := y
  obtain ⟨rfl, hs, ho⟩ := Side.mem_objects.mp hx
  obtain ⟨rfl, hs', ho'⟩ := Side.mem_objects.mp hy
  intro heq
  rw [hkey_join, show okey sch' o' = Drawer.joinKey (sch'.name, some o'.name) from rfl] at heq
  have hkey := Drawer.joinKey_inj (hn.dotless _ hs) (hn.dotless _ hs') heq
  simp only [Prod.mk.injEq, Option.some.injEq] at hkey
  obtain rfl : sch = sch' := List.inj_on_of_nodup_map hn.schemas hs hs' hkey.1
  exact hn.facets _ hs o ho o' ho' h hh hkey.2.symm

/-! ### A step -/

/-- Nothing is opened, and what has been fetched stays. -/
theorem Settled.mono (h : Settled w)
    (hconns : ∀ c nodes, (w'.conns c).nodes = some nodes → (w.conns c).nodes = some nodes ∧
      ∀ k, (w'.conns c).isOpen k = true → (w.conns c).isOpen k = true)
    (hfetched : ∀ o f, w.fetched o f = true → w'.fetched o f = true) : Settled w' := by
  intro c nodes hnodes
  obtain ⟨hold, hopen⟩ := hconns c nodes hnodes
  obtain ⟨hn, hx⟩ := h c nodes hold
  exact ⟨hn, fun x hmem f hf hkey => hfetched _ _ (hx x hmem f hf (hopen _ hkey))⟩

/-- A key is written that is not of a facet, or of one that has been fetched. -/
theorem Settled.set (h : Settled w) {f : RowId × Flag} {v : Bool}
    (hf : ∀ nodes, (w.conns f.1).nodes = some nodes → ∀ x ∈ objects f.1 nodes, ∀ g : Helper,
      g.branch = true → f.2 = .key (hkey x.2.1 x.2.2 g) → v = true → w.fetched x.2.2 g = true) :
    Settled (w.set f v) := by
  intro c nodes hnodes
  rw [(Drawer.conns_set c).2.1] at hnodes
  obtain ⟨hn, hx⟩ := h c nodes hnodes
  refine ⟨hn, fun x hmem g hg hopen => ?_⟩
  by_cases heq : f = (c, .key (hkey x.2.1 x.2.2 g))
  · subst heq
    have hv : v = true := by simpa [Drawer.set, Conn.set] using hopen
    exact hf nodes hnodes x hmem g hg rfl hv
  · rw [Drawer.key_set heq] at hopen
    exact hx x hmem g hg hopen

/-- A gesture on a row that is listed. -/
theorem Settled.toggle (h : Settled w) {row : Descr} (hrow : row ∈ w.outline.labels) (opn : Bool) :
    Settled (w.toggle row opn).1 := by
  obtain ⟨hplace, hschema⟩ := Side.place_labels hrow
  rcases Drawer.toggle_cases (w := w) row opn with heq | ⟨f, hf, heq⟩
  · rw [heq]
    exact h
  by_cases hsame : (w.toggle row opn).1 = w
  · rw [hsame]
    exact h
  rw [heq]
  refine h.set fun nodes hnodes x hx g hg hkey hv => ?_
  obtain ⟨hn, -⟩ := h f.1 nodes hnodes
  -- the row whose key is the facet's is the row of the facet
  cases row with
  | schema c sch =>
    cases hf
    obtain ⟨nodes', hnodes', hs⟩ := hschema c sch rfl
    obtain rfl := Option.some.inj (hnodes.symm.trans hnodes')
    exact absurd (Flag.key.inj hkey).symm (hkey_ne_skey hn hx hs g)
  | object c sch o =>
    cases hf
    obtain ⟨nodes', hnodes', hy⟩ := hplace _ rfl
    obtain rfl := Option.some.inj (hnodes.symm.trans hnodes')
    exact absurd (Flag.key.inj hkey).symm (hkey_ne_okey hn hx hy hg)
  | helper c sch o g' =>
    rw [Descr.flag] at hf
    split at hf
    · next hg' =>
      cases hf
      obtain ⟨nodes', hnodes', hy⟩ := hplace _ rfl
      obtain rfl := Option.some.inj (hnodes.symm.trans hnodes')
      obtain ⟨rfl, rfl⟩ := hkey_inj hn hx hy hg hg' (Flag.key.inj hkey).symm
      subst hv
      by_contra hfetch
      exact hsame (Drawer.toggle_unfetched (by simpa using hfetch))
    · cases hf
  | connection c =>
    cases hf
    cases hkey
  | queries c =>
    cases hf
    cases hkey
  | _ => cases hf

theorem drawer_asks (asks : List Ask) (s : Side) : (asks.foldl Side.ask s).drawer = s.drawer := by
  induction asks generalizing s with
  | nil => rfl
  | cons a asks ih =>
    rw [List.foldl_cons, ih]
    cases a with
    | loadSchema c =>
      rw [Side.ask]
      split <;> rfl
    | _ => rfl

theorem drawer_gesture (s : Side) (row : Descr) (done : Drawer × List Ask) :
    (s.gesture row done).drawer = done.1 := by
  have hasks := drawer_asks done.2 { s with drawer := done.1 }
  unfold Side.gesture
  split
  · exact hasks
  · exact hasks

/-- A tree with no facet open takes the place of another. -/
theorem Settled.store {s s' : Side} (h : Settled s.drawer) (hn : Drawer.Named nodes)
    (hclosed : ∀ x ∈ objects c nodes, ∀ f : Helper,
      (s.drawer.conns c).isOpen (hkey x.2.1 x.2.2 f) = false)
    (hst : s.store c nodes = some s') : Settled s'.drawer := by
  rw [Side.store] at hst
  split at hst
  · cases hst
    intro c' nodes' hnodes'
    by_cases hcc : c' = c
    · subst hcc
      rw [Side.update_self, Conn.stored, Option.some.injEq] at hnodes'
      subst hnodes'
      refine ⟨hn, fun x hx f _ hopen => ?_⟩
      rw [Side.update_self] at hopen
      rw [Conn.stored, hclosed x hx f] at hopen
      cases hopen
    · have hsame := Side.update_of_ne (w := s.drawer) (f := Conn.stored nodes) hcc
      rw [hsame] at hnodes' ⊢
      exact h c' nodes' hnodes'
  · cases hst

/-- What is written to a connection and opens nothing. -/
theorem Settled.conn (h : Settled w) (c : RowId) (f : Conn → Conn)
    (hf : ∀ conn nodes, (f conn).nodes = some nodes → conn.nodes = some nodes)
    (hopen : ∀ conn : Conn, (f conn).isOpen = conn.isOpen) : Settled (w.update c f) := by
  refine h.mono (fun c' nodes hnodes => ⟨Side.nodes_update (fun conn => hf conn nodes) hnodes, ?_⟩)
    fun _ _ hfetched => hfetched
  intro k hk
  by_cases hcc : c' = c
  · subst hcc
    rwa [Side.update_self, hopen] at hk
  · rwa [Side.update_of_ne hcc] at hk

/-- The answer for a facet that is listed opens it and fetches it. -/
theorem Settled.answered (h : Settled w) {sch : Schema} {o : Obj} {f : Helper}
    (hf : f.branch = true) (hnodes : (w.conns c).nodes = some nodes)
    (hmem : (c, sch, o) ∈ objects c nodes)
    (hconns : w'.conns = (w.set (c, .key (hkey sch o f)) true).conns)
    (hkept : ∀ o f, w.fetched o f = true → w'.fetched o f = true)
    (hnow : w'.fetched o f = true) : Settled w' := by
  intro c' nodes' hnodes'
  rw [hconns, (Drawer.conns_set c').2.1] at hnodes'
  obtain ⟨hn, hx⟩ := h c' nodes' hnodes'
  refine ⟨hn, fun x hxmem g hg hopen => ?_⟩
  by_cases heq : (c, Flag.key (hkey sch o f)) = (c', .key (hkey x.2.1 x.2.2 g))
  · obtain ⟨rfl, hkey⟩ := Prod.mk.inj heq
    obtain rfl := Option.some.inj (hnodes.symm.trans hnodes')
    obtain ⟨rfl, rfl⟩ := hkey_inj hn hmem hxmem hf hg (Flag.key.inj hkey)
    exact hnow
  · rw [hconns, Drawer.key_set heq] at hopen
    exact hkept _ _ (hx x hxmem g hg hopen)

theorem fetched_update {α : Type} {table : ℕ → Option α} {id : ℕ} (l : α) {o : Obj}
    (h : (table o.id).isSome = true) : (Function.update table id (some l) o.id).isSome = true := by
  by_cases hid : o.id = id
  · rw [hid, Function.update_self]
    rfl
  · rwa [Function.update_of_ne hid]

theorem Settled.answer {s s' : Side} (h : Settled s.drawer) {req : Req} {r : Reply}
    (hfits : Fits s req r) (hst : s.answer req r = some s') : Settled s'.drawer := by
  cases req with
  | connect c =>
    cases r with
    | error =>
      cases hst
      exact h
    | connected k encrypted tunneled =>
      cases hst
      exact h.conn c _ (fun _ _ hconn => hconn) fun _ => rfl
    | _ => cases hst
  | tree c k lenient =>
    cases r with
    | error =>
      cases lenient with
      | true =>
        have hempty : Drawer.Named [] :=
          ⟨.nil, fun _ hs => (by cases hs), fun _ hs => (by cases hs), fun _ hs => (by cases hs)⟩
        exact h.store hempty (fun x hx => by cases hx) hst
      | false =>
        cases hst
        exact h
    | nodes nodes =>
      exact h.store hfits.1 hfits.2 hst
    | _ => cases hst
  | facet c k sch o f =>
    rcases hfits with rfl | ⟨nodes, hnodes, hmem⟩
    · cases f <;> cases hst <;> exact h
    cases f with
    | columns =>
      cases r with
      | error =>
        cases hst
        exact h
      | columns l =>
        cases hst
        refine h.answered rfl hnodes hmem rfl (fun o' f hf => ?_) ?_
        · cases f with
          | columns => exact fetched_update l hf
          | _ => exact hf
        · simp [Drawer.fetched]
      | _ => cases hst
    | indexes =>
      cases r with
      | error =>
        cases hst
        exact h
      | indexes l =>
        cases hst
        refine h.answered rfl hnodes hmem rfl (fun o' f hf => ?_) ?_
        · cases f with
          | indexes => exact fetched_update l hf
          | _ => exact hf
        · simp [Drawer.fetched]
      | _ => cases hst
    | _ =>
      cases r with
      | error =>
        cases hst
        exact h
      | _ => cases hst

theorem Settled.step {s s' : Side} {i : Input} (h : Settled s.drawer) (hcalm : Calm s i)
    (hst : s.step i = some s') : Settled s'.drawer := by
  cases i with
  | toggle n opn =>
    obtain ⟨row, hrow, rfl⟩ := Option.map_eq_some_iff.mp hst
    rw [drawer_gesture]
    exact h.toggle (hcalm row hrow) opn
  | action n =>
    obtain ⟨row, hrow, rfl⟩ := Option.map_eq_some_iff.mp hst
    obtain ⟨opn, heq⟩ := s.drawer.defaultAction_toggle row
    rw [drawer_gesture, heq]
    exact h.toggle (hcalm row hrow) opn
  | disconnect n =>
    obtain ⟨row, -, rfl⟩ := Option.map_eq_some_iff.mp hst
    cases row with
    | connection c =>
      rw [Side.disconnectRow]
      split
      · exact h.conn c Conn.dropped (fun _ _ hconn => by cases hconn) fun _ => rfl
      · exact h
    | _ => exact h
  | refresh n =>
    obtain ⟨row, -, rfl⟩ := Option.map_eq_some_iff.mp hst
    unfold Side.refreshRow
    split
    · exact h
    · exact h
  | reload c k =>
    rw [Side.step] at hst
    split at hst
    · cases hst
      exact h
    · cases hst
      exact h
  | adopt name k =>
    cases hst
    unfold Side.adopt
    split
    · exact h
    · split
      · exact h
      · exact h.conn _ (Conn.adopted k) (fun _ _ hconn => hconn) fun _ => rfl
  | load saved =>
    rw [Side.step] at hst
    split at hst
    · cases hst
      refine h.mono (fun c nodes hnodes => ?_) fun _ _ hf => hf
      simp only [Side.load] at hnodes ⊢
      split at hnodes
      · next hkept =>
        split at hnodes
        · next hlive =>
          simp only [if_pos hkept, if_pos hlive]
          exact ⟨hnodes, fun _ hk => hk⟩
        · cases hnodes
      · next hgone =>
        simp only [if_neg hgone]
        exact ⟨hnodes, fun _ hk => hk⟩
    · cases hst
  | others queries caps =>
    cases hst
    exact h
  | render =>
    cases hst
    exact h
  | answer n r =>
    obtain ⟨req, hreq, hst⟩ := Option.bind_eq_some_iff.mp hst
    have hfits : Fits s req r := hcalm req hreq
    exact Settled.answer (s := { s with inflight := s.inflight.eraseIdx n }) h (by
      cases req <;> exact hfits) hst

theorem settled_init : Settled Side.init.drawer := fun _ _ h => by cases h

/-- An open facet of a listed object lists what was fetched for this object, in every run in which
every tree that comes names its nodes apart and has no facet open yet, and none but listed objects are
acted on and answered for. -/
theorem open_fetched {ins : List Input} {s : Side} (hrun : Side.side.Run Calm Side.init ins s)
    (hnodes : (s.drawer.conns c).nodes = some nodes) {sch : Schema} {o : Obj} (hsch : sch ∈ nodes)
    (ho : o ∈ sch.children) {h : Helper} (hh : h.branch = true)
    (hopen : (s.drawer.conns c).isOpen (hkey sch o h) = true) : s.drawer.fetched o h = true := by
  have hsettled : Settled s.drawer := hrun.invariant (fun s => Settled s.drawer)
    (fun _ _ _ hcalm h hst => h.step hcalm hst) settled_init
  exact (hsettled c nodes hnodes).2 (c, sch, o) (Side.mem_objects.mpr ⟨rfl, hsch, ho⟩) h hh hopen

/-! ### A run -/

instance (p : Helper → Prop) [DecidablePred p] : Decidable (∀ h, p h) :=
  decidable_of_iff (p .data ∧ p .columns ∧ p .indexes ∧ p .ddl)
    ⟨fun hall h => by cases h <;> simp [hall], fun hall => ⟨hall _, hall _, hall _, hall _⟩⟩

instance : DecidablePred Drawer.Named := fun nodes =>
  decidable_of_iff ((nodes.map Schema.name).Nodup ∧ (∀ s ∈ nodes, '.' ∉ s.name.toList) ∧
      (∀ s ∈ nodes, (s.children.map Obj.name).Nodup) ∧
      ∀ s ∈ nodes, ∀ o ∈ s.children, ∀ o' ∈ s.children, ∀ h : Helper, h.branch = true →
        o'.name ≠ o.name ++ "#" ++ h.id)
    ⟨fun h => ⟨h.1, h.2.1, h.2.2.1, h.2.2.2⟩, fun h => ⟨h.schemas, h.dotless, h.objects, h.facets⟩⟩

instance (s : Side) : (req : Req) → (r : Reply) → Decidable (Fits s req r)
  | .tree c _ _, .nodes nodes =>
    inferInstanceAs (Decidable (Drawer.Named nodes ∧ ∀ x ∈ objects c nodes, ∀ h : Helper,
      (s.drawer.conns c).isOpen (hkey x.2.1 x.2.2 h) = false))
  | .facet c _ sch o _, r => inferInstanceAs (Decidable (r = .error ∨
      ∃ nodes ∈ (s.drawer.conns c).nodes, (c, sch, o) ∈ objects c nodes))
  | .connect _, _ | .tree .., .error | .tree .., .connected .. | .tree .., .columns _
  | .tree .., .indexes _ => .isTrue trivial

instance (s : Side) : DecidablePred (Calm s)
  | .toggle n _ | .action n =>
    inferInstanceAs (Decidable (∀ row ∈ s.rows[n]?, row ∈ s.drawer.outline.labels))
  | .answer n r => inferInstanceAs (Decidable (∀ req ∈ s.inflight[n]?, Fits s req r))
  | .disconnect _ | .refresh _ | .reload .. | .adopt .. | .load _ | .others .. | .render =>
    .isTrue trivial

theorem open_fetched_orders :
    Side.browsed.drawer.fetched ⟨0, "orders", "table"⟩ .columns = true := by
  have hcalm : (Side.side.execWith (fun s i => decide (Calm s i)) Side.init
      Side.browse).isSome = true := by decide
  obtain ⟨s, hs⟩ := Option.isSome_iff_exists.mp hcalm
  have hrun : Side.side.Run Calm Side.init Side.browse s :=
    Machine.run_of_execWith (fun _ _ => of_decide_eq_true) hs
  obtain rfl : s = Side.browsed := Option.some.inj (hrun.exec_eq.symm.trans Side.browsed_eq)
  exact open_fetched hrun Side.browsed_nodes (List.mem_cons_self ..) (List.mem_cons_self ..) rfl
    (by decide)

end LvimDb.Tree
