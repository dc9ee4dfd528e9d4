import LvimDb.Lib.Cut
import LvimDb.Tree.Rows

/-!
# Opening and closing a row

`toggle` and `default_action` of ui/drawer.lua. What is open is kept by name, so that a row opens
and closes alone as long as no two rows have one key.
-/

namespace LvimDb.Tree
open Lib

/-- The field of a connection that `toggle` writes. -/
inductive Flag
  | expanded
  | queries
  | key (k : String)
  deriving DecidableEq

def Descr.flag : Descr → Option (RowId × Flag)
  | .connection c => some (c, .expanded)
  | .queries c => some (c, .queries)
  | .schema c s => some (c, .key (skey s))
  | .object c s o => some (c, .key (okey s o))
  | .helper c s o h => if h.branch then some (c, .key (hkey s o h)) else none
  | _ => none

def Conn.set (conn : Conn) : Flag → Bool → Conn
  | .expanded, v => { conn with expanded := v }
  | .queries, v => { conn with queriesOpen := v }
  | .key k, v => { conn with isOpen := Function.update conn.isOpen k v }

/-- What a gesture on a row asks of others. -/
inductive Ask
  | setActive (conn : RowId)
  | loadQuery (conn : RowId) (query : String)
  | loadSchema (conn : RowId)
  | act (conn : RowId) (schema : Schema) (obj : Obj) (helper : Helper)
  | fetch (conn : RowId) (schema : Schema) (obj : Obj) (helper : Helper)
  deriving DecidableEq

namespace Drawer
variable (w : Drawer)

def set (f : RowId × Flag) (v : Bool) : Drawer :=
  { w with conns := Function.update w.conns f.1 ((w.conns f.1).set f.2 v) }

def fetched (o : Obj) : Helper → Bool
  | .columns => (w.columns o.id).isSome
  | .indexes => (w.indexes o.id).isSome
  | _ => false

/-- `toggle` (800-889). -/
def toggle (row : Descr) (opn : Bool) : Drawer × List Ask :=
  match row with
  | .connection c =>
    if opn then (w.set (c, .expanded) true, [.setActive c]) else (w.set (c, .expanded) false, [])
  | .queries c => (w.set (c, .queries) opn, [])
  | .query c q => (w, if opn then [.loadQuery c q] else [])
  | .gate c => (w, if opn then [.loadSchema c] else [])
  | .schema c s => (w.set (c, .key (skey s)) opn, [])
  | .object c s o => (w.set (c, .key (okey s o)) opn, [])
  | .helper c s o h =>
    if h.branch then
      if opn && !w.fetched o h then (w, [.fetch c s o h])
      else (w.set (c, .key (hkey s o h)) opn, [])
    else (w, if opn then [.act c s o h] else [])
  | .empty | .column .. | .noIndexes _ | .index .. => (w, [])

/-- `default_action` (892-932). -/
def defaultAction (row : Descr) : Drawer × List Ask :=
  match row with
  | .connection c => (w.set (c, .expanded) true, [.setActive c])
  | .gate c => (w, [.loadSchema c])
  | .queries c => w.toggle row (!(w.conns c).queriesOpen)
  | .query c q => (w, [.loadQuery c q])
  | .schema c s => w.toggle row (!(w.conns c).isOpen (skey s))
  | .object c s o => w.toggle row (!(w.conns c).isOpen (okey s o))
  | .helper c s o h =>
    if h.branch then w.toggle row (!(w.conns c).isOpen (hkey s o h)) else (w, [.act c s o h])
  | .empty | .column .. | .noIndexes _ | .index .. => (w, [])

/-- The action opens what is closed and closes what is open, but a connection stays open. -/
theorem defaultAction_toggle (row : Descr) : ∃ opn, w.defaultAction row = w.toggle row opn := by
  cases row with
  | queries c => exact ⟨_, rfl⟩
  | schema c s => exact ⟨_, rfl⟩
  | object c s o => exact ⟨_, rfl⟩
  | helper c s o h =>
    by_cases hb : h.branch = true
    · exact ⟨!(w.conns c).isOpen (hkey s o h), if_pos hb⟩
    · exact ⟨true, (if_neg hb).trans (if_neg hb).symm⟩
  | _ => exact ⟨true, rfl⟩

variable {w} {f : RowId × Flag} {v : Bool} {d : Descr}

/-- A gesture writes nothing, or the field of its row. -/
theorem toggle_cases (row : Descr) (opn : Bool) :
    (w.toggle row opn).1 = w ∨ ∃ f, row.flag = some f ∧ (w.toggle row opn).1 = w.set f opn := by
  cases row with
  | connection c =>
    cases opn with
    | true => exact .inr ⟨_, rfl, rfl⟩
    | false => exact .inr ⟨_, rfl, rfl⟩
  | queries c => exact .inr ⟨_, rfl, rfl⟩
  | schema c s => exact .inr ⟨_, rfl, rfl⟩
  | object c s o => exact .inr ⟨_, rfl, rfl⟩
  | helper c s o h =>
    by_cases hb : h.branch = true
    · by_cases hfetch : (opn && !w.fetched o h) = true
      · exact .inl (by simp only [toggle, if_pos hb, if_pos hfetch])
      · exact .inr ⟨_, if_pos hb, by simp only [toggle, if_pos hb, if_neg hfetch]⟩
    · exact .inl (by simp only [toggle, if_neg hb])
  | _ => exact .inl rfl

/-- A facet is fetched to open it, and only where it has not been. -/
theorem toggle_fetch {row : Descr} {opn : Bool} {c : RowId} {s : Schema} {o : Obj} {h : Helper}
    (hf : .fetch c s o h ∈ (w.toggle row opn).2) : row = .helper c s o h := by
  cases row with
  | helper c' s' o' h' =>
    by_cases hb : h'.branch = true
    · by_cases hfetch : (opn && !w.fetched o' h') = true
      · simp only [toggle, if_pos hb, if_pos hfetch, List.mem_singleton, Ask.fetch.injEq] at hf
        obtain ⟨rfl, rfl, rfl, rfl⟩ := hf
        rfl
      · rw [toggle, if_pos hb, if_neg hfetch] at hf
        cases hf
    · cases opn <;> simp [toggle, hb] at hf
  | _ => cases opn <;> simp [toggle] at hf

/-- A facet that has not been fetched is not opened. -/
theorem toggle_unfetched {c : RowId} {s : Schema} {o : Obj} {h : Helper}
    (hf : w.fetched o h = false) : (w.toggle (.helper c s o h) true).1 = w := by
  by_cases hb : h.branch = true
  · simp [toggle, hb, hf]
  · simp [toggle, hb]

/-! ### One field is written -/

theorem isOpen_set (hd : d.flag = some f) : (w.set f v).isOpen d = v := by
  cases d with
  | connection c =>
    cases hd
    simp [isOpen, set, Conn.set]
  | queries c =>
    cases hd
    simp [isOpen, set, Conn.set]
  | schema c s =>
    cases hd
    simp [isOpen, set, Conn.set]
  | object c s o =>
    cases hd
    simp [isOpen, set, Conn.set]
  | helper c s o h =>
    rw [Descr.flag] at hd
    split at hd
    · next hb =>
      cases hd
      simp [isOpen, set, Conn.set, hb]
    · cases hd
  | _ => cases hd

theorem set_self : (w.set f v).conns f.1 = (w.conns f.1).set f.2 v := Function.update_self ..

theorem set_of_ne {c : RowId} (hc : c ≠ f.1) : (w.set f v).conns c = w.conns c :=
  Function.update_of_ne hc ..

/-- What `set` leaves of a connection. -/
theorem conns_set (c : RowId) :
    ((w.set f v).conns c).driver = (w.conns c).driver ∧
      ((w.set f v).conns c).nodes = (w.conns c).nodes ∧
      ((w.set f v).conns c).connId = (w.conns c).connId ∧
      ((w.set f v).conns c).encrypted = (w.conns c).encrypted ∧
      ((w.set f v).conns c).tunneled = (w.conns c).tunneled := by
  by_cases hc : c = f.1
  · subst hc
    rw [set_self]
    cases f.2 <;> exact ⟨rfl, rfl, rfl, rfl, rfl⟩
  · rw [set_of_ne hc]
    exact ⟨rfl, rfl, rfl, rfl, rfl⟩

theorem expanded_set {c : RowId} (h : f ≠ (c, .expanded)) :
    ((w.set f v).conns c).expanded = (w.conns c).expanded := by
  by_cases hc : c = f.1
  · obtain ⟨name, flag⟩ := f
    subst hc
    rw [set_self]
    cases flag with
    | expanded => exact absurd rfl h
    | _ => rfl
  · rw [set_of_ne hc]

theorem queriesOpen_set {c : RowId} (h : f ≠ (c, .queries)) :
    ((w.set f v).conns c).queriesOpen = (w.conns c).queriesOpen := by
  by_cases hc : c = f.1
  · obtain ⟨name, flag⟩ := f
    subst hc
    rw [set_self]
    cases flag with
    | queries => exact absurd rfl h
    | _ => rfl
  · rw [set_of_ne hc]

theorem key_set {c : RowId} {k : String} (h : f ≠ (c, .key k)) :
    ((w.set f v).conns c).isOpen k = (w.conns c).isOpen k := by
  by_cases hc : c = f.1
  · obtain ⟨name, flag⟩ := f
    subst hc
    rw [set_self]
    cases flag with
    | key k' =>
      have hk : k ≠ k' := fun hk => h (hk ▸ rfl)
      exact Function.update_of_ne hk ..
    | _ => rfl
  · rw [set_of_ne hc]

theorem isOpen_set_of_ne (hd : d.flag ≠ some f) : (w.set f v).isOpen d = w.isOpen d := by
  cases d with
  | connection c => exact expanded_set fun h => hd (h ▸ rfl)
  | queries c => exact queriesOpen_set fun h => hd (h ▸ rfl)
  | schema c s => exact key_set fun h => hd (h ▸ rfl)
  | object c s o => exact key_set fun h => hd (h ▸ rfl)
  | helper c s o h =>
    rw [isOpen, isOpen]
    cases hb : h.branch with
    | false => rfl
    | true => rw [key_set fun heq => hd (by rw [Descr.flag, if_pos hb, heq])]
  | _ => rfl

theorem outline_set : (w.set f v).outline = w.outline := by
  have hobject (c : RowId) (s : Schema) : (w.set f v).objectTree c s = w.objectTree c s := by
    funext o
    rw [objectTree, (conns_set c).1]
    rfl
  have hschema (c : RowId) : (w.set f v).schemaTree c = w.schemaTree c := by
    funext s
    rw [schemaTree, hobject]
    rfl
  have hconn : (w.set f v).connectionTree = w.connectionTree := by
    funext c
    rw [connectionTree, (conns_set c).2.1, hschema]
    rfl
  rw [outline, hconn]
  rfl

/-- A row that is not the written one stays as it is, and of the written one the caret changes. -/
theorem itemOf_set (r : ℕ × Descr) :
    (r.2.flag ≠ some f → (w.set f v).itemOf r = w.itemOf r) ∧
      (w.set f v).itemOf r = { w.itemOf r with caret := ((w.set f v).itemOf r).caret } := by
  obtain ⟨n, d⟩ := r
  have hopen : d.flag ≠ some f → (w.set f v).isOpen d = w.isOpen d := isOpen_set_of_ne
  cases d with
  | connection c =>
    obtain ⟨hdriver, -, hid, henc, htun⟩ := conns_set (w := w) (f := f) (v := v) c
    refine ⟨fun hne => ?_, ?_⟩
    · have hexp : ((w.set f v).conns c).expanded = (w.conns c).expanded := hopen hne
      simp only [itemOf, connectionItem, hdriver, hid, henc, htun, hexp]
    · simp only [itemOf, connectionItem, hdriver, hid, henc, htun]
  | queries c =>
    refine ⟨fun hne => ?_, rfl⟩
    rw [itemOf, hopen hne]
    rfl
  | schema c s =>
    refine ⟨fun hne => ?_, rfl⟩
    rw [itemOf, hopen hne]
    rfl
  | object c s o =>
    refine ⟨fun hne => ?_, rfl⟩
    rw [itemOf, hopen hne]
    rfl
  | helper c s o h =>
    refine ⟨fun hne => ?_, rfl⟩
    rw [itemOf, hopen hne]
    rfl
  | _ => exact ⟨fun _ => rfl, rfl⟩

/-! ### The keys -/

/-- The facets that can be opened. -/
def branches (caps : Caps) : List Helper := (helpersFor caps).filter Helper.branch

/-- What is behind the dot in the keys of an object and its facets. -/
def tails (bs : List Helper) (o : Obj) : List String :=
  o.name :: bs.map fun h => o.name ++ "#" ++ h.id

variable (w) in
/-- The keys of a connection, each in two parts. -/
def keys (c : RowId) : List (String × Option String) :=
  ((w.conns c).nodes.getD []).flatMap fun s =>
    (s.name, none) :: (s.children.flatMap (tails (branches (w.caps (w.conns c).driver)))).map
      fun t => (s.name, some t)

def joinKey (k : String × Option String) : String := k.2.elim k.1 (k.1 ++ "." ++ ·)

/-- A name tells a schema from the others, and an object from the others of its schema and from
their facets. -/
structure Named (nodes : List Schema) : Prop where
  schemas : (nodes.map Schema.name).Nodup
  dotless : ∀ s ∈ nodes, '.' ∉ s.name.toList
  objects : ∀ s ∈ nodes, (s.children.map Obj.name).Nodup
  facets : ∀ s ∈ nodes, ∀ o ∈ s.children, ∀ o' ∈ s.children, ∀ h : Helper, h.branch = true →
    o'.name ≠ o.name ++ "#" ++ h.id

theorem branch_mem {caps : Caps} {h : Helper} (hh : h ∈ branches caps) : h.branch = true :=
  (List.mem_filter.mp hh).2

theorem branches_nodup (caps : Caps) : (branches caps).Nodup := by
  obtain ⟨indexes, ddl⟩ := caps
  cases indexes <;> cases ddl <;> decide

theorem append_id {a b : String} {h h' : Helper} (hh : h.branch = true) (hh' : h'.branch = true)
    (heq : a ++ "#" ++ h.id = b ++ "#" ++ h'.id) : a = b ∧ h = h' := by
  have hcases {h : Helper} (hh : h.branch = true) : h = .columns ∨ h = .indexes := by
    cases h with
    | columns => exact .inl rfl
    | indexes => exact .inr rfl
    | _ => cases hh
  have hh := hcases hh
  have hh' := hcases hh'
  have hlist := congrArg String.toList heq
  simp only [String.toList_append] at hlist
  have hlen : h.id.toList.length = h'.id.toList.length := by
    rcases hh with rfl | rfl <;> rcases hh' with rfl | rfl <;> decide
  obtain ⟨hpre, hid⟩ := List.append_inj' hlist hlen
  refine ⟨String.toList_injective (List.append_cancel_right hpre), ?_⟩
  rcases hh with rfl | rfl <;> rcases hh' with rfl | rfl
  · rfl
  · exact absurd hid (by decide)
  · exact absurd hid (by decide)
  · rfl

theorem append_ne (a b : String) : a ≠ a ++ "#" ++ b := by
  intro heq
  have hlen := congrArg (fun s => s.toList.length) heq
  simp at hlen

theorem tails_nodup {c : RowId} {nodes : List Schema} (h : Named nodes) {s : Schema}
    (hs : s ∈ nodes) :
    (s.children.flatMap (tails (branches (w.caps (w.conns c).driver)))).Nodup := by
  refine List.nodup_flatMap.mpr ⟨fun o ho => ?_, ?_⟩
  · refine List.nodup_cons.mpr ⟨fun hmem => ?_, ?_⟩
    · obtain ⟨f, -, hf⟩ := List.mem_map.mp hmem
      exact append_ne _ _ hf.symm
    · exact (branches_nodup _).map_on fun f hf g hg heq =>
        (append_id (branch_mem hf) (branch_mem hg) heq).2
  · have hnames : s.children.Pairwise fun o o' => o.name ≠ o'.name :=
      List.pairwise_map.mp (h.objects s hs)
    refine (List.Pairwise.and_mem.mp hnames).imp fun {o o'} hoo t ht ht' => ?_
    obtain ⟨ho, ho', hne⟩ := hoo
    rcases List.mem_cons.mp ht with rfl | ht <;> rcases List.mem_cons.mp ht' with heq | ht'
    · exact hne heq
    · obtain ⟨g, hg, heq⟩ := List.mem_map.mp ht'
      exact h.facets s hs o' ho' o ho g (branch_mem hg) heq.symm
    · obtain ⟨f, hf, rfl⟩ := List.mem_map.mp ht
      exact h.facets s hs o ho o' ho' f (branch_mem hf) heq.symm
    · obtain ⟨f, hf, rfl⟩ := List.mem_map.mp ht
      obtain ⟨g, hg, heq⟩ := List.mem_map.mp ht'
      exact hne (append_id (branch_mem hg) (branch_mem hf) heq).1.symm

theorem joinKey_inj {k k' : String × Option String} (hk : '.' ∉ k.1.toList)
    (hk' : '.' ∉ k'.1.toList) (heq : joinKey k = joinKey k') : k = k' := by
  obtain ⟨a, t⟩ := k
  obtain ⟨b, u⟩ := k'
  have hlist := congrArg String.toList heq
  cases t with
  | none =>
    cases u with
    | none => exact congrArg (·, none) heq
    | some u =>
      -- there is a dot on the right only
      refine absurd ?_ hk
      simp only [joinKey, Option.elim_none, Option.elim_some, String.toList_append] at hlist
      rw [hlist]
      simp
  | some t =>
    cases u with
    | none =>
      refine absurd ?_ hk'
      simp only [joinKey, Option.elim_none, Option.elim_some, String.toList_append] at hlist
      rw [← hlist]
      simp
    | some u =>
      simp only [joinKey, Option.elim_some, String.toList_append, List.append_assoc] at hlist
      obtain ⟨hab, htu⟩ := cut_cons hk hk' hlist
      have hab : a = b := String.toList_injective hab
      have htu : t = u := String.toList_injective htu
      rw [hab, htu]

theorem keys_nodup {c : RowId} (h : Named ((w.conns c).nodes.getD [])) :
    ((w.keys c).map joinKey).Nodup := by
  have hfst : ∀ k ∈ w.keys c, '.' ∉ k.1.toList := by
    intro k hk
    obtain ⟨s, hs, hk⟩ := List.mem_flatMap.mp hk
    rcases List.mem_cons.mp hk with rfl | hk
    · exact h.dotless s hs
    · obtain ⟨t, -, rfl⟩ := List.mem_map.mp hk
      exact h.dotless s hs
  have hnodup : (w.keys c).Nodup := by
    refine List.nodup_flatMap.mpr ⟨fun s hs => ?_, ?_⟩
    · refine List.nodup_cons.mpr ⟨fun hmem => ?_, ?_⟩
      · obtain ⟨t, -, ht⟩ := List.mem_map.mp hmem
        cases ht
      · exact (tails_nodup h hs).map fun t t' heq => by cases heq; rfl
    · have hnames : ((w.conns c).nodes.getD []).Pairwise fun s s' => s.name ≠ s'.name :=
        List.pairwise_map.mp h.schemas
      refine hnames.imp fun {s s'} hne k hk hk' => hne ?_
      have hfst : ∀ s : Schema, k ∈ (s.name, none) :: (s.children.flatMap
          (tails (branches (w.caps (w.conns c).driver)))).map (fun t => (s.name, some t)) →
          k.1 = s.name := by
        intro s hk
        rcases List.mem_cons.mp hk with rfl | hk
        · rfl
        · obtain ⟨t, -, rfl⟩ := List.mem_map.mp hk
          rfl
      exact (hfst s hk).symm.trans (hfst s' hk')
  exact hnodup.map_on fun k hk k' hk' heq => joinKey_inj (hfst k hk) (hfst k' hk') heq

/-! ### One row -/

theorem flags_leaves {α : Type} (f : α → Descr) (hf : ∀ x, (f x).flag = none) (xs : List α) :
    (Outline.forest leaf (xs.map f)).labels.filterMap Descr.flag = [] := by
  rw [Outline.labels_forest, List.filterMap_eq_nil_iff]
  intro d hd
  obtain ⟨d', hd', hd⟩ := List.mem_flatMap.mp hd
  obtain ⟨x, -, rfl⟩ := List.mem_map.mp hd'
  rw [leaf, Outline.labels, Outline.labels, List.append_nil, List.mem_singleton] at hd
  rw [hd, hf]

theorem flags_facets (c : RowId) (s : Schema) (o : Obj) (h : Helper) :
    (Outline.forest leaf (w.facets c s o h)).labels.filterMap Descr.flag = [] := by
  cases h with
  | columns => exact flags_leaves _ (fun _ => rfl) _
  | indexes =>
    rw [facets]
    cases w.indexes o.id with
    | none => rfl
    | some l =>
      rw [Option.elim_some]
      split
      · rfl
      · exact flags_leaves _ (fun _ => rfl) _
  | _ => rfl

theorem flags_object (c : RowId) (s : Schema) (o : Obj) :
    (w.objectTree c s o).labels.filterMap Descr.flag =
      (tails (branches (w.caps (w.conns c).driver)) o).map fun t =>
        (c, .key (joinKey (s.name, some t))) := by
  have hfacet (h : Helper) : (w.facetTree c s o h).labels.filterMap Descr.flag =
      (if h.branch then [(c, Flag.key (hkey s o h))] else []) := by
    rw [facetTree, Outline.labels, Outline.labels, List.append_nil, List.filterMap_cons,
      flags_facets]
    cases h <;> rfl
  rw [objectTree, Outline.labels, Outline.labels, List.append_nil, Outline.labels_forest, tails,
    List.map_cons, branches, List.map_map]
  refine congrArg (List.cons _) ?_
  rw [List.filterMap_flatMap]
  induction helpersFor (w.caps (w.conns c).driver) with
  | nil => rfl
  | cons h hs ih =>
    rw [List.flatMap_cons, hfacet, ih, List.filter_cons]
    cases hb : h.branch with
    | false => rfl
    | true =>
      have hkey : hkey s o h = joinKey (s.name, some (o.name ++ "#" ++ h.id)) := by
        simp [hkey, okey, skey, joinKey, String.append_assoc]
      rw [hkey]
      rfl

theorem flags_connection (c : RowId) :
    (w.connectionTree c).labels.filterMap Descr.flag =
      (c, .expanded) :: (c, .queries) :: (w.keys c).map fun k => (c, .key (joinKey k)) := by
  have hschema (s : Schema) : (w.schemaTree c s).labels.filterMap Descr.flag =
      ((s.name, none) :: (s.children.flatMap (tails (branches (w.caps (w.conns c).driver)))).map
        fun t => (s.name, some t)).map fun k => (c, .key (joinKey k)) := by
    rw [schemaTree, Outline.labels, Outline.labels, List.append_nil, Outline.labels_forest,
      List.map_cons, List.map_map]
    refine congrArg (List.cons _) ?_
    rw [List.filterMap_flatMap, List.map_flatMap]
    exact congrArg (List.flatMap · s.children) (funext fun o => flags_object c s o)
  rw [connectionTree, Outline.labels, Outline.labels, Outline.labels, List.append_nil]
  refine congrArg (List.cons _) (congrArg (List.cons _) ?_)
  rw [List.filterMap_append, flags_leaves _ fun _ => rfl, List.nil_append, keys]
  cases (w.conns c).nodes with
  | none => rfl
  | some nodes =>
    rw [Option.elim_some, Option.getD_some, Outline.labels_forest, List.filterMap_flatMap,
      List.map_flatMap]
    exact congrArg (List.flatMap · nodes) (funext hschema)

/-- No two rows have one flag. -/
theorem flags_nodup (h : ∀ c ∈ w.live, Named ((w.conns c).nodes.getD [])) :
    (w.outline.labels.filterMap Descr.flag).Nodup := by
  rw [outline, Outline.labels_forest, List.filterMap_flatMap]
  have hsorted : w.sorted.Nodup :=
    (List.perm_insertionSort ..).nodup_iff.mpr (.of_map _ w.distinct)
  refine List.nodup_flatMap.mpr ⟨fun c hc => ?_, ?_⟩
  · have hkeys := keys_nodup (h c ((List.perm_insertionSort ..).mem_iff.mp hc))
    rw [flags_connection]
    have hmap : (w.keys c).map (fun k => (c, Flag.key (joinKey k))) =
        ((w.keys c).map joinKey).map fun k => (c, Flag.key k) := by
      rw [List.map_map]
      rfl
    rw [hmap]
    refine List.nodup_cons.mpr ⟨fun hmem => ?_, List.nodup_cons.mpr ⟨fun hmem => ?_, ?_⟩⟩
    · rcases List.mem_cons.mp hmem with heq | hmem
      · cases heq
      · obtain ⟨k, -, hk⟩ := List.mem_map.mp hmem
        cases hk
    · obtain ⟨k, -, hk⟩ := List.mem_map.mp hmem
      cases hk
    · exact hkeys.map fun k k' heq => by cases heq; rfl
  · refine hsorted.imp fun {c c'} hne f hf hf' => hne ?_
    have hfst : ∀ c, f ∈ (w.connectionTree c).labels.filterMap Descr.flag → f.1 = c := by
      intro c hf
      rw [flags_connection] at hf
      rcases List.mem_cons.mp hf with rfl | hf
      · rfl
      · rcases List.mem_cons.mp hf with rfl | hf
        · rfl
        · obtain ⟨k, -, rfl⟩ := List.mem_map.mp hf
          rfl
    exact (hfst c hf).symm.trans (hfst c' hf')

theorem once (h : ∀ c ∈ w.live, Named ((w.conns c).nodes.getD [])) (f : RowId × Flag) :
    w.outline.labels.countP (fun d => d.flag == some f) ≤ 1 := by
  rw [← List.count_filterMap]
  exact List.nodup_iff_count_le_one.mp (flags_nodup h) f

/-- A buffer of rows. -/
def print (rows : List Item) : Buf := rows.foldl pushRow ⟨[], [], []⟩

theorem render_print (h : w.live ≠ []) : w.render = print (w.shown.map w.itemOf) := by
  rw [render_shown h, print, List.foldl_map]
  rfl

theorem depth_itemOf (r : ℕ × Descr) : (w.itemOf r).depth = r.1 := by
  obtain ⟨n, d⟩ := r
  cases d <;> rfl

/-- The rows of `w` and of `w'` differ in the caret of `r` and in what is below it. -/
def Alone (w w' : Drawer) (r : ℕ × Descr) (opn : Bool) : Prop :=
  ∃ (before below below' after : List Item) (row : Item) (caret : String),
    w.render = print (before ++ row :: (below ++ after)) ∧
    w'.render = print (before ++ { row with caret := caret } :: (below' ++ after)) ∧
    row.descr = r.2 ∧ (∀ i ∈ below ++ below', row.depth < i.depth) ∧
    (∀ i ∈ after.head?, i.depth ≤ row.depth) ∧ (w.isOpen r.2 = false → below = []) ∧
    (opn = false → below' = [])

/-- A connection with one table. -/
def shop : Drawer where
  live := [(0, "shop")]
  distinct := by decide
  conns _ := ⟨"sqlite", some 1, false, false, true, false,
    some [⟨"main", [⟨0, "orders", "table"⟩]⟩], fun k => k == "main"⟩
  queries _ := []
  caps _ := ⟨true, true⟩
  columns _ := none
  indexes _ := none

end Drawer

end LvimDb.Tree
