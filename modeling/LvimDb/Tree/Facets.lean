import LvimDb.Lib.Machine
import LvimDb.Tree.Toggle

/-!
# The facets of an object

ui/drawer.lua over an engine that answers its requests in any order, with rows or an error. What
is fetched for an object is kept in the object's table; what is open is kept by name, and outlives
the table. A tree that is read again has tables of its own.
-/

namespace LvimDb.Tree
open Lib

/-! ### The machine -/

/-- A request without an answer. The trees asked for by the `refresh` key and by `adopt` are stored
even where the answer is an error, as empty ones. -/
inductive Req
  | connect (c : RowId)
  | tree (c : RowId) (k : ℕ) (lenient : Bool)
  | facet (c : RowId) (k : Option ℕ) (s : Schema) (o : Obj) (h : Helper)
  deriving DecidableEq

inductive Reply
  | error
  | connected (k : ℕ) (encrypted tunneled : Bool)
  | nodes (nodes : List Schema)
  | columns (columns : List Column)
  | indexes (indexes : List Index)
  deriving DecidableEq

/-- An answer without an error to the request for a facet: over which connection, of the object of
which names, and what it was. -/
inductive Event
  | columns (c : RowId) (k : Option ℕ) (schema object : String) (columns : List Column)
  | indexes (c : RowId) (k : Option ℕ) (schema object : String) (indexes : List Index)
  deriving DecidableEq

/-- An object of a tree of a connection. -/
abbrev Place := RowId × Schema × Obj

def objects (c : RowId) (nodes : List Schema) : List Place :=
  nodes.flatMap fun s => s.children.map fun o => (c, s, o)

/-- `state.rows` is of the last rendering; `made` are the objects of all trees there have been. -/
structure Side where
  drawer : Drawer
  rows : List Descr
  inflight : List Req
  made : List Place
  tables : ℕ
  log : List Event

inductive Input
  | toggle (line : ℕ) (opn : Bool)
  | action (line : ℕ)
  | disconnect (line : ℕ)
  | refresh (line : ℕ)
  | reload (c : RowId) (k : ℕ)
  | adopt (name : String) (k : ℕ)
  | load (saved : List (String × String))
  | others (queries : String → List String) (caps : String → Caps)
  | render
  | answer (n : ℕ) (r : Reply)

def Descr.conn : Descr → Option RowId
  | .empty => none
  | .connection c | .queries c | .query c _ | .gate c | .schema c _ | .object c _ _
  | .helper c _ _ _ | .column c _ _ _ | .noIndexes c | .index c _ _ _ => some c

def Descr.place : Descr → Option Place
  | .object c s o | .helper c s o _ | .column c s o _ | .index c s o _ => some (c, s, o)
  | _ => none

def Req.place : Req → Option Place
  | .facet c _ s o _ => some (c, s, o)
  | _ => none

def Drawer.update (w : Drawer) (c : RowId) (f : Conn → Conn) : Drawer :=
  { w with conns := Function.update w.conns c (f (w.conns c)) }

/-- The link of a connection after `connect_saved`. -/
def Conn.linked (k : ℕ) (encrypted tunneled : Bool) (conn : Conn) : Conn :=
  { conn with connId := some k, encrypted, tunneled }

def Conn.adopted (k : ℕ) (conn : Conn) : Conn := { conn with connId := some k }

def Conn.stored (nodes : List Schema) (conn : Conn) : Conn := { conn with nodes := some nodes }

def Conn.dropped (conn : Conn) : Conn :=
  { conn with connId := none, nodes := none, encrypted := false, tunneled := false }

namespace Side
variable (s : Side)

def draw : Side := { s with rows := s.drawer.render.rows }

def add (r : Req) : Side := { s with inflight := s.inflight ++ [r] }

/-- What the drawer does of what a gesture asks; the rest is the editor's and the result dock's. -/
def ask (s : Side) : Ask → Side
  | .loadSchema c => if (s.drawer.conns c).connId.isSome then s else s.add (.connect c)
  | .fetch c schema o h => s.add (.facet c (s.drawer.conns c).connId schema o h)
  | .setActive _ | .loadQuery .. | .act .. => s

def Fetches : Ask → Bool
  | .fetch .. => true
  | _ => false

/-- A gesture on a row; the drawer is rendered anew where the row's field was written. -/
def gesture (row : Descr) (done : Drawer × List Ask) : Side :=
  let s := done.2.foldl ask { s with drawer := done.1 }
  if row.flag.isSome && !done.2.any Fetches then s.draw else s

/-- `conn.nodes = nodes`; the answer was decoded into new tables. -/
def store (c : RowId) (nodes : List Schema) : Option Side :=
  if ((objects c nodes ++ s.made).map fun x => x.2.2.id).Nodup then
    some { s with
      drawer := s.drawer.update c (Conn.stored nodes)
      made := objects c nodes ++ s.made }
  else none

/-- The callbacks of `load_schema` (587-609), `reload_schema` (621-633), `adopt` (641-651), the
`refresh` key (1222-1230) and of a facet in `toggle` (862-882). -/
def answer (s : Side) : Req → Reply → Option Side
  | .connect _, .error => some s
  | .connect c, .connected k encrypted tunneled =>
    some ({ s with drawer := s.drawer.update c (Conn.linked k encrypted tunneled) }.add
      (.tree c k false))
  | .tree c _ lenient, .error => if lenient then s.store c [] else some s
  | .tree c _ _, .nodes nodes => s.store c nodes
  | .facet .., .error => some s
  | .facet c k schema o .columns, .columns l =>
    some { s with
      drawer := { s.drawer.set (c, .key (hkey schema o .columns)) true with
        columns := Function.update s.drawer.columns o.id (some l) }
      log := .columns c k schema.name o.name l :: s.log }
  | .facet c k schema o .indexes, .indexes l =>
    some { s with
      drawer := { s.drawer.set (c, .key (hkey schema o .indexes)) true with
        indexes := Function.update s.drawer.indexes o.id (some l) }
      log := .indexes c k schema.name o.name l :: s.log }
  | _, _ => none

/-- The tables of `state.conns` after `load_connections` (541-558). -/
def kept (saved : List (String × String)) : List RowId :=
  saved.map fun x => (s.drawer.live.find? fun c => c.2 == x.1).getD (s.tables, x.1)

theorem kept_names (saved : List (String × String)) :
    (s.kept saved).map Prod.snd = saved.map Prod.fst := by
  rw [kept, List.map_map]
  refine List.map_congr_left fun x _ => ?_
  rw [Function.comp_apply]
  cases hfind : s.drawer.live.find? (fun c => c.2 == x.1) with
  | none => rfl
  | some c =>
    have hname := List.find?_some hfind
    simpa using hname

def fresh (driver : String) : Conn :=
  ⟨driver, none, false, false, false, false, none, fun _ => false⟩

/-- `load_connections`: a table that is kept gets its driver anew. -/
def load (saved : List (String × String)) (h : (saved.map Prod.fst).Nodup) : Side :=
  { s with
    drawer := { s.drawer with
      live := s.kept saved
      distinct := by rw [kept_names]; exact h
      conns := fun c =>
        if c ∈ s.kept saved then
          let driver := ((saved.find? fun x => x.1 == c.2).map Prod.snd).getD ""
          if c ∈ s.drawer.live then { s.drawer.conns c with driver } else fresh driver
        else s.drawer.conns c }
    tables := s.tables + 1 }

/-- `disconnect_row` (954-975). -/
def disconnectRow : Descr → Side
  | .connection c =>
    if (s.drawer.conns c).connId.isSome then
      { s with drawer := s.drawer.update c Conn.dropped }.draw
    else s
  | _ => s

/-- The `refresh` key (1222-1230). -/
def refreshRow (row : Descr) : Side :=
  match row.conn.bind fun c => (s.drawer.conns c).connId.map (c, ·) with
  | some (c, k) => s.add (.tree c k true)
  | none => s

/-- `M.adopt` (641-651). -/
def adopt (name : String) (k : ℕ) : Side :=
  match s.drawer.live.find? fun c => c.2 == name with
  | none => s
  | some c =>
    if (s.drawer.conns c).connId.isSome then s
    else
      { s with drawer := s.drawer.update c (Conn.adopted k) }.add (.tree c k true)

def step (s : Side) : Input → Option Side
  | .toggle n opn => (s.rows[n]?).map fun row => s.gesture row (s.drawer.toggle row opn)
  | .action n => (s.rows[n]?).map fun row => s.gesture row (s.drawer.defaultAction row)
  | .disconnect n => (s.rows[n]?).map s.disconnectRow
  | .refresh n => (s.rows[n]?).map s.refreshRow
  | .reload c k =>
    -- `reload_schema` (621-633)
    if c ∈ s.drawer.live ∧ (s.drawer.conns c).connId = some k ∧ (s.drawer.conns c).nodes.isSome then
      some (s.add (.tree c k false))
    else some s
  | .adopt name k => some (s.adopt name k)
  | .load saved =>
    if h : (saved.map Prod.fst).Nodup then some (s.load saved h) else none
  | .others queries caps => some { s with drawer := { s.drawer with queries, caps } }
  | .render => some s.draw
  | .answer n r =>
    (s.inflight[n]?).bind fun req => { s with inflight := s.inflight.eraseIdx n }.answer req r

def init : Side :=
  { drawer :=
      { live := [], distinct := .nil, conns := fun _ => fresh "", queries := fun _ => []
        caps := fun _ => ⟨false, false⟩, columns := fun _ => none, indexes := fun _ => none }
    rows := [], inflight := [], made := [], tables := 0, log := [] }

def side : Machine Side Input := ⟨init, step⟩

/-! ### Where the rows are from -/

/-- The places that are shown, asked about or listed are of trees there have been, and what is kept
for an object was the answer to a request about it. -/
structure Traced (s : Side) : Prop where
  ids : (s.made.map fun x => x.2.2.id).Nodup
  nodes : ∀ c nodes, (s.drawer.conns c).nodes = some nodes → ∀ x ∈ objects c nodes, x ∈ s.made
  rows : ∀ row ∈ s.rows, ∀ x, row.place = some x → x ∈ s.made
  asked : ∀ r ∈ s.inflight, ∀ x, r.place = some x → x ∈ s.made
  columns : ∀ id l, s.drawer.columns id = some l → ∃ x ∈ s.made, x.2.2.id = id ∧
    ∃ k, Event.columns x.1 k x.2.1.name x.2.2.name l ∈ s.log
  indexes : ∀ id l, s.drawer.indexes id = some l → ∃ x ∈ s.made, x.2.2.id = id ∧
    ∃ k, Event.indexes x.1 k x.2.1.name x.2.2.name l ∈ s.log

variable {s s' : Side} {c : RowId}

theorem mem_objects {nodes : List Schema} {x : Place} :
    x ∈ objects c nodes ↔ x.1 = c ∧ x.2.1 ∈ nodes ∧ x.2.2 ∈ x.2.1.children := by
  obtain ⟨c', sch, o⟩ := x
  simp only [objects, List.mem_flatMap, List.mem_map, Prod.mk.injEq]
  constructor
  · rintro ⟨sch', hs, o', ho, rfl, rfl, rfl⟩
    exact ⟨rfl, hs, ho⟩
  · rintro ⟨rfl, hs, ho⟩
    exact ⟨sch, hs, o, ho, rfl, rfl, rfl⟩

open Drawer in
theorem mem_leaves {ds : List Descr} {d : Descr} :
    d ∈ (Outline.forest leaf ds).labels ↔ d ∈ ds := by
  rw [Outline.labels_forest]
  have hleaf (d' : Descr) : (leaf d').labels = [d'] := rfl
  simp [hleaf]

theorem place_facets {w : Drawer} {sch : Schema} {o : Obj} {h : Helper} {d : Descr}
    (hd : d ∈ w.facets c sch o h) : d.place = some (c, sch, o) ∨ d = .noIndexes c := by
  cases h with
  | columns =>
    obtain ⟨col, -, rfl⟩ := List.mem_map.mp hd
    exact .inl rfl
  | indexes =>
    rw [Drawer.facets] at hd
    cases hidx : w.indexes o.id with
    | none =>
      rw [hidx] at hd
      cases hd
    | some l =>
      rw [hidx, Option.elim_some] at hd
      split at hd
      · exact .inr (List.mem_singleton.mp hd)
      · obtain ⟨idx, -, rfl⟩ := List.mem_map.mp hd
        exact .inl rfl
  | _ => cases hd

theorem place_object {w : Drawer} {sch : Schema} {o : Obj} {d : Descr}
    (hd : d ∈ (w.objectTree c sch o).labels) : d.place = some (c, sch, o) ∨ d = .noIndexes c := by
  rw [Drawer.objectTree, Outline.labels, Outline.labels, List.append_nil,
    Outline.labels_forest] at hd
  rcases List.mem_cons.mp hd with rfl | hd
  · exact .inl rfl
  · obtain ⟨h, -, hd⟩ := List.mem_flatMap.mp hd
    rw [Drawer.facetTree, Outline.labels, Outline.labels, List.append_nil] at hd
    rcases List.mem_cons.mp hd with rfl | hd
    · exact .inl rfl
    · exact place_facets (mem_leaves.mp hd)

/-- A node of the outline is of the tree of its connection. -/
theorem place_labels {w : Drawer} {d : Descr} (hd : d ∈ w.outline.labels) :
    (∀ x, d.place = some x → ∃ nodes, (w.conns x.1).nodes = some nodes ∧ x ∈ objects x.1 nodes) ∧
      ∀ c sch, d = .schema c sch → ∃ nodes, (w.conns c).nodes = some nodes ∧ sch ∈ nodes := by
  rw [Drawer.outline, Outline.labels_forest] at hd
  obtain ⟨c, -, hd⟩ := List.mem_flatMap.mp hd
  rw [Drawer.connectionTree, Outline.labels, Outline.labels, Outline.labels, List.append_nil] at hd
  rcases List.mem_cons.mp hd with rfl | hd
  · exact ⟨fun x hx => (by cases hx), fun c sch heq => (by cases heq)⟩
  rcases List.mem_cons.mp hd with rfl | hd
  · exact ⟨fun x hx => (by cases hx), fun c sch heq => (by cases heq)⟩
  rcases List.mem_append.mp hd with hd | hd
  · obtain ⟨q, -, rfl⟩ := List.mem_map.mp (mem_leaves.mp hd)
    exact ⟨fun x hx => (by cases hx), fun c sch heq => (by cases heq)⟩
  cases hnodes : (w.conns c).nodes with
  | none =>
    rw [hnodes] at hd
    obtain rfl := List.mem_singleton.mp hd
    exact ⟨fun x hx => (by cases hx), fun c sch heq => (by cases heq)⟩
  | some nodes =>
    rw [hnodes, Option.elim_some, Outline.labels_forest] at hd
    obtain ⟨sch, hsch, hd⟩ := List.mem_flatMap.mp hd
    rw [Drawer.schemaTree, Outline.labels, Outline.labels, List.append_nil,
      Outline.labels_forest] at hd
    rcases List.mem_cons.mp hd with rfl | hd
    · refine ⟨fun x hx => (by cases hx), fun c' sch' heq => ?_⟩
      cases heq
      exact ⟨nodes, hnodes, hsch⟩
    · obtain ⟨o, ho, hd⟩ := List.mem_flatMap.mp hd
      rcases place_object hd with hplace | rfl
      · refine ⟨fun x hx => ?_, fun c' sch' heq => ?_⟩
        · rw [hplace, Option.some.injEq] at hx
          subst hx
          exact ⟨nodes, hnodes, mem_objects.mpr ⟨rfl, hsch, ho⟩⟩
        · rw [heq] at hplace
          cases hplace
      · exact ⟨fun x hx => (by cases hx), fun c sch heq => (by cases heq)⟩

/-- A row that is rendered is a node of the outline. -/
theorem rows_render {w : Drawer} {d : Descr} (hd : d ∈ w.render.rows) :
    d = .empty ∨ d ∈ w.outline.labels := by
  have hrows : w.render.rows = w.listing.map Prod.fst := by rw [w.render_listing]
  rw [hrows, Drawer.listing] at hd
  split at hd
  · exact .inl (List.mem_singleton.mp hd)
  · rw [List.map_map] at hd
    obtain ⟨r, hr, rfl⟩ := List.mem_map.mp hd
    exact .inr (Outline.mem_labels hr).1

theorem Traced.draw (h : s.Traced) : s.draw.Traced := by
  refine ⟨h.ids, h.nodes, fun row hrow x hx => ?_, h.asked, h.columns, h.indexes⟩
  rcases rows_render hrow with rfl | hlabel
  · cases hx
  · obtain ⟨nodes, hnodes, hmem⟩ := (place_labels hlabel).1 x hx
    exact h.nodes x.1 nodes hnodes x hmem

theorem Traced.add (h : s.Traced) {r : Req} (hr : ∀ x, r.place = some x → x ∈ s.made) :
    (s.add r).Traced := by
  refine ⟨h.ids, h.nodes, h.rows, fun r' hr' => ?_, h.columns, h.indexes⟩
  rcases List.mem_append.mp hr' with hr' | hr'
  · exact h.asked r' hr'
  · rw [List.mem_singleton.mp hr']
    exact hr

/-- What is written to a connection and does not bring a tree. -/
theorem Traced.update (h : s.Traced) {w : Drawer} (hcols : w.columns = s.drawer.columns)
    (hidx : w.indexes = s.drawer.indexes)
    (hnodes : ∀ c nodes, (w.conns c).nodes = some nodes →
      (s.drawer.conns c).nodes = some nodes) : Traced { s with drawer := w } := by
  refine ⟨h.ids, fun c nodes hc => h.nodes c nodes (hnodes c nodes hc), h.rows, h.asked, ?_, ?_⟩
  · intro id l hl
    exact h.columns id l (hcols ▸ hl)
  · intro id l hl
    exact h.indexes id l (hidx ▸ hl)

theorem Traced.asks (asks : List Ask) (h : s.Traced)
    (hasks : ∀ c sch o f, Ask.fetch c sch o f ∈ asks → (c, sch, o) ∈ s.made) :
    (asks.foldl ask s).Traced := by
  induction asks generalizing s with
  | nil => exact h
  | cons a asks ih =>
    rw [List.foldl_cons]
    have hmade : (ask s a).made = s.made := by
      cases a with
      | loadSchema c =>
        rw [ask]
        split <;> rfl
      | _ => rfl
    refine ih ?_ fun c sch o f hf => hmade ▸ hasks c sch o f (List.mem_cons_of_mem _ hf)
    cases a with
    | loadSchema c =>
      rw [ask]
      split
      · exact h
      · exact h.add (r := .connect c) fun x hx => (by cases hx)
    | fetch c sch o f =>
      refine h.add fun x hx => ?_
      cases hx
      exact hasks c sch o f (List.mem_cons_self ..)
    | _ => exact h

theorem Traced.gesture (h : s.Traced) {row : Descr} (hrow : row ∈ s.rows) (opn : Bool) :
    (s.gesture row (s.drawer.toggle row opn)).Traced := by
  have hasked : ∀ c sch o f, Ask.fetch c sch o f ∈ (s.drawer.toggle row opn).2 →
      (c, sch, o) ∈ s.made := fun c sch o f hf => by
    obtain rfl := Drawer.toggle_fetch hf
    exact h.rows _ hrow _ rfl
  have hwritten : Traced { s with drawer := (s.drawer.toggle row opn).1 } := by
    rcases Drawer.toggle_cases (w := s.drawer) row opn with heq | ⟨f, -, heq⟩
    · rw [heq]
      exact h
    · rw [heq]
      exact h.update rfl rfl fun c nodes hc => (Drawer.conns_set c).2.1 ▸ hc
  unfold Side.gesture
  split
  · exact (hwritten.asks _ hasked).draw
  · exact hwritten.asks _ hasked

theorem update_self (w : Drawer) (c : RowId) (f : Conn → Conn) :
    (w.update c f).conns c = f (w.conns c) :=
  Function.update_self ..

theorem update_of_ne {w : Drawer} {c' : RowId} {f : Conn → Conn} (h : c' ≠ c) :
    (w.update c f).conns c' = w.conns c' :=
  Function.update_of_ne h ..

theorem nodes_update {w : Drawer} {f : Conn → Conn} {c' : RowId} {nodes : List Schema}
    (hf : ∀ conn : Conn, (f conn).nodes = some nodes → conn.nodes = some nodes)
    (h : ((w.update c f).conns c').nodes = some nodes) : (w.conns c').nodes = some nodes := by
  by_cases hcc : c' = c
  · subst hcc
    rw [update_self] at h
    exact hf _ h
  · rwa [update_of_ne hcc] at h

theorem Traced.conn (h : s.Traced) (c : RowId) (f : Conn → Conn)
    (hf : ∀ conn nodes, (f conn).nodes = some nodes → conn.nodes = some nodes) :
    Traced { s with drawer := s.drawer.update c f } :=
  h.update rfl rfl fun _ nodes hc => nodes_update (fun conn => hf conn nodes) hc

theorem Traced.store (h : s.Traced) {nodes : List Schema} (hst : s.store c nodes = some s') :
    s'.Traced := by
  rw [Side.store] at hst
  split at hst
  · next hids =>
    cases hst
    have hold : ∀ x ∈ s.made, x ∈ objects c nodes ++ s.made := fun x hx =>
      List.mem_append_right _ hx
    refine ⟨hids, fun c' nodes' hc' x hx => ?_, fun row hrow x hx => hold x (h.rows row hrow x hx),
      fun r hr x hx => hold x (h.asked r hr x hx), fun id l hl => ?_, fun id l hl => ?_⟩
    · by_cases hcc : c' = c
      · subst hcc
        rw [update_self, Conn.stored, Option.some.injEq] at hc'
        exact List.mem_append_left _ (hc' ▸ hx)
      · have hother : (s.drawer.update c (Conn.stored nodes)).conns c' =
            s.drawer.conns c' := Function.update_of_ne hcc ..
        rw [hother] at hc'
        exact hold x (h.nodes c' nodes' hc' x hx)
    · obtain ⟨x, hx, hrest⟩ := h.columns id l hl
      exact ⟨x, hold x hx, hrest⟩
    · obtain ⟨x, hx, hrest⟩ := h.indexes id l hl
      exact ⟨x, hold x hx, hrest⟩
  · cases hst

/-- The answer for a facet, which is kept for the object and logged. -/
theorem Traced.columns_answer (h : s.Traced) {k : Option ℕ} {sch : Schema} {o : Obj}
    (hmem : (c, sch, o) ∈ s.made) (l : List Column) : Traced { s with
      drawer := { s.drawer.set (c, .key (hkey sch o .columns)) true with
        columns := Function.update s.drawer.columns o.id (some l) }
      log := .columns c k sch.name o.name l :: s.log } := by
  refine ⟨h.ids, fun c' nodes hc' => h.nodes c' nodes ((Drawer.conns_set c').2.1 ▸ hc'), h.rows,
    h.asked, fun id l' hl => ?_, fun id l' hl => ?_⟩
  · by_cases hid : id = o.id
    · subst hid
      have heq : l = l' := by simpa using hl
      exact ⟨_, hmem, rfl, k, heq ▸ List.mem_cons_self ..⟩
    · have hother : s.drawer.columns id = some l' := by simpa [hid] using hl
      obtain ⟨x, hx, hxid, k', hk'⟩ := h.columns id l' hother
      exact ⟨x, hx, hxid, k', List.mem_cons_of_mem _ hk'⟩
  · obtain ⟨x, hx, hxid, k', hk'⟩ := h.indexes id l' hl
    exact ⟨x, hx, hxid, k', List.mem_cons_of_mem _ hk'⟩

theorem Traced.indexes_answer (h : s.Traced) {k : Option ℕ} {sch : Schema} {o : Obj}
    (hmem : (c, sch, o) ∈ s.made) (l : List Index) : Traced { s with
      drawer := { s.drawer.set (c, .key (hkey sch o .indexes)) true with
        indexes := Function.update s.drawer.indexes o.id (some l) }
      log := .indexes c k sch.name o.name l :: s.log } := by
  refine ⟨h.ids, fun c' nodes hc' => h.nodes c' nodes ((Drawer.conns_set c').2.1 ▸ hc'), h.rows,
    h.asked, fun id l' hl => ?_, fun id l' hl => ?_⟩
  · obtain ⟨x, hx, hxid, k', hk'⟩ := h.columns id l' hl
    exact ⟨x, hx, hxid, k', List.mem_cons_of_mem _ hk'⟩
  · by_cases hid : id = o.id
    · subst hid
      have heq : l = l' := by simpa using hl
      exact ⟨_, hmem, rfl, k, heq ▸ List.mem_cons_self ..⟩
    · have hother : s.drawer.indexes id = some l' := by simpa [hid] using hl
      obtain ⟨x, hx, hxid, k', hk'⟩ := h.indexes id l' hother
      exact ⟨x, hx, hxid, k', List.mem_cons_of_mem _ hk'⟩

theorem Traced.answer (h : s.Traced) {req : Req} (hreq : ∀ x, req.place = some x → x ∈ s.made)
    {r : Reply} (hst : s.answer req r = some s') : s'.Traced := by
  cases req with
  | connect c =>
    cases r with
    | error =>
      cases hst
      exact h
    | connected k encrypted tunneled =>
      cases hst
      exact (h.conn c (Conn.linked k encrypted tunneled) fun _ _ hconn => hconn).add
        (r := .tree c k false) fun x hx => (by cases hx)
    | _ => cases hst
  | tree c k lenient =>
    cases r with
    | error =>
      cases lenient with
      | true => exact h.store hst
      | false =>
        cases hst
        exact h
    | nodes nodes => exact h.store hst
    | _ => cases hst
  | facet c k sch o f =>
    have hmem := hreq _ rfl
    cases f with
    | columns =>
      cases r with
      | error =>
        cases hst
        exact h
      | columns l =>
        cases hst
        exact h.columns_answer hmem l
      | _ => cases hst
    | indexes =>
      cases r with
      | error =>
        cases hst
        exact h
      | indexes l =>
        cases hst
        exact h.indexes_answer hmem l
      | _ => cases hst
    | _ =>
      cases r with
      | error =>
        cases hst
        exact h
      | _ => cases hst

theorem Traced.load (h : s.Traced) (saved : List (String × String))
    (hsaved : (saved.map Prod.fst).Nodup) : (s.load saved hsaved).Traced := by
  refine ⟨h.ids, fun c nodes hc => h.nodes c nodes ?_, h.rows, h.asked, h.columns, h.indexes⟩
  simp only [Side.load] at hc
  split at hc
  · split at hc
    · exact hc
    · cases hc
  · exact hc

theorem Traced.step (h : s.Traced) {i : Input} (hst : s.step i = some s') : s'.Traced := by
  cases i with
  | toggle n opn =>
    obtain ⟨row, hrow, rfl⟩ := Option.map_eq_some_iff.mp hst
    exact h.gesture (List.mem_of_getElem? hrow) opn
  | action n =>
    obtain ⟨row, hrow, rfl⟩ := Option.map_eq_some_iff.mp hst
    obtain ⟨opn, heq⟩ := s.drawer.defaultAction_toggle row
    rw [heq]
    exact h.gesture (List.mem_of_getElem? hrow) opn
  | disconnect n =>
    obtain ⟨row, hrow, rfl⟩ := Option.map_eq_some_iff.mp hst
    cases row with
    | connection c =>
      rw [Side.disconnectRow]
      split
      · exact (h.conn c Conn.dropped fun _ _ hconn => by cases hconn).draw
      · exact h
    | _ => exact h
  | refresh n =>
    obtain ⟨row, hrow, rfl⟩ := Option.map_eq_some_iff.mp hst
    unfold Side.refreshRow
    split
    · exact h.add (r := .tree _ _ true) fun x hx => (by cases hx)
    · exact h
  | reload c k =>
    rw [Side.step] at hst
    split at hst
    · cases hst
      exact h.add (r := .tree c k false) fun x hx => (by cases hx)
    · cases hst
      exact h
  | adopt name k =>
    cases hst
    unfold Side.adopt
    split
    · exact h
    · split
      · exact h
      · exact (h.conn _ (Conn.adopted k) fun _ _ hconn => hconn).add (r := .tree _ k true)
          fun x hx => (by cases hx)
  | load saved =>
    rw [Side.step] at hst
    split at hst
    · cases hst
      exact h.load _ _
    · cases hst
  | others queries caps =>
    cases hst
    exact h.update rfl rfl fun _ _ hc => hc
  | render =>
    cases hst
    exact h.draw
  | answer n r =>
    obtain ⟨req, hreq, hst⟩ := Option.bind_eq_some_iff.mp hst
    have hrest : Traced { s with inflight := s.inflight.eraseIdx n } :=
      ⟨h.ids, h.nodes, h.rows, fun r hr => h.asked r (List.mem_of_mem_eraseIdx hr), h.columns,
        h.indexes⟩
    exact hrest.answer (h.asked req (List.mem_of_getElem? hreq)) hst

theorem traced_init : init.Traced where
  ids := .nil
  nodes _ _ h := by cases h
  rows _ h := by cases h
  asked _ h := by cases h
  columns _ _ h := by cases h
  indexes _ _ h := by cases h

/-- The connection, its schema, a table and its columns are opened. -/
def browse : List Input :=
  [.load [("shop", "sqlite")], .render, .toggle 0 true, .toggle 2 true,
    .answer 0 (.connected 1 false false),
    .answer 0 (.nodes [⟨"main", [⟨0, "orders", "table"⟩]⟩]), .render, .toggle 2 true,
    .toggle 3 true, .toggle 5 true, .answer 0 (.columns [⟨"total", "INTEGER"⟩]), .render]

def browsed : Side := (side.exec init browse).getD init

theorem browsed_eq : side.exec init browse = some browsed := by
  have hsome : (side.exec init browse).isSome = true := by decide
  rw [browsed]
  cases hexec : side.exec init browse with
  | none =>
    rw [hexec] at hsome
    cases hsome
  | some s => rfl

theorem browsed_nodes : (browsed.drawer.conns (0, "shop")).nodes =
    some [⟨"main", [⟨0, "orders", "table"⟩]⟩] := by decide

end Side

end LvimDb.Tree
