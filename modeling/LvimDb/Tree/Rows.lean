import LvimDb.Lib.Outline
import LvimDb.Lib.Pieces
import Mathlib.Logic.Function.Basic
import Mathlib.Data.List.Nodup
import Mathlib.Data.List.Sort

/-!
# The rows of the schema tree

`push_row`, `helpers_for`, `index_suffix` and `render` of ui/drawer.lua. The rendered buffer is the
outline of the connections as far as it is open, and each row is coloured piece by piece.
-/

namespace LvimDb.Tree
open Lib

/-! ### The state that is rendered -/

structure Column where
  name : String
  type : String
  deriving DecidableEq

structure Index where
  name : String
  columns : List String
  unique : Bool
  primary : Bool
  deriving DecidableEq

/-- A table, view, … of the tree; `id` tells the Lua table from others that are equal. -/
structure Obj where
  id : ℕ
  name : String
  kind : String
  deriving DecidableEq

structure Schema where
  name : String
  children : List Obj
  deriving DecidableEq

/-- `LvimDbDrawerConn` (66-75). -/
structure Conn where
  driver : String
  connId : Option ℕ
  encrypted : Bool
  tunneled : Bool
  expanded : Bool
  queriesOpen : Bool
  nodes : Option (List Schema)
  isOpen : String → Bool

structure Caps where
  indexes : Bool
  ddl : Bool

/-- A facet of an object (`helpers_for`). -/
inductive Helper
  | data
  | columns
  | indexes
  | ddl
  deriving DecidableEq

def Helper.id : Helper → String
  | .data => "data"
  | .columns => "columns"
  | .indexes => "indexes"
  | .ddl => "ddl"

def Helper.label : Helper → String
  | .data => "Data"
  | .columns => "Columns"
  | .indexes => "Indexes"
  | .ddl => "DDL"

def Helper.kind : Helper → String
  | .data => "data"
  | .columns => "columns_h"
  | .indexes => "indexes_h"
  | .ddl => "ddl"

def Helper.branch : Helper → Bool
  | .columns | .indexes => true
  | .data | .ddl => false

/-- A Lua table of `state.conns`: its number and its name. -/
abbrev RowId := ℕ × String

/-- The tables of `state.conns`, all tables there have been, what is saved for a connection, and
what has been fetched for an object. -/
structure Drawer where
  live : List RowId
  distinct : (live.map Prod.snd).Nodup
  conns : RowId → Conn
  queries : String → List String
  caps : String → Caps
  columns : ℕ → Option (List Column)
  indexes : ℕ → Option (List Index)

/-- The descriptor of a row. -/
inductive Descr
  | empty
  | connection (conn : RowId)
  | queries (conn : RowId)
  | query (conn : RowId) (query : String)
  | gate (conn : RowId)
  | schema (conn : RowId) (schema : Schema)
  | object (conn : RowId) (schema : Schema) (obj : Obj)
  | helper (conn : RowId) (schema : Schema) (obj : Obj) (helper : Helper)
  | column (conn : RowId) (schema : Schema) (obj : Obj) (col : Column)
  | noIndexes (conn : RowId)
  | index (conn : RowId) (schema : Schema) (obj : Obj) (index : Index)
  deriving DecidableEq

/-! ### Glyphs -/

structure Kind where
  icon : String
  hl : String

/-- `KIND` (25-50). -/
def KIND : String → Option Kind
  | "connection" => some ⟨"\uf1e6", "LvimDbConnection"⟩
  | "connection_open" => some ⟨"\uf1c0", "LvimDbConnectionOpen"⟩
  | "schema" => some ⟨"\uf0e8", "LvimDbSchema"⟩
  | "queries" => some ⟨"\uf02e", "LvimDbQueries"⟩
  | "query" => some ⟨"\uf1c9", "LvimDbQuery"⟩
  | "table" => some ⟨"\uf0ce", "LvimDbTable"⟩
  | "view" => some ⟨"\uf06e", "LvimDbView"⟩
  | "collection" => some ⟨"\uf1b3", "LvimDbCollection"⟩
  | "column" => some ⟨"\uf0db", "LvimDbColumn"⟩
  | "data" => some ⟨"\uf0cb", "LvimDbData"⟩
  | "columns_h" => some ⟨"\uf0db", "LvimDbColumn"⟩
  | "indexes_h" => some ⟨"\uf1de", "LvimDbIndex"⟩
  | "index" => some ⟨"\uf1de", "LvimDbIndex"⟩
  | "ddl" => some ⟨"\uf0f6", "LvimDbDdl"⟩
  | "key" => some ⟨"\uf084", "LvimDbKey"⟩
  | "string" => some ⟨"\uf10d", "LvimDbKey"⟩
  | "list" => some ⟨"\uf0ca", "LvimDbKey"⟩
  | "hash" => some ⟨"\uf292", "LvimDbKey"⟩
  | "set" => some ⟨"\uf00a", "LvimDbKey"⟩
  | "zset" => some ⟨"\uf162", "LvimDbKey"⟩
  | _ => none

def KIND_table : Kind := ⟨"\uf0ce", "LvimDbTable"⟩

/-- `KIND[kind] or KIND.table`. -/
def kindOf (kind : String) : Kind := (KIND kind).getD KIND_table

def CARET_OPEN : String := "\uf0d7"
def CARET_CLOSED : String := "\uf0da"
def LOCK : String := "\uf023"
def UNLOCK : String := "\uf09c"

/-- The caret of a row that can be opened. -/
def caretOf (isOpen : Bool) : String := if isOpen then CARET_OPEN else CARET_CLOSED

/-! ### One row -/

/-- The arguments of `push_row`. -/
structure Item where
  descr : Descr
  depth : ℕ
  caret : String
  icon : String
  iconHl : String
  label : String
  labelHl : String
  suffix : Option String := none
  tail : Option String := none
  tailHl : Option String := none
  caretHl : Option String := none
  suffixHl : Option String := none
  deriving DecidableEq

/-- A span of a line in a highlight group. -/
structure Hl where
  line : ℕ
  span : Pieces.Span String
  deriving DecidableEq

structure Buf where
  lines : List String
  hls : List Hl
  rows : List Descr

/-- `push_row` (120-172). -/
def pushRow (b : Buf) (i : Item) : Buf :=
  let indent := "".pushn ' ' (2 * i.depth)
  let caret_str := if i.caret ≠ "" then i.caret ++ " " else "  "
  let text := indent ++ caret_str ++ i.icon ++ " " ++ i.label ++
    i.suffix.elim "" (" " ++ ·) ++ i.tail.elim "" (" " ++ ·)
  let lineno := b.lines.length
  let base := indent.utf8ByteSize
  let hl start (w : String) group : Hl := ⟨lineno, start, start + w.utf8ByteSize, group⟩
  let icon_start := base + caret_str.utf8ByteSize
  let label_start := icon_start + i.icon.utf8ByteSize + 1
  let label_end := label_start + i.label.utf8ByteSize
  let suffix_end := label_end + i.suffix.elim 0 (1 + ·.utf8ByteSize)
  { lines := b.lines ++ [text]
    hls := b.hls ++
      ((if i.caret ≠ "" then [hl base i.caret (i.caretHl.getD "LvimDbCaret")] else []) ++
        [hl icon_start i.icon i.iconHl, hl label_start i.label i.labelHl] ++
        i.suffix.elim [] (fun s => [hl (label_end + 1) s (i.suffixHl.getD "LvimDbCount")]) ++
        i.tail.elim [] (fun t => [hl (suffix_end + 1) t (i.tailHl.getD "LvimDbCount")]))
    rows := b.rows ++ [i.descr] }

/-! ### The tree -/

/-- `helpers_for` (267-280). -/
def helpersFor (caps : Caps) : List Helper :=
  [.data, .columns] ++ (if caps.indexes then [.indexes] else []) ++
    (if caps.ddl then [.ddl] else [])

/-- `index_suffix` (285-297). -/
def indexSuffix (idx : Index) : String :=
  let tags := if idx.primary then ["pk"] else if idx.unique then ["unique"] else []
  let cols := ", ".intercalate idx.columns
  " ".intercalate (tags ++ if cols ≠ "" then ["(" ++ cols ++ ")"] else [])

/-- The key of a schema in `conn.open`, of an object, and of a facet. -/
def skey (schema : Schema) : String := schema.name

def okey (schema : Schema) (obj : Obj) : String := skey schema ++ "." ++ obj.name

def hkey (schema : Schema) (obj : Obj) (h : Helper) : String := okey schema obj ++ "#" ++ h.id

namespace Drawer
variable (w : Drawer)

def connectionItem (c : RowId) : Item :=
  let conn := w.conns c
  let kind := kindOf (if conn.connId.isSome then "connection_open" else "connection")
  { descr := .connection c, depth := 0, caret := caretOf conn.expanded, icon := kind.icon
    iconHl := kind.hl, label := c.2, labelHl := kind.hl, suffix := some ("(" ++ conn.driver ++ ")")
    tail :=
      if conn.connId.isSome then
        some (if conn.encrypted || conn.tunneled then LOCK else UNLOCK)
      else none
    tailHl := some "LvimDbConnMeta", caretHl := some "LvimDbCaret"
    suffixHl := some "LvimDbConnMeta" }

/-- The row of a kind of node, with the glyph and the colour of `kind`. -/
def item (descr : Descr) (depth : ℕ) (caret kind label : String) (suffix : Option String) : Item :=
  { descr, depth, caret, icon := (kindOf kind).icon, iconHl := (kindOf kind).hl, label
    labelHl := (kindOf kind).hl, suffix }

/-- The rows below a facet (450-505). -/
def renderFacet (c : RowId) (schema : Schema) (obj : Obj) (h : Helper) (b : Buf) : Buf :=
  let isOpen := (w.conns c).isOpen (hkey schema obj h)
  if h = .columns && isOpen && (w.columns obj.id).isSome then
    ((w.columns obj.id).getD []).foldl (fun b col =>
      pushRow b (item (.column c schema obj col) 4 "" "column" col.name
        (if col.type ≠ "" then some col.type else none))) b
  else if h = .indexes && isOpen && (w.indexes obj.id).isSome then
    let indexes := (w.indexes obj.id).getD []
    let b :=
      if indexes.length = 0 then
        pushRow b
          { descr := .noIndexes c, depth := 4, caret := "", icon := (kindOf "index").icon
            iconHl := "LvimDbEmpty", label := "(no indexes)", labelHl := "LvimDbEmpty" }
      else b
    indexes.foldl (fun b idx =>
      pushRow b (item (.index c schema obj idx) 4 "" "index" idx.name
        (some (indexSuffix idx)))) b
  else b

/-- An object with its facets (425-508). -/
def renderObject (c : RowId) (schema : Schema) (b : Buf) (obj : Obj) : Buf :=
  let conn := w.conns c
  let b := pushRow b (item (.object c schema obj) 2 (caretOf (conn.isOpen (okey schema obj)))
    obj.kind obj.name none)
  if conn.isOpen (okey schema obj) then
    (helpersFor (w.caps conn.driver)).foldl (fun b h =>
      let hcaret := if h.branch then caretOf (conn.isOpen (hkey schema obj h)) else ""
      w.renderFacet c schema obj h
        (pushRow b (item (.helper c schema obj h) 3 hcaret h.kind h.label none))) b
  else b

/-- A schema with its objects (405-510). -/
def renderSchema (c : RowId) (b : Buf) (schema : Schema) : Buf :=
  let sopen := (w.conns c).isOpen (skey schema)
  let scaret := if schema.children.length > 0 then caretOf sopen else ""
  let b := pushRow b (item (.schema c schema) 1 scaret "schema" schema.name
    (some ("(" ++ toString schema.children.length ++ ")")))
  if sopen then schema.children.foldl (w.renderObject c schema) b else b

/-- The saved queries of an expanded connection (370-402). -/
def renderQueries (c : RowId) (b : Buf) : Buf :=
  let queries := w.queries c.2
  let isOpen := (w.conns c).queriesOpen
  let qcaret := if queries.length > 0 then caretOf isOpen else ""
  let b := pushRow b (item (.queries c) 1 qcaret "queries" "Queries"
    (some ("(" ++ toString queries.length ++ ")")))
  if isOpen then queries.foldl (fun b q => pushRow b (item (.query c q) 2 "" "query" q none)) b
  else b

/-- A connection (346-512). -/
def renderConnection (b : Buf) (c : RowId) : Buf :=
  let conn := w.conns c
  let b := pushRow b (w.connectionItem c)
  let b := if conn.expanded then w.renderQueries c b else b
  let b :=
    if conn.expanded && conn.nodes.isNone then
      pushRow b (item (.gate c) 1 CARET_CLOSED "schema" "Schema" (some "(connect)"))
    else b
  if conn.expanded && conn.nodes.isSome then
    (conn.nodes.getD []).foldl (w.renderSchema c) b
  else b

/-- `render` (333-512), up to the buffer that is written; `state.rows` is the new one by then. -/
def render : Buf :=
  let names := w.live.insertionSort fun a b => a.2 ≤ b.2
  let b : Buf :=
    if names.length = 0 then
      { lines := ["  no connections"]
        hls := [⟨0, 0, "  no connections".utf8ByteSize, "LvimDbEmpty"⟩]
        rows := [.empty] }
    else ⟨[], [], []⟩
  names.foldl w.renderConnection b

/-- `render` (513-521) over what is shown: `nvim_buf_set_lines` raises, and writes nothing, where a
line has a line break. -/
def written (shown : Buf) : Buf :=
  if ∃ line ∈ w.render.lines, '\n' ∈ line.toList then { shown with rows := w.render.rows }
  else w.render

end Drawer

/-! ### A row is coloured piece by piece -/

/-- The pieces of a row, those between them without a colour. -/
def Item.pieces (i : Item) : List (String × Option String) :=
  [("".pushn ' ' (2 * i.depth), none)] ++
    (if i.caret ≠ "" then [(i.caret, some (i.caretHl.getD "LvimDbCaret")), (" ", none)]
      else [("  ", none)]) ++
    [(i.icon, some i.iconHl), (" ", none), (i.label, some i.labelHl)] ++
    i.suffix.elim [] (fun s => [(" ", none), (s, some (i.suffixHl.getD "LvimDbCount"))]) ++
    i.tail.elim [] (fun t => [(" ", none), (t, some (i.tailHl.getD "LvimDbCount"))])

theorem pushRow_pieces (b : Buf) (i : Item) :
    pushRow b i =
      { lines := b.lines ++ [Pieces.text i.pieces]
        hls := b.hls ++ (Pieces.spans 0 i.pieces).map (Hl.mk b.lines.length)
        rows := b.rows ++ [i.descr] } := by
  have hone : " ".utf8ByteSize = 1 := rfl
  have htwo : "  ".utf8ByteSize = 2 := rfl
  simp only [pushRow, Item.pieces, Buf.mk.injEq, and_true]
  constructor
  · -- the text
    by_cases hc : i.caret ≠ ""
    · cases i.suffix <;> cases i.tail <;> simp [hc, Pieces.text, String.append_assoc]
    · cases i.suffix <;> cases i.tail <;> simp [hc, Pieces.text, String.append_assoc]
  · -- where the pieces stand
    by_cases hc : i.caret ≠ ""
    · cases i.suffix <;> cases i.tail <;> simp [hc, Pieces.spans, hone, Nat.add_assoc]
    · cases i.suffix <;> cases i.tail <;> simp [hc, Pieces.spans, hone, htwo, Nat.add_assoc]

/-! ### The outline -/

namespace Drawer
variable (w : Drawer)

def isOpen : Descr → Bool
  | .connection c => (w.conns c).expanded
  | .queries c => (w.conns c).queriesOpen
  | .schema c s => (w.conns c).isOpen (skey s)
  | .object c s o => (w.conns c).isOpen (okey s o)
  | .helper c s o h => h.branch && (w.conns c).isOpen (hkey s o h)
  | _ => false

def leaf (d : Descr) : Outline Descr := .node d .nil .nil

/-- What has been fetched for a facet. -/
def facets (c : RowId) (s : Schema) (o : Obj) : Helper → List Descr
  | .columns => ((w.columns o.id).getD []).map (.column c s o)
  | .indexes =>
    (w.indexes o.id).elim [] fun l => if l = [] then [.noIndexes c] else l.map (.index c s o)
  | _ => []

def facetTree (c : RowId) (s : Schema) (o : Obj) (h : Helper) : Outline Descr :=
  .node (.helper c s o h) (.forest leaf (w.facets c s o h)) .nil

def objectTree (c : RowId) (s : Schema) (o : Obj) : Outline Descr :=
  .node (.object c s o)
    (.forest (w.facetTree c s o) (helpersFor (w.caps (w.conns c).driver))) .nil

def schemaTree (c : RowId) (s : Schema) : Outline Descr :=
  .node (.schema c s) (.forest (w.objectTree c s) s.children) .nil

def connectionTree (c : RowId) : Outline Descr :=
  .node (.connection c)
    (.node (.queries c) (.forest leaf ((w.queries c.2).map (.query c)))
      ((w.conns c).nodes.elim (leaf (.gate c)) (.forest (w.schemaTree c)))) .nil

def sorted : List RowId := w.live.insertionSort fun a b => a.2 ≤ b.2

def outline : Outline Descr := .forest w.connectionTree w.sorted

/-- The row of a node that is listed. -/
def itemOf : ℕ × Descr → Item
  | (d, .connection c) => { w.connectionItem c with depth := d }
  | (d, .queries c) =>
    item (.queries c) d (if (w.queries c.2).length > 0 then caretOf (w.isOpen (.queries c)) else "")
      "queries" "Queries" (some ("(" ++ toString (w.queries c.2).length ++ ")"))
  | (d, .query c q) => item (.query c q) d "" "query" q none
  | (d, .gate c) => item (.gate c) d CARET_CLOSED "schema" "Schema" (some "(connect)")
  | (d, .schema c s) =>
    item (.schema c s) d (if s.children.length > 0 then caretOf (w.isOpen (.schema c s)) else "")
      "schema" s.name (some ("(" ++ toString s.children.length ++ ")"))
  | (d, .object c s o) =>
    item (.object c s o) d (caretOf (w.isOpen (.object c s o))) o.kind o.name none
  | (d, .helper c s o h) =>
    item (.helper c s o h) d (if h.branch then caretOf (w.isOpen (.helper c s o h)) else "")
      h.kind h.label none
  | (d, .column c s o col) =>
    item (.column c s o col) d "" "column" col.name (if col.type ≠ "" then some col.type else none)
  | (d, .noIndexes c) =>
    { descr := .noIndexes c, depth := d, caret := "", icon := (kindOf "index").icon
      iconHl := "LvimDbEmpty", label := "(no indexes)", labelHl := "LvimDbEmpty" }
  | (d, .index c s o idx) => item (.index c s o idx) d "" "index" idx.name (some (indexSuffix idx))
  | (d, .empty) => item .empty d "" "" "" none

/-- The rows that are shown. -/
def shown : List (ℕ × Descr) := w.outline.shown w.isOpen 0

def push (b : Buf) (r : ℕ × Descr) : Buf := pushRow b (w.itemOf r)

variable {w} {c : RowId} {s : Schema} {o : Obj}

theorem shown_leaves {α : Type} (f : α → Descr) (xs : List α) (d : ℕ) :
    (Outline.forest leaf (xs.map f)).shown w.isOpen d = xs.map fun x => (d, f x) := by
  induction xs with
  | nil => rfl
  | cons x xs ih =>
    rw [List.map_cons, Outline.forest, Outline.shown_append, ih]
    simp [leaf, Outline.shown]

theorem renderFacet_shown (h : Helper) (b : Buf) :
    w.renderFacet c s o h b =
      (if w.isOpen (.helper c s o h) then (Outline.forest leaf (w.facets c s o h)).shown w.isOpen 4
        else []).foldl w.push b := by
  unfold renderFacet
  cases hopen : (w.conns c).isOpen (hkey s o h) with
  | false => simp [isOpen, hopen]
  | true =>
    cases h with
    | data => simp [isOpen, Helper.branch]
    | ddl => simp [isOpen, Helper.branch]
    | columns =>
      have hopen' : w.isOpen (.helper c s o .columns) = true := by
        simp [isOpen, Helper.branch, hopen]
      rw [hopen', facets, shown_leaves]
      cases hcols : w.columns o.id with
      | none => simp
      | some cols => simp [push, itemOf, List.foldl_map]
    | indexes =>
      have hopen' : w.isOpen (.helper c s o .indexes) = true := by
        simp [isOpen, Helper.branch, hopen]
      rw [hopen', facets]
      cases hidx : w.indexes o.id with
      | none => simp [Outline.forest, Outline.shown]
      | some idx =>
        cases idx with
        | nil => simp [Outline.forest, Outline.shown, leaf, Outline.append, push, itemOf]
        | cons i is =>
          rw [Option.elim_some, if_neg (List.cons_ne_nil _ _), shown_leaves]
          simp [push, itemOf, List.foldl_map]

theorem foldl_shown {γ : Type} (f : γ → Outline Descr) (step : Buf → γ → Buf) (d : ℕ)
    (hstep : ∀ b c, step b c = ((f c).shown w.isOpen d).foldl w.push b) (cs : List γ) (b : Buf) :
    cs.foldl step b = ((Outline.forest f cs).shown w.isOpen d).foldl w.push b := by
  induction cs generalizing b with
  | nil => rfl
  | cons c cs ih =>
    rw [List.foldl_cons, hstep, ih, Outline.forest, Outline.shown_append, List.foldl_append]

theorem renderObject_shown (b : Buf) :
    w.renderObject c s b o = ((w.objectTree c s o).shown w.isOpen 2).foldl w.push b := by
  unfold renderObject objectTree
  rw [Outline.shown, Outline.shown, List.append_nil, List.foldl_cons]
  change (if w.isOpen (.object c s o) = true then _ else _) = _
  split
  · refine foldl_shown (w.facetTree c s o) _ 3 (fun b h => ?_) _ _
    rw [renderFacet_shown, facetTree, Outline.shown, Outline.shown, List.append_nil,
      List.foldl_cons]
    cases h <;> rfl
  · rfl

theorem renderSchema_shown (b : Buf) :
    w.renderSchema c b s = ((w.schemaTree c s).shown w.isOpen 1).foldl w.push b := by
  unfold renderSchema schemaTree
  rw [Outline.shown, Outline.shown, List.append_nil, List.foldl_cons]
  change (if w.isOpen (.schema c s) = true then _ else _) = _
  split
  · exact foldl_shown (w.objectTree c s) _ 2 (fun b o => renderObject_shown b) _ _
  · rfl

theorem renderQueries_shown (b : Buf) :
    w.renderQueries c b =
      ((Outline.node (.queries c) (.forest leaf ((w.queries c.2).map (.query c))) .nil).shown
        w.isOpen 1).foldl w.push b := by
  unfold renderQueries
  rw [Outline.shown, Outline.shown, List.append_nil, List.foldl_cons, shown_leaves]
  change (if w.isOpen (.queries c) = true then _ else _) = _
  split
  · rw [List.foldl_map]
    rfl
  · rfl

theorem renderConnection_shown (b : Buf) :
    w.renderConnection b c = ((w.connectionTree c).shown w.isOpen 0).foldl w.push b := by
  unfold renderConnection connectionTree
  rw [Outline.shown, Outline.shown, List.append_nil, List.foldl_cons]
  cases hexp : (w.conns c).expanded with
  | false =>
    have hopen : w.isOpen (.connection c) = false := hexp
    simp only [hexp, hopen, Bool.false_and, Bool.false_eq_true, if_false]
    rfl
  | true =>
    have hopen : w.isOpen (.connection c) = true := hexp
    have hqueries := renderQueries_shown (w := w) (c := c) (pushRow b (w.connectionItem c))
    rw [Outline.shown, Outline.shown, List.append_nil] at hqueries
    simp only [hexp, hopen, Bool.true_and, if_true, Outline.shown]
    rw [← List.cons_append, List.foldl_append, hqueries]
    cases hnodes : (w.conns c).nodes with
    | none => rfl
    | some nodes =>
      exact foldl_shown (w.schemaTree c) _ 1 (fun b s => renderSchema_shown b) _ _

theorem render_shown (h : w.live ≠ []) : w.render = w.shown.foldl w.push ⟨[], [], []⟩ := by
  have hlen : ¬ w.sorted.length = 0 := by
    rw [sorted, List.length_insertionSort, List.length_eq_zero_iff]
    exact h
  have hrender : w.render = w.sorted.foldl w.renderConnection
      (if w.sorted.length = 0 then _ else ⟨[], [], []⟩) := rfl
  rw [hrender, if_neg hlen]
  exact foldl_shown w.connectionTree _ 0 (fun b c => renderConnection_shown b) _ _

/-! ### The buffer -/

variable (w) in
/-- The rows, each with what it is of and the pieces of its line. -/
def listing : List (Descr × List (String × Option String)) :=
  if w.live = [] then [(.empty, [("  no connections", some "LvimDbEmpty")])]
  else w.shown.map fun r => (r.2, (w.itemOf r).pieces)

theorem descr_itemOf (r : ℕ × Descr) : (w.itemOf r).descr = r.2 := by
  obtain ⟨d, descr⟩ := r
  cases descr <;> rfl

theorem foldl_push (rs : List (ℕ × Descr)) (b : Buf) :
    rs.foldl w.push b =
      { lines := b.lines ++ rs.map fun r => Pieces.text (w.itemOf r).pieces
        hls := b.hls ++ (rs.zipIdx b.lines.length).flatMap fun r =>
          (Pieces.spans 0 (w.itemOf r.1).pieces).map (Hl.mk r.2)
        rows := b.rows ++ rs.map Prod.snd } := by
  induction rs generalizing b with
  | nil => simp
  | cons r rs ih =>
    rw [List.foldl_cons, ih, push, pushRow_pieces, descr_itemOf]
    simp

theorem render_listing (w : Drawer) :
    w.render =
      { lines := w.listing.map fun l => Pieces.text l.2
        hls := w.listing.zipIdx.flatMap fun l => (Pieces.spans 0 l.1.2).map (Hl.mk l.2)
        rows := w.listing.map Prod.fst } := by
  by_cases h : w.live = []
  · have hrender : w.render = ⟨["  no connections"],
        [⟨0, 0, "  no connections".utf8ByteSize, "LvimDbEmpty"⟩], [.empty]⟩ := by
      simp [render, h]
    rw [hrender, listing, if_pos h]
    simp [Pieces.text, Pieces.spans]
  · rw [render_shown h, foldl_push, listing, if_neg h]
    simp [List.zipIdx_map, List.flatMap_map]

/-- The rows are those of the outline as far as it is open. The buffer is this outline row by row,
and each span of a line is where one of its coloured pieces stands, unless there is a line break in
a row's text: then the buffer is left as it was. -/
theorem render_faithful (w : Drawer) (shown : Buf) :
    w.written shown =
        (if ∃ l ∈ w.listing, '\n' ∈ (Pieces.text l.2).toList then
          { shown with rows := w.listing.map Prod.fst }
        else
          { lines := w.listing.map fun l => Pieces.text l.2
            hls := w.listing.zipIdx.flatMap fun l => (Pieces.spans 0 l.1.2).map (Hl.mk l.2)
            rows := w.listing.map Prod.fst }) ∧
      ∀ l ∈ w.listing,
        List.Forall₂ (Pieces.Cuts (Pieces.text l.2)) (Pieces.spans 0 l.2) (Pieces.coloured l.2) ∧
          (Pieces.spans 0 l.2).Pairwise fun s t => s.stop ≤ t.start := by
  refine ⟨?_, fun l _ => ⟨Pieces.spans_cut l.2, Pieces.spans_apart 0 l.2⟩⟩
  unfold written
  rw [render_listing]
  simp only [List.mem_map, exists_exists_and_eq_and]

end Drawer

end LvimDb.Tree
