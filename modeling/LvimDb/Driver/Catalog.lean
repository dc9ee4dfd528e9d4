import LvimDb.Driver.Indexes

/-!
# The tree of a catalog

`structure` of the drivers. A catalog answers with a row for each object; the objects of one schema
become the children of one node.
-/

namespace LvimDb.Driver
open Cell (Value)

/-- `Node` (spec.rs:293-301). -/
structure Node where
  name : String
  kind : String
  schema : Option String
  children : List Node

/-- `get` of the drivers: a text, or the empty string. -/
def cellText (r : List Value) (i : ℕ) : String := (text r[i]?).getD ""

/-- The drivers whose rows name their schema. -/
inductive Catalog
  | postgres
  | mysql
  | mssql
  | snowflake
  | duckdb
  | clickhouse
  | cql
  deriving DecidableEq, Repr

/-- `s.contains(t)`. -/
def contains (s t : String) : Bool := decide (t.toList <:+: s.toList)

/-- The kind of an object. `upper` is `to_uppercase`. -/
def Catalog.kindOf (upper : String → String) (c : Catalog) (r : List Value) : String :=
  let view := match c with
    | .postgres => (cellText r 2).toUpper == "VIEW"
    | .mysql | .mssql | .snowflake | .duckdb => contains (upper (cellText r 2)) "VIEW"
    | .clickhouse => contains (cellText r 2) "View"
    | .cql => false
  if view then "view" else "table"

section
variable (upper : String → String) (c : Catalog)

/-- The node of a row. -/
def Catalog.leaf (r : List Value) : Node :=
  ⟨cellText r 1, c.kindOf upper r, some (cellText r 0), []⟩

/-- The body of the loop (mysql.rs:299-327 and its like). -/
def Catalog.schemas : Lib.Grouping String (List Value) Node where
  key r := some (cellText r 0)
  keyOf := Node.name
  fresh schema r := ⟨schema, "schema", none, [c.leaf upper r]⟩
  add s r := { s with children := s.children ++ [c.leaf upper r] }
  keyOf_fresh _ _ := rfl
  keyOf_add _ _ := rfl

/-- `structure`, once the catalog has answered. -/
def Catalog.structure (rows : List (List Value)) : List Node := (c.schemas upper).groups rows

end

/-- The objects of a tree, schema by schema. -/
def objects (nodes : List Node) : List Node := nodes.flatMap Node.children

/-- The rows that name a schema. -/
def rowsIn (rows : List (List Value)) (schema : String) : List (List Value) :=
  rows.filter fun r => cellText r 0 = schema

variable {upper : String → String} {c : Catalog} {rows : List (List Value)}

theorem foldl_child (s : Node) (rs : List (List Value)) :
    rs.foldl (c.schemas upper).add s =
      { s with children := s.children ++ rs.map (c.leaf upper) } := by
  induction rs generalizing s with
  | nil =>
    cases s
    simp
  | cons r rs ih =>
    rw [List.foldl_cons, ih]
    simp [Catalog.schemas]

theorem keys_schemas (upper : String → String) (c : Catalog) (rows : List (List Value)) :
    (c.schemas upper).keys rows = rows.map (cellText · 0) := by
  induction rows with
  | nil => rfl
  | cons r rows ih =>
    rw [List.map_cons, ← ih]
    rfl

theorem rowsOf_schemas (rows : List (List Value)) (schema : String) :
    (c.schemas upper).rowsOf rows schema = rowsIn rows schema := by
  apply List.filter_congr
  intro r _
  have hkey : (c.schemas upper).key r = some (cellText r 0) := rfl
  simp [hkey]

/-- A schema of the tree has all its rows and no others. -/
theorem children_structure {s : Node} (hs : s ∈ c.structure upper rows) :
    s.kind = "schema" ∧ s.schema = none ∧ s.children = (rowsIn rows s.name).map (c.leaf upper) ∧
      s.children ≠ [] := by
  obtain ⟨r, rs, hrows, heq⟩ := Lib.Grouping.groups_rows rows hs
  rw [foldl_child] at heq
  have hin : rowsIn rows s.name = r :: rs := (rowsOf_schemas rows s.name).symm.trans hrows
  have hchildren : s.children = (r :: rs).map (c.leaf upper) := congrArg Node.children heq
  refine ⟨congrArg Node.kind heq, congrArg Node.schema heq, ?_, ?_⟩
  · rw [hin]
    exact hchildren
  · rw [hchildren]
    exact List.cons_ne_nil _ _

/-- Every row of the catalog is one object of the tree, below the one node of its schema; the
schemas stand in the order in which rows name them, and the objects of each in that of its rows. -/
theorem structure_faithful (upper : String → String) (c : Catalog) (rows : List (List Value)) :
    ((c.structure upper rows).map Node.name).Nodup ∧
      ((c.structure upper rows).map Node.name).Pairwise (fun a b =>
        (rows.map (cellText · 0)).idxOf a < (rows.map (cellText · 0)).idxOf b) ∧
      (objects (c.structure upper rows)).Perm (rows.map (c.leaf upper)) ∧
      ∀ s ∈ c.structure upper rows, s.kind = "schema" ∧ s.schema = none ∧
        s.children = (rowsIn rows s.name).map (c.leaf upper) ∧ s.children ≠ [] := by
  refine ⟨(c.schemas upper).groups_nodup rows, ?_, ?_, fun s hs => children_structure hs⟩
  · rw [← keys_schemas upper c]
    exact (c.schemas upper).groups_order rows
  · exact (c.schemas upper).groups_perm (fun _ => rfl) (fun _ _ => rfl) (fun _ _ => rfl) rows

end LvimDb.Driver
