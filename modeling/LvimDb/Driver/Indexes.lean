import LvimDb.Cell.Value
import LvimDb.Lib.Gather

/-!
# Indexes of a catalog

`group_indexes` of drivers/mod.rs. A catalog has a row for each column of an index; the rows of one
index become one `Index`.
-/

namespace LvimDb.Driver
open Cell (Value)

/-- `Index` (spec.rs:306-312). -/
structure Index where
  name : String
  columns : List String
  unique : Bool
  primary : Bool
  deriving DecidableEq, Repr

/-- `text` (22-25). -/
def text : Option Value → Option String
  | some (.text s) => some s
  | _ => none

/-- `flag` (27-35). -/
def flag : Option Value → Bool
  | some (.bool b) => b
  | some (.int i) => i != 0
  | some (.text s) =>
    let s := s.toLower
    s == "1" || s == "t" || s == "true" || s == "yes"
  | _ => false

/-- The body of the loop (38-55). -/
def indexRows : Lib.Grouping String (List Value) Index where
  key r := text r.head?
  keyOf i := i.name
  fresh name r := ⟨name, (text r[3]?).toList, flag r[1]?, flag r[2]?⟩
  add existing r := { existing with columns := existing.columns ++ (text r[3]?).toList }
  keyOf_fresh _ _ := rfl
  keyOf_add _ _ := rfl

/-- `group_indexes` (20-58). -/
def groupIndexes (rows : List (List Value)) : List Index := indexRows.groups rows

/-- The names that rows have, row by row. -/
def rowNames (rows : List (List Value)) : List String := rows.filterMap fun r => text r.head?

/-- The rows of an index. -/
def rowsNamed (rows : List (List Value)) (name : String) : List (List Value) :=
  rows.filter fun r => text r.head? = some name

theorem foldl_add (i : Index) (rs : List (List Value)) :
    rs.foldl indexRows.add i =
      { i with columns := i.columns ++ rs.filterMap fun r => text r[3]? } := by
  induction rs generalizing i with
  | nil => simp
  | cons r rs ih =>
    rw [List.foldl_cons, ih]
    cases hr : text r[3]? with
    | none => simp [indexRows, hr]
    | some c => simp [indexRows, hr]

/-- Every name of a row has one index, in the order in which the names come first; its columns are
those of its rows and its flags those of the first one. -/
theorem groupIndexes_indexes (rows : List (List Value)) :
    ((groupIndexes rows).map Index.name).Nodup ∧
      (∀ name, name ∈ (groupIndexes rows).map Index.name ↔ name ∈ rowNames rows) ∧
      ((groupIndexes rows).map Index.name).Pairwise
        (fun a b => (rowNames rows).idxOf a < (rowNames rows).idxOf b) ∧
      ∀ i ∈ groupIndexes rows,
        i.columns = (rowsNamed rows i.name).filterMap (fun r => text r[3]?) ∧
        ∃ r, (rowsNamed rows i.name).head? = some r ∧
          i.unique = flag r[1]? ∧ i.primary = flag r[2]? := by
  refine ⟨indexRows.groups_nodup rows, fun _ => indexRows.mem_groups rows,
    indexRows.groups_order rows, fun i hi => ?_⟩
  obtain ⟨r, rs, hrows, heq⟩ := Lib.Grouping.groups_rows rows hi
  have hnamed : rowsNamed rows i.name = r :: rs := hrows
  have hindex : i = { indexRows.fresh i.name r with
      columns := (r :: rs).filterMap fun r => text r[3]? } := by
    rw [foldl_add] at heq
    refine heq.trans ?_
    cases hr : text r[3]? with
    | none => simp [indexRows, hr]
    | some c => simp [indexRows, hr]
  rw [hnamed]
  exact ⟨congrArg Index.columns hindex, r, rfl, congrArg Index.unique hindex,
    congrArg Index.primary hindex⟩

/-- The rows of `b` are apart, and its second one is of an expression. -/
example : groupIndexes [[.text "b", .bool true, .int 0, .text "x"], [.text "a"], [.null],
    [.text "b", .bool false, .int 1, .null], [.text "b", .null, .null, .text "y"]] =
      [⟨"b", ["x", "y"], true, false⟩, ⟨"a", [], false, false⟩] := by decide

end LvimDb.Driver
