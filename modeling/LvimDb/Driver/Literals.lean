import LvimDb.Lib.Literal
import LvimDb.Secret.Template

/-!
# Names in catalog queries

The queries by which the drivers of MySQL and of ClickHouse ask for the columns and the indexes
of an object. The names are spliced into them as literals with their quotes doubled.
-/

namespace LvimDb.Driver
open Secret (Text)

structure ObjRef where
  name : Text
  schema : Option Text

/-- A part of a `format!`: its own text, or a name between quotes. -/
inductive Piece
  | text (s : String)
  | literal (name : Text)

def Piece.chars : Piece → Text
  | text s => s.toList
  | literal name => '\'' :: (Lib.doubled name ++ ['\''])

def sql (ps : List Piece) : Text := ps.flatMap Piece.chars

/-- `columns` of mysql.rs (331-343). -/
def mysqlColumns (obj : ObjRef) : List Piece :=
  let schemaPred := match obj.schema with
    | some s => [.text "AND table_schema = ", .literal s]
    | none => []
  [.text "SELECT column_name, column_type, IF(column_key = 'PRI', 1, 0) ",
    .text "FROM information_schema.columns WHERE table_name = ", .literal obj.name, .text " "] ++
    schemaPred ++ [.text " ORDER BY ordinal_position"]

/-- `indexes` of mysql.rs (364-378). -/
def mysqlIndexes (obj : ObjRef) : List Piece :=
  let schemaPred := match obj.schema with
    | some sc => [.text " AND TABLE_SCHEMA = ", .literal sc]
    | none => []
  [.text "SELECT INDEX_NAME, IF(NON_UNIQUE = 0, 1, 0), IF(INDEX_NAME = 'PRIMARY', 1, 0), ",
    .text "COLUMN_NAME FROM information_schema.STATISTICS WHERE TABLE_NAME = ",
    .literal obj.name] ++ schemaPred ++ [.text " ORDER BY INDEX_NAME, SEQ_IN_INDEX"]

/-- `columns` of clickhouse.rs (290-300), with the database of the connection. -/
def clickhouseColumns (database : Text) (obj : ObjRef) : List Piece :=
  [.text "SELECT name, type, is_in_primary_key FROM system.columns WHERE table = ",
    .literal obj.name, .text " AND database = ", .literal (obj.schema.getD database),
    .text " ORDER BY position"]

/-- `indexes` of clickhouse.rs (328-337). -/
def clickhouseIndexes (database : Text) (obj : ObjRef) : List Piece :=
  [.text "SELECT name, 0, 0, expr FROM system.data_skipping_indices WHERE table = ",
    .literal obj.name, .text " AND database = ", .literal (obj.schema.getD database),
    .text " ORDER BY name"]

/-- The engine reads every literal of the query as the name that it quotes, up to the quote that
ends it. -/
def ReadBack (e : Lib.Escapes) : List Piece → Prop
  | [] => True
  | .text _ :: ps => ReadBack e ps
  | .literal name :: ps =>
    e.literal 0 (Lib.doubled name ++ '\'' :: sql ps) = some (name, sql ps) ∧ ReadBack e ps

variable {e : Lib.Escapes} {ps : List Piece}

theorem readBack_literal (name : Text) {t : String} (ht : t.toList.head? = some ' ') :
    ReadBack e (.literal name :: .text t :: ps) ↔ e.Keeps name ∧ ReadBack e ps := by
  have hhead : (sql (.text t :: ps)).head? ≠ some '\'' := by
    have hcons : sql (.text t :: ps) = t.toList ++ sql ps := rfl
    rw [hcons, List.head?_append, ht]
    exact fun h => absurd (Option.some.inj h) (by decide)
  rw [ReadBack, Lib.Escapes.literal_iff hhead, ReadBack]

theorem readBack_two (s name : Text) {b t t' : String} (ht : t.toList.head? = some ' ')
    (ht' : t'.toList.head? = some ' ') :
    ReadBack e [.text b, .literal name, .text t, .literal s, .text t'] ↔
      e.Keeps name ∧ e.Keeps s := by
  rw [ReadBack, readBack_literal name ht, readBack_literal s ht', ReadBack, and_true]

/-- The names are read back exactly when no backslash of them begins an escape. -/
theorem catalog_names_read_iff (e : Lib.Escapes) (obj : ObjRef) (database : Text) :
    (ReadBack e (mysqlColumns obj) ↔ e.Keeps obj.name ∧ ∀ s ∈ obj.schema, e.Keeps s) ∧
    (ReadBack e (mysqlIndexes obj) ↔ e.Keeps obj.name ∧ ∀ s ∈ obj.schema, e.Keeps s) ∧
    (ReadBack e (clickhouseColumns database obj) ↔
      e.Keeps obj.name ∧ e.Keeps (obj.schema.getD database)) ∧
    (ReadBack e (clickhouseIndexes database obj) ↔
      e.Keeps obj.name ∧ e.Keeps (obj.schema.getD database)) := by
  obtain ⟨name, schema⟩ := obj
  have hnone : e.Keeps name ↔ e.Keeps name ∧ ∀ s ∈ (none : Option Text), e.Keeps s :=
    (and_iff_left fun s hs => by cases hs).symm
  have hsome (s : Text) :
      e.Keeps name ∧ e.Keeps s ↔ e.Keeps name ∧ ∀ u ∈ some s, e.Keeps u := by
    simp
  refine ⟨?_, ?_, readBack_two _ _ rfl rfl, readBack_two _ _ rfl rfl⟩
  · cases schema with
    | none =>
      refine Iff.trans ?_ hnone
      show ReadBack e (.literal name :: .text " " :: [.text " ORDER BY ordinal_position"]) ↔ _
      rw [readBack_literal name rfl, ReadBack, ReadBack, and_true]
    | some s =>
      refine Iff.trans ?_ (hsome s)
      show ReadBack e (.literal name :: .text " " :: [.text "AND table_schema = ", .literal s,
        .text " ORDER BY ordinal_position"]) ↔ _
      rw [readBack_literal name rfl, ReadBack, readBack_literal s rfl, ReadBack, and_true]
  · cases schema with
    | none =>
      refine Iff.trans ?_ hnone
      show ReadBack e [.literal name, .text " ORDER BY INDEX_NAME, SEQ_IN_INDEX"] ↔ _
      rw [readBack_literal name rfl, ReadBack, and_true]
    | some s =>
      refine Iff.trans ?_ (hsome s)
      show ReadBack e [.literal name, .text " AND TABLE_SCHEMA = ", .literal s,
        .text " ORDER BY INDEX_NAME, SEQ_IN_INDEX"] ↔ _
      rw [readBack_literal name rfl, readBack_literal s rfl, ReadBack, and_true]

/-- Every backslash is an escape, which denotes the character after it. -/
def backslashed : Lib.Escapes := ⟨fun _ => false, fun c _ => (some c, 0), rfl⟩

/-- The backslash at the end of a name takes the quote that ends the literal, which is read on
into the query. -/
theorem trailing_backslash_read_on :
    backslashed.literal 0 (Lib.doubled "t\\".toList ++
        '\'' :: sql [.text " AND database = ", .literal "d".toList, .text " ORDER BY name"]) =
      some ("t' AND database = ".toList, "d' ORDER BY name".toList) ∧
    ¬ ReadBack backslashed (clickhouseIndexes "d".toList ⟨"t\\".toList, none⟩) ∧
    ¬ ReadBack backslashed (mysqlColumns ⟨"t\\".toList, none⟩) := by
  refine ⟨by decide +kernel, fun h => ?_, fun h => ?_⟩
  · exact absurd h.1 (by decide +kernel)
  · exact absurd h.1 (by decide +kernel)

end LvimDb.Driver
