import LvimDb.Cell.Value
import LvimDb.Template.Spaces

/-!
# Filling a template

The declarations of a driver that are templates, and the functions of proto.lua that fill them. A
Lua table of values is the list of its pairs in the order `pairs` gives them.
-/

namespace LvimDb.Template
open Editor (trim)

/-! ### Declarations -/

/-- A field of `browse_form` or `query_form`. -/
structure FormField where
  key : String
  fragment : Option String

/-- The row of a repeating group. -/
structure DdlRow where
  template : Option String
  join : Option String

/-- What the kind of an ask brings: the words of a flag, or the row of a group. -/
structure Carried where
  on : Option String
  off : Option String
  row : Option DdlRow

/-- `kind` as it is sent. -/
inductive WireKind
  | word (k : String)
  | tagged (name : String) (carried : Carried)
  | absent

structure Ask where
  key : String
  label : String
  suggest : Option String
  kind : WireKind

structure DdlOp where
  op : String
  scope : String
  template : Option String
  asks : List Ask

/-- `DriverMeta`, with its lists filled in. -/
structure DriverMeta where
  browse : Option String
  browseByKind : List (String × String)
  browseForm : List FormField
  queryForm : List FormField
  queryTemplate : Option String
  ddlOps : List DdlOp

/-- What a cursor is on, and what there is to pick from. -/
structure Context where
  table : Option String
  column : Option String
  index : Option String
  schema : Option String
  types : List (String × ℕ)
  columns : List String
  indexes : List String

/-! ### Reading one object -/

structure RenderOpts where
  name : Option String := none
  schema : Option String := none
  limit : Option ℚ := none
  fragments : List String := []
  clauses : List String := []
  columns : Option String := none

namespace RenderOpts
variable (o : RenderOpts)

def nameText : String := o.name.getD ""
def schemaText : Option String := o.schema.filter (· ≠ "")

def qualified : String :=
  match o.schemaText with
  | some schema => schema ++ "." ++ o.nameText
  | none => o.nameText

def joined : String :=
  if o.fragments.length > 0 then ", " ++ String.intercalate ", " o.fragments else ""

def columnsText : String := (o.columns.filter (· ≠ "")).getD "*"
def clausesText : String := String.intercalate " " o.clauses
def limitText : String := o.limit.elim "" Cell.numberText

end RenderOpts

/-- `render_full` (248-268). -/
def renderFull (template : String) (o : RenderOpts) : String :=
  let out := plain template "{columns}" o.columnsText
  let out := plain out "{clauses}" o.clausesText
  let out := plain out "{qualified}" o.qualified
  let out := plain out "{name}" o.nameText
  let out := plain out "{schema}" (o.schemaText.getD "")
  let out := plain out "{limit}" o.limitText
  let out := plain out "{fragments}" o.joined
  collapseSpaces out

/-- `is_structured` (161-163). -/
def DriverMeta.isStructured (m : DriverMeta) : Bool :=
  !m.queryForm.isEmpty && m.queryTemplate.getD "" != ""

/-- `browse_for` (280-287). -/
def DriverMeta.browseFor (m : DriverMeta) (kind : Option String) : String :=
  match m.browseByKind.find? fun pair => some pair.1 = kind with
  | some pair => pair.2
  | none => m.browse.getD ""

/-- What the filled fields of a form add, in the form's order. -/
def additions (fill : String → String → String) (form : List FormField)
    (values : List (String × String)) : List String :=
  form.filterMap fun f =>
    let v := trim ((values.lookup f.key).getD "")
    if v ≠ "" ∧ f.fragment.getD "" ≠ "" then some (fill (f.fragment.getD "") v) else none

/-- `{value}` is filled in a fragment. -/
def fragmentOf (fragment v : String) : String := plain fragment "{value}" v

/-- `render_browse` (305-318). -/
def renderBrowse (m : DriverMeta) (kind : Option String) (values : List (String × String))
    (name : String) (schema : Option String) (limit : Option ℚ) : String :=
  let template := m.browseFor kind
  if template = "" then ""
  else
    renderFull template
      { name := some name, schema := schema, limit := limit,
        clauses := additions fragmentOf m.browseForm values }

/-- `render_query` (328-341). -/
def renderQuery (m : DriverMeta) (name : String) (schema : Option String) (limit : Option ℚ)
    (values : List (String × String)) : String :=
  if m.isStructured then
    renderFull (m.queryTemplate.getD "")
      { name := some name, schema := schema, limit := limit,
        fragments := additions fragmentOf m.queryForm values }
  else ""

/-! ### Schema changes -/

/-- `op` (376-383). -/
def DriverMeta.op (m : DriverMeta) (word : String) : Option DdlOp := m.ddlOps.find? (·.op = word)

/-- `ask_kind` (395-413). -/
def askKind (ask : Ask) : String × Option Carried :=
  match ask.kind with
  | .word k => (k, none)
  | .tagged name carried => (name, some carried)
  | .absent => ("text", none)

/-- `suggest` (421-428). -/
def suggest (ask : Ask) (ctx : Context) : String :=
  let s := ask.suggest.getD ""
  let s := plain s "{table}" (ctx.table.getD "")
  let s := plain s "{column}" (ctx.column.getD "")
  plain s "{index}" (ctx.index.getD "")

/-- The hole of a key. -/
def hole (key : String) : String := "\x7b" ++ key ++ "\x7d"

/-- The loop over `pairs(values)`. -/
def plainAll (out : String) (values : List (String × String)) : String :=
  values.foldl (fun out kv => plain out (hole kv.1) kv.2) out

/-- `render_ddl_row` (439-449). -/
def renderDdlRow (row : DdlRow) (values : List (String × String)) : Option String :=
  if trim ((values.lookup "name").getD "") = "" then none
  else some (collapseSpaces (plainAll (row.template.getD "") values))

/-- `render_ddl_rows` (456-465). -/
def renderDdlRows (row : DdlRow) (rows : List (List (String × String))) : String :=
  String.intercalate (row.join.getD ", ") (rows.filterMap (renderDdlRow row))

/-- The template of an operation with what comes from the object in it (490-502). -/
def objectText (spec : DdlOp) (name : String) (schema : Option String)
    (values : List (String × String)) : String :=
  let name := if spec.scope = "new" then trim ((values.lookup "name").getD "") else name
  let schema := schema.filter (· ≠ "")
  let qualified :=
    match schema with
    | some schema => schema ++ "." ++ name
    | none => name
  let out := spec.template.getD ""
  let out := plain out "{qualified}" qualified
  let out := plain out "{table}" name
  plain out "{schema}" (schema.getD "")

/-- `render_ddl` (486-510). -/
def renderDdl (m : DriverMeta) (op name : String) (schema : Option String)
    (values : List (String × String)) : Option String :=
  (m.op op).map fun spec => collapseSpaces (plainAll (objectText spec name schema values) values)

/-! ### The replacements as one list -/

/-- The holes of `render_full` and what is written over them, in its order. -/
def RenderOpts.holes (o : RenderOpts) : List (String × String) :=
  [("{columns}", o.columnsText), ("{clauses}", o.clausesText), ("{qualified}", o.qualified),
    ("{name}", o.nameText), ("{schema}", o.schemaText.getD ""), ("{limit}", o.limitText),
    ("{fragments}", o.joined)]

def chars (holes : List (String × String)) : List (List Char × List Char) :=
  holes.map fun h => (h.1.toList, h.2.toList)

theorem chars_append (a b : List (String × String)) : chars (a ++ b) = chars a ++ chars b :=
  List.map_append

theorem plain_toList (s needle repl : String) :
    (plain s needle repl).toList = Lib.replace id needle.toList repl.toList s.toList :=
  String.toList_ofList

/-- The replacements of a list one after the other. -/
theorem foldl_plain_toList (holes : List (String × String)) (s : String) :
    (holes.foldl (fun out h => plain out h.1 h.2) s).toList =
      Lib.fills id (chars holes) s.toList := by
  induction holes generalizing s with
  | nil => rfl
  | cons h holes ih =>
    rw [List.foldl_cons, ih, plain_toList]
    rfl

theorem renderFull_eq (template : String) (o : RenderOpts) :
    renderFull template o =
      collapseSpaces (o.holes.foldl (fun out h => plain out h.1 h.2) template) := rfl

end LvimDb.Template
