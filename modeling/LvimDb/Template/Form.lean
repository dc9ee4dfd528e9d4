import LvimDb.Lib.Machine
import LvimDb.Template.Order

/-!
# The form of a schema change

ui/ddl.lua: the rows a declared operation asks for, what is typed, toggled and picked in them, and
the statement that is written out.
-/

namespace LvimDb.Template
open Editor (trim)
open Lib (marked unplaced)

/-- `type_label` (31-40). -/
def typeLabel (ty : String × ℕ) : String :=
  if ty.2 = 1 then ty.1 ++ "(n)" else if ty.2 ≥ 2 then ty.1 ++ "(p, s)" else ty.1

/-- `picks` (48-67). -/
def picks (kind : String) (ctx : Context) : Option (List String) :=
  let list :=
    if kind = "type" then ctx.types.map typeLabel
    else if kind = "column" ∨ kind = "columns" then ctx.columns
    else if kind = "index" then ctx.indexes
    else []
  if list.isEmpty then none else some list

inductive Box
  | flag (value : Bool) (on off : String)
  | text (value : String) (picks : Option (List String))

/-- A row of the form, with the ask it came from. -/
structure FormRow where
  name : String
  ask : Ask
  box : Box

/-- The repeating group of an operation. -/
structure Group where
  key : String
  row : Option DdlRow

def rowFor (ctx : Context) (ask : Ask) : Option FormRow :=
  let (kind, carried) := askKind ask
  if kind = "flag" then
    some ⟨ask.key, ask,
      .flag false ((carried.bind Carried.on).getD "") ((carried.bind Carried.off).getD "")⟩
  else if kind = "rows" then none
  else some ⟨ask.key, ask, .text (suggest ask ctx) (picks kind ctx)⟩

def groupFor (ask : Ask) : Option Group :=
  let (kind, carried) := askKind ask
  if kind = "rows" then some ⟨ask.key, carried.bind Carried.row⟩ else none

/-- `rows_for` (85-120), its rows. -/
def rowsFor (spec : DdlOp) (ctx : Context) : List FormRow := spec.asks.filterMap (rowFor ctx)

/-- `rows_for`, the group of the last ask that has one. -/
def groupOf (spec : DdlOp) : Option Group := (spec.asks.filterMap groupFor).getLast?

/-- The form with the finished rows of its group. -/
structure Form where
  rows : List FormRow
  groupRows : List (List (String × String))

inductive Move
  | type (i : ℕ) (text : String)
  | toggle (i : ℕ)
  | pick (i j : ℕ)
  | addRow (values : List (String × String))
  | clearRows

/-- The text of a box after a pick: a list of columns grows. -/
def picked (ask : Ask) (value item : String) : String :=
  if (askKind ask).1 = "columns" ∧ trim value ≠ "" then value ++ ", " ++ item else item

def FormRow.moved (r : FormRow) (m : Move) : FormRow :=
  match m, r.box with
  | .type _ text, .text _ list => { r with box := .text text list }
  | .toggle _, .flag value on off => { r with box := .flag (!value) on off }
  | .pick _ j, .text value (some list) =>
    match list[j]? with
    | some item => { r with box := .text (picked r.ask value item) (some list) }
    | none => r
  | _, _ => r

def Form.step (st : Form) (m : Move) : Form :=
  match m with
  | .type i _ | .toggle i | .pick i _ => { st with rows := st.rows.modify i fun r => r.moved m }
  | .addRow values => { st with groupRows := st.groupRows ++ [values] }
  | .clearRows => { st with groupRows := [] }

def form (spec : DdlOp) (ctx : Context) : Lib.Machine Form Move where
  init := ⟨rowsFor spec ctx, []⟩
  step := fun st m => some (st.step m)

/-! ### Writing it out -/

/-- `values[k] = v`. -/
def put (t : List (String × String)) (k v : String) : List (String × String) :=
  t.filter (·.1 ≠ k) ++ [(k, v)]

def FormRow.value (r : FormRow) : String :=
  match r.box with
  | .flag value on off => if value then on else off
  | .text value _ => value

/-- `values_of` (125-137). -/
def valuesOf (rows : List FormRow) : List (String × String) :=
  rows.foldl (fun t r => put t r.name r.value) []

/-- The values of the form and its group; a group without a row template raises. -/
def Form.values (spec : DdlOp) (st : Form) : Option (List (String × String)) :=
  match groupOf spec with
  | none => some (valuesOf st.rows)
  | some g => g.row.map fun row => put (valuesOf st.rows) g.key (renderDdlRows row st.groupRows)

/-- `write it` (253-273), with the values in the order `pairs` gives them: what is loaded into the
editor. -/
def writeOut (m : DriverMeta) (spec : DdlOp) (ctx : Context) (values : List (String × String)) :
    Option String :=
  (renderDdl m spec.op (ctx.table.getD "") ctx.schema values).filter (· ≠ "")

/-! ### The marked statement -/

/-- The holes that are filled from the object. -/
def objectHoles (spec : DdlOp) (name : String) (schema : Option String)
    (values : List (String × String)) : List (String × String) :=
  let name := if spec.scope = "new" then trim ((values.lookup "name").getD "") else name
  let schema := schema.filter (· ≠ "")
  let qualified :=
    match schema with
    | some schema => schema ++ "." ++ name
    | none => name
  [("{qualified}", qualified), ("{table}", name), ("{schema}", schema.getD "")]

/-- The holes of a schema change, in the order they are filled. -/
def ddlHoles (spec : DdlOp) (name : String) (schema : Option String)
    (values : List (String × String)) : List (String × String) :=
  objectHoles spec name schema values ++ valueHoles values

/-- The statement, with the place in the template of each of its characters that is from there. -/
def markedDdl (spec : DdlOp) (ctx : Context) (values : List (String × String)) :
    List (Char × Option ℕ) :=
  collapse Prod.fst (fun c => (c, none))
    (Lib.fills Prod.fst (unplaced (chars (ddlHoles spec (ctx.table.getD "") ctx.schema values)))
      (marked (spec.template.getD "").toList))

/-- Wherever the template has the hole, its characters stand together in the statement. -/
def Stays (hole template : List Char) (statement : List (Char × Option ℕ)) : Prop :=
  ∀ o, o <:+: marked template → o.map Prod.fst = hole → o <:+: statement

theorem squeeze_map {α β : Type*} (g : α → β) (f : β → Char) (q : Option Char) (last : Bool)
    (s : List α) :
    (squeeze (fun a => f (g a)) q last s).map g = squeeze f q last (s.map g) := by
  induction s generalizing q last with
  | nil => cases q <;> rfl
  | cons c s ih =>
    cases q with
    | some q =>
      rw [List.map_cons, squeeze, squeeze, List.map_cons, ih]
    | none =>
      rw [List.map_cons, squeeze, squeeze]
      split
      · rw [List.map_cons, ih]
      · split
        · split
          · rw [ih]
          · rw [List.map_cons, ih]
        · rw [List.map_cons, ih]

theorem strip_map {α β : Type*} (g : α → β) (p : β → Bool) (s : List α) :
    (Lib.strip (fun a => p (g a)) s).map g = Lib.strip p (s.map g) := by
  have hdrop : ∀ s : List α, (s.dropWhile fun a => p (g a)).map g = (s.map g).dropWhile p := by
    intro s
    induction s with
    | nil => rfl
    | cons c s ih =>
      rw [List.map_cons, List.dropWhile_cons, List.dropWhile_cons]
      split
      · exact ih
      · rfl
  rw [Lib.strip, Lib.strip, List.rdropWhile, List.rdropWhile, List.map_reverse, hdrop,
    List.map_reverse, hdrop]

theorem collapse_map {α β : Type*} (g : α → β) (f : β → Char) (ink : Char → α) (s : List α) :
    (collapse (fun a => f (g a)) ink s).map g = collapse f (fun c => g (ink c)) (s.map g) := by
  rw [collapse, collapse, strip_map g fun c => Lib.isSpace (f c),
    Lib.replace_map g f (List.cons_ne_nil _ _), squeeze_map]
  rfl

theorem objectText_eq (spec : DdlOp) (name : String) (schema : Option String)
    (values : List (String × String)) : objectText spec name schema values =
      (objectHoles spec name schema values).foldl (fun out h => plain out h.1 h.2)
        (spec.template.getD "") := rfl

theorem ddlHoles_ne_nil {spec : DdlOp} {name : String} {schema : Option String}
    {values : List (String × String)} : ∀ x ∈ ddlHoles spec name schema values, x.1.toList ≠ [] := by
  intro x hx
  rcases List.mem_append.mp hx with hx | hx
  · simp only [objectHoles, List.mem_cons, List.not_mem_nil, or_false] at hx
    rcases hx with rfl | rfl | rfl
    · exact (by decide : "{qualified}".toList ≠ [])
    · exact (by decide : "{table}".toList ≠ [])
    · exact (by decide : "{schema}".toList ≠ [])
  · obtain ⟨kv, _, rfl⟩ := List.mem_map.mp hx
    exact hole_ne_nil kv.1

/-- The marks do not matter to the statement. -/
theorem markedDdl_text {m : DriverMeta} {spec : DdlOp} {ctx : Context}
    {values : List (String × String)} {stmt : String} (hop : m.op spec.op = some spec)
    (hstmt : writeOut m spec ctx values = some stmt) :
    (markedDdl spec ctx values).map Prod.fst = stmt.toList := by
  rw [writeOut, Option.filter_eq_some_iff, renderDdl, hop, Option.map_some, Option.some.injEq] at hstmt
  obtain ⟨rfl, _⟩ := hstmt
  rw [collapseSpaces, String.toList_ofList, objectText_eq, plainAll_eq, ← List.foldl_append, markedDdl]
  have hmap := collapse_map (f := id) Prod.fst (fun c => (c, none))
    (Lib.fills Prod.fst (unplaced (chars (ddlHoles spec (ctx.table.getD "") ctx.schema values)))
      (marked (spec.template.getD "").toList))
  rw [marked_run _ ddlHoles_ne_nil] at hmap
  exact hmap

/-! ### What a hole of the form becomes -/

theorem squeeze_sublist {α : Type*} (f : α → Char) (q : Option Char) (last : Bool) (s : List α) :
    (squeeze f q last s).Sublist s := by
  induction s generalizing q last with
  | nil => cases q <;> exact List.Sublist.refl _
  | cons c s ih =>
    cases q with
    | some q =>
      rw [squeeze]
      exact (ih _ _).cons_cons c
    | none =>
      rw [squeeze]
      split
      · exact (ih _ _).cons_cons c
      · split
        · split
          · exact (ih _ _).cons c
          · exact (ih _ _).cons_cons c
        · exact (ih _ _).cons_cons c

/-- A character of the template that is in the statement was there before the spaces went. -/
theorem mem_collapse {s : List (Char × Option ℕ)} {g : Char × Option ℕ} (hg : g.2 ≠ none)
    (h : g ∈ collapse Prod.fst (fun c => (c, none)) s) : g ∈ s := by
  obtain ⟨lead, trail, heq, _⟩ := Lib.strip_parts (fun c => Lib.isSpace c.1)
    (Lib.replace Prod.fst [' ', ';'] [(';', none)] (squeeze Prod.fst none false s))
  have hmem : g ∈ Lib.replace Prod.fst [' ', ';'] [(';', none)] (squeeze Prod.fst none false s) := by
    rw [heq]
    exact List.mem_append_left _ (List.mem_append_right _ h)
  have hsq := Lib.mem_replace (List.cons_ne_nil _ _) (v := [(';', none)]) rfl hg hmem
  exact (squeeze_sublist Prod.fst none false s).subset hsq

theorem mem_put {t : List (String × String)} {k v key : String}
    (h : key ∈ t.map Prod.fst ∨ key = k) : key ∈ (put t k v).map Prod.fst := by
  rw [put, List.map_append, List.mem_append]
  by_cases heq : key = k
  · exact .inr (by rw [heq]; exact List.mem_singleton_self k)
  · obtain ⟨kv, hkv, rfl⟩ := List.mem_map.mp (h.resolve_right heq)
    exact .inl (List.mem_map_of_mem (List.mem_filter.mpr ⟨hkv, decide_eq_true heq⟩))

/-- Every row of a form has a value. -/
theorem mem_valuesOf {rows : List FormRow} {r : FormRow} (h : r ∈ rows) :
    r.name ∈ (valuesOf rows).map Prod.fst := by
  have hfold : ∀ (rows : List FormRow) (t : List (String × String)) (key : String),
      (key ∈ t.map Prod.fst ∨ ∃ r ∈ rows, r.name = key) →
        key ∈ (rows.foldl (fun t r => put t r.name r.value) t).map Prod.fst := by
    intro rows
    induction rows with
    | nil =>
      rintro t key (h | ⟨r, hr, _⟩)
      · exact h
      · cases hr
    | cons r rows ih =>
      intro t key h
      refine ih _ key ?_
      rcases h with h | ⟨r', hr', rfl⟩
      · exact .inl (mem_put (.inl h))
      · rcases List.mem_cons.mp hr' with rfl | hr'
        · exact .inl (mem_put (.inr rfl))
        · exact .inr ⟨r', hr', rfl⟩
  exact hfold rows [] r.name (.inr ⟨r, h, rfl⟩)

theorem mem_values {spec : DdlOp} {st : Form} {values : List (String × String)} {r : FormRow}
    (hv : st.values spec = some values) (h : r ∈ st.rows) : r.name ∈ values.map Prod.fst := by
  unfold Form.values at hv
  split at hv
  · cases hv
    exact mem_valuesOf h
  · obtain ⟨row, _, rfl⟩ := Option.map_eq_some_iff.mp hv
    exact mem_put (.inl (mem_valuesOf h))

/-- A row is named by its ask. -/
def Named (st : Form) : Prop := ∀ r ∈ st.rows, r.name = r.ask.key

theorem moved_named (r : FormRow) (m : Move) : (r.moved m).name = r.name ∧ (r.moved m).ask = r.ask := by
  unfold FormRow.moved
  split
  · exact ⟨rfl, rfl⟩
  · exact ⟨rfl, rfl⟩
  · split
    · exact ⟨rfl, rfl⟩
    · exact ⟨rfl, rfl⟩
  · exact ⟨rfl, rfl⟩

theorem mem_modify {α : Type*} {f : α → α} {l : List α} {i : ℕ} {x : α} (h : x ∈ l.modify i f) :
    ∃ y ∈ l, x = y ∨ x = f y := by
  obtain ⟨n, hn⟩ := List.mem_iff_getElem?.mp h
  rw [List.getElem?_modify] at hn
  obtain ⟨y, hy, rfl⟩ := Option.map_eq_some_iff.mp hn
  refine ⟨y, List.mem_of_getElem? hy, ?_⟩
  split
  · exact .inr rfl
  · exact .inl rfl

theorem step_named {st : Form} (h : Named st) (m : Move) : Named (st.step m) := by
  have hmodify : ∀ i, Named { st with rows := st.rows.modify i fun r => r.moved m } := by
    intro i r hr
    obtain ⟨y, hy, rfl | rfl⟩ := mem_modify hr
    · exact h r hy
    · rw [(moved_named y m).1, (moved_named y m).2]
      exact h y hy
  cases m with
  | type i text => exact hmodify i
  | toggle i => exact hmodify i
  | pick i j => exact hmodify i
  | addRow values => exact h
  | clearRows => exact h

theorem rowsFor_named (spec : DdlOp) (ctx : Context) : Named (form spec ctx).init := by
  intro r hr
  obtain ⟨ask, _, hask⟩ := List.mem_filterMap.mp hr
  unfold rowFor at hask
  dsimp only at hask
  split at hask
  · cases hask
    rfl
  · split at hask
    · cases hask
    · cases hask
      rfl

theorem run_named {spec : DdlOp} {ctx : Context} {moves : List Move} {st : Form}
    (h : (form spec ctx).Run Lib.Machine.free (form spec ctx).init moves st) : Named st := by
  refine h.invariant Named (fun s m t _ hs hst => ?_) (rowsFor_named spec ctx)
  cases hst
  exact step_named hs m

/-- A box that is blank. -/
def FormRow.Blank (r : FormRow) : Prop := ∃ value list, r.box = .text value list ∧ trim value = ""

/-- The hole of a row does not stay in the statement, wherever the template has it. -/
theorem stays_iff {m : DriverMeta} {spec : DdlOp} {ctx : Context} {moves : List Move} {st : Form}
    {values order : List (String × String)} {stmt : String} (hop : m.op spec.op = some spec)
    (hrun : (form spec ctx).Run Lib.Machine.free (form spec ctx).init moves st)
    (hvalues : st.values spec = some values) (hperm : values.Perm order)
    (hstmt : writeOut m spec ctx order = some stmt) :
    (markedDdl spec ctx order).map Prod.fst = stmt.toList ∧
      ∀ r ∈ st.rows, r.Blank →
        (Stays (hole r.ask.key).toList (spec.template.getD "").toList (markedDdl spec ctx order) ↔
          ¬ (hole r.ask.key).toList <:+: (spec.template.getD "").toList) := by
  refine ⟨markedDdl_text hop hstmt, fun r hr _ => ⟨fun hstays hin => ?_, fun hnot o ho hhole => ?_⟩⟩
  · -- An occurrence in the template loses a character when the hole is filled, and for good.
    obtain ⟨pre, post, hsplit⟩ := hin
    have hmarked : (marked (spec.template.getD "").toList).map Prod.fst =
        pre ++ (hole r.ask.key).toList ++ post := by
      rw [Lib.marked_fst, hsplit]
    obtain ⟨x, b, heq, hx, _⟩ := List.map_eq_append_iff.mp hmarked
    obtain ⟨a, o, rfl, _, ho⟩ := List.map_eq_append_iff.mp hx
    have hin : o <:+: marked (spec.template.getD "").toList := ⟨a, b, heq.symm⟩
    have hplaced : Lib.Placed o := by
      intro g hg
      obtain ⟨c, _, rfl⟩ := List.mem_map.mp (hin.subset hg)
      exact Option.some_ne_none _
    have hnd : (Lib.places (marked (spec.template.getD "").toList)).Nodup := by
      rw [Lib.places_marked]
      exact List.nodup_range
    have hne : o ≠ [] := by
      rintro rfl
      exact hole_ne_nil r.ask.key ho.symm
    have hkey : r.ask.key ∈ order.map Prod.fst := by
      rw [← run_named hrun r hr]
      exact (hperm.map Prod.fst).mem_iff.mp (mem_values hvalues hr)
    obtain ⟨kv, hkv, hname⟩ := List.mem_map.mp hkey
    have hmem : ∃ h ∈ unplaced (chars (ddlHoles spec (ctx.table.getD "") ctx.schema order)),
        h.1 = o.map Prod.fst := by
      refine ⟨((hole kv.1).toList, Lib.unmarked kv.2.toList), ?_, by rw [ho, hname]⟩
      refine List.mem_map.mpr ⟨((hole kv.1).toList, kv.2.toList), ?_, rfl⟩
      refine List.mem_map.mpr ⟨(hole kv.1, kv.2), List.mem_append_right _ ?_, rfl⟩
      exact List.mem_map.mpr ⟨kv, hkv, rfl⟩
    obtain ⟨g, hg, hlost⟩ := Lib.lost_of_mem (Lib.unplaced_proper (proper_chars ddlHoles_ne_nil))
      (Lib.unplaced_unplaced _) hne hplaced hnd hin hmem
    exact hlost (mem_collapse (hplaced g hg) ((hstays o hin ho).subset hg))
  · have hmap := ho.map Prod.fst
    rw [Lib.marked_fst, hhole] at hmap
    exact absurd hmap hnot

def addColumn : DdlOp where
  op := "add_column"
  scope := "column"
  template := some "ALTER TABLE {table} ADD {column} {type};"
  asks := [⟨"column", "Column", none, .word "text"⟩, ⟨"type", "Type", none, .word "type"⟩]

def oneOp : DriverMeta := ⟨none, [], [], [], none, [addColumn]⟩

def onUsers : Context := ⟨some "users", none, none, none, [("text", 0)], [], []⟩

/-- The column is typed, and the type is left blank. -/
def untyped : Form where
  rows := [⟨"column", ⟨"column", "Column", none, .word "text"⟩, .text "note" none⟩,
    ⟨"type", ⟨"type", "Type", none, .word "type"⟩, .text "" (some ["text"])⟩]
  groupRows := []

theorem untyped_run : (form addColumn onUsers).Run Lib.Machine.free (form addColumn onUsers).init
    [.type 0 "note"] untyped := by
  have hexec : (form addColumn onUsers).exec (form addColumn onUsers).init [.type 0 "note"] =
      some untyped := by
    have hrows : rowsFor addColumn onUsers =
        [⟨"column", ⟨"column", "Column", none, .word "text"⟩, .text "" none⟩,
          ⟨"type", ⟨"type", "Type", none, .word "type"⟩, .text "" (some ["text"])⟩] := rfl
    simp only [Lib.Machine.exec, form, hrows]
    rfl
  exact Lib.Machine.run_of_exec hexec

theorem untyped_written : writeOut oneOp addColumn onUsers [("column", "note"), ("type", "")] =
    some "ALTER TABLE users ADD note;" := by decide +kernel

theorem stays_iff_untyped :
    (markedDdl addColumn onUsers [("column", "note"), ("type", "")]).map Prod.fst =
        "ALTER TABLE users ADD note;".toList ∧
      ∀ r ∈ untyped.rows, r.Blank →
        (Stays (hole r.ask.key).toList "ALTER TABLE {table} ADD {column} {type};".toList
            (markedDdl addColumn onUsers [("column", "note"), ("type", "")]) ↔
          ¬ (hole r.ask.key).toList <:+: "ALTER TABLE {table} ADD {column} {type};".toList) :=
  stays_iff rfl untyped_run rfl (.refl _) untyped_written

/-- The type is left blank, and the statement has no hole. -/
theorem blank_hole_gone : ∃ st, (form addColumn onUsers).Run Lib.Machine.free
      (form addColumn onUsers).init [.type 0 "note"] st ∧
    (∃ r ∈ st.rows, r.ask.key = "type" ∧ r.Blank) ∧
    "{type}".toList <:+: (addColumn.template.getD "").toList ∧
    st.values addColumn = some [("column", "note"), ("type", "")] ∧
    writeOut oneOp addColumn onUsers [("column", "note"), ("type", "")] =
      some "ALTER TABLE users ADD note;" ∧
    ¬ "{type}".toList <:+: "ALTER TABLE users ADD note;".toList := by
  refine ⟨untyped, untyped_run, ⟨_, List.mem_cons_of_mem _ List.mem_cons_self, rfl, ?_⟩, by decide, rfl,
    untyped_written, by decide⟩
  exact ⟨"", some ["text"], rfl, rfl⟩

end LvimDb.Template
