import LvimDb.Result.State

/-!
# The operations of the result dock

Every function of ui/result.lua that reads or writes the dock's state, as a function on
it. A function runs to its return in one step; what it asks for is answered later.
-/

namespace LvimDb.Result
open Engine (ConnId CallId Column PageReply PageAnswer CallStatus)

/-! ### Addresses -/

/-- `index[name]`: the last column of that name. -/
def indexOf (cols : List Column) (name : String) : Option ℕ :=
  (cols.zipIdx.reverse.find? (·.1.name = name)).map (·.2)

/-- `row[ci]`. -/
def cellAt {V : Type} (null : V) (row : List V) (ci : ℕ) : V := row.getD ci null

/-- `address_of`: the key columns paired with the values of the row. -/
def addressOf {V : Type} (null : V) (cols : List Column) (row : List V) (key : List String) :
    Option (List (String × V)) :=
  key.mapM fun name => (indexOf cols name).map fun ci => (name, cellAt null row ci)

/-- `insert_set` (rules.lua:82-91). The text typed for a name is that of the last box of it. -/
def insertSet {V : Type} (parseCell : String → String → V) (fields : List Field)
    (texts : List String) : List (String × V) :=
  fields.filterMap fun c =>
    match (fields.zip texts).reverse.find? (·.1.name = c.name) with
    | some (_, text) =>
      if text.toList.all Char.isWhitespace then none else some (c.name, parseCell text c.kind)
    | none => none

namespace Dock
variable {V : Type} (env : Env V) (s : Dock V)

/-! ### Showing -/

/-- The face after `render`, or as it is where that raises: the log's rows newest first, or the grid
of the page. -/
def rendered : Face V :=
  if s.face.isOpen then
    match s.face.view with
    | .log => { s.face with logRows := s.calls.reverse }
    | .result => { s.face with grid := s.page.bind Shown.grid }
  else s.face

def render : Dock V := { s with face := s.rendered }

/-- `render` raises, and what follows it is not reached: a line of the log gets a line break from the
name of its connection; `%d` gets a count that is null, of a page without columns; or `paint_edit`
finds the locked row outside the grid. -/
def raises : Bool :=
  s.face.isOpen &&
    match s.face.view with
    | .log => s.calls.any fun k =>
        (s.heap[k]?).any fun e => decide ('\n' ∈ e.query.conn.name.toList)
    | .result =>
      match s.page with
      | some p =>
        if p.page.columns = [] then p.page.affected.isNone
        else s.face.edit.any fun e => p.page.rows.length ≤ e.focus.ri
      | none => false

def cancelEdit : Dock V :=
  if s.face.edit.isSome then
    render { s with face := { s.face with edit := none } }
  else s

/-- The render of `cancel_edit` raises. -/
def cancelRaises : Bool :=
  s.face.edit.isSome && raises { s with face := { s.face with edit := none } }

def setView (v : View) : Dock V := render { s with face := { s.face with view := v } }

/-- `open_dock`. The first render of a new panel comes with its `update`. -/
def openDock : Dock V :=
  if s.face.isOpen then s.render else { s with face := { s.face with isOpen := true } }

/-- `M.close` with the provider's `on_close`. -/
def close : Dock V :=
  { s with face := { s.face with isOpen := false, edit := none, grid := none } }

/-- `M.reopen`. -/
def reopen : Dock V := if s.page.isNone && s.calls.isEmpty then s else s.openDock.render

/-- `M.ensure_open`. -/
def ensureOpen : Dock V := if s.face.isOpen then s.render else s.openDock.render

/-- `M.show_log`. -/
def showLog : Dock V := if s.raises then s.openDock else s.openDock.setView .log

def relog : Dock V :=
  if s.face.isOpen && s.face.view == .log then s.later .render else s

/-- `on_done(ok)`. -/
def finish (done : Option ℕ) (ok : Bool) : Dock V :=
  match done with
  | some n => s.tell (.finished n ok)
  | none => s

/-! ### Paging -/

/-- `goto_page` (654-682). -/
def gotoPage (offset : ℕ) : Dock V :=
  match s.callId with
  | some cid => s.send (.paged cid offset env.pageSize) (.page cid offset)
  | none => s

/-- A page of `cid` has come. -/
def turn (cid : CallId) (p : PageReply V) : Dock V :=
  let s := { s with offset := p.from_, page := some ⟨cid, p⟩ }
  match s.calls.find? fun k => (s.heap[k]?.bind Entry.callId) = some cid with
  | some k => (s.amend k fun e => { e with offset := p.from_ }).later .render
  | none => s.later .render

def nextPage : Dock V :=
  match s.page with
  | some p => if p.page.hasMore then s.gotoPage env (s.offset + env.pageSize) else s
  | none => s

def prevPage : Dock V := s.gotoPage env (s.offset - env.pageSize)

/-! ### Running -/

/-- `fetch_total` (831-877). -/
def fetchTotal (src : Source) : Dock V :=
  match s.conn with
  | some c =>
    match env.count c.driver src with
    | some statement => s.send (.counted c statement) .count
    | none => s
  | none => s

/-- The dock's connection, statement and origin become those of a run. -/
def retarget (q : Query) (callId : Option CallId) (offset : ℕ) : Dock V :=
  { s with
    conn := some q.conn
    statement := some q.statement
    origin := q.origin.map (Origin.new s.next)
    callId := callId
    offset := offset
    next := s.next + 1 }

def countRows (q : Query) : Dock V :=
  match q.origin with
  | some src => s.fetchTotal env src
  | none => s

/-- `M.run` up to its request (2385-2422). -/
def clear (q : Query) : Dock V :=
  let s := { s.cancelEdit.retarget q none 0 with page := none }
  ((s.countRows env q).addEntry q).relog

/-- `M.run` (2385-2503); an error of its `cancel_edit` goes to its caller. -/
def run (why : Why) (q : Query) (offset : ℕ) (done : Option ℕ) : Dock V :=
  if s.cancelRaises then s.cancelEdit.tell (.raised done)
  else
    let k := (s.clear env q).heap.length - 1
    (s.clear env q).send (.ran why k q done) (.run k q offset done)

/-- The buffer of an entry's call is given up. -/
def release (k : ℕ) : Dock V :=
  match s.heap[k]?.bind Entry.callId with
  | some cid => (s.tell (.released cid)).amend k fun e => { e with callId := none }
  | none => s

/-- Entries of the log whose buffer is alive. -/
def live : List ℕ := s.calls.filter fun k => (s.heap[k]?.bind Entry.callId).isSome

/-- What a registered call pushes out of the cache. -/
def evict (prev : Option CallId) (cid : CallId) : Dock V :=
  match env.cache with
  | some size => (s.live.take (s.live.length - size)).foldl release s
  | none =>
    match prev with
    | some p => if p = cid then s else s.tell (.released p)
    | none => s

/-- The execute of a run is answered (2473-2502). -/
def register (k : ℕ) (q : Query) (offset : ℕ) (done : Option ℕ) (cid : CallId) : Dock V :=
  let s' := (s.issue cid (some q)).wait (.watch k offset done)
  let s' := { s'.amend k fun e => { e with callId := some cid } with callId := some cid }
  s'.evict env s.callId cid

/-- The state of a run's call has come (2425-2472). -/
def settle (k : ℕ) (st : CallStatus) (offset : ℕ) (done : Option ℕ) : Dock V :=
  let s := (s.amend k fun e => { e with state := st }).relog
  if st = .done then s.later (.landed offset done) else s.later (.failed done)

/-- The closure scheduled for a run that is done. -/
def land (offset : ℕ) (done : Option ℕ) : Dock V :=
  let s := { s with face := { s.face with view := .result } }
  if s.raises then s.openDock else (s.openDock.gotoPage env offset).finish done true

/-- `focused_call`. -/
def focusedCall : Option ℕ := if s.face.isOpen then s.face.logRows[s.face.cursor.1]? else none

/-- The user wants a statement run. -/
def want (q : Query) : Dock V := { s.tell (.asked s.next q.ask) with next := s.next + 1 }

/-- A logged call is run again, without the guard. -/
def again (q : Query) : Dock V :=
  (s.want q).run env (.user s.next none) { q with origin := none } 0 none

/-- `open_cached` (2085-2098). -/
def openCached (k : ℕ) : Dock V :=
  match s.heap[k]? with
  | some c =>
    match c.callId with
    | some cid =>
      let s := ((s.retarget c.query (some cid) c.offset).countRows env c.query).setView .result
      if s.raises then s else s.gotoPage env c.offset
    | none => s
  | none => s

/-- `rerun_call` (2101-2106). -/
def rerunCall : Dock V :=
  match s.focusedCall.bind (s.heap[·]?) with
  | some c => s.again env c.query
  | none => s

/-- The callback of `M.classify` in `M.run_guarded`. -/
def judged (q : Query) (t : Ticket) (dangerous : Bool) : Dock V :=
  if dangerous then s.later (.askRun q t) else s.later (.guarded q t)

/-- `M.run_guarded` (2716-2744) with `M.classify` (init.lua:310-328). -/
def runGuarded (q : Query) (notify : Bool) : Dock V :=
  let t : Ticket := ⟨s.next, notify⟩
  if env.confirmDestructive then
    if env.proto < 4 then (s.want q).judged q t (env.isDestructive q.statement)
    else (s.want q).send (.classified q.conn.driver q.statement) (.classify q t)
  else (s.want q).judged q t false

/-! ### Writing a row -/

/-- `M.write_row` (2662-2698), its first step. -/
def writeRow (set key : List (String × V)) (delete insert : Bool) (target : Target V) : Dock V :=
  match s.conn, s.origin with
  | some c, some o =>
    let plan : Plan V := ⟨o.source, key, set, delete, insert⟩
    { s.send (.previewed s.next c.id plan target) (.preview s.next c.id plan target) with
      next := s.next + 1 }
  | _, _ => s

/-- `apply_row` (2591-2644). -/
def applyRow (plan : Plan V) (statement : String) (target : Target V) : Dock V :=
  match s.conn with
  | some c =>
    (s.addEntry ⟨c, statement, none⟩).send (.applied c.id plan) (.apply s.heap.length c target)
  | none => s

/-- `M.write` (2517-2573). -/
def write (statement : String) (target : Target V) : Dock V :=
  match s.conn with
  | some c =>
    (s.addEntry ⟨c, statement, none⟩).send (.wrote c statement) (.write s.heap.length c target)
  | none => s

/-- The page is read again after a write. -/
def refresh (on : Conn) (target : Target V) : Dock V :=
  match s.statement with
  | some statement =>
    s.run env (.refresh (s.browseOf target) on.id) ⟨on, statement, s.origin.map Origin.source⟩ s.offset none
  | none => s

/-! ### Editing -/

/-- `readonly_reason` (783-812). -/
def readonlyReason : Option String :=
  match s.origin with
  | none => some "this result is not one object's rows — open a table's Data facet to edit"
  | some o =>
    if env.proto < 5 then some "this engine cannot write single rows (it is older than protocol 5)"
    else if !env.edits s.driver then
      some ("the " ++ s.driver ++ " driver does not write single rows")
    else if o.key = some [] then
      some ("'" ++ o.source.object ++ "' has no primary key — a row cannot be addressed uniquely")
    else none

/-- The row under the cursor, when the page and the grid have it. -/
def focusedRow : Option (Focus V) :=
  match s.page, s.face.grid with
  | some p, some g => if s.face.cursor.1 < g.height then p.focus s.face.cursor.1 else none
  | _, _ => none

/-- `edit_cell` (1310-1486): the field under the cursor is opened. -/
def editCell : Dock V :=
  match s.face.edit, s.face.grid with
  | some e, some g =>
    match g.cols[s.face.cursor.2]? with
    | some col =>
      let ci := s.face.cursor.2
      if !s.face.isOpen || g.height ≤ e.focus.ri then s
      else if s.driver = "mongodb" ∧ col.name = "_document" then
        match s.origin with
        | some o => s.wait (.docInput e.focus o.source.object)
        | none => s
      else
        let raw := (e.pending.lookup ci).getD (cellAt env.null e.focus.row ci)
        if env.fieldEditable raw s.driver col then s.wait (.cellInput e.id e.focus ci col) else s
    | none => s
  | _, _ => s

/-- `apply` of `edit_cell` (1389-1398): the table `e` it writes to is the one it captured. -/
def applyCell (id : ℕ) (f : Focus V) (ci : ℕ) (col : Column) (text : String) : Dock V :=
  match s.face.edit with
  | some e =>
    match env.coerce text (cellAt env.null f.row ci) s.driver col with
    | .ok v =>
      if e.id = id then
        { s with face := { s.face with edit := some { e with pending := (ci, v) :: e.pending } } }
      else s
    | .error _ => s
  | none => s

/-- The callback of the `_document` editor (1354-1371). -/
def replaceDoc (f : Focus V) (object text : String) : Dock V :=
  match s.face.edit with
  | some _ =>
    match env.replaceDocument s.driver object text with
    | some statement =>
      if s.cancelRaises then s.cancelEdit else s.cancelEdit.write statement (.row f)
    | none => s
  | none => s

/-- `start_edit` (1225-1246). -/
def startEdit (f : Focus V) (key : List String) : Dock V :=
  match s.face.grid with
  | some g =>
    if f.ri < g.height then
      match addressOf env.null g.cols f.row key with
      | some w => { s with face := { s.face with edit := some ⟨s.next, f, w, []⟩ }, next := s.next + 1 }
      | none => s
    else s
  | none => s

/-- `open_row_popup` (1526-1681) for a row that can be written. -/
def openRowPopup (f : Focus V) (key : List String) : Dock V :=
  match s.face.grid with
  | some g =>
    match addressOf env.null g.cols f.row key with
    | some w => s.wait (.popup f w g.cols (s.origin.map Origin.source))
    | none => s
  | none => s

/-- The part of `delete_row` that waits for the key (1723-1734). -/
def removeRow (f : Focus V) (key : List String) : Dock V :=
  match s.face.grid with
  | some g =>
    match addressOf env.null g.cols f.row key with
    | some w => s.writeRow [] w true false (.row f)
    | none => s
  | none => s

/-- `open_insert_form` (1745-1806). -/
def openInsertForm (fields : List Field) (n : ℕ) : Dock V :=
  if s.origin.isSome then s.wait (.insertForm fields n) else s

/-- The key is known; a row operation goes on. -/
def keyed (op : Op V) (key : List String) : Dock V :=
  match op with
  | .lock f after =>
    let s := s.startEdit env f key
    if after then s.editCell env else s
  | .popup f => s.openRowPopup env f key
  | .delete f => s.removeRow env f key
  | .insert _ => s

/-- A table `state.origin` points to is changed. -/
def setOrigin (ref : ℕ) (f : Origin → Origin) : Dock V :=
  { s with origin := s.origin.map fun o => if o.ref = ref then f o else o }

/-- The callbacks of `resolve_columns` and `resolve_key` (746-781). -/
def described (ref : ℕ) (op : Op V) (fields : List Field) : Dock V :=
  match op with
  | .insert n => if fields.isEmpty then s else s.openInsertForm fields n
  | op =>
    let key := (fields.filter Field.primary).map Field.name
    let s := s.setOrigin ref fun o => { o with key := some key }
    if key.isEmpty then s else s.keyed env op key

/-- `resolve_columns` (746-762). -/
def resolveColumns (op : Op V) : Dock V :=
  match s.origin, s.conn with
  | some o, some c =>
    match o.metaColumns with
    | some fields => s.described env o.ref op fields
    | none => s.send (.described c.id o.source) (.columns o.ref op)
  | _, _ => s

/-- `resolve_key` (764-781). -/
def resolveKey (op : Op V) : Dock V :=
  match s.origin with
  | some o =>
    match o.key with
    | some key => if s.conn.isNone || key.isEmpty then s else s.keyed env op key
    | none => s.resolveColumns env op
  | none => s

/-- The view and the lock let a row operation begin. -/
def free : Bool := s.face.view == .result && s.face.edit.isNone

/-- `edit_row` (1255-1279). -/
def editRow (after : Bool) : Dock V :=
  if s.free && (s.readonlyReason env).isNone then
    match s.focusedRow with
    | some f => s.resolveKey env (.lock f after)
    | none => s
  else s

/-- `insert_cell`: the lock is taken first if it is not held. -/
def insertCell : Dock V := if s.face.edit.isSome then s.editCell env else s.editRow env true

/-- `edit_popup` (1684-1702); the popup of a row that cannot be written changes nothing. -/
def editPopup : Dock V :=
  if s.free && (s.readonlyReason env).isNone then
    match s.focusedRow with
    | some f => s.resolveKey env (.popup f)
    | none => s
  else s

/-- `delete_row` (1708-1735). -/
def deleteRow : Dock V :=
  if s.free && (s.readonlyReason env).isNone then
    match s.focusedRow with
    | some f => s.resolveKey env (.delete f)
    | none => s
  else s

/-- `new_row` (1809-1846). -/
def newRow : Dock V :=
  if s.free && s.origin.isSome && 27 ≤ env.proto && env.edits s.driver then
    { s.tell (.began s.next s.browse) with next := s.next + 1 }.resolveColumns env (.insert s.next)
  else s

/-- `save_edit` (1489-1511). A page's render is scheduled as it comes and is past when a key is
pressed: where there is a grid the page has columns, and `cancel_edit` does not raise. -/
def saveEdit : Dock V :=
  match s.face.edit, s.face.grid, s.origin, s.conn with
  | some e, some g, some _, some _ =>
    if s.face.isOpen then
      let set := g.cols.zipIdx.filterMap fun c => (e.pending.lookup c.2).map (c.1.name, ·)
      if set.isEmpty then s.cancelEdit
      else s.cancelEdit.writeRow set e.where_ false false (.row e.focus)
    else s
  | _, _, _, _ => s

/-- The changed fields of the row popup; none when one of them cannot be written. -/
def popupSet (f : Focus V) (cols : List Column) (texts : List String) : Option (List (String × V)) :=
  (cols.zipIdx.mapM fun (col, ci) =>
    let orig := env.cellDisplay (cellAt env.null f.row ci)
    let now := texts.getD ci orig
    if now = orig then some none
    else (env.coerce now (cellAt env.null f.row ci) s.driver col).toOption.map fun v =>
      some (col.name, v)).map List.reduceOption

/-- The popup is saved (1634-1665); it stays open when it cannot be. -/
def savePopup (f : Focus V) (where_ : List (String × V)) (cols : List Column)
    (origin : Option Source) (texts : List String) : Dock V :=
  let stays := s.wait (.popup f where_ cols origin)
  if origin.isNone || s.conn.isNone then stays
  else
    match s.popupSet env f cols texts with
    | some [] => s
    | some set => s.writeRow set where_ false false (.row f)
    | none => stays

/-- The form for a new row is saved (1777-1797). -/
def saveInsert (fields : List Field) (n : ℕ) (texts : List String) : Dock V :=
  let set := insertSet env.parseCell fields texts
  if set.isEmpty then s.wait (.insertForm fields n)
  else s.writeRow set [] false true (.fresh n)

end Dock
end LvimDb.Result
