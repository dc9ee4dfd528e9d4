import LvimDb.Engine.Server

/-!
# The result dock's state

The module-local `state` of ui/result.lua, the session call log, the callbacks that
wait for an answer and the closures given to `vim.schedule`. A callback is kept with
what it captured. A Lua table that several closures share is a number into the heap
(log entries) or carries one (the locked row, the origin).
-/

namespace LvimDb.Result
open Engine (ConnId CallId Column PageReply PageAnswer CallStatus)

/-! ### Data -/

/-- `state.conn_id`, `state.conn` and `state.driver`, which are always set together. -/
structure Conn where
  id : ConnId
  name : String
  driver : String
  deriving DecidableEq, Repr

/-- `{ schema, object }`: where rows come from. -/
structure Source where
  schema : Option String
  object : String
  deriving DecidableEq, Repr

/-- What `M.run` is called with. -/
structure Query where
  conn : Conn
  statement : String
  origin : Option Source
  deriving DecidableEq, Repr

/-- A statement on a connection, as `query.execute` carries it. -/
abbrev Ask := ConnId × String

def Query.ask (q : Query) : Ask := (q.conn.id, q.statement)

/-- A column of an object (`schema.columns`). -/
structure Field where
  name : String
  kind : String
  primary : Bool
  deriving DecidableEq, Repr

/-- `state.origin`; `ref` tells one such table from another. -/
structure Origin where
  ref : ℕ
  source : Source
  key : Option (List String)
  metaColumns : Option (List Field)
  deriving DecidableEq, Repr

def Origin.new (ref : ℕ) (source : Source) : Origin := ⟨ref, source, none, none⟩

/-- A page with the call whose `query.page` delivered it. -/
structure Shown (V : Type) where
  call : CallId
  page : PageReply V

/-- A row of a page, as a row operation captures it. -/
structure Focus (V : Type) where
  shown : Shown V
  ri : ℕ
  row : List V
  held : shown.page.rows[ri]? = some row

def Shown.focus {V : Type} (p : Shown V) (ri : ℕ) : Option (Focus V) :=
  match h : p.page.rows[ri]? with
  | some row => some ⟨p, ri, row, h⟩
  | none => none

/-- `state.grid`: the columns and the number of rows of the page it was rendered from. -/
structure Grid where
  cols : List Column
  height : ℕ
  deriving DecidableEq, Repr

/-- The layout of a page; one without columns has no grid. -/
def Shown.grid {V : Type} (p : Shown V) : Option Grid :=
  if p.page.columns = [] then none else some ⟨p.page.columns, p.page.rows.length⟩

/-- `LvimDbEdit`: the locked row; `where_` is its key with the values it had, `pending` the
changed fields, the newest first. -/
structure Edit (V : Type) where
  id : ℕ
  focus : Focus V
  where_ : List (String × V)
  pending : List (ℕ × V)

/-- An entry of `state.calls`. -/
structure Entry where
  query : Query
  callId : Option CallId
  state : CallStatus
  offset : ℕ
  deriving DecidableEq, Repr

inductive View
  | result
  | log
  deriving DecidableEq, Repr

/-- The arguments of `row.write` but for the connection and `confirm`. -/
structure Plan (V : Type) where
  obj : Source
  key : List (String × V)
  set : List (String × V)
  delete : Bool
  insert : Bool
  deriving DecidableEq, Repr

/-- What a row write is about: a row, or the new row of the `n`th form. -/
inductive Target (V : Type)
  | row (f : Focus V)
  | fresh (n : ℕ)

/-- A statement the user asks for: its number, and whether an `on_done` waits for it. -/
structure Ticket where
  n : ℕ
  notify : Bool
  deriving DecidableEq, Repr

def Ticket.done (t : Ticket) : Option ℕ := if t.notify then some t.n else none

/-- Why `M.run` is called: for what the user asked, judged by the guard or not, or because a
row of `browse` was written on `on`. -/
inductive Why
  | user (n : ℕ) (judged : Option Bool)
  | refresh (browse : Option Ask) (on : ConnId)
  deriving DecidableEq, Repr

/-- What `resolve_key` or `resolve_columns` was asked for. -/
inductive Op (V : Type)
  | lock (f : Focus V) (after : Bool)
  | popup (f : Focus V)
  | delete (f : Focus V)
  | insert (n : ℕ)

/-! ### What waits -/

/-- A callback that waits for the engine or for the user. -/
inductive Cont (V : Type)
  | page (cid : CallId) (offset : ℕ)
  | run (entry : ℕ) (q : Query) (offset : ℕ) (done : Option ℕ)
  | watch (entry offset : ℕ) (done : Option ℕ)
  | count
  | countWatch (cid : CallId)
  | countPage (cid : CallId)
  | classify (q : Query) (t : Ticket)
  | columns (ref : ℕ) (op : Op V)
  | preview (n : ℕ) (on : ConnId) (plan : Plan V) (target : Target V)
  | apply (entry : ℕ) (on : Conn) (target : Target V)
  | write (entry : ℕ) (on : Conn) (target : Target V)
  | writeWatch (entry : ℕ) (on : Conn) (target : Target V)
  | guardDialog (q : Query) (t : Ticket)
  | writeDialog (n : ℕ) (on : ConnId) (plan : Plan V) (statement : String) (target : Target V)
  | popup (f : Focus V) (where_ : List (String × V)) (cols : List Column)
      (origin : Option Source)
  | insertForm (fields : List Field) (n : ℕ)
  | cellInput (edit : ℕ) (f : Focus V) (ci : ℕ) (col : Column)
  | docInput (f : Focus V) (object : String)

/-- A closure given to `vim.schedule`. -/
inductive Task (V : Type)
  | render
  | failed (done : Option ℕ)
  | landed (offset : ℕ) (done : Option ℕ)
  | guarded (q : Query) (t : Ticket)
  | askRun (q : Query) (t : Ticket)
  | askWrite (n : ℕ) (on : ConnId) (plan : Plan V) (statement : String) (target : Target V)
  | refresh (on : Conn) (target : Target V)

/-- What the user asks for, what is sent to the engine and what comes of a question; and a run that
an error stopped before it was sent. -/
inductive Event (V : Type)
  | asked (n : ℕ) (ask : Ask)
  | confirmed (n : ℕ)
  | ran (why : Why) (entry : ℕ) (q : Query) (done : Option ℕ)
  | raised (done : Option ℕ)
  | wrote (on : Conn) (statement : String)
  | counted (on : Conn) (statement : String)
  | paged (cid : CallId) (offset n : ℕ)
  | released (cid : CallId)
  | cancelled (cid : CallId)
  | classified (driver statement : String)
  | described (on : ConnId) (obj : Source)
  | began (n : ℕ) (browse : Option Ask)
  | previewed (n : ℕ) (on : ConnId) (plan : Plan V) (target : Target V)
  | returned (n : ℕ) (statement : String)
  | accepted (n : ℕ) (statement : String)
  | applied (on : ConnId) (plan : Plan V)
  | finished (done : ℕ) (ok : Bool)

/-- What the answer to a request, a dialog or an input brings. -/
inductive Reply (V : Type)
  | failed
  | called (cid : CallId)
  | page (p : PageAnswer V)
  | state (st : CallStatus)
  | columns (fields : List Field)
  | verdict (dangerous : Bool)
  | statement (text : String)
  | written
  | answer (yes : Bool)
  | typed (text : String)
  | saved (texts : List String)
  | closed

/-! ### The dock -/

/-- What is on screen: is_open, the view, the grid, the locked row, the cursor and the log's
rows. -/
structure Face (V : Type) where
  isOpen : Bool
  view : View
  grid : Option Grid
  edit : Option (Edit V)
  cursor : ℕ × ℕ
  logRows : List ℕ

/-- The dock. `issued` keeps for every call id the run that created it (none for a write and
a count), `hist` what happened, newest first. -/
structure Dock (V : Type) where
  face : Face V
  conn : Option Conn
  statement : Option String
  origin : Option Origin
  callId : Option CallId
  page : Option (Shown V)
  offset : ℕ
  heap : List Entry
  calls : List ℕ
  waiting : List (Cont V)
  queue : List (Task V)
  next : ℕ
  issued : List (CallId × Option Query)
  hist : List (Event V)

/-- The configuration, what the engine declared in its handshake, and the functions on values
that are not modelled here. -/
structure Env (V : Type) where
  null : V
  proto : ℕ
  edits : String → Bool
  count : String → Source → Option String
  confirmDestructive : Bool
  isDestructive : String → Bool
  verdict : String → String → Bool
  cache : Option ℕ
  pageSize : ℕ
  cellDisplay : V → String
  coerce : String → V → String → Column → Except String V
  fieldEditable : V → String → Column → Bool
  parseCell : String → String → V
  replaceDocument : String → String → String → Option String

namespace Dock
variable {V : Type}

def new : Dock V where
  face := ⟨false, .result, none, none, (0, 0), []⟩
  conn := none
  statement := none
  origin := none
  callId := none
  page := none
  offset := 0
  heap := []
  calls := []
  waiting := []
  queue := []
  next := 0
  issued := []
  hist := []

def tell (s : Dock V) (e : Event V) : Dock V := { s with hist := e :: s.hist }
def wait (s : Dock V) (c : Cont V) : Dock V := { s with waiting := s.waiting ++ [c] }
def later (s : Dock V) (t : Task V) : Dock V := { s with queue := s.queue ++ [t] }

/-- A request is sent. -/
def send (s : Dock V) (e : Event V) (c : Cont V) : Dock V := (s.tell e).wait c

/-- The engine numbers a call. -/
def issue (s : Dock V) (cid : CallId) (q : Option Query) : Dock V :=
  { s with issued := (cid, q) :: s.issued }

def amend (s : Dock V) (k : ℕ) (f : Entry → Entry) : Dock V :=
  { s with heap := s.heap.modify k f }

/-- The log entry is appended; the log keeps 200. -/
def addEntry (s : Dock V) (q : Query) : Dock V :=
  { s with
    heap := s.heap ++ [⟨q, none, .running, 0⟩]
    calls :=
      if s.calls.length < 200 then s.calls ++ [s.heap.length]
      else s.calls.tail ++ [s.heap.length] }

/-- The run that created a call. -/
def creator (s : Dock V) (cid : CallId) : Option Query := (s.issued.lookup cid).join

def driver (s : Dock V) : String := (s.conn.map Conn.driver).getD ""

/-- The statement and the connection the dock shows. -/
def browse (s : Dock V) : Option Ask :=
  match s.conn, s.statement with
  | some c, some statement => some (c.id, statement)
  | _, _ => none

/-- What the dock showed when the `n`th form for a new row was asked for. -/
def begun (hist : List (Event V)) (n : ℕ) : Option Ask :=
  hist.findSome? fun
    | .began m browse => if m = n then browse else none
    | _ => none

/-- The browse whose row a write is about. -/
def browseOf (s : Dock V) : Target V → Option Ask
  | .row f => (s.creator f.shown.call).map Query.ask
  | .fresh n => begun s.hist n

end Dock
end LvimDb.Result
