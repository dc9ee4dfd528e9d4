import LvimDb.Client.Drawer

/-!
# The completion source

cmp.lua over the client and its engine processes. The schema tree of a connection is fetched
once and kept under the connection's id, the columns of an object under the id and the object's
name; requests for what is being fetched are parked on the fetch. A disconnect drops what is
kept for its id. Only the connection ids of the drawer are asked, no connection is opened.
-/

namespace LvimDb.Completion
open Engine (ConnId ReqId Reply Request SchemaOp BsonCells Build)
open Client (Session Channel Cb)

variable {V B : Type}

/-! ### Items -/

structure Object where
  name : String
  kind : String
  deriving DecidableEq, Repr

structure Schema where
  name : Option String
  children : List Object
  deriving DecidableEq, Repr

structure Column where
  name : String
  type : String
  deriving DecidableEq, Repr

/-- What `vim.json.decode` makes of the payload of a structure and of a columns answer. -/
structure Payloads where
  nodes : String → List Schema
  columns : String → List Column

/-- `LvimCmpItem`. -/
structure Item where
  label : String
  kind : ℕ
  detail : Option String
  deriving DecidableEq, Repr

/-- `NODE_KIND[kind] or 7`. -/
def nodeKind : String → ℕ
  | "table" => 7
  | "view" => 8
  | "collection" => 7
  | "key" => 6
  | _ => 7

def KIND_SCHEMA : ℕ := 9
def KIND_COLUMN : ℕ := 5

/-- An item whose label has not been seen yet. -/
def addItem (items : List Item) (i : Item) : List Item :=
  if items.any (·.label == i.label) then items else items ++ [i]

/-- The items of a plain keyword (cmp.lua:206-221). -/
def schemaItems (nodes : List Schema) : List Item :=
  nodes.foldl (fun items schema =>
    let items := match schema.name with
      | some name => if name = "" then items else addItem items ⟨name, KIND_SCHEMA, some "schema"⟩
      | none => items
    schema.children.foldl
      (fun items obj => addItem items ⟨obj.name, nodeKind obj.kind, schema.name⟩) items) []

def columnItems (cols : List Column) : List Item :=
  cols.map fun col => ⟨col.name, KIND_COLUMN, if col.type = "" then none else some col.type⟩

/-- The first object of that name across schemas, with its schema's name. -/
def firstObject (nodes : List Schema) (dotted : String) : Option (String × String) :=
  nodes.findSome? fun schema =>
    (schema.children.find? (·.name == dotted)).map fun obj => (schema.name.getD "", obj.name)

/-! ### Data -/

/-- A completion request on its way: the name of the connection that was active, and the name
before the dot. -/
structure Parked where
  name : String
  dotted : Option String
  deriving DecidableEq, Repr

/-- `nodes` and `nodes_pending`. A failed fetch leaves an empty tree; another one is kept with
the process that answered it. -/
inductive Tree
  | pending (parked : List Parked)
  | empty
  | fetched (nodes : List Schema) (process : ℕ)

/-- `cols[key]` and `cols_pending[key]` of an object whose columns have been asked for. -/
inductive Columns
  | pending (parked : List Parked)
  | fetched (cols : List Column) (process : ℕ)

/-- `LvimDbCmpCache`. -/
structure Entry where
  tree : Tree
  cols : String → Option Columns

/-- A request of cmp.lua. Its callback captures no more than this. -/
inductive Fetch
  | nodes (k : ConnId)
  | columns (k : ConnId) (key : String)
  deriving DecidableEq, Repr

def Fetch.request : Fetch → Request
  | .nodes k => .schema k .structureNodes
  | .columns k key => .schema k (.columns key)

/-- A tree or columns handed to a completion request: the request's connection, the process they
were fetched from unless the fetch has failed, the items that are offered, and the channel as it
was then. -/
structure Handed (V B : Type) where
  name : String
  conn : ConnId
  process : Option ℕ
  items : List Item
  chan : Channel V B

/-- `sent` and `waits` are the callbacks of cmp.lua among those of daemon.lua: by the id of the
request, or by the place among those who wait for the handshake. -/
structure Source (V B : Type) where
  session : Session V B
  active : Option String
  cache : ConnId → Option Entry
  sent : List (ReqId × Fetch)
  waits : List (ℕ × Fetch)
  handed : List (Handed V B)

namespace Source

def new : Source V B where
  session := .new
  active := none
  cache := fun _ => none
  sent := []
  waits := []
  handed := []

@[simps] def setEntry (s : Source V B) (k : ConnId) (e : Option Entry) : Source V B :=
  { s with cache := Function.update s.cache k e }

def setCols (s : Source V B) (k : ConnId) (e : Entry) (key : String) (c : Option Columns) :
    Source V B :=
  s.setEntry k (some { e with cols := Function.update e.cols key c })

@[simps] def hand (s : Source V B) (k : ConnId) (process : Option ℕ) (items : List Item)
    (p : Parked) : Source V B :=
  { s with handed := s.handed ++ [⟨p.name, k, process, items, s.session.chan⟩] }

/-! ### Fetching -/

/-- The callback of a fetch is called with an error. -/
def failed (s : Source V B) : Fetch → Source V B
  | .nodes k =>
    match s.cache k with
    | none => s
    | some e =>
      match e.tree with
      | .pending parked =>
        parked.foldl (fun s p => s.hand k none [] p) (s.setEntry k (some { e with tree := .empty }))
      | _ => s.setEntry k (some { e with tree := .empty })
  | .columns k key =>
    match s.cache k with
    | none => s
    | some e =>
      match e.cols key with
      | some (.pending parked) =>
        parked.foldl (fun s p => s.hand k none [] p) (s.setCols k e key none)
      | _ => s.setCols k e key none

/-- `require("lvim-db").structure` and `.columns`: the request is sent, waits for the handshake,
or fails at once (nobody else waits while there is no job). -/
def ask (s : Source V B) (f : Fetch) : Source V B :=
  let c := s.session.chan
  let s := { s with session := s.session.request f.request .ignored }
  if c.ready && c.job then { s with sent := s.sent ++ [(c.idSeq + 1, f)] }
  else if c.job || c.launch == .works then { s with waits := s.waits ++ [(c.waiters.length, f)] }
  else s.failed f

/-- `with_columns` (cmp.lua:85-119), for the items of the columns. -/
def withColumns (s : Source V B) (k : ConnId) (schema obj : String) (p : Parked) : Source V B :=
  match s.cache k with
  | none => s.hand k none [] p
  | some e =>
    match e.cols (schema ++ "." ++ obj) with
    | some (.fetched cols process) => s.hand k (some process) (columnItems cols) p
    | some (.pending parked) =>
      s.setCols k e (schema ++ "." ++ obj) (some (.pending (parked ++ [p])))
    | none =>
      (s.setCols k e (schema ++ "." ++ obj) (some (.pending [p]))).ask
        (.columns k (schema ++ "." ++ obj))

/-- What `M.get` does with a tree (cmp.lua:185-222): the items of a keyword, or the columns of
the object before the dot, if the tree has it. -/
def giveTree (s : Source V B) (k : ConnId) (nodes : List Schema) (process : ℕ) (p : Parked) :
    Source V B :=
  match p.dotted with
  | none => s.hand k (some process) (schemaItems nodes) p
  | some dotted =>
    match firstObject nodes dotted with
    | none => s.hand k (some process) [] p
    | some (schema, obj) => (s.hand k (some process) [] p).withColumns k schema obj p

/-- `with_structure` (cmp.lua:55-78), for `M.get`. -/
def withStructure (s : Source V B) (k : ConnId) (p : Parked) : Source V B :=
  match s.cache k with
  | some e =>
    match e.tree with
    | .fetched nodes process => s.giveTree k nodes process p
    | .empty => s.hand k none [] p
    | .pending parked => s.setEntry k (some { e with tree := .pending (parked ++ [p]) })
  | none => (s.setEntry k (some ⟨.pending [p], fun _ => none⟩)).ask (.nodes k)

/-- `M.get`, with `live_conn_id`. -/
def get (s : Source V B) (dotted : Option String) : Source V B :=
  match s.active with
  | none => s
  | some name =>
    match s.session.liveConn name with
    | none => s
    | some k => s.withStructure k ⟨name, dotted⟩

/-- `M.invalidate`. -/
def invalidate (s : Source V B) : Option ConnId → Source V B
  | none => s
  | some k => s.setEntry k none

/-- The callback of a fetch is called with an answer. -/
def filled (s : Source V B) (py : Payloads) (f : Fetch) (payload : String) : Source V B :=
  match f with
  | .nodes k =>
    match s.cache k with
    | none => s
    | some e =>
      let nodes := py.nodes payload
      let process := s.session.chan.process
      let s := s.setEntry k (some { e with tree := .fetched nodes process })
      match e.tree with
      | .pending parked => parked.foldl (fun s p => s.giveTree k nodes process p) s
      | _ => s
  | .columns k key =>
    match s.cache k with
    | none => s
    | some e =>
      let cols := py.columns payload
      let process := s.session.chan.process
      let s := s.setCols k e key (some (.fetched cols process))
      match e.cols key with
      | some (.pending parked) =>
        parked.foldl (fun s p => s.hand k (some process) (columnItems cols) p) s
      | _ => s

def answered (s : Source V B) (py : Payloads) (f : Fetch) : Except String (Reply V) → Source V B
  | .ok (.schema payload) => s.filled py f payload
  | _ => s.failed f

/-! ### Messages -/

/-- The id that the request of a place among those who wait will get. -/
def idAt (c : Channel V B) (i : ℕ) : ReqId :=
  c.idSeq + 1 + (c.waiters.take i).countP fun w => w.cb.isSome

/-- The line the client reads next is an answer to this request of cmp.lua, or to the
handshake. -/
def heard (s : Source V B) (session : Session V B) (py : Payloads) : Source V B :=
  match s.session.chan.server.out with
  | .response id r :: _ =>
    match s.session.chan.pending.lookup id with
    | some .hello =>
      { s with
        session
        sent := s.sent ++ s.waits.map fun w => (idAt s.session.chan w.1, w.2)
        waits := [] }
    | some .ignored =>
      match s.sent.lookup id with
      | some f => { s with session, sent := s.sent.erase (id, f) }.answered py f r
      | none => { s with session }
    | _ => { s with session }
  | _ => { s with session }

/-- The exit of the process is noticed: every callback is called with an error. -/
def exited (s : Source V B) (session : Session V B) : Source V B :=
  (s.sent.map (·.2) ++ s.waits.map (·.2)).foldl failed { s with session, sent := [], waits := [] }

end Source

/-! ### The machine -/

/-- What the drawer and the engine do, a connection becomes the active one of the editor, or
completion is asked for. -/
inductive Move (V B : Type)
  | drawer (a : Session.Act V B)
  | setActive (name : String)
  | get (dotted : Option String)

/-- The connection that an action of the drawer sends a `conn.disconnect` for. -/
def closing (s : Session V B) : Session.Act V B → Option ConnId
  | .session (.disconnect name) => s.liveConn name
  | .session (.delete name) => s.liveConn name
  | _ => none

namespace Source
variable [BsonCells V B]

def step (bld : Build) (py : Payloads) (s : Source V B) : Move V B → Option (Source V B)
  | .drawer (.session .deliver) =>
    (s.session.act bld (.session .deliver)).map fun session => s.heard session py
  | .drawer (.session .exited) => (s.session.act bld (.session .exited)).map s.exited
  | .drawer a =>
    (s.session.act bld a).map fun session => { s with session }.invalidate (closing s.session a)
  | .setActive name => some { s with active := some name }
  | .get dotted => some (s.get dotted)

def machine (bld : Build) (py : Payloads) : Lib.Machine (Source V B) (Move V B) where
  init := new
  step := step bld py

end Source
end LvimDb.Completion
