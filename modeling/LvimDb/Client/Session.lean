import LvimDb.Engine.Output

/-!
# The client and its engine processes

The Lua client (daemon.lua, init.lua, the connection rows of ui/drawer.lua, `with_conn`
of ui/editor.lua) with the engine process it talks to. Lua code runs to its next return
to the editor's loop in one step; the engine takes its own steps between them. Request
lines and answers travel in order. A process that exits is replaced by a new one, which
numbers its connections and calls from 1 again.
-/

namespace LvimDb.Client
open Engine

/-- The oldest protocol the client accepts. -/
def PROTO_MIN : ℕ := 1

/-! ### Data -/

/-- A drawer row, named by the load that made it and its connection's name. -/
abbrev RowId := ℕ × String
/-- An `on_state` callback. -/
abbrev Token := ℕ

/-- `LvimDbDrawerConn`. -/
structure Row where
  driver : String
  connId : Option ConnId
  encrypted : Option Bool
  tunneled : Option Bool
  nodes : Option String
  deriving DecidableEq, Repr

def Row.fresh (driver : String) : Row := ⟨driver, none, none, none, none⟩

/-- The callback of a request, with what it captured. -/
inductive Cb
  | hello
  | loadSchema (row : RowId)
  | withConn (name statement : String)
  | nodes (row : RowId)
  | adopted (row : RowId)
  | executed (tok : Token) (name : Option String)
  | ignored
  deriving DecidableEq, Repr

/-- The saved connection a connect was made for. -/
def Cb.opens : Cb → Option String
  | .loadSchema row => some row.2
  | .withConn name _ => some name
  | _ => none

/-- Who waits for the handshake. -/
inductive Waiter
  | ensured
  | request (request : Request) (cb : Cb)
  deriving DecidableEq, Repr

def Waiter.cb : Waiter → Option Cb
  | .ensured => none
  | .request _ cb => some cb

/-- A statement on its way through the guard (`run_guarded`), with the connection id it has
captured and the process that was running then, if one was. -/
structure Pending where
  name : String
  conn : ConnId
  statement : String
  process : ℕ
  deriving DecidableEq, Repr

/-- What comes of an `on_state` callback: registered for a call, called with the state of a
call or by the teardown, or given up with an error. -/
inductive Note
  | registered (tok : Token) (call : CallId)
  | stated (tok : Token) (call : CallId) (note : StateNote)
  | torn (tok : Token)
  | refused (tok : Token) (err : String)
  deriving DecidableEq, Repr

/-- What becomes of the next spawn. -/
inductive Launch
  | missing
  | broken
  | works
  deriving DecidableEq, Repr

/-- daemon.lua's locals, the current process, its request lines, and the lines already read
from it. -/
structure Channel (V B : Type) where
  job : Bool
  ready : Bool
  launch : Launch
  idSeq : ReqId
  pending : List (ReqId × Cb)
  waiters : List Waiter
  server : Server V B
  alive : Bool
  process : ℕ
  wire : List (ReqId × Request)
  seen : List (Line V)
  asked : ReqId → Option (Request × Cb)

structure Session (V B : Type) where
  chan : Channel V B
  watchers : List (CallId × Token)
  nextTok : Token
  log : List Note
  rows : RowId → Row
  conns : String → Option RowId
  loads : ℕ
  saved : String → Option ConnSpec
  runs : List Pending

/-! ### daemon.lua -/

namespace Channel
variable {V B : Type}

def new : Channel V B where
  job := false
  ready := false
  launch := .works
  idSeq := 0
  pending := []
  waiters := []
  server := .new
  alive := false
  process := 0
  wire := []
  seen := []
  asked := fun _ => none

/-- The request line is sent and its callback kept. -/
@[simps] def post (c : Channel V B) (request : Request) (cb : Cb) : Channel V B :=
  { c with
    idSeq := c.idSeq + 1
    pending := c.pending ++ [(c.idSeq + 1, cb)]
    -- what is written to a process that has died is lost
    wire := if c.alive then c.wire ++ [(c.idSeq + 1, request)] else c.wire
    asked := Function.update c.asked (c.idSeq + 1) (some (request, cb)) }

/-- `pending[id] = nil`. -/
@[simps] def drop (c : Channel V B) (id : ReqId) : Channel V B :=
  { c with pending := c.pending.filter (·.1 ≠ id) }

def wake (c : Channel V B) : Waiter → Channel V B
  | .ensured => c
  | .request request cb => c.post request cb

/-- `jobstart`: a new process with nothing in it. -/
@[simps] def spawn (c : Channel V B) : Channel V B :=
  { c with
    job := true
    server := .new
    alive := true
    process := c.process + 1
    wire := []
    seen := []
    asked := fun _ => none }

/-- `M.ensure` (daemon.lua:320-362), and the callbacks it calls with an error. -/
def ensure (c : Channel V B) (w : Waiter) : Channel V B × List (Cb × String) :=
  if c.ready && c.job then (c.wake w, [])
  else
    let c := { c with waiters := c.waiters ++ [w] }
    let refused (err : String) : Channel V B × List (Cb × String) :=
      ({ c with waiters := [] }, (c.waiters.filterMap Waiter.cb).map (·, err))
    if c.job then (c, [])
    else
      match c.launch with
      | .missing => refused "daemon binary not found"
      | .broken => refused "failed to spawn daemon"
      | .works => (c.spawn.post .hello .hello, [])

/-- `teardown` (daemon.lua:236-258), and the callbacks it calls with an error. -/
def teardown (c : Channel V B) (err : String) : Channel V B × List (Cb × String) :=
  ({ c with ready := false, job := false, pending := [], waiters := [] },
    (c.pending.map (·.2) ++ c.waiters.filterMap Waiter.cb).map (·, err))

/-- The handshake is done: everyone who waits goes on. -/
def greet (c : Channel V B) : Channel V B :=
  c.waiters.foldl wake { c with ready := true, waiters := [] }

end Channel

namespace Session
variable {V B : Type}

def new : Session V B where
  chan := .new
  watchers := []
  nextTok := 0
  log := []
  rows := fun _ => .fresh ""
  conns := fun _ => none
  loads := 0
  saved := fun _ => none
  runs := []

@[simps] def setNodes (s : Session V B) (row : RowId) (nodes : String) : Session V B :=
  { s with rows := Function.update s.rows row { s.rows row with nodes := some nodes } }

@[simps] def tell (s : Session V B) (n : Note) : Session V B := { s with log := n :: s.log }

/-- `cb(nil, err)`. -/
def fail (s : Session V B) (p : Cb × String) : Session V B :=
  match p.1 with
  | .executed tok _ => s.tell (.refused tok p.2)
  | .adopted row => s.setNodes row ""
  | _ => s

def ensure (s : Session V B) (w : Waiter) : Session V B :=
  (s.chan.ensure w).2.foldl fail { s with chan := (s.chan.ensure w).1 }

/-- `M.request` (daemon.lua:369-380). -/
def request (s : Session V B) (request : Request) (cb : Cb) : Session V B :=
  s.ensure (.request request cb)

/-- `teardown` with its hook (init.lua:48-54). -/
def teardown (s : Session V B) (err : String) : Session V B :=
  let s' := (s.chan.teardown err).2.foldl fail
    { s with chan := (s.chan.teardown err).1 }
  { s' with watchers := [], log := (s.watchers.map (.torn ·.2)).reverse ++ s'.log }

/-! ### ui/drawer.lua and ui/editor.lua -/

@[simps] def setRow (s : Session V B) (row : RowId) (r : Row) : Session V B :=
  { s with rows := Function.update s.rows row r }

/-- `live_conn` (drawer.lua:93-99). -/
def liveConn (s : Session V B) (name : String) : Option ConnId :=
  (s.conns name).bind fun row => (s.rows row).connId

/-- The process that is ready, for the record of what a statement has captured. -/
def running (s : Session V B) : ℕ := if s.chan.ready then s.chan.process else 0

@[simps] def offer (s : Session V B) (name : String) (k : ConnId) (statement : String) :
    Session V B :=
  { s with runs := s.runs ++ [⟨name, k, statement, s.running⟩] }

/-- The row of a name after `load_connections`. -/
def rowOf (s : Session V B) (name : String) : Option RowId :=
  (s.saved name).map fun _ => (s.conns name).getD (s.loads, name)

/-- `load_connections` (drawer.lua:541-558). -/
@[simps] def load (s : Session V B) : Session V B :=
  { s with
    loads := s.loads + 1
    conns := s.rowOf
    rows := fun row =>
      match s.saved row.2 with
      | none => s.rows row
      | some spec =>
        if s.conns row.2 = some row then { s.rows row with driver := spec.driver }
        else if s.rowOf row.2 = some row then .fresh spec.driver
        else s.rows row }

/-- `M.connect_saved` (init.lua:159-171). -/
def connectSaved (s : Session V B) (name : String) (cb : Cb) : Session V B :=
  match s.saved name with
  | none => s.fail (cb, "no saved connection named '" ++ name ++ "'")
  | some spec => s.request (.connect spec) cb

/-- `load_schema` (drawer.lua:587-609). -/
def loadSchema (s : Session V B) (row : RowId) : Session V B :=
  match (s.rows row).connId with
  | some _ => s
  | none => s.connectSaved row.2 (.loadSchema row)

def structureOf (s : Session V B) (k : ConnId) (cb : Cb) : Session V B :=
  s.request (.schema k .structureNodes) cb

/-- `M.adopt` (drawer.lua:641-651). -/
def adopt (s : Session V B) (name : String) (k : ConnId) : Session V B :=
  match s.conns name with
  | none => s
  | some row =>
    match (s.rows row).connId with
    | some _ => s
    | none =>
      (s.setRow row { s.rows row with connId := some k }).structureOf k (.adopted row)

/-- `with_conn` (editor.lua:282-302). -/
def withConn (s : Session V B) (name statement : String) : Session V B :=
  match s.liveConn name with
  | some k => s.offer name k statement
  | none => s.connectSaved name (.withConn name statement)

/-- `M.execute` (init.lua:370-384). -/
def execute (s : Session V B) (k : ConnId) (statement : String) (name : Option String) :
    Session V B :=
  { s with nextTok := s.nextTok + 1 }.request (.execute k statement) (.executed s.nextTok name)

/-- `disconnect_row` (drawer.lua:954-975). -/
def disconnectRow (s : Session V B) (row : RowId) (k : ConnId) : Session V B :=
  let s := s.request (.disconnect k) .ignored
  s.setRow row { s.rows row with connId := none, encrypted := none, tunneled := none, nodes := none }

/-- The confirmed deletion of a connection row (drawer.lua:1189-1199). -/
def deleteRow (s : Session V B) (row : RowId) : Session V B :=
  let s := match (s.rows row).connId with
    | some k => s.request (.disconnect k) .ignored
    | none => s
  { s with saved := Function.update s.saved row.2 none }.load

/-! ### Messages -/

/-- A callback with the answer to its request. An answer of another shape than its request's
and a handshake that fails are not written by this engine: there is no step for them. -/
def answer (s : Session V B) : Cb → Except String (Reply V) → Option (Session V B)
  | .hello, .ok (.hello p) =>
    if PROTO_MIN ≤ p then some { s with chan := s.chan.greet } else none
  | .hello, _ => none
  | cb, .error e => some (s.fail (cb, e))
  | .loadSchema row, .ok (.connected k enc tun) =>
    some ((s.setRow row
      { s.rows row with connId := some k, encrypted := some enc, tunneled := some tun }).structureOf
        k (.nodes row))
  | .withConn name statement, .ok (.connected k _ _) =>
    some ((s.adopt name k).offer name k statement)
  | .nodes row, .ok (.schema payload) => some (s.setNodes row payload)
  | .adopted row, .ok (.schema payload) => some (s.setNodes row payload)
  | .executed tok _, .ok (.called c) =>
    some ({ s with watchers := (c, tok) :: s.watchers.filter (·.1 ≠ c) }.tell (.registered tok c))
  | .ignored, .ok _ => some s
  | _, .ok _ => none

/-- `ensure_state_router`'s handler (init.lua:36-45). -/
def route (s : Session V B) (c : CallId) (n : StateNote) : Session V B :=
  match s.watchers.lookup c with
  | none => s
  | some tok => { s with watchers := s.watchers.filter (·.1 ≠ c) }.tell (.stated tok c n)

/-- `on_message` (daemon.lua:173-200). -/
def onMessage (s : Session V B) : Line V → Option (Session V B)
  | .response id r =>
    match s.chan.pending.lookup id with
    | none => some s
    | some cb => { s with chan := s.chan.drop id }.answer cb r
  | .state c n => some (s.route c n)
  | .log _ _ => some s

end Session

/-! ### The machine -/

/-- Requests that open and close no connection and run no statement. -/
def isApi : Request → Bool
  | .hello => false
  | .connect _ => false
  | .disconnect _ => false
  | .execute _ _ => false
  | _ => true

inductive Input (V B : Type)
  | save (name : String) (spec : ConnSpec)
  | load
  | openSchema (name : String)
  | run (name statement : String)
  | browse (name statement : String)
  | sendRun (i : ℕ)
  | dropRun (i : ℕ)
  | execute (k : ConnId) (statement : String)
  | disconnect (name : String)
  | delete (name : String)
  | api (request : Request)
  | ensure
  | setLaunch (launch : Launch)
  | receive
  | engine (i : Engine.Input V B)
  | deliver
  | die (n : ℕ)
  | exited

/-- Steps that no user takes and no accident brings about. -/
def Input.isInternal {V B : Type} : Input V B → Bool
  | .receive => true
  | .engine _ => true
  | .deliver => true
  | .exited => true
  | _ => false

namespace Channel
variable {V B : Type} [BsonCells V B]

/-- A step of the engine process, which reads its request lines in `receive`. -/
def engine (bld : Build) (c : Channel V B) (i : Engine.Input V B) : Option (Channel V B) :=
  match i with
  | .arrive _ _ => none
  | i => if c.alive then (c.server.step bld i).map fun server => { c with server } else none

def receive (c : Channel V B) : Option (Channel V B) :=
  match c.wire with
  | [] => none
  | (id, request) :: wire =>
    if c.alive then some { c with wire, server := c.server.arrive id request } else none

/-- The next line the client reads. -/
def read (c : Channel V B) : Option (Line V × Channel V B) :=
  match c.server.out with
  | [] => none
  | l :: out => some (l, { c with server := { c.server with out }, seen := c.seen ++ [l] })

/-- The process is gone; of what it has written the first `n` unread lines are still there. -/
def die (c : Channel V B) (n : ℕ) : Option (Channel V B) :=
  if c.alive then
    some { c with alive := false, server := { c.server with out := c.server.out.take n } }
  else none

/-- Everything the process wrote has been read: its exit is noticed. -/
def isOver (c : Channel V B) : Bool := c.job && !c.alive && c.server.out.isEmpty

end Channel

namespace Session
variable {V B : Type} [BsonCells V B]

def onChannel (s : Session V B) (c : Option (Channel V B)) : Option (Session V B) :=
  c.map fun chan => { s with chan }

def step (bld : Build) (s : Session V B) : Input V B → Option (Session V B)
  | .save name spec => some { s with saved := Function.update s.saved name (some spec) }
  | .load => some s.load
  | .openSchema name => (s.conns name).map s.loadSchema
  | .run name statement => some (s.withConn name statement)
  | .browse name statement => (s.liveConn name).map fun k => s.offer name k statement
  | .sendRun i =>
    (s.runs[i]?).map fun run =>
      { s with runs := s.runs.eraseIdx i }.execute run.conn run.statement (some run.name)
  | .dropRun i => some { s with runs := s.runs.eraseIdx i }
  | .execute k statement => some (s.execute k statement none)
  | .disconnect name =>
    (s.conns name).bind fun row => (s.rows row).connId.map (s.disconnectRow row)
  | .delete name => (s.conns name).map s.deleteRow
  | .api request => if isApi request then some (s.request request .ignored) else none
  | .ensure => some (s.ensure .ensured)
  | .setLaunch launch => some { s with chan := { s.chan with launch } }
  | .receive => s.onChannel s.chan.receive
  | .engine i => s.onChannel (s.chan.engine bld i)
  | .deliver => s.chan.read.bind fun p => { s with chan := p.2 }.onMessage p.1
  | .die n => s.onChannel (s.chan.die n)
  | .exited => if s.chan.isOver then some (s.teardown "daemon exited") else none

def machine (bld : Build) : Lib.Machine (Session V B) (Input V B) where
  init := new
  step := step bld

end Session
end LvimDb.Client
