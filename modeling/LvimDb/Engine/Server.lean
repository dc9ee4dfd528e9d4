import Mathlib.Logic.Function.Basic
import Mathlib.Tactic.Simps.Basic
import LvimDb.Lib.Machine
import LvimDb.Engine.Call

/-!
# The engine process

`Server` (server.rs:89-654) with every task that runs in it: one handler for each
request line (main.rs:52-70) and one worker for each execute (server.rs:478-514).
A step is what a task does between two points where another task can get in: one
locked region, one atomic counter, one line sent, one call of the driver.
-/

namespace LvimDb.Engine

abbrev ConnId := ℕ
abbrev CallId := ℕ
abbrev ReqId := ℕ
abbrev TaskId := ℕ

/-! ### Requests, replies, lines -/

structure ConnSpec where
  driver : String
  params : List (String × String)
  deriving DecidableEq, Repr

inductive SchemaOp
  | databases
  | switchDatabase (database : String)
  | structureNodes
  | columns (object : String)
  | indexes (object : String)
  | ddl (object : String)
  deriving DecidableEq, Repr

/-- A request with its decoded parameters; `malformed` ones do not decode. -/
inductive Request
  | hello
  | connect (spec : ConnSpec)
  | test (stage : String) (spec : ConnSpec)
  | disconnect (conn : ConnId)
  | schema (conn : ConnId) (op : SchemaOp)
  | execute (conn : ConnId) (statement : String)
  | page (call : CallId) (from_ n : ℕ)
  | cancel (call : CallId)
  | release (call : CallId)
  | cell (call : CallId) (row col : ℕ)
  | malformed (error : String)
  | unknown (method : String)
  deriving DecidableEq, Repr

/-- The call a request looks up. -/
def Request.call : Request → Option CallId
  | .page c _ _ => some c
  | .cancel c => some c
  | .cell c _ _ => some c
  | _ => none

inductive Reply (V : Type)
  | hello (proto : ℕ)
  | connected (conn : ConnId) (encrypted tunneled : Bool)
  | tested (detail : String)
  | empty
  | schema (payload : String)
  | called (call : CallId)
  | page (answer : PageAnswer V)
  | cell (value : V)
  deriving DecidableEq, Repr

inductive Line (V : Type)
  | response (id : ReqId) (result : Except String (Reply V))
  | state (call : CallId) (note : StateNote)
  | log (level message : String)

def proto : ℕ := 1

def noSuchConnection (k : ConnId) : String := "no such connection " ++ toString k
def noSuchCall (c : CallId) : String := "no such call " ++ toString c
def unencrypted (k : ConnId) (spec : ConnSpec) : String :=
  "connection " ++ toString k ++ " to driver '" ++ spec.driver ++
    "' is NOT encrypted (no TLS negotiated and no SSH tunnel)"

/-! ### State -/

inductive Holder
  | worker (call : CallId)
  | handler (task : TaskId)
  deriving DecidableEq, Repr

/-- `Arc<Mutex<Box<dyn Connection>>>` and whether its entry is in the connection map. -/
structure Conn where
  listed : Bool
  strong : ℕ
  holder : Option Holder
  closed : Bool
  deriving DecidableEq, Repr

/-- The point a request handler has reached. -/
inductive Phase (V : Type)
  | start
  | dialed (encrypted tunneled : Bool)
  | drawn (conn : ConnId) (encrypted tunneled : Bool)
  | inserted (conn : ConnId) (encrypted tunneled : Bool)
  | removed
  | holding
  | locked
  | leaving (result : Except String (Reply V))
  | found
  | took (handle : CancelHandle)
  | reply (result : Except String (Reply V))

structure Task (V : Type) where
  id : ReqId
  request : Request
  phase : Phase V

/-- The point an execute has reached: in its handler up to `answered`, in its worker after. -/
inductive WorkerPhase (V B : Type)
  | numbered
  | registered
  | answered
  | queued
  | locked
  | armed
  | executing
  | returned (outcome : Except String (ResultStream V B))
  | unlocked (outcome : Except String (ResultStream V B))
  | finished
  | gone

def WorkerPhase.isExecuting {V B : Type} : WorkerPhase V B → Bool
  | .executing => true
  | _ => false

/-- An execute, from the number it drew for its call to the end of its worker. -/
structure Worker (V B : Type) where
  id : ReqId
  conn : ConnId
  statement : String
  phase : WorkerPhase V B

/-- What happened, for the statements about runs. -/
inductive Event (V B : Type)
  | opened (id : ReqId) (conn : ConnId)
  | delisted (conn : ConnId)
  | closed (conn : ConnId)
  | handed (call : CallId) (conn : ConnId)
  | fired (call : CallId) (conn : ConnId) (victim : Option CallId)
  | paged (call : CallId) (seen : Call V B) (from_ n : ℕ) (answer : Outcome (PageAnswer V))
  | missed (call : CallId)
  | answered (id : ReqId) (request : Request) (result : Except String (Reply V))
  | stated (call : CallId) (note : StateNote)
  | logged (level message : String)

structure Server (V B : Type) where
  conns : ConnId → Option Conn
  nextConn : ConnId
  /-- Every call's `Arc`, also of the calls that left the map. -/
  calls : CallId → Option (Call V B)
  mapped : CallId → Bool
  nextCall : CallId
  tasks : TaskId → Option (Task V)
  nextTask : TaskId
  workers : CallId → Option (Worker V B)
  out : List (Line V)
  hist : List (Event V B)

/-- What a step gets from outside the engine: the driver's answers, the clock, and how many
turns the pull loop is watched for. -/
structure Env (V B : Type) where
  dial : Except String (Bool × Bool) := .error ""
  driver : Except String String := .ok ""
  token : Bool := true
  fetched : Except String (Fetched V B) := .error ""
  ms : ℕ := 0
  fuel : ℕ := 0

namespace Server
variable {V B : Type}

def new : Server V B where
  conns := fun _ => none
  nextConn := 1
  calls := fun _ => none
  mapped := fun _ => false
  nextCall := 1
  tasks := fun _ => none
  nextTask := 0
  workers := fun _ => none
  out := []
  hist := []

/-! ### Updates -/

@[simps] def setConn (s : Server V B) (k : ConnId) (c : Conn) : Server V B :=
  { s with conns := Function.update s.conns k (some c) }

@[simps] def setCall (s : Server V B) (c : CallId) (x : Call V B) : Server V B :=
  { s with calls := Function.update s.calls c (some x) }

@[simps] def setTask (s : Server V B) (t : TaskId) (x : Option (Task V)) : Server V B :=
  { s with tasks := Function.update s.tasks t x }

@[simps] def setWorker (s : Server V B) (c : CallId) (w : Worker V B) : Server V B :=
  { s with workers := Function.update s.workers c (some w) }

@[simps] def setMapped (s : Server V B) (c : CallId) (b : Bool) : Server V B :=
  { s with mapped := Function.update s.mapped c b }

@[simps] def send (s : Server V B) (l : Line V) : Server V B := { s with out := s.out ++ [l] }

@[simps] def note (s : Server V B) (e : Event V B) : Server V B := { s with hist := e :: s.hist }

/-- The `daemon.log` notification. -/
@[simps] def warn (s : Server V B) (message : String) : Server V B :=
  { s with
    out := s.out ++ [.log "warn" message]
    hist := .logged "warn" message :: s.hist }

@[simps] def goto (s : Server V B) (t : TaskId) (task : Task V) (p : Phase V) : Server V B :=
  { s with tasks := Function.update s.tasks t (some { task with phase := p }) }

@[simps] def conclude (s : Server V B) (t : TaskId) (task : Task V)
    (r : Except String (Reply V)) : Server V B :=
  { s with tasks := Function.update s.tasks t (some { task with phase := .reply r }) }

@[simps] def work (s : Server V B) (c : CallId) (w : Worker V B) (p : WorkerPhase V B) :
    Server V B :=
  { s with workers := Function.update s.workers c (some { w with phase := p }) }

/-! ### The maps -/

/-- `Server::conn`: the connection if its entry is in the map. -/
def listedConn (s : Server V B) (k : ConnId) : Option Conn := (s.conns k).filter (·.listed)

/-- `Server::call`: the call if it is in the map. -/
def mappedCall (s : Server V B) (c : CallId) : Option (Call V B) :=
  if s.mapped c then s.calls c else none

theorem listedConn_some {s : Server V B} {k : ConnId} {conn : Conn} (h : s.listedConn k = some conn) :
    s.conns k = some conn ∧ conn.listed = true := by
  cases hk : s.conns k with
  | none => simp [listedConn, hk] at h
  | some c =>
    simp only [listedConn, hk, Option.filter_some, Option.ite_none_right_eq_some,
      Option.some.injEq] at h
    exact ⟨congrArg some h.2, h.2 ▸ h.1⟩

theorem mappedCall_some {s : Server V B} {c : CallId} (h : (s.mappedCall c).isSome = true) :
    ∃ call, s.calls c = some call := by
  simp only [mappedCall] at h
  split at h
  · exact Option.isSome_iff_exists.mp h
  · cases h

/-- The call whose statement the driver is executing on a connection. -/
def running (s : Server V B) (k : ConnId) : Option CallId :=
  match (s.conns k).bind (·.holder) with
  | some (.worker c) =>
    if (s.workers c).any (·.phase.isExecuting) then some c else none
  | _ => none

/-! ### Handlers -/

def schemaReply (op : SchemaOp) (payload : String) : Reply V :=
  match op with
  | .switchDatabase _ => .empty
  | _ => .schema payload

/-- `conn.connect` (server.rs:180-208). -/
def connectStep (s : Server V B) (t : TaskId) (task : Task V) (spec : ConnSpec) (e : Env V B) :
    Option (Server V B) :=
  match task.phase with
  | .start =>
    match e.dial with
    | .error err => some (s.conclude t task (.error err))
    | .ok (native, tunneled) => some (s.goto t task (.dialed (native || tunneled) tunneled))
  | .dialed enc tun =>
    some ({ s with nextConn := s.nextConn + 1 }.goto t task (.drawn s.nextConn enc tun))
  | .drawn k enc tun =>
    some (((s.setConn k ⟨true, 1, none, false⟩).note (.opened task.id k)).goto t task
      (.inserted k enc tun))
  | .inserted k enc tun =>
    some ((if enc then s else s.warn (unencrypted k spec)).conclude t task
      (.ok (.connected k enc tun)))
  | _ => none

/-- `conn.disconnect` (server.rs:358-374). -/
def disconnectStep (s : Server V B) (t : TaskId) (task : Task V) (k : ConnId) :
    Option (Server V B) :=
  match task.phase with
  | .start =>
    match s.listedConn k with
    | none => some (s.conclude t task (.ok .empty))
    | some c =>
      some (((s.setConn k { c with listed := false }).note (.delisted k)).goto t task .removed)
  | .removed =>
    match s.conns k with
    | none => none
    | some c =>
      if c.strong = 1 then
        -- `Arc::try_unwrap` gives the connection back, and it is closed
        some (((s.setConn k { c with strong := 0, closed := true }).note (.closed k)).conclude
          t task (.ok .empty))
      else
        some ((s.setConn k { c with strong := c.strong - 1 }).conclude t task (.ok .empty))
  | _ => none

/-- The six handlers that lock a connection for one driver call (server.rs:376-448). -/
def schemaStep (s : Server V B) (t : TaskId) (task : Task V) (k : ConnId) (op : SchemaOp)
    (e : Env V B) : Option (Server V B) :=
  match task.phase with
  | .start =>
    match s.listedConn k with
    | none => some (s.conclude t task (.error (noSuchConnection k)))
    | some c => some ((s.setConn k { c with strong := c.strong + 1 }).goto t task .holding)
  | .holding =>
    match s.conns k with
    | none => none
    | some c =>
      if c.holder = none then
        some ((s.setConn k { c with holder := some (.handler t) }).goto t task .locked)
      else none
  | .locked =>
    match s.conns k with
    | none => none
    | some c =>
      some ((s.setConn k { c with holder := none }).goto t task
        (.leaving (e.driver.map (schemaReply op))))
  | .leaving r =>
    match s.conns k with
    | none => none
    | some c => some ((s.setConn k { c with strong := c.strong - 1 }).conclude t task r)
  | _ => none

/-- `query.execute` up to the number of its call (server.rs:456-471). -/
def executeStep (s : Server V B) (t : TaskId) (task : Task V) (k : ConnId) (statement : String) :
    Option (Server V B) :=
  match task.phase with
  | .start =>
    match s.listedConn k with
    | none => some (s.conclude t task (.error (noSuchConnection k)))
    | some c => some ((s.setConn k { c with strong := c.strong + 1 }).goto t task .holding)
  | .holding =>
    some (({ s with nextCall := s.nextCall + 1 }.setWorker s.nextCall
      ⟨task.id, k, statement, .numbered⟩).setTask t none)
  | _ => none

/-- `query.page` (server.rs:542-603). -/
def pageStep (bld : Build) (s : Server V B) (t : TaskId) (task : Task V) (c : CallId)
    (from_ n : ℕ) (e : Env V B) [BsonCells V B] : Option (Server V B) :=
  match task.phase with
  | .start =>
    if (s.mappedCall c).isSome then some (s.goto t task .found)
    else some ((s.note (.missed c)).conclude t task (.error (noSuchCall c)))
  | .found =>
    match s.calls c with
    | none => none
    | some call =>
      match call.page bld e.fuel from_ n with
      | none => none
      | some (answer, call') =>
        let s := (s.setCall c call').note (.paged c call from_ n answer)
        match answer with
        | .ok a => some (s.conclude t task (.ok (.page a)))
        | .err err => some (s.conclude t task (.error err))
        | .panic => some (s.setTask t none)
  | _ => none

/-- `query.cancel` (server.rs:605-623). -/
def cancelStep (s : Server V B) (t : TaskId) (task : Task V) (c : CallId) (e : Env V B) :
    Option (Server V B) :=
  match task.phase with
  | .start =>
    if (s.mappedCall c).isSome then some (s.goto t task .found)
    else some (s.conclude t task (.error (noSuchCall c)))
  | .found =>
    match s.calls c with
    | none => none
    | some call =>
      let s := s.setCall c call.cancelTake.2
      match call.cancelTake.1 with
      | some h => some (s.goto t task (.took h))
      | none => some (s.conclude t task (.ok .empty))
  | .took h =>
    match e.driver with
    | .ok _ =>
      some ((s.note (.fired c h.conn (s.running h.conn))).conclude t task (.ok .empty))
    | .error err => some (s.conclude t task (.error err))
  | _ => none

/-- `query.release` (server.rs:628-636). -/
def releaseStep (s : Server V B) (t : TaskId) (task : Task V) (c : CallId) :
    Option (Server V B) :=
  match task.phase with
  | .start => some ((s.setMapped c false).conclude t task (.ok .empty))
  | _ => none

/-- `query.cell` (server.rs:638-653). -/
def cellStep (s : Server V B) (t : TaskId) (task : Task V) (c : CallId) (row col : ℕ) :
    Option (Server V B) :=
  match task.phase with
  | .start =>
    if (s.mappedCall c).isSome then some (s.goto t task .found)
    else some (s.conclude t task (.error (noSuchCall c)))
  | .found =>
    match s.calls c with
    | none => none
    | some call => some (s.conclude t task ((call.cell row col).map .cell))
  | _ => none

/-- The handlers that answer at once. -/
def plainStep (s : Server V B) (t : TaskId) (task : Task V) (r : Except String (Reply V)) :
    Option (Server V B) :=
  match task.phase with
  | .start => some (s.conclude t task r)
  | _ => none

/-- `Server::dispatch` (server.rs:149-167). -/
def dispatchStep (bld : Build) (s : Server V B) (t : TaskId) (task : Task V) (e : Env V B)
    [BsonCells V B] : Option (Server V B) :=
  match task.request with
  | .hello => s.plainStep t task (.ok (.hello proto))
  | .connect spec => s.connectStep t task spec e
  | .test _ _ => s.plainStep t task (e.driver.map .tested)
  | .disconnect k => s.disconnectStep t task k
  | .schema k op => s.schemaStep t task k op e
  | .execute k statement => s.executeStep t task k statement
  | .page c from_ n => s.pageStep bld t task c from_ n e
  | .cancel c => s.cancelStep t task c e
  | .release c => s.releaseStep t task c
  | .cell c row col => s.cellStep t task c row col
  | .malformed err => s.plainStep t task (.error err)
  | .unknown method => s.plainStep t task (.error ("unknown method '" ++ method ++ "'"))

/-- `Server::handle` (server.rs:133-147): the answer computed is sent. -/
def handlerStep (bld : Build) (s : Server V B) (t : TaskId) (e : Env V B) [BsonCells V B] :
    Option (Server V B) :=
  (s.tasks t).bind fun task =>
    match task.phase with
    | .reply r =>
      some (((s.send (.response task.id r)).note (.answered task.id task.request r)).setTask t none)
    | _ => s.dispatchStep bld t task e

/-! ### Workers -/

/-- The steps on the connection and the driver (server.rs:482-488). -/
def connStep (s : Server V B) (c : CallId) (w : Worker V B) (e : Env V B) [BsonCells V B] :
    Option (Server V B) :=
  match s.conns w.conn with
  | none => none
  | some conn =>
    match w.phase with
    | .queued =>
      if conn.holder = none then
        some ((s.setConn w.conn { conn with holder := some (.worker c) }).work c w .locked)
      else none
    | .armed => some ((s.note (.handed c w.conn)).work c w .executing)
    | .executing => some (s.work c w (.returned (e.fetched.bind (·.openStream))))
    | .returned outcome =>
      some ((s.setConn w.conn { conn with holder := none }).work c w (.unlocked outcome))
    | .finished =>
      some ((s.setConn w.conn { conn with strong := conn.strong - 1 }).work c w .gone)
    | _ => none

/-- The steps under the call's lock (server.rs:484-486, 491-513). -/
def callStep (s : Server V B) (c : CallId) (w : Worker V B) (e : Env V B) [BsonCells V B] :
    Option (Server V B) :=
  match s.calls c with
  | none => none
  | some call =>
    match w.phase with
    | .locked =>
      some ((if e.token then s.setCall c { call with cancel := some ⟨w.conn⟩ } else s).work c w
        .armed)
    | .unlocked outcome =>
      let (call', n) := call.finish e.ms outcome
      some ((((s.setCall c call').send (.state c n)).note (.stated c n)).work c w .finished)
    | _ => none

/-- An execute from the number of its call on (server.rs:471-514). -/
def workerStep (s : Server V B) (c : CallId) (e : Env V B) [BsonCells V B] :
    Option (Server V B) :=
  (s.workers c).bind fun w =>
    match w.phase with
    | .numbered => some (((s.setCall c .new).setMapped c true).work c w .registered)
    | .registered =>
      some (((s.send (.response w.id (.ok (.called c)))).note
        (.answered w.id (.execute w.conn w.statement) (.ok (.called c)))).work c w .answered)
    | .answered => some (s.work c w .queued)
    | .locked | .unlocked _ => s.callStep c w e
    | _ => s.connStep c w e

end Server

/-! ### The machine -/

inductive Input (V B : Type)
  | arrive (id : ReqId) (request : Request)
  | handler (task : TaskId) (e : Env V B)
  | worker (call : CallId) (e : Env V B)

namespace Server
variable {V B : Type} [BsonCells V B]

@[simps] def arrive (s : Server V B) (id : ReqId) (request : Request) : Server V B :=
  { s with
    nextTask := s.nextTask + 1
    tasks := Function.update s.tasks s.nextTask (some ⟨id, request, .start⟩) }

def step (bld : Build) (s : Server V B) : Input V B → Option (Server V B)
  | .arrive id request => some (s.arrive id request)
  | .handler t e => s.handlerStep bld t e
  | .worker c e => s.workerStep c e

/-- Every order of the atomic actions of every task. -/
def machine (bld : Build) : Lib.Machine (Server V B) (Input V B) where
  init := new
  step := step bld

end Server
end LvimDb.Engine
