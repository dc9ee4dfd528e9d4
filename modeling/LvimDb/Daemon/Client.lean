import LvimDb.Lib.Lines
import LvimDb.Lib.Machine
import Mathlib.Data.Rat.Defs

/-!
# The engine processes and the client's callbacks

daemon.lua over any number of engine processes, with the query.state watchers of init.lua.
The bytes a process writes are arbitrary. Lua code is run in small steps on a stack of what
is still to be done: the module's own code goes on by itself, a callback acts as it likes
and then returns or raises. What a process does is looked at when nothing runs.
-/

namespace LvimDb.Daemon

abbrev Bytes := List UInt8

/-- A process, by the order of the spawns. -/
abbrev Pid := ℕ

/-- A callback given to `M.request`, by the order of the calls. -/
abbrev Token := ℕ

/-! ### Messages -/

/-- What `vim.json.decode` makes of a line. -/
inductive Json
  | null
  | bool (b : Bool)
  | num (q : ℚ)
  | str (s : String)
  | arr (xs : List Json)
  | obj (fields : List (String × Json))

namespace Json

/-- `type(j) == "table"`. -/
def isTable : Json → Bool
  | .arr _ | .obj _ => true
  | _ => false

/-- `j.name`, where nil is `none`. -/
def field (name : String) : Json → Option Json
  | .obj fields => fields.lookup name
  | _ => none

/-- What holds in a condition: all but nil and false. -/
def truthy : Option Json → Bool
  | none | some (.bool false) => false
  | _ => true

end Json

/-- A key of a Lua table; a table is a key that equals no other. -/
inductive Key
  | null
  | bool (b : Bool)
  | num (q : ℚ)
  | str (s : String)
  deriving DecidableEq

def Json.key : Json → Option Key
  | .null => some .null
  | .bool b => some (.bool b)
  | .num q => some (.num q)
  | .str s => some (.str s)
  | _ => none

/-- An error as a callback gets it: a text of the client or what the engine sent. -/
inductive Fault
  | text (s : String)
  | sent (j : Json)
  | tooOld (proto : Option ℚ)

abbrev Answer := Except Fault (Option Json)

/-- `vim.json.decode` where it does not raise, and `tonumber` of a text. -/
structure Env where
  decode : Bytes → Option Json
  tonumber : String → Option ℚ

/-- The oldest protocol the client accepts. -/
def PROTO_MIN : ℚ := 1

def newline : UInt8 := 10

/-- `%s` of a Lua pattern. -/
def isSpace (b : UInt8) : Bool := b == 32 || decide (9 ≤ b ∧ b ≤ 13)

/-- What a line is to `on_message`: the line is trimmed, and has to decode to a table. -/
def Env.message (env : Env) (line : Bytes) : Option Json :=
  let line := Lib.strip isSpace line
  if line = [] then none else (env.decode line).filter Json.isTable

/-- `cb(msg.result, nil)` or `cb(nil, msg.error or "unknown error")`. -/
def answerOf (msg : Json) : Answer :=
  if Json.truthy (msg.field "ok") then .ok (msg.field "result")
  else
    match msg.field "error" with
    | some e => if Json.truthy (some e) then .error (.sent e) else .error (.text "unknown error")
    | none => .error (.text "unknown error")

/-- `tonumber`. -/
def Env.number (env : Env) : Option Json → Option ℚ
  | some (.num q) => some q
  | some (.str s) => env.tonumber s
  | _ => none

/-- The reply to the handshake, and the protocol it names. -/
def helloReply (env : Env) : Answer → Except Fault (Json × Option ℚ)
  | .error err => .error err
  | .ok none => .error (.text "handshake failed")
  | .ok (some j) =>
    if j.isTable then .ok (j, env.number (j.field "proto")) else .error (.text "handshake failed")

/-- The protocol is one the client speaks. -/
def accepts (proto : Option ℚ) : Bool := proto.any (PROTO_MIN ≤ ·)

/-- A field that is a text. -/
def textOf : Option Json → Option String
  | some (.str t) => some t
  | _ => none

/-! ### Data -/

/-- `LvimDbEngine`. -/
structure EngineInfo where
  name : String
  version : String
  proto : Option ℚ
  path : String
  legacy : Bool
  deriving DecidableEq

structure Request where
  method : String
  params : Option Json

def helloRequest : Request := ⟨"rpc.hello", none⟩

/-- A callback of `pending`: the handshake's, a user's, or the one `M.execute` wraps around a
user's. -/
inductive Cb
  | hello
  | user (n : Token)
  | execute (n : Token)
  deriving DecidableEq, Repr

def Cb.token : Cb → Option Token
  | .hello => none
  | .user n | .execute n => some n

/-- A callback of `pending`, with the process its request was written to. -/
structure Entry where
  cb : Cb
  owner : Option Pid
  deriving DecidableEq, Repr

/-- A callback of `ensure_waiters`, with the process whose handshake it waits for. -/
inductive Waiter
  | ensured (owner : Option Pid)
  | request (r : Request) (cb : Cb) (owner : Option Pid)

def Waiter.owner : Waiter → Option Pid
  | .ensured owner | .request _ _ owner => owner

def Waiter.token : Waiter → Option Token
  | .ensured _ => none
  | .request _ cb _ => cb.token

/-- An `on_state` of `call_watchers`, with the process that answered for its call. -/
structure Watcher where
  call : Option Key
  token : Token
  owner : Option Pid
  deriving DecidableEq

structure Proc where
  alive : Bool
  asked : Bool
  exited : Bool
  deriving DecidableEq, Repr

/-- Alive, and not asked to stop. -/
def Proc.running (p : Proc) : Bool := p.alive && !p.asked

/-- What becomes of a spawn. -/
inductive Launch
  | missing
  | broken
  | works (bin : String)
  deriving DecidableEq, Repr

/-- What is still to be done, where `caught` is the end of a `pcall` around a callback. `cause`
is the process whose exit or output it comes from. -/
inductive Frame
  | body
  | caught
  | lines (p : Pid) (rest : List Bytes)
  | dispatch
  | failPending (dead : List (ℕ × Entry)) (err : Fault) (cause : Option Pid)
  | failWaiters (err : Fault) (cause : Option Pid)
  | flush (ws : List Waiter) (res : Except Fault Unit) (cause : Option Pid)
  | hooks (err : Fault) (cause : Option Pid)
  | failWatchers (dead : List Watcher) (err : Fault) (cause : Option Pid)

/-- What happened. A chunk is logged with the process that wrote what it is joined to; a
callback with the process its request was written to and the one whose exit or output has
brought the call about; a teardown with the processes of the job and of the bytes it clears. -/
inductive Event
  | issued (n : Token)
  | spawned (p : Pid)
  | sent (p : Pid) (id : ℕ) (method : String) (params : Json)
  | chunk (p : Pid) (bytes : Bytes) (joined : Option Pid)
  | dispatched (p : Pid) (msg : Json)
  | ran (n : Token) (res : Answer) (owner cause : Option Pid)
  | greeted (res : Answer) (owner cause : Option Pid)
  | stated (n : Token) (res : Except Fault Json) (owner cause : Option Pid)
  | torn (job tail cause : Option Pid)
  | aborted (p : Pid)
  | exited (p : Pid)

/-- daemon.lua's locals, `call_watchers`, the processes, and what runs. -/
structure Client where
  job : Option Pid
  ready : Bool
  proto : Option ℚ
  engine : Option EngineInfo
  enginePath : Option String
  drivers : Option Json
  tail : Bytes
  tailOf : Pid
  idSeq : ℕ
  pending : List (ℕ × Entry)
  waiters : List Waiter
  depth : ℕ
  watchers : List Watcher
  procs : List Proc
  tokens : ℕ
  stack : List Frame
  hist : List Event

/-- What running code may do with the module. -/
inductive Action
  | request (r : Request) (execute : Bool) (launch : Launch)
  | ensure (launch : Launch)
  | stop

inductive Input
  | act (a : Action)
  | ret
  | raise
  | go (n : ℕ)
  | stdout (p : Pid) (chunk : Bytes)
  | die (p : Pid)
  | exit (p : Pid)

namespace Client
variable (env : Env) (s : Client)

def new : Client where
  job := none
  ready := false
  proto := none
  engine := none
  enginePath := none
  drivers := none
  tail := []
  tailOf := 0
  idSeq := 0
  pending := []
  waiters := []
  depth := 0
  watchers := []
  procs := []
  tokens := 0
  stack := []
  hist := []

@[simps] def tell (e : Event) : Client := { s with hist := e :: s.hist }

@[simps] def push (fs : List Frame) : Client := { s with stack := fs ++ s.stack }

/-! ### Lifecycle -/

/-- A request line with a new id (`send` writes it only while there is a job). -/
@[simps] def post (cb : Cb) (r : Request) : Client :=
  let id := s.idSeq + 1
  { s with
    idSeq := id
    pending := s.pending ++ [(id, ⟨cb, s.job⟩)]
    hist :=
      match s.job with
      | some p => .sent p id r.method (r.params.getD (.obj [])) :: s.hist
      | none => s.hist }

/-- A waiting callback is called. -/
def call (w : Waiter) (res : Except Fault Unit) (cause : Option Pid) : Client :=
  match w, res with
  | .ensured _, _ => s.push [.body]
  | .request r cb _, .ok _ => s.post cb r
  | .request _ cb owner, .error err =>
    match cb.token with
    | some n => (s.tell (.ran n (.error err) owner cause)).push [.body]
    | none => s

/-- The process that wrote what is carried. -/
def carrier : Option Pid := if s.tail = [] then none else some s.tailOf

/-- `teardown` (236-258), up to its first callback. -/
@[simps] def teardown (err : Fault) (cause : Option Pid) : Client :=
  { s with
    ready := false
    job := none
    engine := none
    enginePath := none
    tail := []
    pending := []
    stack := .failPending s.pending err cause :: .failWaiters err cause :: .hooks err cause :: s.stack
    hist := .torn s.job s.carrier cause :: s.hist }

/-- The waiters are called with an error. -/
@[simps] def refuse (text : String) : Client :=
  { s with waiters := [], stack := .flush s.waiters (.error (.text text)) none :: s.stack }

/-- `jobstart`. -/
@[simps] def spawn (bin : String) : Client :=
  { s with
    job := some s.procs.length
    enginePath := some bin
    procs := s.procs ++ [⟨true, false, false⟩]
    hist := .spawned s.procs.length :: s.hist }

/-- `M.ensure` (320-362) for the callback `w`, given the process it will wait for. -/
def ensure (w : Option Pid → Waiter) (launch : Launch) : Client :=
  if s.ready && s.job.isSome then s.call (w s.job) (.ok ()) none
  else
    match s.job, launch with
    | some p, _ => { s with waiters := s.waiters ++ [w (some p)] }
    | none, .missing => { s with waiters := s.waiters ++ [w none] }.refuse "daemon binary not found"
    | none, .broken => { s with waiters := s.waiters ++ [w none] }.refuse "failed to spawn daemon"
    | none, .works bin =>
      ({ s with waiters := s.waiters ++ [w (some s.procs.length)] }.spawn bin).post .hello
        helloRequest

/-- `M.request` (369-380), also as `M.execute` calls it. -/
def request (r : Request) (execute : Bool) (launch : Launch) : Client :=
  let cb : Cb := if execute then .execute s.tokens else .user s.tokens
  { s.tell (.issued s.tokens) with tokens := s.tokens + 1 }.ensure (.request r cb) launch

/-- `M.stop` (427-433). -/
def stop : Client :=
  match s.job with
  | some p =>
    { s with procs := s.procs.modify p fun q => { q with asked := true } }.teardown
      (.text "daemon stopped") none
  | none => s.teardown (.text "daemon stopped") none

/-- The handshake has failed: what waited for it is called after the teardown. -/
@[simps!] def helloFailed (waiters : List Waiter) (err : Fault) (cause : Option Pid) : Client :=
  (s.push [.flush waiters (.error err) cause]).teardown err cause

/-- The handshake's callback (276-313). -/
def greet (res : Answer) (cause : Option Pid) : Client :=
  let waiters := s.waiters
  let s := { s with waiters := [] }
  match helloReply env res with
  | .error err => s.helloFailed waiters err cause
  | .ok (j, proto) =>
    let s := { s with proto := proto }
    if accepts proto then
      { s with
        drivers := (j.field "drivers").filter fun d => Json.truthy (some d)
        engine := some
          { name := (textOf (j.field "engine")).getD "lvim-db-daemon (legacy)"
            version := (textOf (j.field "version")).getD "unknown"
            proto := proto
            path := s.enginePath.getD "?"
            legacy := (textOf (j.field "engine")).isNone }
        ready := true
        stack := .flush waiters (.ok ()) cause :: s.stack }
    else s.helloFailed waiters (.tooOld proto) cause

/-! ### Stdout -/

/-- The closure of `M.execute` (init.lua:372-383) keeps the watcher of the call; it raises
where the answer names no call. -/
def executed (n : Token) (res : Answer) (owner : Option Pid) : Client :=
  match res with
  | .ok (some j) =>
    if j.isTable then
      match j.field "call_id" with
      | some c =>
        let others := s.watchers.filter fun w => c.key = none ∨ w.call ≠ c.key
        { s with watchers := others ++ [(⟨c.key, n, owner⟩ : Watcher)] }.push [.body]
      | none => s
    else s.push [.body]
  | _ => s.push [.body]

/-- The callback raises before it has come to the user's code. -/
def raises (cb : Cb) (res : Answer) : Bool :=
  match cb, res with
  | .execute _, .ok (some j) => j.isTable && (j.field "call_id").isNone
  | _, _ => false

/-- A callback of `pending` is called. -/
def answer (e : Entry) (res : Answer) (cause : Option Pid) : Client :=
  match e.cb with
  | .hello => (s.tell (.greeted res e.owner cause)).greet env res cause
  | .user n => (s.tell (.ran n res e.owner cause)).push [.body]
  | .execute n => (s.tell (.ran n res e.owner cause)).executed n res e.owner

/-- An error leaves a callback that was called by `on_message`, and with it the loop over the
lines; everywhere else it is caught, or comes to the code that called the callback. -/
def unwind : List Frame → Client
  | .dispatch :: .lines p _ :: stack =>
    { s with depth := s.depth - 1, stack := stack, hist := .aborted p :: s.hist }
  | stack => { s with stack := stack }

/-- The request of `pending` that a message answers. -/
def addressee (msg : Json) : Option (ℕ × Entry) :=
  match (msg.field "id").bind Json.key with
  | some (.num q) => s.pending.find? fun x => (x.1 : ℚ) = q
  | _ => none

/-- The watcher a query.state notification is for (init.lua:36-45). -/
def watched (msg : Json) : Option (Watcher × Json) :=
  match msg.field "method", msg.field "params" with
  | some (.str m), some params =>
    if m = "query.state" ∧ params.isTable then
      match (params.field "call_id").bind Json.key with
      | some k => (s.watchers.find? fun w => w.call = some k).map (·, params)
      | none => none
    else none
  | _, _ => none

/-- `on_message` (173-200), called by the loop over the lines. -/
def onMessage (p : Pid) (msg : Json) : Client :=
  let s := { s.tell (.dispatched p msg) with
    depth := s.depth + 1
    stack := .dispatch :: s.stack }
  if (msg.field "id").isSome then
    match s.addressee msg with
    | some (id, e) =>
      let s := { s with pending := s.pending.filter (·.1 ≠ id) }
      let res := answerOf msg
      if raises e.cb res then (s.answer env e res (some p)).unwind s.stack
      else s.answer env e res (some p)
    | none => s
  else
    match s.watched msg with
    | some (w, params) =>
      ({ s with watchers := s.watchers.filter (· ≠ w) }.tell
        (.stated w.token (.ok params) w.owner (some p))).push [.body, .caught]
    | none => s

/-- `on_stdout` (206-222), up to its loop. -/
def onStdout (p : Pid) (chunk : Bytes) : Client :=
  let data := Lib.complete s.tail (chunk.splitOn newline)
  { s with
    tail := data.getLastD []
    tailOf := if chunk = [] then s.tailOf else p
    stack := .lines p data.dropLast :: s.stack
    hist :=
      .chunk p chunk (if s.tail = [] ∨ chunk = [] then none else some s.tailOf) :: s.hist }

/-! ### The machine -/

/-- The module's own code goes on. Where it runs over `pairs`, `n` is what comes next. -/
def go (n : ℕ) : Option Client :=
  match s.stack with
  | .lines p rest :: stack =>
    match rest with
    | [] => some { s with stack := stack }
    | line :: rest =>
      let s := { s with stack := .lines p rest :: stack }
      match env.message line with
      | some msg => some (s.onMessage env p msg)
      | none => some s
  | .caught :: stack => some { s with stack := stack }
  | .dispatch :: stack => some { s with depth := s.depth - 1, stack := stack }
  | .failPending dead err cause :: stack =>
    match dead[n]? with
    | some x =>
      some ({ s with stack := .failPending (dead.eraseIdx n) err cause :: stack }.answer env x.2
        (.error err) cause)
    | none => if dead = [] then some { s with stack := stack } else none
  | .failWaiters err cause :: stack =>
    some { s with waiters := [], stack := .flush s.waiters (.error err) cause :: stack }
  | .flush ws res cause :: stack =>
    match ws with
    | [] => some { s with stack := stack }
    | w :: ws => some ({ s with stack := .flush ws res cause :: stack }.call w res cause)
  | .hooks err cause :: stack =>
    some { s with watchers := [], stack := .failWatchers s.watchers err cause :: stack }
  | .failWatchers dead err cause :: stack =>
    match dead[n]? with
    | some w =>
      some (({ s with stack := .failWatchers (dead.eraseIdx n) err cause :: stack }.tell
        (.stated w.token (.error err) w.owner cause)).push [.body])
    | none => if dead = [] then some { s with stack := stack } else none
  | _ => none

/-- A callback runs, or the editor's own code between two events. -/
def coding : Bool :=
  match s.stack with
  | [] | .body :: _ => true
  | _ => false

def act : Action → Client
  | .request r execute launch => s.request r execute launch
  | .ensure launch => s.ensure .ensured launch
  | .stop => s.stop

def step : Input → Option Client
  | .act a => if s.coding then some (s.act a) else none
  | .ret =>
    match s.stack with
    | .body :: stack => some { s with stack := stack }
    | _ => none
  | .raise =>
    match s.stack with
    | .body :: stack => some (s.unwind stack)
    | _ => none
  | .go n => s.go env n
  | .stdout p chunk =>
    match s.procs[p]? with
    | some q => if s.stack.isEmpty && !q.exited then some (s.onStdout p chunk) else none
    | none => none
  | .die p =>
    if p < s.procs.length then
      some { s with procs := s.procs.modify p fun q => { q with alive := false } }
    else none
  | .exit p =>
    match s.procs[p]? with
    | some q =>
      if s.stack.isEmpty && !q.alive && !q.exited then
        some (({ s with procs := s.procs.modify p fun q => { q with exited := true } }.tell
          (.exited p)).teardown (.text "daemon exited") (some p))
      else none
    | none => none

end Client

def machine (env : Env) : Lib.Machine Client Input where
  init := .new
  step := Client.step env

end LvimDb.Daemon
