import LvimDb.Engine.Stream

/-!
# Calls

One call's server-side state (server.rs:63-87) and what the handlers do with it
while they hold its lock: the end of the worker (491-513), `page` (555-602),
`cancel` (613-618) and `cell` (648-652).
-/

namespace LvimDb.Engine

inductive CallStatus
  | running
  | done
  | failed
  | cancelled
  deriving DecidableEq, Repr

/-- A driver's cancel handle reaches one connection, whatever runs on it. -/
structure CancelHandle where
  conn : ℕ
  deriving DecidableEq, Repr

structure Call (V B : Type) where
  status : CallStatus
  columns : List Column
  stream : Option (ResultStream V B)
  buffer : List (List V)
  exhausted : Bool
  affected : Option ℕ
  error : Option String
  cancel : Option CancelHandle

/-- The parameters of a `query.state` notification, but for its `call_id`. -/
structure StateNote where
  state : CallStatus
  ms : ℕ
  error : Option String
  affected : Option ℕ
  deriving DecidableEq, Repr

structure PageReply (V : Type) where
  columns : List Column
  rows : List (List V)
  from_ : ℕ
  hasMore : Bool
  total : Option ℕ
  affected : Option ℕ
  deriving DecidableEq, Repr

inductive PageAnswer (V : Type)
  | notReady
  | ready (p : PageReply V)
  deriving DecidableEq, Repr

/-- Where the pull loop stands: about to look at its condition again, or left. -/
inductive Loop
  | turning
  | left
  | failed (e : String)
  | panicked
  deriving DecidableEq, Repr

namespace Call
variable {V B : Type}

def new : Call V B := ⟨.running, [], none, [], false, none, none, none⟩

/-! ### The end of the worker -/

def finish (ms : ℕ) (outcome : Except String (ResultStream V B)) (c : Call V B)
    [BsonCells V B] : Call V B × StateNote :=
  if c.status = .cancelled then ({ c with cancel := none }, ⟨.cancelled, ms, none, none⟩)
  else
    match outcome with
    | .ok stream =>
      ({ c with
          cancel := none, columns := stream.columns, affected := stream.affected,
          stream := some stream, status := .done },
        ⟨.done, ms, none, stream.affected⟩)
    | .error e =>
      ({ c with cancel := none, status := .failed, error := some e }, ⟨.failed, ms, some e, none⟩)

/-! ### Paging -/

/-- At most `k` looks at the condition of the pull loop. -/
def pulls [BsonCells V B] (bld : Build) (need : ℕ) : ℕ → Call V B → Loop × Call V B
  | 0, c => (.turning, c)
  | k + 1, c =>
    if c.exhausted || decide (need ≤ c.buffer.length) then (.left, c)
    else
      match c.stream with
      | none => (.left, c)
      | some s =>
        match s.nextPage bld (need - c.buffer.length) with
        | (.err e, s) => (.failed e, { c with stream := some s })
        | (.panic, s) => (.panicked, { c with stream := some s })
        | (.ok (some rows), s) =>
          pulls bld need k { c with stream := some s, buffer := c.buffer ++ rows }
        | (.ok none, s) => pulls bld need k { c with stream := some s, exhausted := true }

def reply [BsonCells V B] (from_ need : ℕ) (c : Call V B) : Outcome (PageAnswer V) :=
  let start := min from_ c.buffer.length
  let stop := min need c.buffer.length
  match slice c.buffer start stop with
  | none => .panic
  | some rows =>
    .ok (.ready
      { columns := c.columns
        rows
        from_ := start
        hasMore := !c.exhausted || decide (stop < c.buffer.length)
        total := (c.stream.bind (·.total)).or (if c.exhausted then some c.buffer.length else none)
        affected := c.affected })

/-- `none` when the loop is still turning after `fuel` looks at its condition. -/
def page [BsonCells V B] (bld : Build) (fuel from_ n : ℕ) (c : Call V B) :
    Option (Outcome (PageAnswer V) × Call V B) :=
  match c.status with
  | .running => some (.ok .notReady, c)
  | .failed => some (.err (c.error.getD "query failed"), c)
  | .cancelled => some (.err "query was cancelled", c)
  | .done =>
    match bld.add from_ n with
    | none => some (.panic, c)
    | some need =>
      match c.pulls bld need fuel with
      | (.turning, _) => none
      | (.failed e, c) => some (.err e, c)
      | (.panicked, c) => some (.panic, c)
      | (.left, c) => some (c.reply from_ need, c)

/-! ### Cancel and cell -/

/-- The critical section of `cancel`: the handle it leaves with. -/
def cancelTake (c : Call V B) : Option CancelHandle × Call V B :=
  (c.cancel, { c with
    status := if c.status = .running then .cancelled else c.status
    cancel := none })

def cell (row col : ℕ) (c : Call V B) : Except String V :=
  match c.buffer[row]?.bind (·[col]?) with
  | some v => .ok v
  | none => .error "cell out of range"

end Call
end LvimDb.Engine
