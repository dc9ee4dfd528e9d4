import LvimDb.Lib.Machine
import LvimDb.Result.Panel

/-!
# The result dock as a machine

One input is a key or a call of the user, the next scheduled closure, or the answer to
one of the requests and dialogs that wait; they come in any order.
-/

namespace LvimDb.Result
open Engine (ConnId CallId Column PageReply PageAnswer CallStatus)

inductive Input (V : Type)
  | move (line col : ℕ)
  | view (v : View)
  | update
  | reopen
  | ensureOpen
  | showLog
  | close
  | run (q : Query) (notify : Bool)
  | enter
  | openLog
  | rerun
  | cancel
  | next
  | prev
  | editRow
  | insertCell
  | editPopup
  | deleteRow
  | newRow
  | saveEdit
  | cancelEdit
  | tick
  | answer (n : ℕ) (r : Reply V)

namespace Dock
variable {V : Type} (env : Env V) (s : Dock V)

/-- The entry a key of the call log would reopen: the log's open key, or `<CR>` there. -/
def reopens : Input V → Option ℕ
  | .openLog => if env.cache.isSome then s.focusedCall else none
  | .enter =>
    if s.face.view = .log ∧ env.cache.isSome then
      s.focusedCall.filter fun k => (s.heap[k]?.bind Entry.callId).isSome
    else none
  | _ => none

/-- `<CR>` (2217-2235). -/
def enter : Dock V :=
  if s.face.view = .result then if s.face.edit.isSome then s.editCell env else s
  else
    match s.reopens env .enter with
    | some k => s.openCached env k
    | none => s.rerunCall env

/-- `cancel` in the log (2241-2249). -/
def cancelCall : Dock V :=
  match s.focusedCall.bind (s.heap[·]?) with
  | some c =>
    match c.callId with
    | some cid =>
      if s.face.view = .log ∧ c.state = .running then s.tell (.cancelled cid) else s
    | none => s
  | none => s

/-- A closure runs. -/
def perform : Task V → Dock V
  | .render => s.render
  | .failed done => s.finish done false
  | .landed offset done => s.land env offset done
  | .guarded q t => s.run env (.user t.n (some false)) q 0 t.done
  | .askRun q t => s.wait (.guardDialog q t)
  | .askWrite n on plan statement target => s.wait (.writeDialog n on plan statement target)
  | .refresh on target => s.refresh env on target

/-- A number the engine has not given to a call yet. -/
def unissued (cid : CallId) : Bool := (s.issued.lookup cid).isNone

/-- The answer to a callback; none where it cannot be given. -/
def resume : Cont V → Reply V → Option (Dock V)
  | .page cid _, .page (.ready p) => some (s.turn cid p)
  | .page .., .page .notReady | .page .., .failed => some s
  | .run k q offset done, .called cid =>
    if s.unissued cid then some (s.register env k q offset done cid) else none
  | .run .., .failed => some s
  | .watch k offset done, .state st =>
    if st = .running then none else some (s.settle k st offset done)
  | .count, .called cid =>
    if s.unissued cid then some ((s.issue cid none).wait (.countWatch cid)) else none
  | .count, .failed => some s
  | .countWatch cid, .state st =>
    if st = .running then none
    else some (if st = .done then s.send (.paged cid 0 1) (.countPage cid) else s)
  | .countPage cid, .page _ | .countPage cid, .failed => some (s.tell (.released cid))
  | .classify q t, .verdict dangerous =>
    if dangerous = env.verdict q.conn.driver q.statement then some (s.judged q t dangerous)
    else none
  | .classify q t, .failed => some (s.judged q t (env.isDestructive q.statement))
  | .guardDialog q t, .answer yes =>
    some (if yes then (s.tell (.confirmed t.n)).run env (.user t.n (some true)) q 0 t.done
      else s.finish t.done false)
  | .columns ref op, .columns fields =>
    some ((s.setOrigin ref fun o => { o with metaColumns := some fields }).described env ref op fields)
  | .columns .., .failed => some s
  | .preview n on plan target, .statement text =>
    some ((s.tell (.returned n text)).later (.askWrite n on plan text target))
  | .preview .., .failed => some s
  | .writeDialog n _ plan statement target, .answer yes =>
    some (if yes then (s.tell (.accepted n statement)).applyRow plan statement target else s)
  | .apply k on target, .written =>
    some ((s.amend k fun e => { e with state := .done }).later (.refresh on target))
  | .apply k _ _, .failed => some (s.amend k fun e => { e with state := .failed })
  | .write k on target, .called cid =>
    if s.unissued cid then some ((s.issue cid none).wait (.writeWatch k on target)) else none
  | .write .., .failed => some s
  | .writeWatch k on target, .state st =>
    let s := s.amend k fun e => { e with state := st }
    if st = .running then none else some (if st = .done then s.later (.refresh on target) else s)
  | .popup f where_ cols origin, .saved texts => some (s.savePopup env f where_ cols origin texts)
  | .insertForm fields n, .saved texts => some (s.saveInsert env fields n texts)
  | .popup .., .closed | .insertForm .., .closed | .cellInput .., .closed | .docInput .., .closed =>
    some s
  | .cellInput id f ci col, .typed text => some (s.applyCell env id f ci col text)
  | .docInput f object, .typed text => some (s.replaceDoc env f object text)
  | _, _ => none

def step : Input V → Option (Dock V)
  | .move line col => some { s with face := { s.face with cursor := (line, col) } }
  | .view v => some (s.setView v)
  | .update => some s.render
  | .reopen => some s.reopen
  | .ensureOpen => some s.ensureOpen
  | .showLog => some s.showLog
  | .close => some s.close
  | .run q notify => some (s.runGuarded env q notify)
  | .enter => some (s.enter env)
  | .openLog =>
    match s.reopens env .openLog with
    | some k => some (s.openCached env k)
    | none => some s
  | .rerun => some (s.rerunCall env)
  | .cancel => some s.cancelCall
  | .next => some (s.nextPage env)
  | .prev => some (s.prevPage env)
  | .editRow => some (s.editRow env false)
  | .insertCell => some (s.insertCell env)
  | .editPopup => some (s.editPopup env)
  | .deleteRow => some (s.deleteRow env)
  | .newRow => some (s.newRow env)
  | .saveEdit => some (s.saveEdit)
  | .cancelEdit => some s.cancelEdit
  | .tick =>
    match s.queue with
    | t :: ts => some (perform env { s with queue := ts } t)
    | [] => none
  | .answer n r =>
    match s.waiting[n]? with
    | some c => resume env { s with waiting := s.waiting.eraseIdx n } c r
    | none => none

end Dock

def machine {V : Type} (env : Env V) : Lib.Machine (Dock V) (Input V) where
  init := .new
  step := Dock.step env

/-! ### A table of numbers, for the concrete runs -/

/-- No guard, no count, and every value can be written. -/
def tableEnv : Env ℕ where
  null := 0
  proto := 30
  edits := fun _ => true
  count := fun _ _ => none
  confirmDestructive := false
  isDestructive := fun _ => false
  verdict := fun _ _ => false
  cache := some 50
  pageSize := 1
  cellDisplay := fun _ => ""
  coerce := fun text _ _ _ => .ok text.length
  fieldEditable := fun _ _ _ => true
  parseCell := fun text _ => text.length
  replaceDocument := fun _ _ _ => none

def connA : Conn := ⟨1, "a", "sqlite"⟩
def connB : Conn := ⟨2, "b", "sqlite"⟩

/-- The browse of a table. -/
def browseOn (on : Conn) (object : String) : Query := ⟨on, "select", some ⟨none, object⟩⟩

def tablePage (rows : List (List ℕ)) : PageReply ℕ where
  columns := [⟨"id", "int"⟩, ⟨"v", "int"⟩]
  rows := rows
  from_ := 0
  hasMore := true
  total := none
  affected := none

/-- A run and all that follows up to its first page on screen. -/
def browsing (q : Query) (cid : CallId) (rows : List (List ℕ)) : List (Input ℕ) :=
  [.run q false, .tick, .answer 0 (.called cid), .answer 0 (.state .done), .tick,
    .answer 0 (.page (.ready (tablePage rows))), .tick]

end LvimDb.Result
