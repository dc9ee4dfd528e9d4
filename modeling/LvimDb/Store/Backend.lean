import LvimDb.Lib.Machine
import Mathlib.Data.List.Infix

/-!
# The store's backend

`resolve`, `rpc` and `M.record` of store.lua. A call that waits pumps the event loop: daemon
messages, scheduled functions and other calls of the store come in between, and the calls
that wait make up a stack with the daemon callbacks that run.
-/

namespace LvimDb.Store

/-- The first protocol whose engine carries the store. -/
def STORE_PROTO : ℕ := 2

inductive Mode
  | engine
  | legacy
  | none
  deriving DecidableEq, Repr

/-- What a session finds: `daemon.binary_path()`, the protocol of the engine's handshake, what
it answers to `store.status`, `legacy.available()`, and a legacy file that is still to be
imported. -/
structure World where
  binary : Bool
  proto : ℕ
  available : Bool
  sqlite : Bool
  unimported : Bool
  deriving DecidableEq, Repr

/-- A call of the public API: one that asks for the backend only, one that waits for an answer
of the engine, and `M.record`. -/
inductive Call
  | backend
  | request
  | record
  deriving DecidableEq, Repr

/-- What has come of a request: the engine's answer, or an error. -/
inductive Reply
  | answer
  | error
  deriving DecidableEq, Repr

/-- A daemon callback, or a `vim.wait` for what `store.status`, `store.import` or the request
of a call comes to. -/
inductive Frame
  | callback
  | status (c : Call) (reply : Option Reply)
  | import (c : Call) (reply : Option Reply)
  | request (reply : Option Reply)
  deriving DecidableEq, Repr

/-- A request still under way gets its reply. -/
def Frame.settle (r : Reply) : Frame → Option Frame
  | .status c none => some (.status c (some r))
  | .import c none => some (.import c (some r))
  | .request none => some (.request (some r))
  | _ => none

structure Session where
  mode : Option Mode
  proto : Option ℕ
  unimported : Bool
  deferred : ℕ
  stack : List Frame
  deriving DecidableEq, Repr

inductive Input
  | call (c : Call)
  | deferred
  | hello
  | message (n : Option ℕ)
  | lost (n : ℕ)
  | ret
  | resume

/-- What there is without the engine's store. -/
def World.fallback (w : World) : Mode := if w.sqlite then .legacy else .none

namespace Session
variable (w : World) (s : Session)

def new : Session := ⟨none, none, w.unimported, 0, []⟩

/-- `daemon.dispatching()`. -/
def dispatching : Bool := s.stack.any (· = .callback)

@[simps] def push (f : Frame) : Session := { s with stack := f :: s.stack }

@[simps] def choose (m : Mode) : Session := { s with mode := some m }

/-- The call, its backend known. A record is fired and not waited for. -/
def perform (c : Call) (m : Mode) : Session :=
  match c, m with
  | .request, .engine => if s.dispatching then s else s.push (.request none)
  | _, _ => s

/-- `migrate_once` (378-423). -/
def migrateOnce (c : Call) : Session :=
  if s.unimported && !s.dispatching then s.push (.import c none) else s.perform c .engine

/-- `resolve` (427-450), up to its wait. -/
def resolve (c : Call) : Session :=
  match s.mode with
  | some m => s.perform c m
  | none =>
    if w.binary && !s.dispatching then s.push (.status c none)
    else (s.choose w.fallback).perform c w.fallback

/-- A call; a record whose backend is not known is scheduled from within a callback. -/
def call (c : Call) : Session :=
  if c = .record ∧ s.mode = none ∧ s.dispatching then { s with deferred := s.deferred + 1 }
  else s.resolve w c

/-- `resolve` after its wait. -/
def resolved (c : Call) (reply : Option Reply) : Session :=
  if reply = some .answer ∧ STORE_PROTO ≤ s.proto.getD 0 ∧ w.available then
    (s.choose .engine).migrateOnce c
  else (s.choose w.fallback).perform c w.fallback

/-- The call at the top of the stack goes on, with its reply or without one in time. -/
def resume : Option Session :=
  match s.stack with
  | .status c reply :: stack => some ({ s with stack := stack }.resolved w c reply)
  | .import c reply :: stack =>
    let unimported := s.unimported && decide (reply ≠ some .answer)
    some ({ s with stack := stack, unimported := unimported }.perform c .engine)
  | .request _ :: stack => some { s with stack := stack }
  | _ => none

/-- The request that the call at place `n` waits for gets its reply. -/
def settle (n : ℕ) (r : Reply) : Option Session :=
  (s.stack[n]?.bind (Frame.settle r)).map fun f => { s with stack := s.stack.set n f }

/-- A message of the engine begins to be handled; there is one at a time. -/
def deliver : Option Session := if s.dispatching then none else some (s.push .callback)

def step : Input → Option Session
  | .call c => some (s.call w c)
  | .deferred =>
    if 0 < s.deferred ∧ ¬ s.dispatching then
      some ({ s with deferred := s.deferred - 1 }.call w .record)
    else none
  | .hello => if w.binary then { s with proto := some w.proto }.deliver else none
  | .message none => s.deliver
  | .message (some n) => if s.proto.isSome then (s.settle n .answer).bind deliver else none
  | .lost n => s.settle n .error
  | .ret =>
    match s.stack with
    | .callback :: stack => some { s with stack := stack }
    | _ => none
  | .resume => s.resume w

end Session

def machine (w : World) : Lib.Machine Session Input where
  init := .new w
  step := Session.step w

end LvimDb.Store
