import MirrorCpp.Sync.State
import MirrorCpp.Names

/-!
# Hooks and workers (`schedule_sync.cpp`, `Hook`, `MutexGuard`, the worker lambda)

Each definition is one critical section of a worker thread. `Hook::request` is two of them:
`requestEnter` up to the wait, `requestWake` from the wake-up on. `Pc` says where a worker
thread stands between critical sections; user code is a point (`user`) at which the worker may
make any call.
-/

namespace MirrorCpp.Sync

def identifier (id : String) : Bool := boundedName [] id

namespace State

/-- A kind mismatch, a recursive acquire or an unlock by another than the owner. -/
def misuse (i : Nat) (op : Op) (r : Owned) : Bool :=
  let mutexOp := op == .lock || op == .unlock
  (mutexOp && r.declaration.kind != .mutex) || (!mutexOp && r.declaration.kind != .queue) ||
    (op == .lock && r.owner == some i) || (op == .unlock && r.owner != some i)

/-- Publish the pending operation and park. -/
def park (s : State) (i : Nat) (p : Pending) : State :=
  let a := s.actor i
  s.setActor i { a with pending := p, parked := true, grant := false, version := a.version + 1 }

/-- `Hook::request` up to its wait; false where it throws. -/
def requestEnter (s : State) (self : ThreadId) (i : Nat) (p : Pending) : Bool × State :=
  if (s.actor i).thread ≠ some self then (false, s.fail .resourceMisuse "foreign hook caller")
  else if s.cancelled then (false, s)
  else if p.op.onResource then
    match s.resource? p.resource with
    | none => (false, s.fail .resourceMisuse "unknown resource")
    | some r =>
      if misuse i p.op r then
        (false, s.fail .resourceMisuse "kind, recursive acquire or wrong owner")
      else (true, s.park i p)
  else (true, s.park i p)

/-- The granted operation takes effect; the value is what the call returns. -/
def takeEffect (s : State) (i : Nat) (p : Pending) : Int × State :=
  match p.op with
  | .lock => (p.value, s.modifyResource p.resource (.lock i p.resource)
      fun o => { o with owner := some i })
  | .unlock => (p.value, s.modifyResource p.resource (.unlock i p.resource)
      fun o => { o with owner := none })
  | .send => (p.value, s.modifyResource p.resource (.send i p.resource p.value)
      fun o => { o with queue := o.queue ++ [p.value] })
  | .receive =>
    let value := ((s.resource? p.resource).bind fun o => o.queue.head?).getD 0
    (value, s.modifyResource p.resource (.receive i p.resource value)
      fun o => { o with queue := o.queue.tail })
  | _ => (p.value, s)

/-- The wait of `request` ends on `cancelled || a.grant`. -/
def canWake (s : State) (i : Nat) : Bool := s.cancelled || (s.actor i).grant

/-- `Hook::request` after its wait; `none` where it throws. -/
def requestWake (lib : JsonLib) (s : State) (i : Nat) (p : Pending) : Option Int × State :=
  if s.cancelled then (none, s)
  else
    let s := s.setActor i { s.actor i with grant := false, parked := false }
    let (value, s) := s.takeEffect i p
    match s.event lib ⟨0, (s.actor i).id, p.op, p.resource, none, value⟩ with
    | none => (none, s)
    | some (_, s) => (some value, s)

/-- `Hook::unwind_release`. -/
def unwindRelease (s : State) (i : Nat) (r : String) : State :=
  match s.resource? r with
  | none => s
  | some o =>
    if o.owner = some i then s.modifyResource r (.unwind i r) fun o => { o with owner := none }
    else s

def registerThread (s : State) (i : Nat) : State :=
  s.setActor i { s.actor i with thread := some (.worker i) }

/-- The handler around the worker's code. -/
def workerThrew (s : State) : State :=
  if s.cancelled then s else s.fail .applicationFailed "worker threw"

def owns (s : State) (i : Nat) : Bool := s.resources.any fun o => o.owner == some i

/-- Give up every mutex of an actor that ends. -/
def releaseAll (s : State) (i : Nat) : State :=
  if s.owns i then
    let s := if s.cancelled then s else s.fail .resourceMisuse "actor completed holding mutex"
    { s with
      resources := s.resources.map fun o => if o.owner == some i then { o with owner := none } else
        o
      hist := s.hist ++ [.terminate i] }
  else s

/-- The last critical section of a worker. -/
def finishWorker (s : State) (i : Nat) : State :=
  let s := s.releaseAll i
  let a := s.actor i
  s.setActor i { a with finished := true, parked := false, version := a.version + 1 }

end State

/-- Who called `request`, hence where its return or its exception goes. -/
inductive Frame where
  /-- The worker lambda, before the user's function. -/
  | start
  /-- The worker lambda, after the user's function. -/
  | done
  /-- The user's function, a `MutexGuard` constructor included. -/
  | body
  /-- `~MutexGuard` of a guard of this resource. -/
  | guard (resource : String)
  deriving DecidableEq, Repr

/-- What a call gives back to the user's function. -/
inductive Ret where
  | value (v : Int)
  | flag (b : Bool)
  | threw
  deriving DecidableEq, Repr

/-- What the user's function does next. -/
inductive Call where
  | lock (resource : String)
  | unlock (resource : String)
  | send (resource : String) (value : Int)
  | receive (resource : String)
  | checkpoint (name : String)
  | stopRequested
  /-- A `MutexGuard` of the resource goes out of scope, with exceptions in flight or not. -/
  | dropGuard (resource : String) (uncaught : Bool)
  | throw_
  | return_
  deriving DecidableEq, Repr

/-- Where a worker thread stands. -/
inductive Pc where
  | unborn
  | born
  | calling (f : Frame) (p : Pending)
  | waiting (f : Frame) (p : Pending)
  | user (r : Ret)
  | asking
  /-- `~MutexGuard` before `stop_requested`. -/
  | dropping (resource : String) (uncaught : Bool)
  | releasing (resource : String)
  | caught
  | closing
  | closed
  deriving DecidableEq, Repr

/-- Where a returned `request` continues. -/
def Frame.onReturn (v : Int) : Frame → Pc
  | .start => .user (.value v)
  | .done => .closing
  | .body => .user (.value v)
  | .guard _ => .user (.value v)

/-- Where a `request` that threw continues. -/
def Frame.onThrow : Frame → Pc
  | .start | .done => .caught
  | .body => .user .threw
  | .guard r => .releasing r

/-- The user's function makes a call. -/
def Call.pc : Call → Pc
  | .lock r => .calling .body ⟨.lock, r, 0⟩
  | .unlock r => .calling .body ⟨.unlock, r, 0⟩
  | .send r v => .calling .body ⟨.send, r, v⟩
  | .receive r => .calling .body ⟨.receive, r, 0⟩
  | .checkpoint name =>
    if identifier name then .calling .body ⟨.checkpoint, name, 0⟩ else .user .threw
  | .stopRequested => .asking
  | .dropGuard r u => .dropping r u
  | .throw_ => .caught
  | .return_ => .calling .done ⟨.done, "", 0⟩

end MirrorCpp.Sync
