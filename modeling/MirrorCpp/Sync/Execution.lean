import MirrorCpp.Sync.Hook
import MirrorCpp.Lib.Run
import Mathlib.Data.List.Sort

/-!
# The controller and the whole execution (`schedule_sync.cpp`, `Execution`)

`Sys` is an execution: the shared state, the controller's own record (`Impl`), where every
worker thread and the controller stand. `step` is one critical section, chosen by `Choice`:
a worker's, the controller's, a call of the client, or the misuse of a hook by a foreign
thread. A choice also fixes the clock readings taken in that section (`late…`), what callbacks
return, and whether a thread can be created. Nothing else is assumed of the program, so the
runs of `lts` are those of every program under every interleaving.
-/

namespace MirrorCpp.Sync

/-! ## Declarations -/

/-- What a factory returns: the worker names (with a callable `run` or not) and whether the
callbacks are set. -/
structure Program where
  workers : List (String × Bool)
  observe : Bool := true
  teardown : Bool := true
  deriving DecidableEq, Repr

inductive Factory where
  | missing
  | throws
  | returns (p : Program)
  deriving DecidableEq, Repr

structure Adapter where
  identity : Identity
  actors : List String
  resources : List Resource
  factory : Factory
  deriving DecidableEq, Repr

def hourMs : Int := 3600000

def Policy.valid (p : Policy) : Bool :=
  decide (0 < p.maxActors ∧ p.maxActors ≤ 16 ∧ 0 < p.maxResources ∧ p.maxResources ≤ 32 ∧
    0 < p.maxDecisions ∧ p.maxDecisions ≤ 4096 ∧ 256 ≤ p.maxEvidenceBytes ∧
    p.maxEvidenceBytes ≤ 32 * 1024 * 1024 ∧
    0 < p.executionTimeout ∧ p.executionTimeout ≤ hourMs ∧
    0 < p.cleanupTimeout ∧ p.cleanupTimeout ≤ hourMs ∧
    0 < p.explorationTimeout ∧ p.explorationTimeout ≤ hourMs)

/-- The capacity a resource of its kind may declare. -/
def Resource.valid (r : Resource) : Bool :=
  identifier r.id && match r.kind with
    | .mutex => r.capacity == 0
    | .queue => decide (0 < r.capacity ∧ r.capacity ≤ 64)

/-- `inert_json`: an observation the executor retains. -/
def inertJson (v : Json) : Bool := v.plainBelow 32

/-! ## The execution -/

structure Impl where
  program : Program := ⟨[], false, false⟩
  /-- `workers[i].joinable()`, one entry for each started thread. -/
  workers : List Bool := []
  acquired : Bool := false
  teardownAttempted : Bool := false
  observing : Bool := false
  /-- Ghost: the calls of the program's teardown, true where it returned normally. -/
  teardowns : List Bool := []
  deriving DecidableEq, Repr

/-- Which function called `observe`. -/
inductive Caller where
  | constructor
  | advance
  deriving DecidableEq, Repr

/-- Where the controller stands. -/
inductive Ctl where
  /-- In the constructor, starting threads. -/
  | spawning
  | barrier
  | observing (k : Caller)
  | observer (k : Caller)
  | idle
  /-- In `advance`, waiting for the granted actor to leave this version. -/
  | granted (i : Nat) (version : Nat)
  | joining (i : Nat)
  | cleaning
  | cleanupJoin (i : Nat)
  | tearing
  | destroying
  | destroyTearing
  | destroyed
  /-- `std::terminate`. -/
  | terminated
  deriving DecidableEq, Repr

/-- Where an exception out of `observe` leads. -/
def Caller.onThrow : Caller → Ctl
  | .constructor => .terminated
  | .advance => .idle

structure Sys where
  state : State
  impl : Impl := {}
  pcs : List Pc
  ctl : Ctl := .idle

namespace Sys

def pc (x : Sys) (i : Nat) : Pc := x.pcs.getD i .unborn

def setPc (x : Sys) (i : Nat) (p : Pc) : Sys := { x with pcs := x.pcs.set i p }

def joinable (x : Sys) (i : Nat) : Bool := x.impl.workers.getD i false

/-! ### The constructor -/

/-- The checks before any declaration is read. -/
def boundsOk (a : Adapter) (p : Policy) : Bool :=
  p.valid && a.identity.valid && a.factory != .missing && !a.actors.isEmpty &&
    decide (a.actors.length ≤ p.maxActors ∧ a.resources.length ≤ p.maxResources)

/-- Declare the actors in order; false where one is refused. -/
def admitActors (s : State) : List String → Bool × State
  | [] => (true, s)
  | id :: ids =>
    if !identifier id || s.actors.any (·.id == id) then (false, s)
    else admitActors { s with actors := s.actors ++ [{ id := id }] } ids

/-- Declare the resources, kept in the order of their ids; false where one is refused. -/
def admitResources (s : State) : List Resource → Bool × State
  | [] => (true, s)
  | r :: rs =>
    if !r.valid || (s.resource? r.id).isSome then (false, s)
    else admitResources { s with
      resources := s.resources.orderedInsert (·.declaration.id ≤ ·.declaration.id) ⟨r, none, []⟩ }
        rs

/-- The declarations, up to the first refusal and its reason. -/
def declared (a : Adapter) (p : Policy) : Option String × State :=
  let s : State := { actors := [], resources := [], policy := p }
  if !boundsOk a p then (some "invalid bounds, identity or factory", s)
  else
    let (ok, s) := admitActors s (a.actors.insertionSort (· ≤ ·))
    if !ok then (some "invalid or duplicate actor", s)
    else
      let (ok, s) := admitResources s a.resources
      if !ok then (some "invalid or duplicate resource", s) else (none, s)

/-- The checks of the program the factory returned. -/
def programFault (s : State) (p : Program) : Option String :=
  let workers := p.workers.insertionSort (·.1 ≤ ·.1)
  if !p.observe || !p.teardown || workers.length != s.actors.length then some "invalid program"
  else if workers != s.actors.map fun a => (a.id, true) then some "worker set differs"
  else none

/-- An execution no thread of which was started. -/
def unstarted (s : State) (impl : Impl := {}) : Sys := ⟨s, impl, [], .idle⟩

/-- `Execution::Execution` up to the creation of the threads. -/
def construct (a : Adapter) (p : Policy) (lateBefore lateDuring : Bool) : Sys :=
  match declared a p with
  | (some detail, s) => unstarted (s.fail .invalidProfile detail)
  | (none, s) =>
    let (expired, s) := s.executionExpired lateBefore "execution deadline before factory"
    if expired then unstarted s
    else
      let (impl, s) := match a.factory with
        | .returns p => ({ program := p, acquired := true : Impl }, s)
        | _ => ({}, s.fail .applicationFailed "factory threw")
      let (expired, s) := s.executionExpired lateDuring "execution deadline during factory"
      if expired || s.cancelled then unstarted s impl
      else match programFault s impl.program with
        | some detail => unstarted (s.fail .applicationFailed detail) impl
        | none => ⟨s, impl, s.actors.map fun _ => .unborn, .spawning⟩

/-- The thread loop; a thread that cannot be created ends it. -/
def spawn (x : Sys) (created : Bool) : Sys :=
  let k := x.impl.workers.length
  if created then
    { x.setPc k .born with
      impl := { x.impl with workers := x.impl.workers ++ [true] }
      ctl := if k + 1 = x.state.actors.length then .barrier else .spawning }
  else { x with
    state := x.state.fail .applicationFailed "thread creation failed"
    ctl := .barrier }

/-- The initial barrier, after its wait ended (`timeout`: without its predicate). -/
def passBarrier (x : Sys) (timeout late : Bool) : Sys :=
  let s := if timeout then x.state.fail .timedOut "initial barrier" else x.state
  let s := (s.executionExpired late "execution deadline at initial barrier").2
  { x with state := s, ctl := if s.cancelled then .idle else .observing .constructor }

/-! ### `observe` -/

/-- Up to the callback. -/
def observeEnter (x : Sys) (k : Caller) (late : Bool) : Sys :=
  let (expired, s) := x.state.executionExpired late "execution deadline before observer"
  if expired || s.cancelled then { x with state := s, ctl := .idle }
  else { x with state := s, impl := { x.impl with observing := true }, ctl := .observer k }

/-- Retain what the callback returned (`none`: it threw). The answer is `none` where
`evidence_fits` throws. -/
def retain (lib : JsonLib) (s : State) (value : Option Json) (late₁ late₂ late₃ : Bool) :
    Option State :=
  let s := if value.isNone then s.fail .observationFailed "observer threw" else s
  let (expired, s) := s.executionExpired late₁ "execution deadline during observer"
  if expired || s.cancelled then some s
  else
    let v := value.getD .null
    if !v.isObj || !inertJson v then
      some (s.fail .evidenceExhausted "observation shape or bound")
    else
      let row : Observation := ⟨s.report.decisions, v⟩
      match s.evidenceFits lib s.observations.isEmpty row.toJson with
      | none => none
      | some false => some (s.fail .evidenceExhausted "observation shape or bound")
      | some true =>
        let (expired, s) := s.executionExpired late₂ "execution deadline retaining observation"
        if expired then some s
        else
          let t := { s with observations := s.observations ++ [row] }
          let (expired, t) :=
            t.executionExpired late₃ "execution deadline after observation retention"
          if expired then some { t with observations := t.observations.dropLast }
          else if t.report.finished then some { t with executionEnded := true }
          else some t

/-- From the return of the callback on. An exception leaves `advance`, or the constructor:
its threads are joinable, so destroying them ends the process. -/
def observeLeave (lib : JsonLib) (x : Sys) (k : Caller) (value : Option Json)
    (late₁ late₂ late₃ : Bool) : Sys :=
  let x := { x with impl := { x.impl with observing := false } }
  match retain lib x.state value late₁ late₂ late₃ with
  | some s => { x with state := s, ctl := .idle }
  | none => { x with ctl := k.onThrow }

/-! ### `enabled` and `advance` -/

/-- `Execution::enabled`. -/
def queryEnabled (s : State) (late : Bool) : List String × State :=
  let (expired, s) := s.executionExpired late "execution deadline before enabled query"
  if expired || s.cancelled || s.report.outcome != .completed then ([], s)
  else
    let ids := s.enabledIds
    if ids.isEmpty && !s.allFinished && s.allParked then
      (ids, s.fail .controlledDeadlock "all unfinished actors wait on declared resources")
    else (ids, s)

/-- The index of an actor, `actors.size()` if there is none. -/
def find (s : State) (actor : String) : Nat := s.actors.findIdx fun a => a.id == actor

/-- `Execution::advance` up to its wait. -/
def advance (lib : JsonLib) (x : Sys) (actor : String) (late : Bool) : Sys :=
  let (expired, s) := x.state.executionExpired late "execution deadline before decision"
  if expired || s.cancelled then { x with state := s }
  else
    let i := find s actor
    if i = s.actors.length || !s.enabled i then
      { x with state := s.fail .disabledChoice "actor is not enabled" }
    else if s.report.decisions ≥ s.policy.maxDecisions then
      { x with state := s.fail .decisionExhausted "decision bound" }
    else
      let a := s.actor i
      match s.event lib ⟨0, a.id, a.pending.op, a.pending.resource, some s.enabledIds, 0⟩ with
      | none => { x with state := s }
      | some (false, s) => { x with state := s }
      | some (true, s) =>
        let s := { s with report := { s.report with decisions := s.report.decisions + 1 } }
        { x with
          state := s.setActor i { s.actor i with grant := true }
          ctl := .granted i a.version }

/-- The wait of `advance` ends on `cancelled || version changed`. -/
def canReturn (s : State) (i version : Nat) : Bool :=
  s.cancelled || (s.actor i).version != version

/-- `advance` after its wait (`timeout`: it ended without its predicate). -/
def advanceWake (x : Sys) (i : Nat) (timeout late₁ late₂ : Bool) : Sys :=
  let s := if timeout then x.state.fail .timedOut "actor did not reach resource boundary"
    else x.state
  let s := (s.executionExpired late₁ "execution deadline after actor boundary").2
  if s.cancelled then { x with state := s, ctl := .idle }
  else if (s.actor i).finished && x.joinable i then
    let (expired, s) := s.executionExpired late₂ "execution deadline before completion join"
    { x with state := s, ctl := if expired then .idle else .joining i }
  else { x with
    state := { s with report := { s.report with finished := s.allFinished } }
    ctl := .observing .advance }

/-- `worker.join()` has returned. -/
def joined (x : Sys) (i : Nat) : Sys :=
  { x with impl := { x.impl with workers := x.impl.workers.set i false } }

/-- `advance` after the completion join. -/
def advanceJoined (x : Sys) (i : Nat) (late : Bool) : Sys :=
  let x := x.joined i
  let s := { x.state with report := { x.state.report with finished := x.state.allFinished } }
  let (expired, s) := s.executionExpired late "execution deadline during completion join"
  { x with state := s, ctl := if expired || s.cancelled then .idle else .observing .advance }

/-! ### `cleanup` and the destructor -/

def setCleanup (s : State) (c : Cleanup) : State :=
  { s with report := { s.report with cleanup := c } }

/-- The end of `cleanup`. -/
def cleanupEnd (x : Sys) (teardownFailed : Bool) : Sys :=
  { x with
    state := setCleanup x.state (if teardownFailed then .teardownFailed
      else if x.impl.acquired then .confirmed else .notStarted)
    ctl := .idle }

/-- The part of `cleanup` from one released lock to the next: join the first thread left,
else run the teardown, else end. -/
def cleanupNext (x : Sys) (late : Bool) : Sys :=
  match x.impl.workers.findIdx? id with
  | some i =>
    if late then { x with state := setCleanup x.state.cleanupExpired .incomplete, ctl := .idle }
    else { x with ctl := .cleanupJoin i }
  | none =>
    if x.impl.acquired && !x.impl.teardownAttempted then
      if late then { x with state := setCleanup x.state.cleanupExpired .incomplete, ctl := .idle }
      else { x with
        impl := { x.impl with teardownAttempted := true, observing := true }, ctl := .tearing }
    else x.cleanupEnd false

/-- `Execution::cleanup` up to its wait. -/
def cleanup (x : Sys) (late : Bool) : Sys :=
  let s := x.state
  if s.report.cleanup = .confirmed ∨ s.report.cleanup = .teardownFailed then x
  else
    let s := if s.report.outcome = .completed ∧ s.report.finished = false then
      let s := (s.executionExpired late "execution deadline before cleanup").2
      if s.report.outcome = .completed then
        s.fail .cancelled "controller cancelled incomplete prefix" else s
    else s
    { x with state := { s with cancelled := true }, ctl := .cleaning }

/-- The wait of `cleanup` ends when every started worker has finished. -/
def ended (x : Sys) : Bool :=
  (List.range x.impl.workers.length).all fun i => (x.state.actor i).finished

/-- `cleanup` after its wait. -/
def cleanupWake (x : Sys) (timeout late : Bool) : Sys :=
  if timeout then { x with state := setCleanup x.state.cleanupExpired .incomplete, ctl := .idle }
  else x.cleanupNext late

def cleanupJoined (x : Sys) (i : Nat) (late₁ late₂ : Bool) : Sys :=
  let x := x.joined i
  let x := if late₁ then { x with state := x.state.cleanupExpired } else x
  x.cleanupNext late₂

/-- The program's teardown has returned, or thrown. -/
def tornDown (x : Sys) (threw : Bool) : Sys :=
  { x with impl := { x.impl with teardowns := x.impl.teardowns ++ [!threw] } }

/-- `cleanup` after the teardown; a missing one counts as thrown. -/
def cleanupTorn (x : Sys) (threw late : Bool) : Sys :=
  let present := x.impl.program.teardown
  let x := if present then x.tornDown threw else x
  let x := { x with impl := { x.impl with observing := false } }
  let x := if late then { x with state := x.state.cleanupExpired } else x
  x.cleanupEnd (threw || !present)

/-- `~Execution`: cancel. -/
def destroy (x : Sys) : Sys :=
  { x with state := { x.state with cancelled := true }, ctl := .destroying }

/-- `~Execution` after the joins. -/
def destroyEnd (x : Sys) : Sys :=
  if x.impl.acquired && !x.impl.teardownAttempted && x.impl.program.teardown then
    { x with
      impl := { x.impl with teardownAttempted := true, observing := true }
      ctl := .destroyTearing }
  else { x with ctl := .destroyed }

end Sys

/-! ## Steps -/

/-- One critical section and how its choices fall. -/
inductive Choice where
  -- the client, on an idle controller
  | enabled (late : Bool)
  | advance (actor : String) (late : Bool)
  | cleanup (late : Bool)
  | destroy
  -- the controller
  | spawn (created : Bool)
  | barrier (timeout late : Bool)
  | observe (late : Bool)
  | observed (value : Option Json) (late₁ late₂ late₃ : Bool)
  | granted (timeout late₁ late₂ : Bool)
  | joined (late : Bool)
  | cleanupWake (timeout late : Bool)
  | cleanupJoined (late₁ late₂ : Bool)
  | cleanupTorn (threw late : Bool)
  | destroyJoin (i : Nat)
  | destroyEnd
  | destroyTorn (threw : Bool)
  -- worker `i`
  | register (i : Nat)
  | request (i : Nat)
  | wake (i : Nat)
  | user (i : Nat) (c : Call)
  | stop (i : Nat)
  | release (i : Nat)
  | caught (i : Nat)
  | close (i : Nat)
  -- a foreign thread using the hook of actor `i`
  | foreignRequest (i k : Nat) (p : Pending)
  | foreignRelease (i : Nat) (resource : String)

namespace Sys

/-- A worker's own critical section. -/
def workerStep (lib : JsonLib) (x : Sys) (i : Nat) : Choice → Option Sys
  | .register _ =>
    match x.pc i with
    | .born => some ({ x with state := x.state.registerThread i }.setPc i
        (.calling .start ⟨.start, "", 0⟩))
    | _ => none
  | .request _ =>
    match x.pc i with
    | .calling f p =>
      let (parked, s) := x.state.requestEnter (.worker i) i p
      some ({ x with state := s }.setPc i (if parked then .waiting f p else f.onThrow))
    | _ => none
  | .wake _ =>
    match x.pc i with
    | .waiting f p =>
      if x.state.canWake i then
        let (value, s) := x.state.requestWake lib i p
        some ({ x with state := s }.setPc i (match value with
          | some v => f.onReturn v
          | none => f.onThrow))
      else none
    | _ => none
  | .user _ c =>
    match x.pc i with
    | .user _ => some (x.setPc i c.pc)
    | _ => none
  | .stop _ =>
    match x.pc i with
    | .asking => some (x.setPc i (.user (.flag x.state.cancelled)))
    | .dropping r uncaught => some (x.setPc i (if x.state.cancelled || uncaught then .releasing r
        else .calling (.guard r) ⟨.unlock, r, 0⟩))
    | _ => none
  | .release _ =>
    match x.pc i with
    | .releasing r => some ({ x with state := x.state.unwindRelease i r }.setPc i
      (.user (.value 0)))
    | _ => none
  | .caught _ =>
    match x.pc i with
    | .caught => some ({ x with state := x.state.workerThrew }.setPc i .closing)
    | _ => none
  | .close _ =>
    match x.pc i with
    | .closing => some ({ x with state := x.state.finishWorker i }.setPc i .closed)
    | _ => none
  | _ => none

def step (lib : JsonLib) (x : Sys) (c : Choice) : Option Sys :=
  match c with
  | .enabled late =>
    if x.ctl = .idle then some { x with state := (queryEnabled x.state late).2 } else none
  | .advance actor late => if x.ctl = .idle then some (x.advance lib actor late) else none
  | .cleanup late => if x.ctl = .idle then some (x.cleanup late) else none
  | .destroy => if x.ctl = .idle then some x.destroy else none
  | .spawn created => if x.ctl = .spawning then some (x.spawn created) else none
  | .barrier timeout late =>
    if x.ctl = .barrier ∧ timeout = !(x.state.cancelled || x.state.allParked) then
      some (x.passBarrier timeout late)
    else none
  | .observe late =>
    match x.ctl with
    | .observing k => some (x.observeEnter k late)
    | _ => none
  | .observed value late₁ late₂ late₃ =>
    match x.ctl with
    | .observer k => some (x.observeLeave lib k value late₁ late₂ late₃)
    | _ => none
  | .granted timeout late₁ late₂ =>
    match x.ctl with
    | .granted i version =>
      if timeout = !canReturn x.state i version then
        some (x.advanceWake i timeout late₁ late₂) else none
    | _ => none
  | .joined late =>
    match x.ctl with
    | .joining i => if x.pc i = .closed then some (x.advanceJoined i late) else none
    | _ => none
  | .cleanupWake timeout late =>
    if x.ctl = .cleaning ∧ timeout = !x.ended then some (x.cleanupWake timeout late) else none
  | .cleanupJoined late₁ late₂ =>
    match x.ctl with
    | .cleanupJoin i =>
      if x.pc i = .closed then some (x.cleanupJoined i late₁ late₂) else none
    | _ => none
  | .cleanupTorn threw late => if x.ctl = .tearing then some (x.cleanupTorn threw late) else none
  | .destroyJoin i =>
    if x.ctl = .destroying ∧ x.joinable i ∧ x.pc i = .closed then some (x.joined i) else none
  | .destroyEnd =>
    if x.ctl = .destroying ∧ x.impl.workers.all (!·) then some x.destroyEnd else none
  | .destroyTorn threw =>
    if x.ctl = .destroyTearing then some { x.tornDown threw with ctl := .destroyed } else none
  | .register i | .request i | .wake i | .user i _ | .stop i | .release i | .caught i
  | .close i => if i < x.pcs.length then x.workerStep lib i c else none
  | .foreignRequest i k p =>
    if i < x.pcs.length then
      some { x with state := (x.state.requestEnter (.other k) i p).2 } else none
  | .foreignRelease i r =>
    if i < x.pcs.length then some { x with state := x.state.unwindRelease i r } else none

end Sys

/-- Executions of any program: they begin after the sequential part of the constructor. -/
def lts (lib : JsonLib) : Lts Sys Choice where
  init x := ∃ a p late₁ late₂, x = Sys.construct a p late₁ late₂
  step := Sys.step lib

end MirrorCpp.Sync
