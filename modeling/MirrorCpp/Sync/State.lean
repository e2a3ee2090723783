import MirrorCpp.Lib.Json
import MirrorCpp.Lib.Monitor

/-!
# The coordinator's state (`schedule_sync.cpp`, `detail::State`)

The record behind the coordinator's mutex, with the operations the source defines on it.
Actors are addressed by their index, a resource by its id. A clock reading is an argument
`late`: what `Clock::now() >= deadline` answers. `hist` is a ghost: every change made to a
resource, oldest first.
-/

namespace MirrorCpp.Sync

inductive Kind where
  | mutex
  | queue
  deriving DecidableEq, Repr

structure Resource where
  id : String
  kind : Kind := .mutex
  capacity : Nat := 0
  deriving DecidableEq, Repr

/-- Bounds of an execution; timeouts in milliseconds. -/
structure Policy where
  maxActors : Nat := 16
  maxResources : Nat := 32
  maxDecisions : Nat := 4096
  maxEvidenceBytes : Nat := 8 * 1024 * 1024
  executionTimeout : Int := 2000
  cleanupTimeout : Int := 1000
  explorationTimeout : Int := 30000
  deriving DecidableEq, Repr

inductive Outcome where
  | completed
  | invalidProfile
  | applicationFailed
  | timedOut
  | evidenceExhausted
  | resourceMisuse
  | observationFailed
  | controlledDeadlock
  | disabledChoice
  | decisionExhausted
  | cancelled
  deriving DecidableEq, Repr

inductive Cleanup where
  | notStarted
  | incomplete
  | confirmed
  | teardownFailed
  deriving DecidableEq, Repr

structure Report where
  outcome : Outcome := .completed
  detail : String := ""
  cleanup : Cleanup := .notStarted
  finished : Bool := false
  decisions : Nat := 0
  executionBudgetExceeded : Bool := false
  cleanupBudgetExceeded : Bool := false
  deriving DecidableEq, Repr

def Report.passed (r : Report) : Bool :=
  r.outcome == .completed && r.finished && r.cleanup == .confirmed &&
    !r.executionBudgetExceeded && !r.cleanupBudgetExceeded

/-- The operations of `Hook::request`; `unset` is the empty string of a fresh actor. -/
inductive Op where
  | unset
  | start
  | checkpoint
  | done
  | lock
  | unlock
  | send
  | receive
  deriving DecidableEq, Repr

def Op.name : Op → String
  | .unset => ""
  | .start => "start"
  | .checkpoint => "checkpoint"
  | .done => "$done"
  | .lock => "lock"
  | .unlock => "unlock"
  | .send => "send"
  | .receive => "receive"

/-- `op != "start" && op != "checkpoint" && op != "$done"`. -/
def Op.onResource : Op → Bool
  | .start | .checkpoint | .done => false
  | _ => true

structure Pending where
  op : Op := .unset
  resource : String := ""
  value : Int := 0
  deriving DecidableEq, Repr

/-- The thread that calls a hook: the worker of an actor, or any other one. -/
inductive ThreadId where
  | worker (i : Nat)
  | other (k : Nat)
  deriving DecidableEq, Repr

structure Actor where
  id : String := ""
  thread : Option ThreadId := none
  pending : Pending := {}
  parked : Bool := false
  grant : Bool := false
  finished : Bool := false
  version : Nat := 0
  deriving DecidableEq, Repr

/-- A declared resource. The owner of a mutex is the index of an actor; `none` is the empty
string. -/
structure Owned where
  declaration : Resource
  owner : Option Nat := none
  queue : List Int := []
  deriving DecidableEq, Repr

structure Event where
  ordinal : Nat
  actor : String
  operation : Op
  resource : String
  /-- `some ids` on a grant (the enabled actors), `none` on a result. -/
  enabled : Option (List String)
  value : Int := 0
  deriving DecidableEq, Repr

def Event.isGrant (e : Event) : Bool := e.enabled.isSome

/-- The row as it is retained, in key order. -/
def Event.toJson (e : Event) : Json :=
  match e.enabled with
  | some ids => .obj [("actor", .str e.actor), ("enabled", .arr (ids.map .str)),
      ("kind", .str "grant"), ("operation", .str e.operation.name), ("ordinal", .int e.ordinal),
      ("resource", .str e.resource)]
  | none => .obj [("actor", .str e.actor), ("kind", .str "result"),
      ("operation", .str e.operation.name), ("ordinal", .int e.ordinal),
      ("resource", .str e.resource), ("value", .int e.value)]

structure Observation where
  afterDecisions : Nat
  state : Json

def Observation.toJson (o : Observation) : Json :=
  .obj [("afterDecisions", .int o.afterDecisions), ("state", o.state)]

structure Wait where
  actor : String
  operation : Op
  resource : String
  deriving DecidableEq, Repr

structure FailureGraph where
  owners : List (String × Option Nat)
  waits : List Wait
  contents : List (String × List Int)
  deriving DecidableEq, Repr

/-- A change of a resource by the actor of an index. -/
abbrev Effect := Monitor.Effect Nat String Int

structure State where
  actors : List Actor
  resources : List Owned
  report : Report := {}
  cancelled : Bool := false
  executionEnded : Bool := false
  events : List Event := []
  observations : List Observation := []
  failureGraph : Option FailureGraph := none
  policy : Policy
  hist : List Effect := []

namespace State

/-- `actors[i]`. -/
def actor (s : State) (i : Nat) : Actor := s.actors.getD i {}

def setActor (s : State) (i : Nat) (a : Actor) : State := { s with actors := s.actors.set i a }

/-- `resources.find(id)`. -/
def resource? (s : State) (r : String) : Option Owned :=
  s.resources.find? fun o => o.declaration.id == r

/-- Assign through `resources.at(id)`, recording the change. -/
def modifyResource (s : State) (r : String) (e : Effect) (f : Owned → Owned) : State :=
  { s with
    resources := s.resources.map fun o => if o.declaration.id == r then f o else o
    hist := s.hist ++ [e] }

def graph (s : State) : FailureGraph where
  owners := s.resources.map fun o => (o.declaration.id, o.owner)
  waits := (s.actors.filter fun a => !a.finished && a.parked).map fun a =>
    ⟨a.id, a.pending.op, a.pending.resource⟩
  contents := s.resources.map fun o => (o.declaration.id, o.queue)

def fail (s : State) (outcome : Outcome) (detail : String) : State :=
  let s := if s.report.outcome = .completed then
    { s with report := { s.report with outcome, detail }, failureGraph := some s.graph } else s
  { s with cancelled := true }

/-- The answer, and the state after the check. -/
def executionExpired (s : State) (late : Bool) (at_ : String) : Bool × State :=
  if s.executionEnded || !late then (false, s)
  else (true, { s with report := { s.report with executionBudgetExceeded := true } }.fail
    .timedOut at_)

def cleanupExpired (s : State) : State :=
  { s with report := { s.report with cleanupBudgetExceeded := true } }.fail
    .timedOut "cleanup deadline exceeded"

section
variable (lib : JsonLib)

/-- `none`: `row.dump()` throws. `first`: the destination array is empty. -/
def evidenceFits (s : State) (first : Bool) (row : Json) : Option Bool := do
  let e ← lib.dumpSize (.arr (s.events.map Event.toJson))
  let o ← lib.dumpSize (.arr (s.observations.map Observation.toJson))
  let r ← lib.dumpSize row
  let separator := if first then 0 else 1
  return decide (e + o + r + separator ≤ s.policy.maxEvidenceBytes)

/-- Append an event; the answer is false where the budget refuses it. -/
def event (s : State) (row : Event) : Option (Bool × State) :=
  let row := { row with ordinal := s.events.length }
  match s.evidenceFits lib s.events.isEmpty row.toJson with
  | none => none
  | some false => some (false, s.fail .evidenceExhausted "receipt byte bound")
  | some true => some (true, { s with events := s.events ++ [row] })

end

def enabled (s : State) (i : Nat) : Bool :=
  let a := s.actor i
  if !a.parked || a.finished then false
  else if !a.pending.op.onResource then true
  else match s.resource? a.pending.resource with
    | none => false
    | some r =>
      match a.pending.op with
      | .lock => r.owner.isNone
      | .unlock => r.owner == some i
      | .send => decide (r.queue.length < r.declaration.capacity)
      | .receive => !r.queue.isEmpty
      | _ => false

def allParked (s : State) : Bool := s.actors.all fun a => a.parked || a.finished

def allFinished (s : State) : Bool := s.actors.all fun a => a.finished

def enabledIds (s : State) : List String :=
  ((List.range s.actors.length).filter s.enabled).map fun i => (s.actor i).id

end State

end MirrorCpp.Sync
