import MirrorCpp.Schedule.Document

/-!
# The coordinator's state (`schedule.cpp`, `detail::Shared`, `Checkpoint::arrive`)

The record behind the coordinator's mutex and the critical sections of a worker thread.
`Checkpoint::arrive` is two of them: `arrive` up to the wait, and the wake-up, which the wait's
predicate `canWake` guards. `Pc` says where a worker stands between its sections; user code is a
point (`user`) at which the worker may make any call.
-/

namespace MirrorCpp.Schedule

structure ActorDeclaration where
  actor : String
  operation : String
  deriving DecidableEq, Repr

/-- Bounds of an execution; timeouts in milliseconds. -/
structure Policy where
  maxActors : Nat := 16
  maxSteps : Nat := 4096
  executionTimeout : Int := 2000
  cleanupTimeout : Int := 1000
  deriving DecidableEq, Repr

inductive Outcome where
  | completed
  | invalidSchedule
  | incompatibleIdentity
  | cancelled
  | timedOut
  | unexpectedCheckpoint
  | uncontrolledActor
  | applicationFailed
  | observationFailed
  | resourceFailed
  deriving DecidableEq, Repr

inductive Cleanup where
  | notStarted
  | confirmed
  | incomplete
  | teardownFailed
  deriving DecidableEq, Repr

def Outcome.name : Outcome → String
  | .completed => "completed"
  | .invalidSchedule => "invalid_schedule"
  | .incompatibleIdentity => "incompatible_identity"
  | .cancelled => "cancelled"
  | .timedOut => "timed_out"
  | .unexpectedCheckpoint => "unexpected_checkpoint"
  | .uncontrolledActor => "uncontrolled_actor"
  | .applicationFailed => "application_failed"
  | .observationFailed => "observation_failed"
  | .resourceFailed => "resource_failed"

def Cleanup.name : Cleanup → String
  | .notStarted => "not_started"
  | .confirmed => "confirmed"
  | .incomplete => "incomplete"
  | .teardownFailed => "teardown_failed"

inductive EventKind where
  | permit
  | arrival
  deriving DecidableEq, Repr

def EventKind.name : EventKind → String
  | .permit => "permit"
  | .arrival => "arrival"

structure Event where
  ordinal : Nat
  kind : EventKind
  step : Nat
  actor : String
  operation : String
  checkpoint : String
  deriving DecidableEq, Repr

structure Observation where
  afterSteps : Nat
  state : Json

structure CleanupAttempt where
  status : Cleanup
  remainingActors : List String
  detail : String
  deriving DecidableEq, Repr

structure Report where
  outcome : Outcome := .completed
  detail : String := ""
  scheduleCompleted : Bool := false
  cleanup : Cleanup := .notStarted
  remainingActors : List String := []
  generation : Nat := 0
  executionId : String := ""
  events : List Event := []
  observations : List Observation := []
  cleanupAttempts : List CleanupAttempt := []

def Report.passed (r : Report) : Bool :=
  r.outcome == .completed && r.scheduleCompleted && r.cleanup == .confirmed

inductive Phase where
  | starting
  | parked
  | running
  | finished
  deriving DecidableEq, Repr

/-- The thread that calls a hook: the worker of an actor, or any other one. -/
inductive ThreadId where
  | worker (i : Nat)
  | other (k : Nat)
  deriving DecidableEq, Repr

structure ActorState where
  declaration : ActorDeclaration := ⟨"", ""⟩
  phase : Phase := .starting
  thread : Option ThreadId := none
  checkpoint : String := "$start"
  joined : Bool := false
  arrival : Option String := none
  deriving DecidableEq, Repr

structure Shared where
  cancelled : Bool := false
  stopping : Bool := false
  failed : Bool := false
  actors : List ActorState := []
  checkpoints : List String := []
  report : Report := {}

namespace Shared

/-- `actors[i]`. -/
def actor (s : Shared) (i : Nat) : ActorState := s.actors.getD i {}

def setActor (s : Shared) (i : Nat) (a : ActorState) : Shared :=
  { s with actors := s.actors.set i a }

/-- The first failure counts. -/
def fail (s : Shared) (outcome : Outcome) (detail : String) : Shared :=
  if s.failed then s
  else { s with
    failed := true
    report := { s.report with outcome, detail := Text.firstBytes 1024 detail } }

/-! ## The sections of a worker -/

/-- The worker lambda up to its wait. -/
def register (s : Shared) (i : Nat) : Shared :=
  s.setActor i { s.actor i with thread := some (.worker i), phase := .parked }

/-- The waits of the worker lambda and of `arrive` end on this. -/
def canWake (s : Shared) (i : Nat) : Bool := s.stopping || (s.actor i).phase == .running

/-- A declared checkpoint. -/
def declares (s : Shared) (checkpoint : String) : Bool :=
  identifier checkpoint && s.checkpoints.contains checkpoint

/-- A hook called by another thread, or while its actor is not running. -/
def misused (s : Shared) : Shared :=
  s.fail .uncontrolledActor "checkpoint called outside its owned actor"

/-- Publish the checkpoint and park. -/
def park (s : Shared) (i : Nat) (checkpoint : String) : Shared :=
  s.setActor i { s.actor i with checkpoint, arrival := some checkpoint, phase := .parked }

/-- The text of an unexpected checkpoint is bounded before it is retained. -/
def astray (s : Shared) (i : Nat) (checkpoint : String) : Shared :=
  let bounded := Text.firstBytes 128 checkpoint
  let s := s.setActor i { s.actor i with checkpoint := bounded, arrival := some bounded }
  s.fail .unexpectedCheckpoint ("undeclared checkpoint: " ++ bounded)

/-- `Checkpoint::arrive` up to its wait; false where it throws. -/
def arrive (s : Shared) (self : ThreadId) (i : Nat) (checkpoint : String) : Bool × Shared :=
  if (s.actor i).thread ≠ some self ∨ (s.actor i).phase ≠ .running then
    (false, s.misused)
  else if s.stopping then (false, s)
  else if !s.declares checkpoint then (false, s.astray i checkpoint)
  else (true, s.park i checkpoint)

/-- The handlers around the worker's function; `none` is no standard exception. -/
def workerThrew (s : Shared) (what : Option String) : Shared :=
  s.fail .applicationFailed (what.getD "nonstandard actor exception")

/-- The last section of the worker lambda. -/
def finishWorker (s : Shared) (i : Nat) : Shared :=
  let a := s.actor i
  s.setActor i { a with
    checkpoint := completion
    arrival := some (a.arrival.getD completion)
    phase := .finished }

/-! ## What the controller asks -/

def allParked (s : Shared) : Bool := s.actors.all fun a => a.phase == .parked

/-- The checks that end `wait`, `start` and `advance`; a failure before them counts. -/
def settle (s : Shared) (late : Bool) : Shared :=
  let s := if s.cancelled then s.fail .cancelled "execution cancelled" else s
  if late then s.fail .timedOut "execution deadline exceeded" else s

/-- Append an event about an actor at a checkpoint. -/
def event (s : Shared) (kind : EventKind) (step : Nat) (a : ActorState) (checkpoint : String) :
    Shared :=
  { s with report := { s.report with
      events := s.report.events ++
        [⟨s.report.events.length, kind, step, a.declaration.actor, a.declaration.operation,
          checkpoint⟩] } }

end Shared

/-- Which wait a worker is in: the lambda's own, or one of `arrive`. -/
inductive Frame where
  | start
  | body
  deriving DecidableEq, Repr

/-- What the user's function has just been given. -/
inductive Ret where
  /-- It was called, or a call of the hook returned. -/
  | returned
  /-- The answer of `stop_requested`. -/
  | flag (b : Bool)
  /-- A call of the hook threw. -/
  | threw
  deriving DecidableEq, Repr

/-- What the user's function does next. -/
inductive Call where
  | arrive (checkpoint : String)
  | stopRequested
  /-- An exception of its own leaves it; `none` is no standard exception. -/
  | throw_ (what : Option String)
  /-- It returns, or lets the hook's exception through. -/
  | return_
  deriving DecidableEq, Repr

/-- Where a worker thread stands. -/
inductive Pc where
  | unborn
  | born
  | waiting (f : Frame)
  | user (r : Ret)
  | arriving (checkpoint : String)
  | asking
  | caught (what : Option String)
  | closing
  | closed
  deriving DecidableEq, Repr

/-- Where a wait that ended on `stopping` continues. -/
def Frame.onStop : Frame → Pc
  | .start => .closing
  | .body => .user .threw

/-- The user's function makes a call. -/
def Call.pc : Call → Pc
  | .arrive checkpoint => .arriving checkpoint
  | .stopRequested => .asking
  | .throw_ what => .caught what
  | .return_ => .closing

end MirrorCpp.Schedule
