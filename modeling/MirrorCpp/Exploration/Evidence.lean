import MirrorCpp.Exploration.Canonical
import MirrorCpp.Exploration.Space

/-!
# The evidence of a run (`schedule_exploration.cpp`)

What `explore_finite` reads in the sample a runner returns: whether it is bound to the selected
schedule and the declared actors, how the run ended (`category`), whether its events are the ones
of the schedule (`validateSuccess`), and the states it observed.
-/

namespace MirrorCpp.Exploration

open Schedule Itf Fallible SortedMap

/-- The libraries: JSON, the order in which a call evaluates its arguments, and the texts of the
exceptions that are not the JSON library's own. -/
structure Libraries extends JsonScan where
  late : Bool
  invalidIterator : String
  runtimeError : String

/-- A text behind a `const char*`. -/
def cString (s : String) : String := String.ofList (s.toList.takeWhile (· != Char.ofNat 0))

/-- `what()`. -/
def Libraries.said (lib : Libraries) : Itf.Thrown → String
  | .jsonError message | .invalidArgument message => cString message
  | .library f => lib.what f
  | .invalidIterator => lib.invalidIterator
  | .runtimeError => lib.runtimeError

structure ExplorationSample where
  execution : Json
  comparison : Json := .null

/-! ## Reading -/

/-- What an accessor returns or throws. -/
def read {α : Type} : Except JsonFault α → Except Itf.Thrown α
  | .ok a => .ok a
  | .error f => .error (.library f)

section
variable (lib : JsonLib)

/-- `j.at(k) == v && ...`: the members are looked up until one differs. -/
def agrees (j : Json) : List (String × Json) → Except Itf.Thrown Bool
  | [] => .ok true
  | (k, v) :: rest => do
    let x ← read (j.field k)
    if lib.eq x v then agrees j rest else return false

/-- The entries of an array of actors, each once. -/
def collectActors (result : List (String × String)) :
    List Json → Except Itf.Thrown (List (String × String))
  | [] => .ok result
  | actor :: rest => do
    require (actor.isObj && actor.size == 2 && actor.contains "actor" && actor.contains "operation")
      "invalid execution actor"
    let name ← read (actor.field "actor" >>= Json.getStr)
    let operation ← read (actor.field "operation" >>= Json.getStr)
    require (result.lookup name).isNone "duplicate execution actor"
    collectActors (emplace name operation result) rest

def actorMap (actors : Json) : Except Itf.Thrown (List (String × String)) := do
  require actors.isArr "missing execution actors"
  collectActors [] actors.children

/-- `at("cleanup") == "confirmed" && at("remainingActors").empty()`. -/
def cleanupKnown (execution : Json) : Except Itf.Thrown Bool := do
  let confirmed ← agrees lib execution [("cleanup", .str "confirmed")]
  if confirmed then Json.isEmpty <$> read (execution.field "remainingActors") else return false

/-! ## How a run ended -/

inductive Disposition where
  | passed
  | cleanupFailed
  | modelMismatch
  | comparisonFailed
  | comparisonMissing
  | timedOut
  | cancelled
  | scheduleFailed
  | executionFailed
  | coverageFailed
  | runnerOrEvidenceFailed
  deriving DecidableEq, Repr

def Disposition.name : Disposition → String
  | passed => "passed"
  | cleanupFailed => "cleanup_failed"
  | modelMismatch => "model_mismatch"
  | comparisonFailed => "comparison_failed"
  | comparisonMissing => "comparison_missing"
  | timedOut => "timed_out"
  | cancelled => "cancelled"
  | scheduleFailed => "schedule_failed"
  | executionFailed => "execution_failed"
  | coverageFailed => "coverage_failed"
  | runnerOrEvidenceFailed => "runner_or_evidence_failed"

/-- The comparison is about this execution alone. -/
def sameEvidence (execution comparison : Json) : Except Itf.Thrown Bool := do
  let records ← read (comparison.field "binding" >>= (Json.field · "executions"))
  if records.size == 1 then (lib.eq · execution) <$> read (records.index 0)
  else return false

/-- The peer found the mismatch, and the client failed with it. -/
def mismatchReported (comparison : Json) : Except Itf.Thrown Bool := do
  let failed ← agrees lib comparison [("passed", .bool false)]
  let kind := comparison.field "client" >>= (Json.field · "kind")
  if failed then (lib.eq · (.str "step_mismatch")) <$> read kind
  else return false

/-- The category of a comparison, unless it matched. -/
def compared (execution comparison : Json) : Except Itf.Thrown (Option Disposition) := do
  require (← agrees lib comparison [("schema", .str "mirrors.scheduled-comparison/v1")])
    "invalid comparison sample"
  require (← sameEvidence lib execution comparison) "comparison and schedule evidence differ"
  if ← agrees lib comparison [("comparison", .str "step_mismatch")] then do
    require (← mismatchReported lib comparison) "invalid mismatch sample"
    return some .modelMismatch
  else do
    let matched ← agrees lib comparison [("comparison", .str "matched"), ("passed", .bool true)]
    return if matched then none else some .comparisonFailed

/-- The category of an execution that has not passed. -/
def failure (outcome : String) : Disposition :=
  if outcome = "timed_out" then .timedOut
  else if outcome = "cancelled" then .cancelled
  else if outcome = "unexpected_checkpoint" ∨ outcome = "invalid_schedule" ∨
    outcome = "incompatible_identity" then .scheduleFailed
  else .executionFailed

def category (execution comparison : Json) : Except Itf.Thrown Disposition := do
  let known ← cleanupKnown lib execution
  if !known then return .cleanupFailed
  else do
    let differs ← if comparison.isNull then pure none else compared lib execution comparison
    match differs with
    | some d => return d
    | none => do
      let passed ← agrees lib execution [("passed", .bool true)]
      if passed then return .passed
      else failure <$> read (execution.field "outcome" >>= Json.getStr)

/-! ## A passed run -/

/-- The event of a step: its permit at `offset` 0, its arrival at 1. -/
def validateEvent (events : Json) (i : Nat) (step : Step) (offset : Nat) :
    Except Itf.Thrown Unit := do
  let event ← read (events.index (i * 2 + offset))
  require (← agrees lib event
    [("ordinal", .int (i * 2 + offset : Nat)), ("step", .int i), ("actor", .str step.actor)])
    "execution event identity differs"
  require (← agrees lib event [("kind", .str (if offset = 0 then "permit" else "arrival"))])
    "execution event order differs"
  if offset = 1 then
    require (← agrees lib event [("checkpoint", .str step.checkpoint)])
      "execution arrival differs"

/-- The events of the steps from the `i`-th on. -/
def validateSteps (events : Json) : Nat → List Step → Except Itf.Thrown Unit
  | _, [] => .ok ()
  | i, step :: steps => do
    validateEvent lib events i step 0
    validateEvent lib events i step 1
    validateSteps events (i + 1) steps

def validateSuccess (execution : Json) (schedule : Schedule) : Except Itf.Thrown Unit := do
  require (← agrees lib execution
    [("scheduleCompleted", .bool true), ("outcome", .str "completed")]) "false completed schedule"
  let events ← read (execution.field "events")
  require (events.isArr && events.size == schedule.steps.length * 2)
    "wrong accepted interval denominator"
  validateSteps lib events 0 schedule.steps
  let observations ← read (execution.field "observations")
  require (observations.size == schedule.steps.length + 1) "wrong observation denominator"

end

section
variable (lib : Libraries) (space : FiniteSpace)

/-- The declared actors with their operations, as `actorMap` reads them. -/
def declarations : List (String × String) :=
  (sortActors space.actors).map fun a => (a.actor.actor, a.actor.operation)

def lowerHex (c : Char) : Bool := ('0' ≤ c && c ≤ '9') || ('a' ≤ c && c ≤ 'f')

/-- The identity of an execution that is bound to the printed schedule and new. -/
def bound (executions : List String) (schedule execution : Json) : Except Itf.Thrown String := do
  require (← agrees lib.toJsonLib execution
    [("schema", .str receiptSchema), ("schedule", schedule)])
    "runner evidence is not bound to the selected schedule"
  let actors ← read (execution.field "actors") >>= actorMap
  require (actors == declarations space) "runner actor declarations differ"
  let id ← read (execution.field "executionId" >>= Json.getStr)
  require (id.length == 32 && id.toList.all lowerHex && !executions.contains id)
    "invalid or duplicate execution identity"
  return id

/-- The canonical text of the `i`-th observation, without the instrumentation. -/
def observed (observations : Json) (i : Nat) : Except Itf.Thrown String := do
  let observation ← read (observations.index i)
  require (← agrees lib.toJsonLib observation [("afterSteps", .int i)])
    "observation position differs"
  let state ← read (observation.field "state") >>= decodeState lib.late
  require (state.length == space.stateVariables.length + space.instrumentationVariables.length)
    "observation projection omits or adds fields"
  require (space.instrumentationVariables.all fun key => (state.lookup key).isSome)
    "declared instrumentation variable absent"
  let base := state.filter fun v => !space.instrumentationVariables.contains v.1
  require (space.stateVariables.all fun key => (base.lookup key).isSome)
    "base observation variable absent"
  canonicalState lib.toJsonLib base

end

end MirrorCpp.Exploration
