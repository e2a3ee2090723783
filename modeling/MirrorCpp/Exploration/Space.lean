import MirrorCpp.Lib.Merge
import MirrorCpp.Schedule.Codec
import MirrorCpp.Schedule.State
import Mathlib.Data.List.Sort

/-!
# Finite spaces and their schedules (`schedule_exploration.cpp`)

`declared` is what `explore_finite` checks of a declaration before it runs anything;
`enumerate` lists the merges of the actors' chains. The clock of an enumeration says, for each
visit, whether a stop or the deadline interrupts it.
-/

namespace MirrorCpp.Schedule

/-! ## Declarations -/

structure ActorChain where
  actor : ActorDeclaration
  /-- Exactly one `$done`, at the end. -/
  checkpoints : List String
  deriving DecidableEq, Repr

structure FiniteSpace where
  identity : Identity
  actors : List ActorChain
  inputs : List Json
  maxPreemptions : Nat := 64
  requireModelComparison : Bool := false
  stateVariables : List String
  instrumentationVariables : List String := []

structure ExplorationLimits where
  maxEnumeratedSchedules : Nat := 4096
  maxRuns : Nat := 4096
  timeBudget : Int := 30000
  maxEvidenceBytes : Nat := 16 * 1048576
  deriving DecidableEq, Repr

def ExplorationLimits.valid (l : ExplorationLimits) : Bool :=
  decide (0 < l.maxEnumeratedSchedules ∧ l.maxEnumeratedSchedules ≤ 4096 ∧ l.maxRuns ≤ 65536 ∧
    0 < l.timeBudget ∧ l.timeBudget ≤ 24 * 3600000 ∧ 0 < l.maxEvidenceBytes ∧
    l.maxEvidenceBytes ≤ 64 * 1048576)

/-- The steps of an actor, in their order. -/
def ActorChain.steps (a : ActorChain) : List Step := a.checkpoints.map (⟨a.actor.actor, ·⟩)

/-- The points of a chain: identifiers, then `$done`. -/
def chainPoints : List String → Bool
  | [] => true
  | [point] => point == completion
  | point :: points => identifier point && chainPoints points

/-- The actors in order, each new and with a chain to `$done`. -/
def declareActors (seen : List String) : List ActorChain → Except String Unit
  | [] => .ok ()
  | a :: as => do
    check (identifier a.actor.actor && identifier a.actor.operation && !seen.contains a.actor.actor)
      "duplicate/invalid exploration actor"
    check (!a.checkpoints.isEmpty && a.checkpoints.getLast? == some completion)
      "actor chain needs terminal completion"
    check (chainPoints a.checkpoints) "invalid actor chain checkpoint"
    declareActors (a.actor.actor :: seen) as

section
variable (lib : JsonScan)

/-- `dump()`, or the text of what it throws. -/
def printed (value : Json) : Except String String :=
  match lib.dump value with
  | some t => .ok t
  | none => .error (lib.what .badUtf8)

/-- Each input prints within a schedule with these steps, and as no input before it. -/
def declareInputs (schedule : Schedule) (keys : List String) : List Json → Except String Unit
  | [] => .ok ()
  | input :: inputs => do
    let _ ← encodeSchedule lib { schedule with inputs := input }
    let key ← printed lib input
    check (decide (key.length ≤ 65535)) "exploration input exceeds byte bound"
    check (!keys.contains key) "duplicate declared input assignment"
    declareInputs schedule (key :: keys) inputs

/-- Each name is an identifier, and new. -/
def declareNames (message : String) (seen : List String) : List String → Except String Unit
  | [] => .ok ()
  | key :: keys => do
    check (identifier key && !seen.contains key) message
    declareNames message (key :: seen) keys

/-- The order the actors are enumerated in. -/
def sortActors (actors : List ActorChain) : List ActorChain :=
  actors.insertionSort fun a b => a.actor.actor ≤ b.actor.actor

/-- What `explore_finite` checks before the enumeration; the result are the sorted actors. -/
def declared (space : FiniteSpace) (limits : ExplorationLimits) (runner : Bool) :
    Except String (List ActorChain) := do
  check runner "missing exploration runner"
  check (!space.actors.isEmpty && decide (space.actors.length ≤ 8) && !space.inputs.isEmpty &&
    decide (space.inputs.length ≤ 64)) "finite actor/input bound exceeded"
  check (decide (space.maxPreemptions ≤ 64) && limits.valid) "invalid exploration limits"
  let actors := sortActors space.actors
  declareActors [] actors
  let steps := (actors.map ActorChain.steps).flatten
  check (decide (steps.length ≤ 64)) "exploration step bound exceeded"
  declareInputs lib { identity := space.identity, steps } [] space.inputs
  check (!space.stateVariables.isEmpty && decide (space.stateVariables.length ≤ 1024 ∧
    space.instrumentationVariables.length ≤ 1024)) "bounded base observation variables required"
  declareNames "duplicate/invalid state variable" [] space.stateVariables
  declareNames "invalid instrumentation projection" space.stateVariables
    space.instrumentationVariables
  return actors

end

/-- The schedule of one run. -/
def FiniteSpace.candidate (space : FiniteSpace) (steps : List Step) (inputs : Json) : Schedule where
  identity := space.identity
  steps := steps
  inputs := inputs

/-! ## `enumerate` -/

structure Enumeration where
  schedules : List (List Step) := []
  exhausted : Bool := true
  stopReason : String := ""
  /-- Ghost: the visits so far. -/
  visits : Nat := 0

/-- The beginning of a visit; the clock gives the reason of an interruption. -/
def Enumeration.poll (clock : Nat → Option String) (r : Enumeration) : Enumeration :=
  if !r.exhausted then r
  else match clock r.visits with
    | some reason => { r with exhausted := false, stopReason := reason }
    | none => { r with visits := r.visits + 1 }

section
variable (actors : List ActorChain) (maxPreemptions cap : Nat) (clock : Nat → Option String)

/-- Leaving an actor that is not at its end for another one. -/
def preempts (positions : List Nat) (prior : Option Nat) (index : Nat) : Bool :=
  match prior with
  | none => false
  | some p => p != index &&
      decide (positions.getD p 0 < ((actors[p]?.map ActorChain.checkpoints).getD []).length)

/-- The depth-first walk with `left` steps to choose. -/
def visit : Nat → List Nat → List Step → Option Nat → Nat → Enumeration → Enumeration
  | 0, _, current, _, _, r =>
    let r := r.poll clock
    if !r.exhausted then r
    else if r.schedules.length = cap then
      { r with exhausted := false, stopReason := "enumeration_limit" }
    else { r with schedules := r.schedules ++ [current] }
  | left + 1, positions, current, prior, preemptions, r =>
    (List.range actors.length).foldl (fun r index =>
      if !r.exhausted then r
      else match actors[index]?, positions[index]? with
        | some a, some offset =>
          match a.checkpoints[offset]? with
          | none => r -- the chain is at its end
          | some point =>
            let preemptions :=
              preemptions + if preempts actors positions prior index then 1 else 0
            if maxPreemptions < preemptions then r
            else visit left (positions.set index (offset + 1))
              (current ++ [⟨a.actor.actor, point⟩]) (some index) preemptions r
        | _, _ => r) (r.poll clock)

def enumerate : Enumeration :=
  visit actors maxPreemptions cap clock (actors.map ActorChain.steps).flatten.length
    (actors.map fun _ => 0) [] none 0 {}

end

end MirrorCpp.Schedule
