import MirrorCpp.Exploration.Evidence

/-!
# The campaign (`explore_finite`, `schedule_exploration.cpp`)

`exploreFinite` runs every enumerated schedule with every declared input. A candidate is run once
(`examine` is the `try` block around the runner, `conclude` what follows it); the campaign ends at
the first reason to stop. What the runner does, and the stop token and the clock read at each
point, are the `Surroundings` of a call.
-/

namespace MirrorCpp.Exploration

open Schedule Itf SortedMap

/-! ## Coverage -/

/-- A transition between states, by their numbers. -/
structure Edge where
  source : Nat
  target : Nat
  deriving DecidableEq, Repr

namespace Edge

instance : LE Edge where
  le a b := a.source < b.source ∨ a.source = b.source ∧ a.target ≤ b.target

instance : LT Edge where
  lt a b := a.source < b.source ∨ a.source = b.source ∧ a.target < b.target

instance (a b : Edge) : Decidable (a < b) :=
  inferInstanceAs (Decidable (a.source < b.source ∨ a.source = b.source ∧ a.target < b.target))

end Edge

/-- The states covered, by number, and how often each transition was taken. -/
structure Coverage where
  /-- The canonical texts; the position is the number. -/
  states : List String := []
  /-- As they are reported. -/
  listed : List (Nat × Json) := []
  transitions : List (Edge × Nat) := []
  bytes : Nat := 0

/-- What leaves the `try` block of a run. -/
inductive Failure where
  /-- `std::length_error`. -/
  | length (what : String)
  | exception (what : String)
  | nonstandard
  deriving DecidableEq, Repr

def maxCoverageBytes : Nat := 8 * 1048576

def coverageExceeded : Failure := .length "coverage byte bound exceeded"

namespace Coverage

variable (lib : Libraries)

/-- The number of a state, which may be new. -/
def enter (c : Coverage) (canonical : String) : Coverage × Except Failure Nat :=
  if canonical ∈ c.states then (c, .ok (c.states.idxOf canonical))
  else if c.bytes + canonical.length + 128 > maxCoverageBytes then (c, .error coverageExceeded)
  else
    let id := c.states.length
    let c := { c with
      states := c.states ++ [canonical]
      bytes := c.bytes + canonical.length + 128 }
    match lib.parse canonical with
    | none => (c, .error (.exception (lib.what .syntaxError)))
    | some d => ({ c with listed := c.listed ++ [(id, d.toJson)] }, .ok id)

/-- One more transition, behind the first state. -/
def take (c : Coverage) (prior : Option Nat) (id : Nat) : Coverage × Except Failure Unit :=
  match prior with
  | none => (c, .ok ())
  | some p =>
    let edge := ⟨p, id⟩
    if edge ∈ c.transitions.map Prod.fst then
      ({ c with transitions := tally edge c.transitions }, .ok ())
    else if c.bytes + 128 > maxCoverageBytes then (c, .error coverageExceeded)
    else ({ c with transitions := tally edge c.transitions, bytes := c.bytes + 128 }, .ok ())

variable (space : FiniteSpace) (observations : Json)

/-- The last `left` observations, the first of them the `i`-th; what is covered stays covered where
one of them fails. -/
def cover : Nat → Nat → Option Nat → Coverage → Coverage × Except Failure Unit
  | 0, _, _, c => (c, .ok ())
  | left + 1, i, prior, c =>
    match observed lib space observations i with
    | .error e => (c, .error (.exception (lib.said e)))
    | .ok canonical =>
      match c.enter lib canonical with
      | (c, .error f) => (c, .error f)
      | (c, .ok id) =>
        match c.take prior id with
        | (c, .error f) => (c, .error f)
        | (c, .ok ()) => cover left (i + 1) (some id) c

end Coverage

/-! ## Rows -/

/-- The full record of a run. -/
structure Row where
  ordinal : Nat
  inputIndex : Nat
  schedule : Json
  execution : Option Json
  comparison : Option Json
  error : Option String
  category : Disposition

/-- A member that may be absent. -/
def optional (key : String) : Option Json → List (String × Json)
  | some value => [(key, value)]
  | none => []

def Row.toJson (r : Row) : Json :=
  .obj ([("category", .str r.category.name)] ++ optional "comparison" r.comparison ++
    optional "error" (r.error.map .str) ++ optional "execution" r.execution ++
    [("inputIndex", .int r.inputIndex), ("ordinal", .int r.ordinal), ("schedule", r.schedule)])

/-- A row of the result; over the byte budget the evidence is left out. -/
inductive Run where
  | full (row : Row)
  | omitted (ordinal : Nat) (category : Disposition)

def Run.ordinal : Run → Nat
  | full row => row.ordinal
  | omitted ordinal _ => ordinal

def Run.category : Run → Disposition
  | full row => row.category
  | omitted _ category => category

/-- A failure or a counterexample. -/
structure Finding where
  ordinal : Nat
  category : Disposition
  schedule : Json

/-! ## A run -/

/-- What a call of the runner comes to. -/
inductive Answer where
  | returns (sample : ExplorationSample)
  | throws (failure : Failure)

/-- One schedule with one input. -/
structure Candidate where
  schedule : Schedule
  inputIndex : Nat

/-- The result so far, with the counters of the loop. -/
structure Campaign where
  runs : List Run := []
  categories : List (String × Nat) := []
  firstCounterexample : Option Finding := none
  firstFailure : Option Finding := none
  comparisonRequested : Bool := false
  coverage : Coverage := {}
  executions : List String := []
  attempted : Nat := 0
  completed : Nat := 0
  bytes : Nat := 0
  comparisonRuns : Nat := 0
  stopReason : String
  halt : Bool := false

/-- An attempt behind its `try` block. -/
structure Examined where
  campaign : Campaign
  execution : Option Json := none
  comparison : Option Json := none
  cleanupKnown : Bool := false
  verdict : Except Failure Disposition

section
variable (lib : Libraries) (space : FiniteSpace)

/-- The observations of a run that has passed. -/
def credit (schedule : Schedule) (execution : Json) (c : Campaign) :
    Campaign × Except Failure Disposition :=
  let accepted : Except Itf.Thrown Json := do
    validateSuccess lib.toJsonLib execution schedule
    read (execution.field "observations")
  match accepted with
  | .error e => (c, .error (.exception (lib.said e)))
  | .ok observations =>
    match c.coverage.cover lib space observations observations.size 0 none with
    | (coverage, .error f) => ({ c with coverage }, .error f)
    | (coverage, .ok ()) => ({ c with coverage, completed := c.completed + 1 }, .ok .passed)

/-- A comparison is counted. -/
def Campaign.compare (c : Campaign) (comparison : Json) : Campaign :=
  if comparison.isNull then c
  else { c with comparisonRuns := c.comparisonRuns + 1, comparisonRequested := true }

/-- A category, where the model comparison it may need is there. -/
def demand (comparison : Json) (d : Disposition) : Disposition :=
  if space.requireModelComparison && comparison.isNull then .comparisonMissing else d

/-- A sample whose evidence is bound, by its category. -/
def judge (schedule : Schedule) (printed : Json) (sample : ExplorationSample) (d : Disposition)
    (c : Campaign) : Campaign × Except Failure Disposition :=
  let d := demand space sample.comparison d
  let c := c.compare sample.comparison
  if d = .passed then credit lib space schedule sample.execution c
  else if d = .modelMismatch ∧ c.firstCounterexample.isNone then
    ({ c with firstCounterexample := some ⟨c.attempted - 1, d, printed⟩ }, .ok d)
  else (c, .ok d)

/-- The `try` block of a run, on what the runner returns. -/
def examine (schedule : Schedule) (printed : Json) (sample : ExplorationSample) (c : Campaign) :
    Examined :=
  let row (known : Bool) (r : Campaign × Except Failure Disposition) : Examined :=
    { campaign := r.1
      execution := some sample.execution
      comparison := if sample.comparison.isNull then none else some sample.comparison
      cleanupKnown := known
      verdict := r.2 }
  let failed (c : Campaign) (known : Bool) (e : Itf.Thrown) :=
    row known (c, .error (.exception (lib.said e)))
  match bound lib space c.executions printed sample.execution with
  | .error e => failed c false e
  | .ok id =>
    let c := { c with executions := id :: c.executions }
    match cleanupKnown lib.toJsonLib sample.execution with
    | .error e => failed c false e
    | .ok known =>
      match category lib.toJsonLib sample.execution sample.comparison with
      | .error e => failed c known e
      | .ok d => row known (judge lib space schedule printed sample d c)

def attempt (schedule : Schedule) (printed : Json) (c : Campaign) : Answer → Examined
  | .returns sample => examine lib space schedule printed sample c
  | .throws f => { campaign := c, verdict := .error f }

/-! ## Its row -/

/-- The category of a run. -/
def disposition : Except Failure Disposition → Disposition
  | .ok d => d
  | .error (.length _) => .coverageFailed
  | .error _ => .runnerOrEvidenceFailed

/-- The text of its row's error. -/
def errorText : Except Failure Disposition → Option String
  | .ok _ => none
  | .error (.length what) => some what
  | .error (.exception what) => some (Text.firstBytes 1024 what)
  | .error .nonstandard => some "nonstandard runner failure"

/-- A failure of the coverage ends the campaign. -/
def Campaign.caught (c : Campaign) : Except Failure Disposition → Campaign
  | .error (.length _) => { c with stopReason := "coverage_limit", halt := true }
  | _ => c

/-- The category is counted, the first failure kept. -/
def Campaign.book (c : Campaign) (d : Disposition) (printed : Json) : Campaign :=
  { c with
    firstFailure :=
      if d ≠ .passed ∧ c.firstFailure.isNone then some ⟨c.attempted - 1, d, printed⟩
      else c.firstFailure
    categories := tally d.name c.categories }

def Examined.row (e : Examined) (inputIndex : Nat) (printed : Json) : Row where
  ordinal := e.campaign.attempted - 1
  inputIndex := inputIndex
  schedule := printed
  execution := e.execution
  comparison := e.comparison
  error := errorText e.verdict
  category := disposition e.verdict

def Campaign.stop (c : Campaign) (reason : String) : Campaign :=
  { c with stopReason := reason, halt := true }

/-- What follows the `try` block; `late` is the clock read at its end. A row that does not print
leaves the campaign by its outer `catch`. -/
def conclude (limits : ExplorationLimits) (late : Bool) (inputIndex : Nat) (printed : Json)
    (e : Examined) : Campaign × Option String :=
  let d := disposition e.verdict
  let c := (e.campaign.caught e.verdict).book d printed
  let row := e.row inputIndex printed
  match lib.dump row.toJson with
  | none => (c, some (lib.what .badUtf8))
  | some text =>
    if text.length > limits.maxEvidenceBytes - min c.bytes limits.maxEvidenceBytes then
      let omitted := Run.omitted (c.attempted - 1) d
      (Campaign.stop { c with runs := c.runs ++ [omitted] } "evidence_limit", none)
    else
      let c := { c with bytes := c.bytes + text.length, runs := c.runs ++ [.full row] }
      if c.halt then (c, none)
      else if !e.cleanupKnown then (c.stop "unconfirmed_cleanup", none)
      else if late then (c.stop "time_budget", none)
      else (c, none)

end

/-! ## The loop -/

/-- What the stop token and the clock say at the head of the loop, and again where the reason of a
stop is given; and the clock behind the run. -/
structure Readings where
  stop : Bool := false
  late : Bool := false
  stopAgain : Bool := false
  lateAgain : Bool := false
  lateAfter : Bool := false

/-- The reason to stop before a run; `spent`: there were as many as are allowed. -/
def Readings.interruption (r : Readings) (spent : Bool) : Option String :=
  if r.stop || r.late || spent then
    some (if r.stopAgain then "cancelled" else if r.lateAgain then "time_budget" else "run_limit")
  else none

/-- What a call of `explore_finite` meets: the runner, which answers its `k`-th call, and the
readings of stop token and clock at the visits of the enumeration and around the runs. -/
structure Surroundings where
  runner : Option (Nat → Schedule → Answer)
  visits : Nat → Option String
  readings : Nat → Readings

section
variable (lib : Libraries) (space : FiniteSpace) (limits : ExplorationLimits)
  (runner : Nat → Schedule → Answer) (readings : Nat → Readings)

/-- One candidate, not interrupted: the row of its run, or what leaves the campaign. -/
def runCandidate (c : Campaign) (candidate : Candidate) : Campaign × Option String :=
  match encodeSchedule lib.toJsonScan candidate.schedule with
  | .error what => (c, some what)
  | .ok text =>
    match lib.parse text with
    | none => (c, some (lib.what .syntaxError))
    | some printed =>
      let k := c.attempted
      let c := { c with attempted := k + 1 }
      conclude lib limits (readings k).lateAfter candidate.inputIndex printed.toJson
        (attempt lib space candidate.schedule printed.toJson c (runner k candidate.schedule))

def campaign : List Candidate → Campaign → Campaign × Option String
  | [], c => (c, none)
  | candidate :: rest, c =>
    match (readings c.attempted).interruption (decide (limits.maxRuns ≤ c.attempted)) with
    | some reason => (c.stop reason, none)
    | none =>
      match runCandidate lib space limits runner readings c candidate with
      | (c, some what) => (c, some what)
      | (c, none) => if c.halt then (c, none) else campaign rest c

end

/-- Every schedule with every input. -/
def candidates (space : FiniteSpace) (schedules : List (List Step)) : List Candidate :=
  schedules.flatMap fun steps =>
    space.inputs.zipIdx.map fun (input, k) => ⟨space.candidate steps input, k⟩

/-! ## `explore_finite` -/

inductive ExplorationStatus where
  | complete
  | incomplete
  | invalidDeclaration
  deriving DecidableEq, Repr

/-- The result, but for what it repeats of its arguments. -/
structure FiniteExploration where
  status : ExplorationStatus
  stopReason : String
  error : Option String := none
  complete : Bool := false
  enumerationExhausted : Bool := false
  denominatorKnown : Bool := false
  enumeratedScheduleShapes : Option Nat := none
  eligibleRunsLowerBound : Option Nat := none
  eligibleRuns : Option Nat := none
  attemptedRuns : Nat := 0
  completedRuns : Nat := 0
  comparisonRuns : Nat := 0
  comparisonRequested : Bool := false
  runs : List Run := []
  states : List (Nat × Json) := []
  transitions : List (Edge × Nat) := []
  categories : List (String × Nat) := []
  firstCounterexample : Option Finding := none
  firstFailure : Option Finding := none

/-- What leaves the campaign makes the declaration invalid. -/
def FiniteExploration.invalid (r : FiniteExploration) (what : String) : FiniteExploration :=
  { r with
    status := .invalidDeclaration
    stopReason := "invalid_declaration"
    error := some (Text.firstBytes 1024 what) }

/-- The result of a campaign over `eligible` candidates. -/
def report (enumeration : Enumeration) (eligible : Nat) (c : Campaign) (thrown : Option String) :
    FiniteExploration :=
  let r : FiniteExploration := {
    status := .incomplete
    stopReason := ""
    denominatorKnown := enumeration.exhausted
    enumeratedScheduleShapes := some enumeration.schedules.length
    eligibleRunsLowerBound := some eligible
    eligibleRuns := if enumeration.exhausted then some eligible else none
    comparisonRequested := c.comparisonRequested
    runs := c.runs
    states := c.coverage.listed
    categories := c.categories
    firstCounterexample := c.firstCounterexample
    firstFailure := c.firstFailure }
  match thrown with
  | some what => r.invalid what
  | none =>
    let exhausted := enumeration.exhausted && c.attempted == eligible
    let complete := exhausted && c.completed == eligible && !c.halt
    { r with
      transitions := c.coverage.transitions
      comparisonRuns := c.comparisonRuns
      attemptedRuns := c.attempted
      completedRuns := c.completed
      enumerationExhausted := exhausted
      complete := complete
      stopReason :=
        if c.stopReason ≠ "" then c.stopReason
        else if c.completed = eligible then "complete" else "non_pass_runs"
      status := if complete then .complete else .incomplete }

def exploreFinite (lib : Libraries) (space : FiniteSpace) (limits : ExplorationLimits)
    (s : Surroundings) : FiniteExploration :=
  match s.runner, declared lib.toJsonScan space limits s.runner.isSome with
  | some runner, .ok actors =>
    let enumeration :=
      enumerate actors space.maxPreemptions limits.maxEnumeratedSchedules s.visits
    let (c, thrown) := campaign lib space limits runner s.readings
      (candidates space enumeration.schedules) { stopReason := enumeration.stopReason }
    report enumeration (enumeration.schedules.length * space.inputs.length) c thrown
  | _, .error what => FiniteExploration.invalid { status := .incomplete, stopReason := "" } what
  | none, .ok _ => FiniteExploration.invalid { status := .incomplete, stopReason := "" } ""

end MirrorCpp.Exploration
