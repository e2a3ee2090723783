import MirrorCpp.Schedule.State
import MirrorCpp.Lib.Run

/-!
# Admission, the controller and the whole execution (`schedule.cpp`, `Execution`)

`Sys` is an execution: the shared state, the controller's own record (`Impl`), where every
worker thread and the controller stand. `step` is one critical section, chosen by `Choice`:
a worker's, the controller's, a call of the client, a cancellation, or the misuse of a hook by a
foreign thread. A choice also fixes the clock readings of its section (`late`: the deadline has
passed), what callbacks return, and whether a thread can be created. Nothing else is assumed of
the program, so the runs of `lts` are those of every program under every interleaving.
-/

namespace MirrorCpp.Schedule

/-! ## Declarations -/

structure Worker where
  actor : String
  /-- The function is callable. -/
  execute : Bool := true
  deriving DecidableEq, Repr

/-- What a factory returns: the workers, and whether the callbacks are set. -/
structure Program where
  workers : List Worker
  observe : Bool := true
  teardown : Bool := true
  deriving DecidableEq, Repr

/-- The text of a standard exception, `none` for any other. -/
abbrev Thrown := Option String

structure Adapter where
  identity : Identity
  actors : List ActorDeclaration
  checkpoints : List String
  /-- `none`: there is no callable factory. -/
  factory : Option (Except Thrown Program)

def hourMs : Int := 3600000

def validBudget (value : Int) : Bool := decide (0 < value ∧ value ≤ 24 * hourMs)

def Policy.valid (p : Policy) : Bool :=
  decide (0 < p.maxActors ∧ p.maxActors ≤ 64 ∧ 0 < p.maxSteps ∧ p.maxSteps ≤ 65536) &&
    validBudget p.executionTimeout && validBudget p.cleanupTimeout

/-! ## Admission -/

abbrev Refusal := Outcome × String

def invalid (condition : Bool) (why : String) : Except Refusal Unit :=
  if condition then .error (.invalidSchedule, why) else .ok ()

/-- The actors in order, each new and well named. -/
def admitActors (seen : List String) : List ActorDeclaration → Except Refusal Unit
  | [] => .ok ()
  | a :: as => do
    invalid (!identifier a.actor || !identifier a.operation || seen.contains a.actor)
      "invalid or duplicate logical actor"
    admitActors (a.actor :: seen) as

def admitCheckpoints (seen : List String) : List String → Except Refusal Unit
  | [] => .ok ()
  | c :: cs => do
    invalid (!identifier c || seen.contains c) "invalid or duplicate checkpoint declaration"
    admitCheckpoints (c :: seen) cs

/-- The steps in order; the result is the actors that are done. -/
def admitSteps (actors checkpoints done : List String) : List Step → Except Refusal (List String)
  | [] => .ok done
  | st :: sts => do
    invalid (!actors.contains st.actor || done.contains st.actor)
      "unknown actor or step after completion"
    if st.checkpoint = completion then admitSteps actors checkpoints (st.actor :: done) sts
    else do
      invalid (!checkpoints.contains st.checkpoint) "undeclared schedule checkpoint"
      admitSteps actors checkpoints done sts

/-- Two sets. -/
def sameSet (xs ys : List String) : Bool := xs.all ys.contains && ys.all xs.contains

/-- `Impl::admit`. -/
def admission (lib : JsonScan) (schedule : Schedule) (adapter : Adapter) (policy : Policy)
    (reentrant : Bool) : Except Refusal Unit := do
  invalid reentrant "scheduler callbacks cannot reenter scheduling"
  invalid (!policy.valid) "invalid execution policy bounds"
  invalid (schedule.schedulingProfile != profile || !schedule.identity.valid ||
    !adapter.identity.valid) "invalid profile or identity syntax"
  if schedule.identity != adapter.identity then
    .error (.incompatibleIdentity, "schedule and adapter identities differ")
  invalid (adapter.factory.isNone || adapter.actors.isEmpty ||
    decide (policy.maxActors < adapter.actors.length ∨
      policy.maxSteps < adapter.checkpoints.length ∨ policy.maxSteps < schedule.steps.length))
    "missing factory or actor/step bounds exceeded"
  match encodeSchedule lib schedule with
  | .error what => .error (.invalidSchedule, what)
  | .ok _ =>
    -- the inputs print: the whole schedule has just been printed
    invalid (decide (maxObservationBytes < (lib.dumpSize schedule.inputs).getD 0))
      "inputs exceed byte bound"
    admitActors [] adapter.actors
    admitCheckpoints [] adapter.checkpoints
    let actors := adapter.actors.map ActorDeclaration.actor
    let done ← admitSteps actors adapter.checkpoints [] schedule.steps
    invalid (!sameSet done actors) "every actor requires one terminal completion step"

/-! ## The execution -/

structure Impl where
  schedule : Schedule
  policy : Policy
  adapter : Adapter
  program : Program := ⟨[], false, false⟩
  observationBytes : Nat := 0
  constructed : Bool := false
  initialized : Bool := false
  closed : Bool := false
  nextStep : Nat := 0
  /-- `cancellation` is set: a stop request reaches the execution. -/
  registered : Bool := false
  teardownAttempted : Bool := false
  teardownFailed : Bool := false
  teardownDetail : String := ""
  /-- `threads[i].joinable()`, one entry for each started thread. -/
  threads : List Bool := []
  /-- Ghost: how often the program's teardown was called. -/
  teardowns : Nat := 0

/-- Which function called `observe`. -/
inductive Caller where
  | start
  | advance
  deriving DecidableEq, Repr

/-- Where the controller stands. -/
inductive Ctl where
  /-- In `start`, creating threads. -/
  | spawning
  | barrier
  /-- In the observer, with the lock held. -/
  | observer (k : Caller)
  | idle
  /-- In `advance`, waiting for actor `i` to leave the running phase. -/
  | permitted (i : Nat) (expected : String)
  | joining (i : Nat)
  /-- At the end of `advance`, the lock released. -/
  | returning
  /-- About to call `cleanup`. -/
  | entering
  | cleaning
  | cleanupJoin (i : Nat)
  | tearing
  | destroying
  | destroyTearing
  | destroyed
  deriving DecidableEq, Repr

structure Sys where
  state : Shared
  impl : Impl
  pcs : List Pc
  ctl : Ctl := .idle

namespace Sys

def pc (x : Sys) (i : Nat) : Pc := x.pcs.getD i .unborn

def setPc (x : Sys) (i : Nat) (p : Pc) : Sys := { x with pcs := x.pcs.set i p }

def joinable (x : Sys) (i : Nat) : Bool := x.impl.threads.getD i false

/-- The observer runs with the lock held. -/
def locked (x : Sys) : Bool :=
  match x.ctl with
  | .observer _ => true
  | _ => false

/-! ### `start` -/

/-- A word as the stream of `start` prints it, in eight hexadecimal digits. -/
def hexWord (w : UInt32) : List Char :=
  (List.range 8).reverse.map fun k => Nat.digitChar (w.toNat / 16 ^ k % 16)

/-- The arguments of `start`, and what the sequential part of it meets. -/
structure Opening where
  schedule : Schedule
  adapter : Adapter
  policy : Policy
  generation : Nat
  /-- The words `std::random_device` gives. -/
  random : Fin 4 → UInt32
  /-- `start` was called from a callback of a scheduler. -/
  reentrant : Bool := false
  /-- Stop was requested before the factory. -/
  stopped : Bool := false
  /-- Stop was requested during the factory. -/
  stoppedDuring : Bool := false
  /-- The deadline had passed behind the factory. -/
  late : Bool := false

def Opening.executionId (o : Opening) : String :=
  String.ofList ((List.ofFn o.random).flatMap hexWord)

/-- Collect the worker functions by actor; false where one is missing or repeated. -/
def collect (workers : List String) : List Worker → Bool × List String
  | [] => (true, workers)
  | w :: ws =>
    if !w.execute || workers.contains w.actor then (false, (collect workers ws).2)
    else collect (workers ++ [w.actor]) ws

/-- The checks of the program the factory returned. -/
def checkProgram (s : Shared) (p : Program) : Shared :=
  let (ok, workers) := collect [] p.workers
  let s := if ok then s
    else s.fail .applicationFailed "missing worker function or duplicate worker identity"
  let s := if workers.length != s.actors.length || !p.observe || !p.teardown then
      s.fail .applicationFailed "factory worker set, observer or teardown missing" else s
  if s.actors.all fun a => workers.contains a.declaration.actor then s
  else s.fail .applicationFailed "factory omitted declared actor"

/-- An execution without threads. -/
def unstarted (s : Shared) (impl : Impl) (ctl : Ctl := .idle) : Sys :=
  ⟨s, impl, s.actors.map fun _ => .unborn, ctl⟩

/-- `start` from the admission of the schedule to the creation of the threads. -/
def admitted (o : Opening) (s : Shared) (impl : Impl) : Sys :=
  let s : Shared := { s with
    actors := o.adapter.actors.map fun d => { declaration := d }
    checkpoints := o.adapter.checkpoints
    cancelled := o.stopped }
  let impl := { impl with registered := true }
  if s.cancelled then
    unstarted (s.fail .cancelled "cancelled before application construction") impl
  else match o.adapter.factory with
    | none => unstarted s impl -- refused by the admission
    | some (.error what) =>
      unstarted (s.fail .applicationFailed (what.getD "nonstandard factory exception")) impl
    | some (.ok program) =>
      let impl := { impl with program, constructed := true }
      let s := checkProgram { s with cancelled := o.stoppedDuring } program
      let s := if s.cancelled then s.fail .cancelled "cancelled during construction" else s
      let s := if o.late then s.fail .timedOut "construction exceeded execution deadline" else s
      unstarted s impl (if s.failed then .entering else .spawning)

/-- `start` up to the creation of the threads. -/
def start (lib : JsonScan) (o : Opening) : Sys :=
  let s : Shared := { report := { generation := o.generation, executionId := o.executionId } }
  let impl : Impl := { schedule := o.schedule, policy := o.policy, adapter := o.adapter }
  match admission lib o.schedule o.adapter o.policy o.reentrant with
  | .error (outcome, detail) => unstarted (s.fail outcome detail) impl
  | .ok () => admitted o s impl

/-- The thread loop; a thread that cannot be created ends it. -/
def spawn (x : Sys) (refused : Option String) : Sys :=
  let k := x.impl.threads.length
  match refused with
  | some what => { x with state := x.state.fail .resourceFailed what, ctl := .barrier }
  | none => { x.setPc k .born with
      impl := { x.impl with threads := x.impl.threads ++ [true] }
      ctl := if k + 1 = x.state.actors.length then .barrier else .spawning }

/-- A wait of the controller ends where its predicate holds, or on a failure, a cancellation or
the deadline. -/
def waitOver (s : Shared) (predicate late : Bool) : Bool :=
  s.failed || s.cancelled || predicate || late

/-- The end of the initial barrier's wait. -/
def passBarrier (x : Sys) (late : Bool) : Sys :=
  let s := x.state.settle late
  { x with state := s, ctl := if s.failed then .entering else .observer .start }

/-! ### `observe` -/

/-- Retain what the observer did. -/
def retain (lib : JsonLib) (x : Sys) (value : Except Thrown Json) : Sys :=
  let refused (what : String) := { x with state := x.state.fail .observationFailed what }
  match value with
  | .error what => refused (what.getD "nonstandard observer exception")
  | .ok value =>
    if !plainJson value then refused "observation must be bounded plain JSON"
    else match lib.dumpSize value with
      | none => refused (lib.what .badUtf8)
      | some bytes =>
        if bytes > maxObservationBytes ∨ x.impl.observationBytes + bytes > 8 * maxArtifactBytes then
          refused "observations exceed byte bound"
        else { x with
          impl := { x.impl with observationBytes := x.impl.observationBytes + bytes }
          state := { x.state with report := { x.state.report with
            observations := x.state.report.observations ++ [⟨x.impl.nextStep, value⟩] } } }

/-- `start` from the return of the observer on. -/
def startObserved (x : Sys) (late : Bool) : Sys :=
  let s := x.state.settle late
  { x with
    state := s
    impl := { x.impl with initialized := !s.failed }
    ctl := if s.failed then .entering else .idle }

/-- `advance` from the return of the observer on. -/
def advanceObserved (x : Sys) (late : Bool) : Sys :=
  let s := x.state.settle late
  let s := if !s.failed && x.impl.nextStep == x.impl.schedule.steps.length then
    { s with report := { s.report with scheduleCompleted := true } } else s
  { x with state := s, ctl := .returning }

def observed (lib : JsonLib) (x : Sys) (k : Caller) (value : Except Thrown Json) (late : Bool) :
    Sys :=
  match k with
  | .start => (x.retain lib value).startObserved late
  | .advance => (x.retain lib value).advanceObserved late

/-! ### `advance` -/

/-- The first actor of this name. -/
def find (s : Shared) (actor : String) : Nat :=
  s.actors.findIdx fun a => a.declaration.actor == actor

/-- Why `advance` refuses a step it could take in this state of its life. -/
def refusal (x : Sys) (requested : Step) (late : Bool) : Option Refusal :=
  if x.state.cancelled then some (.cancelled, "execution cancelled")
  else if late then some (.timedOut, "execution deadline exceeded")
  else if x.impl.schedule.steps[x.impl.nextStep]? ≠ some requested then
    some (.invalidSchedule, "callback interval differs from the admitted schedule")
  else if (x.state.actor (find x.state requested.actor)).phase ≠ .parked then
    some (.unexpectedCheckpoint, "selected actor is not parked")
  else none

/-- Grant a permit to the actor. -/
def permit (s : Shared) (index i : Nat) : Shared :=
  let a := s.actor i
  (s.event .permit index a a.checkpoint).setActor i { a with arrival := none, phase := .running }

/-- `advance` throws here, and does nothing. -/
def cannotAdvance (x : Sys) : Bool :=
  !x.impl.initialized || x.impl.closed || x.state.failed || x.state.report.scheduleCompleted

/-- `Execution::advance` up to its wait. -/
def advance (x : Sys) (requested : Step) (late : Bool) : Sys :=
  if x.cannotAdvance then x
  else match x.refusal requested late with
    | some (outcome, detail) => { x with state := x.state.fail outcome detail, ctl := .returning }
    | none =>
      let i := find x.state requested.actor
      { x with
        state := permit x.state x.impl.nextStep i
        ctl := .permitted i requested.checkpoint }

/-- The arrival of an actor becomes an event. -/
def recordArrival (s : Shared) (index i : Nat) : Shared :=
  let a := s.actor i
  match a.arrival with
  | some checkpoint => s.event .arrival index a checkpoint
  | none => s

/-- `advance` after its wait. -/
def permitWake (x : Sys) (i : Nat) (expected : String) (late : Bool) : Sys :=
  let s := recordArrival (x.state.settle late) x.impl.nextStep i
  let a := s.actor i
  if s.failed then { x with state := s, ctl := .returning }
  else if a.checkpoint ≠ expected then { x with
    state := s.fail .unexpectedCheckpoint
      ("expected " ++ expected ++ ", arrived at " ++ a.checkpoint)
    ctl := .returning }
  else if a.phase = .finished then { x with state := s, ctl := .joining i }
  else { x with
    state := s
    impl := { x.impl with nextStep := x.impl.nextStep + 1 }
    ctl := .observer .advance }

/-- `threads[i].join()` has returned. -/
def joined (x : Sys) (i : Nat) : Sys :=
  { x with impl := { x.impl with threads := x.impl.threads.set i false } }

def markJoined (s : Shared) (i : Nat) : Shared := s.setActor i { s.actor i with joined := true }

/-- `advance` after the completion join. -/
def advanceJoined (x : Sys) (i : Nat) : Sys :=
  let x := x.joined i
  { x with
    state := markJoined x.state i
    impl := { x.impl with nextStep := x.impl.nextStep + 1 }
    ctl := .observer .advance }

/-! ### `finish`, `cleanup` and the destructor -/

/-- `Execution::finish` up to its call of `cleanup`. -/
def finish (x : Sys) : Sys :=
  if x.impl.closed || !x.impl.constructed then x
  else { x with
    state := if !x.impl.initialized || !x.state.report.scheduleCompleted then
        x.state.fail .invalidSchedule "finish requires the complete admitted schedule"
      else x.state
    ctl := .entering }

/-- `Execution::cleanup` up to its wait; a bad budget makes it throw. -/
def cleanup (x : Sys) (timeout : Int) : Sys :=
  if !validBudget timeout then { x with ctl := .idle }
  else
    let impl := { x.impl with closed := true }
    if !x.impl.constructed then { x with impl, ctl := .idle }
    else { x with
      impl
      state := { x.state with stopping := true, cancelled := true }
      ctl := .cleaning }

/-- The wait of `cleanup` ends when every started worker has finished. -/
def ended (x : Sys) : Bool :=
  (List.range x.impl.threads.length).all fun i => (x.state.actor i).phase == .finished

/-- The names of the threads that were not joined. -/
def remaining (x : Sys) : List String :=
  ((List.range x.impl.threads.length).filter x.joinable).map fun i =>
    (x.state.actor i).declaration.actor

/-- The end of `cleanup`. -/
def cleanupEnd (x : Sys) : Sys :=
  let r := x.state.report
  let cleanup : Cleanup := if r.remainingActors ≠ [] then .incomplete
    else if x.impl.teardownFailed then .teardownFailed else .confirmed
  { x with
    state := { x.state with report := { r with
      cleanup
      cleanupAttempts :=
        r.cleanupAttempts ++ [⟨cleanup, r.remainingActors, x.impl.teardownDetail⟩] } }
    ctl := .idle }

/-- The program's teardown is called, if there is one. -/
def callTeardown (x : Sys) : Sys :=
  if x.impl.program.teardown then
    { x with impl := { x.impl with teardowns := x.impl.teardowns + 1 } }
  else x

/-- `cleanup` after its joins. -/
def cleanupRest (x : Sys) : Sys :=
  let x := { x with state := { x.state with report :=
    { x.state.report with remainingActors := x.remaining } } }
  if x.remaining = [] ∧ x.impl.teardownAttempted = false then
    { x with impl := { x.impl with teardownAttempted := true }, ctl := .tearing }.callTeardown
  else x.cleanupEnd

/-- Whether the loop of `cleanup` joins this thread. -/
def mayJoin (x : Sys) (i : Nat) : Bool :=
  (x.state.actor i).phase == .finished && x.joinable i

/-- The loop of `cleanup` from index `k` to its next join. -/
def cleanupScan (x : Sys) (k : Nat) : Sys :=
  match (List.range x.impl.threads.length).find? fun i => decide (k ≤ i) && x.mayJoin i with
  | some i => { x with ctl := .cleanupJoin i }
  | none => x.cleanupRest

def cleanupJoined (x : Sys) (i : Nat) : Sys :=
  let x := x.joined i
  { x with state := markJoined x.state i }.cleanupScan (i + 1)

/-- `cleanup` after the teardown (`some`: it threw); a missing one counts as thrown. -/
def cleanupTorn (x : Sys) (threw : Option Thrown) : Sys :=
  let threw := if x.impl.program.teardown then threw
    else some (some "adapter omitted explicit teardown")
  let x := match threw with
    | none => x
    | some what => { x with impl := { x.impl with
        teardownFailed := true
        teardownDetail := what.elim "nonstandard teardown exception" (Text.firstBytes 1024) } }
  x.cleanupEnd

/-- `~Execution` up to its joins. -/
def destroy (x : Sys) : Sys :=
  { x with state := { x.state with stopping := true, cancelled := true }, ctl := .destroying }

/-- `~Execution` after its joins. -/
def destroyEnd (x : Sys) : Sys :=
  if x.impl.constructed && !x.impl.teardownAttempted && x.impl.program.teardown then
    { x with ctl := .destroyTearing }.callTeardown
  else { x with ctl := .destroyed }

end Sys

/-! ## Steps -/

/-- One critical section and how its choices fall. -/
inductive Choice where
  -- the client, on an idle controller
  | advance (requested : Step) (late : Bool)
  | finish
  | cleanup (timeout : Int)
  | destroy
  -- the controller
  | spawn (refused : Option String)
  | barrier (late : Bool)
  | observed (value : Except Thrown Json) (late : Bool)
  | permitted (late : Bool)
  | joined
  | leave
  | enter
  | cleanupWake (late : Bool)
  | cleanupJoined
  | cleanupTorn (threw : Option Thrown)
  | destroyJoin
  | destroyEnd
  | destroyTorn
  -- worker `i`
  | register (i : Nat)
  | wake (i : Nat)
  | user (i : Nat) (c : Call)
  | stop (i : Nat)
  | arrive (i : Nat)
  | caught (i : Nat)
  | close (i : Nat)
  -- a stop request, and a foreign thread at the hook of actor `i`
  | cancel
  | foreign (i k : Nat) (checkpoint : String)

namespace Sys

/-- A worker's own critical section. User code and `stop_requested` take no lock. -/
def workerStep (x : Sys) (i : Nat) : Choice → Option Sys
  | .register _ =>
    match x.pc i with
    | .born => if x.locked then none
        else some ({ x with state := x.state.register i }.setPc i (.waiting .start))
    | _ => none
  | .wake _ =>
    match x.pc i with
    | .waiting f => if x.locked || !x.state.canWake i then none
        else some (x.setPc i (if x.state.stopping then f.onStop else .user .returned))
    | _ => none
  | .user _ c =>
    match x.pc i with
    | .user _ => some (x.setPc i c.pc)
    | _ => none
  | .stop _ =>
    match x.pc i with
    | .asking => some (x.setPc i (.user (.flag x.state.cancelled)))
    | _ => none
  | .arrive _ =>
    match x.pc i with
    | .arriving checkpoint => if x.locked then none
        else
          let (parked, s) := x.state.arrive (.worker i) i checkpoint
          some ({ x with state := s }.setPc i (if parked then .waiting .body else .user .threw))
    | _ => none
  | .caught _ =>
    match x.pc i with
    | .caught what => if x.locked then none
        else some ({ x with state := x.state.workerThrew what }.setPc i .closing)
    | _ => none
  | .close _ =>
    match x.pc i with
    | .closing => if x.locked then none
        else some ({ x with state := x.state.finishWorker i }.setPc i .closed)
    | _ => none
  | _ => none

def step (lib : JsonLib) (x : Sys) (c : Choice) : Option Sys :=
  match c with
  | .advance requested late => if x.ctl = .idle then some (x.advance requested late) else none
  | .finish => if x.ctl = .idle then some x.finish else none
  | .cleanup timeout => if x.ctl = .idle then some (x.cleanup timeout) else none
  | .destroy => if x.ctl = .idle then some x.destroy else none
  | .spawn refused => if x.ctl = .spawning then some (x.spawn refused) else none
  | .barrier late =>
    if x.ctl = .barrier ∧ waitOver x.state x.state.allParked late then some (x.passBarrier late)
    else none
  | .observed value late =>
    match x.ctl with
    | .observer k => some (x.observed lib k value late)
    | _ => none
  | .permitted late =>
    match x.ctl with
    | .permitted i expected =>
      if waitOver x.state ((x.state.actor i).phase != .running) late then
        some (x.permitWake i expected late)
      else none
    | _ => none
  | .joined =>
    match x.ctl with
    | .joining i => if x.pc i = .closed then some (x.advanceJoined i) else none
    | _ => none
  | .leave =>
    if x.ctl = .returning then
      some { x with ctl := if x.state.failed then .entering else .idle }
    else none
  | .enter => if x.ctl = .entering then some (x.cleanup x.impl.policy.cleanupTimeout) else none
  | .cleanupWake late =>
    if x.ctl = .cleaning ∧ (x.ended || late) then some (x.cleanupScan 0) else none
  | .cleanupJoined =>
    match x.ctl with
    | .cleanupJoin i => if x.pc i = .closed then some (x.cleanupJoined i) else none
    | _ => none
  | .cleanupTorn threw => if x.ctl = .tearing then some (x.cleanupTorn threw) else none
  | .destroyJoin =>
    match x.impl.threads.findIdx? id with
    | some i => if x.ctl = .destroying ∧ x.pc i = .closed then some (x.joined i) else none
    | none => none
  | .destroyEnd =>
    if x.ctl = .destroying ∧ x.impl.threads.all (!·) then some x.destroyEnd else none
  | .destroyTorn => if x.ctl = .destroyTearing then some { x with ctl := .destroyed } else none
  | .register i | .wake i | .user i _ | .stop i | .arrive i | .caught i | .close i =>
    if i < x.pcs.length then x.workerStep i c else none
  | .cancel =>
    if x.impl.registered then some { x with state := { x.state with cancelled := true } } else none
  | .foreign i k checkpoint =>
    if i < x.pcs.length ∧ x.locked = false then
      some { x with state := (x.state.arrive (.other k) i checkpoint).2 }
    else none

end Sys

/-- Executions of any program: they begin after the sequential part of `start`. -/
def lts (lib : JsonScan) : Lts Sys Choice where
  init x := ∃ o, x = Sys.start lib o
  step := Sys.step lib.toJsonLib

end MirrorCpp.Schedule
