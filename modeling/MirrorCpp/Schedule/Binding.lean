import MirrorCpp.Schedule.Receipt
import MirrorCpp.Client.Negotiated

/-!
# Binding sessions (`schedule_binding.cpp`, `BindingSession`)

A session starts executions of one schedule one after another and keeps their receipts. A
`Binding` is a session with the call it is in. Between the critical sections of a call its
execution moves by the steps of `Sys.step`, but for those that are calls: these only the session
makes. A call that reads a report reads it when the execution's own call has returned, or later.
-/

namespace MirrorCpp.Schedule

open Protocol
open Client (Exn)
open Interface (miError)

def maxExecutions : Nat := 64

def maxReceiptBytes : Nat := 16 * 1048576

def cleanupError (text : String) : Error := miError "schedule_cleanup_failed" text

def scheduleError (code : String) (r : Report) : Exn :=
  .binding code (r.outcome.name ++ ": " ++ r.detail)

def lifecycleInvalid (message : String) : Exn := .binding "schedule_lifecycle_invalid" message

/-- The record in place of a receipt that does not fit. -/
def boundExceeded : Json :=
  .obj [("evidenceError", .str "receipt_byte_bound_exceeded"), ("passed", .bool false)]

/-- A retained record: the execution it was made from, and whether its receipt fitted. -/
structure Entry where
  source : Sys
  fits : Bool

namespace Entry

def json (e : Entry) : Json := if e.fits then e.source.receipt else boundExceeded

def generation (e : Entry) : Nat := e.source.generation

/-- The bytes of the receipt, if it was retained. -/
def size (lib : JsonLib) (e : Entry) : Nat := if e.fits then lib.len e.source.receipt else 0

end Entry

structure BindingSession where
  schedule : Schedule
  /-- Each start calls its factory anew; the value of the field does not count. -/
  adapter : Adapter
  policy : Policy
  execution : Option Sys := none
  executions : List Json := []
  receiptBytes : Nat := 0
  initializations : Nat := 0
  disposals : Nat := 0
  disposed : Bool := false
  retained : Bool := false
  receiptComplete : Bool := true
  disposal : Result Unit := .ok ()
  /-- Ghost: where `executions` come from. -/
  entries : List Entry := []
  /-- Ghost: the generations that were started. -/
  generations : List Nat := []
  /-- Ghost: what `finish` reported of those that were replaced. -/
  released : List Report := []
  /-- Ghost: how often `start_schedule` threw. -/
  lost : Nat := 0

namespace BindingSession

/-- `require_live` does not throw. -/
def live (s : BindingSession) : Bool := !s.disposed && s.execution.isSome

/-- Keep a record of the execution. -/
def keep (s : BindingSession) (e : Entry) : BindingSession :=
  { s with executions := s.executions ++ [e.json], entries := s.entries ++ [e], retained := true }

/-- `retain`; the exception is that of `dump`. -/
def retain (lib : JsonLib) (s : BindingSession) : Except Exn BindingSession :=
  match s.execution with
  | none => .ok s
  | some x =>
    if s.retained then .ok s
    else match lib.dumpSize x.receipt with
      | none => .error (.std (lib.what .badUtf8))
      | some bytes =>
        if maxReceiptBytes < s.receiptBytes + bytes then
          .ok { s.keep ⟨x, false⟩ with receiptComplete := false }
        else .ok { s.keep ⟨x, true⟩ with receiptBytes := s.receiptBytes + bytes }

/-- The part of `initialize` before the start. -/
def begin (s : BindingSession) : BindingSession :=
  { s with execution := none, initializations := s.initializations + 1, retained := false }

/-- `observation`. -/
def observation (s : BindingSession) : Except Exn Json :=
  match s.live, s.execution with
  | true, some x =>
    let r := x.state.report
    match r.outcome, r.observations.getLast? with
    | .completed, some o => .ok o.state
    | _, _ => .error (scheduleError "schedule_observation_unavailable" r)
  | _, _ => .error (lifecycleInvalid "binding session is not live")

/-- The records, and one of an execution that is not retained yet. -/
def records (lib : JsonLib) (s : BindingSession) : Except Exn (List Json) :=
  match s.execution with
  | none => .ok s.executions
  | some x =>
    if s.retained then .ok s.executions
    else match lib.dumpSize x.receipt with
      | none => .error (.std (lib.what .badUtf8))
      | some bytes => .ok <| s.executions ++
          [if s.receiptBytes + bytes ≤ maxReceiptBytes then x.receipt else boundExceeded]

/-- `receipt`. -/
def receipt (lib : JsonLib) (s : BindingSession) : Except Exn Json := do
  let records ← s.records lib
  return .obj [("disposals", .int s.disposals), ("disposed", .bool s.disposed),
    ("executions", .arr records), ("initializations", .int s.initializations),
    ("receiptComplete", .bool s.receiptComplete), ("schema", .str "mirrors.scheduled-binding/v1")]

/-- A record says that its execution passed. -/
def passedRecord (lib : JsonLib) (item : Json) : Bool :=
  match item.field? "passed" with
  | some v => lib.eq v (.bool true)
  | none => false

/-- `fully_completed`. -/
def fullyCompleted (lib : JsonLib) (s : BindingSession) : Bool :=
  s.disposed && s.initializations != 0 && s.receiptComplete && s.disposal.isOk &&
    !s.executions.isEmpty && s.executions.all (passedRecord lib)

end BindingSession

/-! ## Calls -/

/-- Where a session stands. -/
inductive Point where
  | idle
  /-- In `initialize`, in the `finish` of the prior execution. -/
  | finishing
  | finished (prior : Report)
  /-- In `initialize`, about to start. -/
  | opening
  | starting
  | advancing
  /-- In `dispose`, in the last call of the execution. -/
  | disposing
  | wound (after : Report)

/-- What a call came to. -/
inductive Answer where
  | initialized (r : Except Exn Unit)
  | advanced (r : Except Exn Unit)
  | observed (r : Except Exn Json)
  | inspected (r : Except Exn Json)
  | disposed (r : Result Unit)

structure Binding where
  session : BindingSession
  point : Point := .idle
  /-- `next_generation`, which all executions of the process share. -/
  nextGeneration : Nat := 1
  /-- Ghost: what the calls came to, in order. -/
  answers : List Answer := []

/-- What `start_schedule` meets. -/
structure Starting where
  /-- What the factory does. -/
  factory : Except Thrown Program
  /-- Generations other executions took since the last start. -/
  skipped : Nat := 0
  /-- The words `std::random_device` gives. -/
  random : Fin 4 → UInt32
  reentrant : Bool := false
  stopped : Bool := false
  stoppedDuring : Bool := false
  late : Bool := false

/-- `owner`: the thread is that of the execution, and outside the callbacks of a scheduler. -/
inductive Act where
  -- a call, while the session is in none
  | initialize_ (owner : Bool)
  | advance (requested : Step) (owner late : Bool)
  | observation
  | receipt
  | dispose (owner : Bool)
  -- within a call
  | start (st : Starting)
  | startThrew (e : Exn)
  | proceed
  -- a step of the execution
  | inner (c : Choice)

/-- A choice that is a call of the client. -/
def Choice.isCall : Choice → Bool
  | .advance _ _ | .finish | .cleanup _ | .destroy => true
  | _ => false

namespace Binding

/-- Return from a call. -/
def answer (b : Binding) (s : BindingSession) (a : Answer) : Binding :=
  { b with session := s, point := .idle, answers := b.answers ++ [a] }

/-- The session behind a call of its execution. -/
def during (b : Binding) (x : Sys) (p : Point) : Binding :=
  { b with session := { b.session with execution := some x }, point := p }

/-- `initialize` up to its call of `finish`, or up to the start. -/
def initialize_ (b : Binding) (owner : Bool) : Binding :=
  let s := b.session
  let threw (e : Exn) := b.answer s (.initialized (.error e))
  if s.disposed || decide (maxExecutions ≤ s.initializations) then
    threw (lifecycleInvalid "binding initialization limit or disposed session")
  else match s.execution with
    | none => { b with session := s.begin, point := .opening }
    | some x =>
      if owner then b.during x.finish .finishing
      else threw (.std "finish requires the owning controller outside scheduler callbacks")

/-- `initialize` behind `finish`. -/
def replace (lib : JsonLib) (b : Binding) (prior : Report) : Binding :=
  let threw (s : BindingSession) (e : Exn) := b.answer s (.initialized (.error e))
  match b.session.retain lib with
  | .error e => threw b.session e
  | .ok s =>
    if !prior.passed || !s.receiptComplete then
      threw s (.binding "schedule_previous_incomplete"
        "previous execution did not complete and clean up")
    -- `finish` has joined every thread and called teardown: the destructor finds nothing to do
    else { b with
      session := { s.begin with released := s.released ++ [prior] }
      point := .opening }

/-- What `start_schedule` is given. -/
def opening (b : Binding) (st : Starting) : Sys.Opening where
  schedule := b.session.schedule
  adapter := { b.session.adapter with factory := b.session.adapter.factory.map fun _ => st.factory }
  policy := b.session.policy
  generation := b.nextGeneration + st.skipped
  random := st.random
  reentrant := st.reentrant
  stopped := st.stopped
  stoppedDuring := st.stoppedDuring
  late := st.late

def start (lib : JsonScan) (b : Binding) (st : Starting) : Binding :=
  let o := b.opening st
  { b with
    session := { b.session with
      execution := some (Sys.start lib o)
      generations := b.session.generations ++ [o.generation] }
    point := .starting
    nextGeneration := o.generation + 1 }

/-- Nothing was assigned to the pointer that the session had reset. -/
def startThrew (b : Binding) (e : Exn) : Binding :=
  b.answer { b.session with lost := b.session.lost + 1 } (.initialized (.error e))

/-- A report that must not be a failure. -/
def checked (code : String) (r : Report) : Except Exn Unit :=
  if r.outcome = .completed then .ok () else .error (scheduleError code r)

/-- `advance` up to the return of the execution's. -/
def advance (b : Binding) (requested : Step) (owner late : Bool) : Binding :=
  let threw (e : Exn) := b.answer b.session (.advanced (.error e))
  match b.session.live, b.session.execution with
  | true, some x =>
    if !owner then
      threw (.std "advance requires the owning controller outside scheduler callbacks")
    else if x.cannotAdvance then
      threw (.std "execution cannot advance in its current lifecycle")
    else b.during (x.advance requested late) .advancing
  | _, _ => threw (lifecycleInvalid "binding session is not live")

/-- `dispose` up to the return of the execution's last call. -/
def dispose (b : Binding) (owner : Bool) : Binding :=
  if b.session.disposed then b.answer b.session (.disposed b.session.disposal)
  else
    let s := { b.session with disposed := true, disposals := b.session.disposals + 1 }
    let failed (what : String) :=
      b.answer { s with disposal := .error (cleanupError what) }
        (.disposed (.error (cleanupError what)))
    match s.execution with
    | none => b.answer s (.disposed s.disposal)
    | some x =>
      if x.state.report.scheduleCompleted then
        if owner then { b with session := s }.during x.finish .disposing
        else failed "finish requires the owning controller outside scheduler callbacks"
      else if !owner then failed "cleanup requires the owning controller outside callbacks"
      else if !validBudget s.policy.cleanupTimeout then failed "invalid cleanup budget"
      else { b with session := s }.during (x.cleanup s.policy.cleanupTimeout) .disposing

/-- `what()`. -/
def what : Exn → String
  | .binding _ message => message
  | .std text => text
  | .unknown => "nonstandard scheduled disposal failure"

/-- `dispose` behind the execution's last call. -/
def conclude (lib : JsonLib) (b : Binding) (after : Report) : Binding :=
  let closed (s : BindingSession) (r : Result Unit) :=
    b.answer { s with disposal := r } (.disposed r)
  match b.session.retain lib with
  | .error e => closed b.session (.error (cleanupError (what e)))
  | .ok s =>
    if after.cleanup ≠ .confirmed then closed s (.error (cleanupError after.cleanup.name))
    else if !s.receiptComplete then closed s
      (.error (cleanupError "schedule receipt limit exceeded"))
    else closed s s.disposal

/-- A call goes on when its execution's call has returned. -/
def proceed (lib : JsonLib) (b : Binding) : Option Binding :=
  match b.point with
  | .finished prior => some (b.replace lib prior)
  | .wound after => some (b.conclude lib after)
  | _ =>
    match b.session.execution with
    | none => none
    | some x =>
      let r := x.state.report
      if x.ctl ≠ .idle then none
      else match b.point with
        | .finishing => some { b with point := .finished r }
        | .starting =>
          some (b.answer b.session (.initialized (checked "schedule_admission_failed" r)))
        | .advancing =>
          some (b.answer b.session (.advanced (checked "schedule_interval_failed" r)))
        | .disposing => some { b with point := .wound r }
        | _ => none

def step (lib : JsonScan) (b : Binding) : Act → Option Binding
  | .initialize_ owner =>
    match b.point with
    | .idle => some (b.initialize_ owner)
    | _ => none
  | .advance requested owner late =>
    match b.point with
    | .idle => some (b.advance requested owner late)
    | _ => none
  | .observation =>
    match b.point with
    | .idle => some (b.answer b.session (.observed b.session.observation))
    | _ => none
  | .receipt =>
    match b.point with
    | .idle => some (b.answer b.session (.inspected (b.session.receipt lib.toJsonLib)))
    | _ => none
  | .dispose owner =>
    match b.point with
    | .idle => some (b.dispose owner)
    | _ => none
  | .start st =>
    match b.point with
    | .opening => some (b.start lib st)
    | _ => none
  | .startThrew e =>
    match b.point with
    | .opening => some (b.startThrew e)
    | _ => none
  | .proceed => b.proceed lib.toJsonLib
  | .inner c =>
    match b.session.execution with
    | some x => if c.isCall then none else (x.step lib.toJsonLib c).map (b.during · b.point)
    | none => none

end Binding

/-- The runs of a new session. -/
def bindings (lib : JsonScan) : Lts Binding Act where
  init b := ∃ schedule adapter policy nextGeneration,
    b = { session := { schedule, adapter, policy }, nextGeneration }
  step := Binding.step lib

end MirrorCpp.Schedule
