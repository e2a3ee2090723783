import MirrorCpp.Client.Stepping
import MirrorCpp.Lib.Run

/-!
# Exploration sessions (`ExploreSession`, `client.cpp`)

A session owns its transport, named by `κ`; a moved-from one owns none. An operation calls the
transport at most three times: a send, a receive, a close. What the transport answers to these is
the operation's `Answers`; its `Outcome` is the session it leaves, the traffic and the result.
-/

namespace MirrorCpp.Client

open Itf Protocol

/-! ## Sessions -/

structure Ready where
  initTransitions : Int
  nextTransitions : Int
  stateInvariants : Int
  deriving DecidableEq, Repr

structure Session (κ : Type) where
  transport : Option κ
  ready : Ready
  guard : Phase
  done : Bool := false

/-- What the transport answers to the calls of one operation. -/
structure Answers where
  send : Option Error
  recv : Reply
  close : Option Error

inductive Traffic where
  | send (line : String)
  | recv (reply : Reply)
  | close

/-- What an operation leaves; the outer `Except` of the result is an exception. -/
structure Outcome (κ α : Type) where
  session : Session κ
  traffic : List Traffic
  result : Except Exn (Result α)

namespace Session

variable {κ α : Type} (lib : Library) (s : Session κ) (a : Answers)

/-- No transport, or done with it. -/
def isClosed : Bool := s.transport.isNone || s.done

def poison : Session κ := { s with done := true }

/-- Poison the session and return an error, after some traffic. -/
def abort (ts : List Traffic) (e : Error) : Outcome κ α :=
  ⟨s.poison, ts ++ [.close], .ok (.error e)⟩

/-- `command`: guard, send, receive. -/
def command (msg : ClientMessage) : Outcome κ MirrorMessage :=
  if s.isClosed then
    ⟨s, [], .ok (.error { kind := .io, message := "ExploreSession: session is closed" })⟩
  else match s.guard.sent msg with
    | .error e => s.abort [] e
    | .ok guard =>
      let s := { s with guard }
      match lib.encode msg with
      | none => ⟨s, [], .error (.std lib.dumpWhat)⟩
      | some line =>
        match a.send with
        | some e => s.abort [.send line] e
        | none =>
          let ts := [.send line, .recv a.recv]
          match a.recv with
          | .error e => s.abort ts e
          | .ok text =>
            match lib.decode text with
            | .error x => ⟨s, ts, .error (.std (lib.escapeWhat x))⟩
            | .ok (.error e) => s.abort ts e
            | .ok (.ok (.protocolError error)) =>
              s.abort ts { kind := .protocol, message := error }
            | .ok (.ok m) =>
              match s.guard.received m with
              | .error e => s.abort ts e
              | .ok guard => ⟨{ s with guard }, ts, .ok (.ok m)⟩

/-- A command whose reply is read by `pick`; any other reply poisons the session. -/
def ask (msg : ClientMessage) (expected : String) (pick : MirrorMessage → Option α) :
    Outcome κ α :=
  let r := s.command lib a msg
  match r.result with
  | .error x => ⟨r.session, r.traffic, .error x⟩
  | .ok (.error e) => ⟨r.session, r.traffic, .ok (.error e)⟩
  | .ok (.ok m) =>
    match pick m with
    | some v => ⟨r.session, r.traffic, .ok (.ok v)⟩
    | none => r.session.abort r.traffic (unexpectedTagError m expected)

def assumeTransition (transitionId : Int) : Outcome κ TransitionStatus :=
  s.ask lib a (.exploreAssumeTransition transitionId) "explore_transition_status" fun
    | .exploreTransitionStatus status => some status
    | _ => none

def nextStep : Outcome κ Int :=
  s.ask lib a .exploreNextStep "explore_step_done" fun
    | .exploreStepDone stepNo => some stepNo
    | _ => none

def queryState : Outcome κ State :=
  s.ask lib a .exploreQueryState "explore_state" fun
    | .exploreState state => some state
    | _ => none

def checkInvariant (invariantId : Int) : Outcome κ InvariantStatus :=
  s.ask lib a (.exploreCheckInvariant invariantId) "explore_invariant_status" fun
    | .exploreInvariantStatus status => some status
    | _ => none

def assumeState (state : State) : Outcome κ TransitionStatus :=
  s.ask lib a (.exploreAssumeState state) "explore_assume_status" fun
    | .exploreAssumeStatus status => some status
    | _ => none

def rollback (snapshotId : Int) : Outcome κ Int :=
  s.ask lib a (.exploreRollback snapshotId) "explore_rollback_done" fun
    | .exploreRollbackDone snapshotId => some snapshotId
    | _ => none

/-- `done()`; on a closed session it has nothing to do. -/
def finish : Outcome κ Unit :=
  if s.isClosed then ⟨s, [], .ok (.ok ())⟩
  else
    let r := s.ask lib a .exploreDone "explore_session_done" fun
      | .exploreSessionDone => some ()
      | _ => none
    match r.result with
    | .ok (.ok ()) =>
      ⟨{ r.session with transport := none, done := true }, r.traffic ++ [.close],
        .ok (match a.close with
          | some e => .error e
          | none => .ok ())⟩
    | _ => r

end Session

/-- `ExploreSession::open` on a transport; the traffic of the opening is not the session's. -/
def openSession {κ : Type} (lib : Library) (transport : Option κ) (spec : ApalacheSpec)
    (invariants exports : List String) (a : Answers) : Except Exn (Result (Session κ)) :=
  match transport with
  | none => .ok (.error { kind := .io, message := "ExploreSession::open: null transport" })
  | some _ =>
    let reg := .registerExploreSession spec invariants exports
    match Phase.sent .idle reg with
    | .error e => .ok (.error e)
    | .ok guard =>
      match lib.encode reg with
      | none => .error (.std lib.dumpWhat)
      | some _ =>
        match a.send, a.recv with
        | some e, _ => .ok (.error e)
        | none, .error e => .ok (.error e)
        | none, .ok line =>
          match lib.decode line with
          | .error x => .error (.std (lib.escapeWhat x))
          | .ok (.error e) => .ok (.error e)
          | .ok (.ok m) =>
            match guard.received m with
            | .error e => .ok (.error e)
            | .ok guard =>
              match m with
              | .explorerReady i n v => .ok (.ok { transport, ready := ⟨i, n, v⟩, guard })
              | .registerError error => .ok (.error { kind := .registration, message := error })
              | .protocolError error => .ok (.error { kind := .protocol, message := error })
              | m => .ok (.error (unexpectedTagError m "explorer_ready"))

/-! ## Operations as data -/

inductive Op where
  | assumeTransition (transitionId : Int)
  | nextStep
  | queryState
  | checkInvariant (invariantId : Int)
  | assumeState (state : State)
  | rollback (snapshotId : Int)
  | done

namespace Op

/-- The command of an operation. -/
def message : Op → ClientMessage
  | assumeTransition transitionId => .exploreAssumeTransition transitionId
  | nextStep => .exploreNextStep
  | queryState => .exploreQueryState
  | checkInvariant invariantId => .exploreCheckInvariant invariantId
  | assumeState state => .exploreAssumeState state
  | rollback snapshotId => .exploreRollback snapshotId
  | done => .exploreDone

/-- The constructor that answers an operation. -/
def answeredBy : Op → MirrorMessage → Bool
  | assumeTransition _, .exploreTransitionStatus _ => true
  | nextStep, .exploreStepDone _ => true
  | queryState, .exploreState _ => true
  | checkInvariant _, .exploreInvariantStatus _ => true
  | assumeState _, .exploreAssumeStatus _ => true
  | rollback _, .exploreRollbackDone _ => true
  | done, .exploreSessionDone => true
  | _, _ => false

def isDone : Op → Bool
  | done => true
  | _ => false

theorem message_isCommand (op : Op) : op.message.isCommand = true := by cases op <;> rfl

end Op

/-- Forget the value an operation returns. -/
def Outcome.void {κ α : Type} (o : Outcome κ α) : Outcome κ Unit :=
  ⟨o.session, o.traffic, match o.result with
    | .error x => .error x
    | .ok (.error e) => .ok (.error e)
    | .ok (.ok _) => .ok (.ok ())⟩

def Session.perform {κ : Type} (lib : Library) (s : Session κ) (a : Answers) :
    Op → Outcome κ Unit
  | .assumeTransition transitionId => (s.assumeTransition lib a transitionId).void
  | .nextStep => (s.nextStep lib a).void
  | .queryState => (s.queryState lib a).void
  | .checkInvariant invariantId => (s.checkInvariant lib a invariantId).void
  | .assumeState state => (s.assumeState lib a state).void
  | .rollback snapshotId => (s.rollback lib a snapshotId).void
  | .done => s.finish lib a

/-! ## A program that uses sessions -/

/-- One operation, or the `done()` of a destructor, with the transport it was on. -/
structure Entry (κ : Type) where
  conn : Option κ
  op : Op
  traffic : List Traffic
  result : Except Exn (Result Unit)

/-- The variables of a program that hold sessions, the transports it has used up, and what the
sessions did so far. -/
structure World (ι κ : Type) where
  slots : ι → Option (Session κ)
  opened : List κ
  log : List (Entry κ)

inductive Action (ι κ : Type) where
  | opening (i : ι) (transport : Option κ) (spec : ApalacheSpec)
      (invariants exports : List String) (a : Answers)
  | call (i : ι) (op : Op) (a : Answers)
  /-- A new session in `j`, move-constructed from the one in `i`. -/
  | moveConstruct (i j : ι)
  /-- `*j = std::move(*i)`: the transport of `j` is destroyed. -/
  | moveAssign (i j : ι)
  | destroy (i : ι) (a : Answers)

section Program

variable {ι κ : Type} [DecidableEq ι] [DecidableEq κ] (lib : Library)

def entryOf (s : Session κ) (op : Op) (o : Outcome κ Unit) : Entry κ :=
  ⟨s.transport, op, o.traffic, o.result⟩

/-- What is left of a session that was moved from. -/
def Session.movedFrom (s : Session κ) : Session κ := { s with transport := none }

def World.step (w : World ι κ) : Action ι κ → Option (World ι κ)
  | .opening i transport spec invariants exports a =>
    if (w.slots i).isSome || transport.any (w.opened.contains ·) then none
    else
      let w := { w with opened := transport.toList ++ w.opened }
      match openSession lib transport spec invariants exports a with
      | .ok (.ok s) => some { w with slots := Function.update w.slots i (some s) }
      | _ => some w
  | .call i op a =>
    (w.slots i).map fun s =>
      let o := s.perform lib a op
      { w with
        slots := Function.update w.slots i (some o.session)
        log := w.log ++ [entryOf s op o] }
  | .moveConstruct i j =>
    match w.slots i, w.slots j with
    | some s, none =>
      some { w with
        slots := Function.update (Function.update w.slots i (some s.movedFrom)) j (some s) }
    | _, _ => none
  | .moveAssign i j =>
    match w.slots i, w.slots j with
    | some s, some _ =>
      if i = j then some w
      else some { w with
        slots := Function.update (Function.update w.slots i (some s.movedFrom)) j (some s) }
    | _, _ => none
  | .destroy i a =>
    (w.slots i).bind fun s =>
      let w' := { w with slots := Function.update w.slots i none }
      if s.isClosed then some w'
      else
        let o := s.perform lib a .done
        match o.result with
        | .ok _ => some { w' with log := w.log ++ [entryOf s .done o] }
        -- an exception out of a destructor ends the process
        | .error _ => none

/-- Programs start without sessions. -/
def programs : Lts (World ι κ) (Action ι κ) where
  init w := w = ⟨fun _ => none, [], []⟩
  step := World.step lib

end Program

end MirrorCpp.Client
