import MirrorCpp.Client.Flow

/-!
# The stepping loop (`run_stepping_loop`, `run_client*`, `client.cpp`)

The loop recurses on the replies; whatever ends it closes the transport, but for an exception of
the codec.
-/

namespace MirrorCpp.Client

open Itf Protocol

variable {σ : Type}

/-- `unexpected_tag_error`. -/
def unexpectedTagError (msg : MirrorMessage) (expected : String) : Error :=
  { kind := .protocol, message := "expected " ++ expected ++ ", got " ++ msg.name }

section Loop

variable (lib : Library) (sends : Nat → Option Error) (compute : Computer σ)

/-- Receive and decode a reply and let the guard check it; `next` goes on with the message. -/
def receive (reply : Reply) (guard : Phase) (u : σ) (next : Phase → MirrorMessage → Run σ) :
    Run σ :=
  .after (.recv reply) <|
    match reply with
    | .error e => .fail u e
    | .ok line =>
      match lib.decode line with
      | .error x => ⟨[], .raised (.std (lib.escapeWhat x)), u⟩
      | .ok (.error e) => .fail u e
      | .ok (.ok msg) =>
        match guard.received msg with
        | .error e => .fail u e
        | .ok guard => next guard msg

/-- Send a message, the `n`-th line; `next` goes on. -/
def sendMessage (n : Nat) (msg : ClientMessage) (u : σ) (next : Run σ) : Run σ :=
  match lib.encode msg with
  | none => ⟨[], .raised (.std lib.dumpWhat), u⟩
  | some line =>
    .after (.send line (sends n)) <|
      match sends n with
      | some e => .fail u e
      | none => next

/-- Compute the state of a step and report it; `next` goes on with it. -/
def report (n : Nat) (guard : Phase) (action : String) (params prev : State) (u : σ)
    (next : Phase → State → σ → Run σ) : Run σ :=
  match compute action params prev u with
  | (.error x, u) => .after (.compute ⟨action, params, prev, .error x⟩) ⟨[.close], .raised x, u⟩
  | (.ok state, u) =>
    .after (.compute ⟨action, params, prev, .ok state⟩) <|
      match guard.sent (.reportState state) with
      | .error e => .fail u e
      | .ok guard => sendMessage lib sends n (.reportState state) u (next guard state u)

/-- The error of a mismatch; `none`: a hint does not print. -/
def mismatchError (m : StepMismatch) (lastAction : String) : Option Error :=
  let text := "conformance failure" ++
    if lastAction = "" then "" else " at action '" ++ lastAction ++ "'"
  let error (text : String) : Error :=
    { kind := .stepMismatch, message := text, expected := m.expected, actual := m.actual,
      hints := m.hints }
  if m.hints = [] then some (error text)
  else (renderDiffHints lib.json m.hints "").map fun t => error (text ++ ": " ++ t)

/-- The loop behind the validated specification. -/
def loop : List Reply → Nat → Phase → State → String → σ → Run σ
  | [], _, _, _, _, u => ⟨[], .waiting, u⟩
  | reply :: rest, n, guard, prev, lastAction, u =>
    receive lib reply guard u fun guard msg =>
      match msg with
      | .initialState action state =>
        report lib sends compute n guard action state [] u fun guard prev u =>
          loop rest (n + 1) guard prev action u
      | .nextStep action parameters =>
        report lib sends compute n guard action parameters prev u fun guard prev u =>
          loop rest (n + 1) guard prev action u
      | .stepOk => loop rest n guard prev lastAction u
      | .allStepsDone => ⟨[.close], .returned (.ok ()), u⟩
      | .stepMismatch m =>
        match mismatchError lib m lastAction with
        | some e => .fail u e
        | none => ⟨[], .raised (.std lib.dumpWhat), u⟩
      | .registerError error => .fail u { kind := .registration, message := error }
      | .protocolError error => .fail u { kind := .protocol, message := error }
      | msg => .fail u (unexpectedTagError msg
        "next_step | step_ok | all_steps_done | step_mismatch")

def runSteppingLoop (replies : List Reply) (n : Nat) (guard : Phase) (u : σ) : Run σ :=
  match replies with
  | [] => ⟨[], .waiting, u⟩
  | reply :: rest =>
    receive lib reply guard u fun guard msg =>
      match msg with
      | .specValidated m =>
        match m.invalid with
        | some text =>
          .fail u { kind := .specInvalid, message := "spec was not validated: " ++ text }
        | none => loop lib sends compute rest n guard [] "" u
      | .registerError error => .fail u { kind := .registration, message := error }
      | .protocolError error => .fail u { kind := .protocol, message := error }
      | msg => .fail u (unexpectedTagError msg "spec_validated")

end Loop

/-! ## The flows -/

section Flows

variable (lib : Library) (peer : Peer) (compute : Option (Computer σ)) (u : σ)

/-- A flow of steps: register, then the stepping loop. `none`: a null computer. -/
def runRegistered (name : String) (reg : ClientMessage) : Run σ :=
  match compute with
  | none =>
    ⟨[], .returned (.error { kind := .protocol, message := name ++ ": null StateComputer" }), u⟩
  | some compute =>
    match Phase.sent .idle reg with
    | .error e => ⟨[], .returned (.error e), u⟩
    | .ok guard =>
      sendMessage lib peer.sends 0 reg u
        (runSteppingLoop lib peer.sends compute peer.replies 1 guard u)

def runClientWithTraces (config : ApalacheConfig) (itfTracePaths : List String) : Run σ :=
  runRegistered lib peer compute u "run_client_with_traces" (.registerTraces config itfTracePaths)

def runClient (config : ApalacheConfig) (traceConfig : TraceGenerationConfig)
    (inlineSpec : Option ApalacheSpec) : Run σ :=
  runRegistered lib peer compute u "run_client" (.register config traceConfig inlineSpec)

def runClientExplore (spec : ApalacheSpec) (invariants exports : List String) (maxSteps : Int) :
    Run σ :=
  runRegistered lib peer compute u "run_client_explore"
    (.registerExplore spec invariants exports (some maxSteps))

end Flows

end MirrorCpp.Client
