import MirrorCpp.Itf.Value
import MirrorCpp.Lib.Fallible

/-!
# Messages of the mirror and their decoder (`protocol.hpp`, `protocol.cpp`)

`decodeMirrorMessage` answers with a message or an `Error`; the outer `Except` is an exception
that escapes it. What the JSON library does with the text of a line is the parameter `Reader`.
-/

namespace MirrorCpp.Protocol

open Itf

/-! ## Messages -/

inductive TransitionStatus where
  | enabled
  | disabled
  | unknown
  deriving DecidableEq, Repr

inductive InvariantStatus where
  | satisfied
  | violated
  | unknown
  deriving DecidableEq, Repr

inductive JobKind where
  | validate
  | genTraces
  deriving DecidableEq, Repr

inductive JobPhase where
  | pending
  | running
  | done
  | failed
  | cancelled
  | unknown
  deriving DecidableEq, Repr

inductive DiffHintKind where
  | valueMismatch
  | missing
  | extra
  | missingElem
  | extraElem
  | typeMismatch
  | truncated
  deriving DecidableEq, Repr

inductive PathSeg where
  | field (name : String)
  | index (i : Int)
  deriving DecidableEq, Repr

structure DiffHint where
  kind : DiffHintKind
  path : List PathSeg := []
  expected : Option Value := none
  actual : Option Value := none
  deriving Repr

/-- `none`: valid; else the reason. -/
structure SpecValidated where
  invalid : Option String
  deriving DecidableEq, Repr

def SpecValidated.isValid (m : SpecValidated) : Bool := m.invalid.isNone

structure GenTracesDone where
  itfTracePaths : List String
  itfTraces : List Json
  deriving Repr

inductive JobOutcome where
  | validate (m : SpecValidated)
  | genTraces (m : GenTracesDone)
  | error (text : String)
  deriving Repr

structure StepMismatch where
  expected : State
  actual : State
  hints : List DiffHint
  deriving Repr

inductive MirrorMessage where
  | specValidated (m : SpecValidated)
  | initialState (action : String) (state : State)
  | nextStep (action : String) (parameters : State)
  | stepOk
  | allStepsDone
  | exploreSessionDone
  | stepMismatch (m : StepMismatch)
  | genTracesDone (m : GenTracesDone)
  | registerError (error : String)
  | protocolError (error : String)
  | explorerReady (initTransitions nextTransitions stateInvariants : Int)
  | exploreTransitionStatus (status : TransitionStatus)
  | exploreStepDone (stepNo : Int)
  | exploreState (state : State)
  | exploreInvariantStatus (status : InvariantStatus)
  | exploreAssumeStatus (status : TransitionStatus)
  | exploreRollbackDone (snapshotId : Int)
  | jobAccepted (jobId : String) (kind : JobKind)
  | jobStatus (jobId : String) (phase : JobPhase)
  | jobResult (jobId : String) (outcome : JobOutcome)
  deriving Repr

/-- `mirror_message_name`. -/
def MirrorMessage.name : MirrorMessage → String
  | specValidated _ => "spec_validated"
  | initialState _ _ => "initial_state"
  | nextStep _ _ => "next_step"
  | stepOk => "step_ok"
  | allStepsDone => "all_steps_done"
  | exploreSessionDone => "explore_session_done"
  | stepMismatch _ => "step_mismatch"
  | genTracesDone _ => "gen_traces_done"
  | registerError _ => "register_error"
  | protocolError _ => "protocol_error"
  | explorerReady _ _ _ => "explorer_ready"
  | exploreTransitionStatus _ => "explore_transition_status"
  | exploreStepDone _ => "explore_step_done"
  | exploreState _ => "explore_state"
  | exploreInvariantStatus _ => "explore_invariant_status"
  | exploreAssumeStatus _ => "explore_assume_status"
  | exploreRollbackDone _ => "explore_rollback_done"
  | jobAccepted _ _ => "job_accepted"
  | jobStatus _ _ => "job_status"
  | jobResult _ _ => "job_result"

/-! ## Errors -/

inductive ErrorKind where
  | io
  | spawn
  | json
  | protocol
  | registration
  | specInvalid
  | stepMismatch
  | tls
  | registry
  | specSource
  | modelInterface
  deriving DecidableEq, Repr

structure Error where
  kind : ErrorKind
  message : String
  code : Option String := none
  expected : Option State := none
  actual : Option State := none
  hints : Option (List DiffHint) := none
  deriving Repr

abbrev Result := Except Error

/-! ## Reading a line -/

/-- What `parse` throws. -/
inductive ParseFault where
  /-- `parse_error`. -/
  | syntaxError
  /-- `out_of_range`: a number literal too large for a double. -/
  | overflow
  deriving DecidableEq, Repr

/-- The JSON library on the text of a line, and the messages of its exceptions. -/
structure Reader where
  parse : String → Except ParseFault Json
  /-- `what()` of the syntax error of a text. -/
  parseWhat : String → String
  what : JsonFault → String

section Decoder

variable (late : Bool)

def requireString (j : Json) (what : String) : Except Thrown String :=
  match j with
  | .str s => .ok s
  | _ => .error (.jsonError (what ++ ": expected string"))

/-- `get<long long>()` of a 64-bit integer: an unsigned one wraps around. -/
def toInt64 (n : Int) : Int := if n < 2 ^ 63 then n else n - 2 ^ 64

def requireInt (j : Json) (what : String) : Except Thrown Int :=
  match j with
  | .int n => .ok (toInt64 n)
  | _ => .error (.jsonError (what ++ ": expected integer"))

def requireStrings (what : String) : List Json → Except Thrown (List String)
  | [] => .ok []
  | e :: es => do
    let s ← requireString e what
    let ss ← requireStrings what es
    return s :: ss

def requireStringArray (j : Json) (what : String) : Except Thrown (List String) :=
  match j with
  | .arr es => requireStrings what es
  | _ => .error (.jsonError (what ++ ": expected array"))

/-- `j.at(key)`. -/
def at_ (j : Json) (key : String) : Except Thrown Json :=
  match j.field key with
  | .ok v => .ok v
  | .error f => .error (.library f)

def diffHintKindFromString (s : String) : Except Thrown DiffHintKind :=
  if s = "value_mismatch" then .ok .valueMismatch
  else if s = "missing" then .ok .missing
  else if s = "extra" then .ok .extra
  else if s = "missing_elem" then .ok .missingElem
  else if s = "extra_elem" then .ok .extraElem
  else if s = "type_mismatch" then .ok .typeMismatch
  else if s = "truncated" then .ok .truncated
  else .error (.jsonError ("unknown diff hint kind: " ++ s))

def decodePathSeg (j : Json) : Except Thrown PathSeg :=
  match j.field? "field" with
  | some (.str s) => .ok (.field s)
  | _ =>
    match j.field? "index" with
    | some (.int n) => .ok (.index (toInt64 n))
    | _ => .error (.jsonError
        "diff hint path segment must be \x7b\"field\": name\x7d or \x7b\"index\": n\x7d")

def decodeSegs : List Json → Except Thrown (List PathSeg)
  | [] => .ok []
  | s :: ss => do
    let s ← decodePathSeg s
    let ss ← decodeSegs ss
    return s :: ss

/-- The path of a hint; anything but an array is ignored. -/
def decodePath (j : Json) : Except Thrown (List PathSeg) :=
  match j.field? "path" with
  | some (.arr segs) => decodeSegs segs
  | _ => .ok []

/-- An optional member that is not null, decoded. -/
def decodeOptional (j : Json) (key : String) : Except Thrown (Option Value) :=
  match j.field? key with
  | none | some .null => .ok none
  | some v => some <$> decodeValue late v

def decodeDiffHint (j : Json) : Except Thrown DiffHint := do
  if !j.isObj then .error (.jsonError "diff hint: expected object") else
  let k ← at_ j "kind"
  let k ← requireString k "diff hint kind"
  let kind ← diffHintKindFromString k
  let path ← decodePath j
  let expected ← decodeOptional late j "expected"
  let actual ← decodeOptional late j "actual"
  return { kind, path, expected, actual }

def decodeDiffHints : List Json → Except Thrown (List DiffHint)
  | [] => .ok []
  | h :: hs => do
    let h ← decodeDiffHint late h
    let hs ← decodeDiffHints hs
    return h :: hs

/-- The hints of a mismatch; anything but an array is ignored. -/
def decodeHintsField (j : Json) : Except Thrown (List DiffHint) :=
  match j.field? "hints" with
  | some (.arr hs) => decodeDiffHints late hs
  | _ => .ok []

def decodeStateField (j : Json) (key : String) : Except Thrown State :=
  match j.field? key with
  | none => .error (.jsonError ("missing " ++ key))
  | some v => decodeState late v

def decodeValidateResult (result : Json) : Except Thrown SpecValidated :=
  match result, result.field? "invalid" with
  | .str "valid", _ => .ok ⟨none⟩
  | .obj _, some (.str text) => .ok ⟨some text⟩
  | _, _ => .error (.jsonError "validate result: expected \"valid\" or \x7b\"invalid\": text\x7d")

def decodeSpecValidated (j : Json) : Except Thrown SpecValidated := do
  let result ← at_ j "result"
  decodeValidateResult result

def decodeStepMismatch (j : Json) : Except Thrown StepMismatch := do
  let expected ← decodeStateField late j "expected"
  let actual ← decodeStateField late j "actual"
  let hints ← decodeHintsField late j
  return { expected, actual, hints }

def decodeGenTracesPayload (j : Json) : Except Thrown GenTracesDone := do
  let paths ← at_ j "itfTracePaths"
  let itfTracePaths ← requireStringArray paths "genTraces.itfTracePaths"
  return { itfTracePaths, itfTraces := match j.field? "itfTraces" with
    | some (.arr ts) => ts
    | _ => [] }

def decodeJobKind (j : Json) : Except Thrown JobKind := do
  let s ← requireString j "kind"
  if s = "validate" then return .validate
  else if s = "gen_traces" then return .genTraces
  else .error (.jsonError "kind: expected validate/gen_traces")

def decodeJobPhase (j : Json) : Except Thrown JobPhase := do
  let s ← requireString j "phase"
  if s = "pending" then return .pending
  else if s = "running" then return .running
  else if s = "done" then return .done
  else if s = "failed" then return .failed
  else if s = "cancelled" then return .cancelled
  else if s = "unknown" then return .unknown
  else .error (.jsonError "phase: expected pending/running/done/failed/cancelled/unknown")

def decodeJobOutcome (j : Json) : Except Thrown JobOutcome :=
  if !j.isObj then .error (.jsonError "job_result.outcome: expected object") else
  match j.field? "validate", j.field? "genTraces", j.field? "error" with
  | some v, _, _ => .validate <$> decodeValidateResult v
  | none, some g, _ =>
    if !g.isObj then .error (.jsonError "job_result.outcome.genTraces: expected object")
    else .genTraces <$> decodeGenTracesPayload g
  | none, none, some e => .error <$> requireString e "job_result.outcome.error"
  | none, none, none =>
    .error (.jsonError "job_result.outcome: expected validate/genTraces/error")

def decodeTransitionStatus (j : Json) : Except Thrown TransitionStatus := do
  let s ← requireString j "status"
  if s = "ENABLED" then return .enabled
  else if s = "DISABLED" then return .disabled
  else if s = "UNKNOWN" then return .unknown
  else .error (.jsonError "status: expected ENABLED/DISABLED/UNKNOWN")

def decodeInvariantStatus (j : Json) : Except Thrown InvariantStatus := do
  let s ← requireString j "status"
  if s = "SATISFIED" then return .satisfied
  else if s = "VIOLATED" then return .violated
  else if s = "UNKNOWN" then return .unknown
  else .error (.jsonError "status: expected SATISFIED/VIOLATED/UNKNOWN")

/-- The message of an object under its tag; `require_object` cannot fail on it. -/
def decodeTagged (j : Json) (tag : String) : Except Thrown MirrorMessage :=
  if tag = "spec_validated" then .specValidated <$> decodeSpecValidated j
  else if tag = "initial_state" then do
    let a ← at_ j "action"
    let action ← requireString a "action"
    let state ← decodeStateField late j "state"
    return .initialState action state
  else if tag = "next_step" then do
    let a ← at_ j "action"
    let action ← requireString a "action"
    let parameters ← decodeStateField late j "parameters"
    return .nextStep action parameters
  else if tag = "step_ok" then .ok .stepOk
  else if tag = "all_steps_done" then .ok .allStepsDone
  else if tag = "explore_session_done" then .ok .exploreSessionDone
  else if tag = "step_mismatch" then .stepMismatch <$> decodeStepMismatch late j
  else if tag = "gen_traces_done" then .genTracesDone <$> decodeGenTracesPayload j
  else if tag = "register_error" then do
    let e ← at_ j "error"
    let error ← requireString e "error"
    return .registerError error
  else if tag = "protocol_error" then do
    let e ← at_ j "error"
    let error ← requireString e "error"
    return .protocolError error
  else if tag = "explorer_ready" then do
    let i ← at_ j "initTransitions"
    let initTransitions ← requireInt i "initTransitions"
    let n ← at_ j "nextTransitions"
    let nextTransitions ← requireInt n "nextTransitions"
    let s ← at_ j "stateInvariants"
    let stateInvariants ← requireInt s "stateInvariants"
    return .explorerReady initTransitions nextTransitions stateInvariants
  else if tag = "explore_transition_status" then do
    let s ← at_ j "status"
    .exploreTransitionStatus <$> decodeTransitionStatus s
  else if tag = "explore_assume_status" then do
    let s ← at_ j "status"
    .exploreAssumeStatus <$> decodeTransitionStatus s
  else if tag = "explore_step_done" then do
    let n ← at_ j "stepNo"
    .exploreStepDone <$> requireInt n "stepNo"
  else if tag = "explore_state" then .exploreState <$> decodeStateField late j "state"
  else if tag = "explore_invariant_status" then do
    let s ← at_ j "status"
    .exploreInvariantStatus <$> decodeInvariantStatus s
  else if tag = "explore_rollback_done" then do
    let n ← at_ j "snapshotId"
    .exploreRollbackDone <$> requireInt n "snapshotId"
  else if tag = "job_accepted" then do
    let i ← at_ j "jobId"
    let jobId ← requireString i "jobId"
    let k ← at_ j "kind"
    .jobAccepted jobId <$> decodeJobKind k
  else if tag = "job_status" then do
    let i ← at_ j "jobId"
    let jobId ← requireString i "jobId"
    let p ← at_ j "phase"
    .jobStatus jobId <$> decodeJobPhase p
  else if tag = "job_result" then do
    let i ← at_ j "jobId"
    let jobId ← requireString i "jobId"
    let o ← at_ j "outcome"
    .jobResult jobId <$> decodeJobOutcome o
  -- an unknown tag, for forward compatibility
  else .ok (.protocolError ("unknown proto_step: " ++ tag))

/-- An exception that leaves `decode_mirror_message`. -/
inductive Escape where
  | parse (f : ParseFault)
  | decode (e : Thrown)
  deriving DecidableEq, Repr

/-- `invalid_iterator` of the JSON library. -/
def iteratorWhat : String :=
  "[json.exception.invalid_iterator.207] cannot use key() for non-object iterators"

def decodeMirrorMessage (lib : Reader) (line : String) : Except Escape (Result MirrorMessage) :=
  match lib.parse line with
  | .error .syntaxError =>
    .ok (.error { kind := .json, message := "malformed JSON: " ++ lib.parseWhat line })
  -- only parse_error is caught
  | .error f => .error (.parse f)
  | .ok j =>
    if !j.isObj then .ok (.error { kind := .json, message := "mirror message: expected object" })
    else match j.field? "proto_step" with
      | some (.str tag) =>
        match decodeTagged late j tag with
        | .ok m => .ok (.ok m)
        | .error (.jsonError w) => .ok (.error { kind := .json, message := w })
        | .error (.library f) =>
          .ok (.error { kind := .json, message := "bad mirror message: " ++ lib.what f })
        | .error .invalidIterator =>
          .ok (.error { kind := .json, message := "bad mirror message: " ++ iteratorWhat })
        | .error e => .error (.decode e)
      | _ => .ok (.error { kind := .json, message := "mirror message: missing string proto_step" })

end Decoder

end MirrorCpp.Protocol
