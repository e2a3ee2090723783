import MirrorCpp.Protocol.Message

/-!
# Messages of the client (`protocol.hpp`, `protocol.cpp`)

Their tags and their encoding. An object is written in key order, as the JSON library keeps it.
The library throws on a string that is no UTF-8, so a message may have no line.
-/

namespace MirrorCpp.Protocol

open Itf

structure ApalacheConfig where
  specPath : String
  initPredicate : Option String := none
  nextPredicate : Option String := none
  constInit : Option String := none
  invariant : String := ""
  lengthBound : Int := 10
  paramVars : String := ""
  deriving DecidableEq, Repr

structure TraceGenerationConfig where
  numTraces : Int := 1
  view : Option String := none
  deriving DecidableEq, Repr

/-- The first source is the root module. -/
structure ApalacheSpec where
  sources : List String
  deriving DecidableEq, Repr

inductive ClientMessage where
  | register (cfg : ApalacheConfig) (tc : TraceGenerationConfig) (spec : Option ApalacheSpec)
  | registerTraces (cfg : ApalacheConfig) (itfTracePaths : List String)
  | registerTraceGen (cfg : ApalacheConfig) (tc : TraceGenerationConfig)
      (destPath : Option String) (spec : Option ApalacheSpec)
  | registerExplore (spec : ApalacheSpec) (invariants exports : List String)
      (maxSteps : Option Int)
  | registerExploreSession (spec : ApalacheSpec) (invariants exports : List String)
  | registerValidate (cfg : ApalacheConfig) (bound : Int) (spec : Option ApalacheSpec)
  | registerValidateAsync (cfg : ApalacheConfig) (bound : Int) (spec : Option ApalacheSpec)
  | registerTraceGenAsync (cfg : ApalacheConfig) (tc : TraceGenerationConfig)
      (destPath : Option String) (spec : Option ApalacheSpec)
  | queryJob (jobId : String)
  | awaitJob (jobId : String) (timeoutSecs : Option Int)
  | cancelJob (jobId : String)
  | exploreAssumeTransition (transitionId : Int)
  | exploreNextStep
  | exploreQueryState
  | exploreCheckInvariant (invariantId : Int)
  | exploreAssumeState (state : State)
  | exploreRollback (snapshotId : Int)
  | exploreDone
  | reportState (state : State)
  deriving Repr

/-- `client_message_name`. -/
def ClientMessage.name : ClientMessage → String
  | register _ _ _ => "register"
  | registerTraces _ _ => "register_traces"
  | registerTraceGen _ _ _ _ => "register_trace_gen"
  | registerExplore _ _ _ _ => "register_explore"
  | registerExploreSession _ _ _ => "register_explore_session"
  | registerValidate _ _ _ => "register_validate"
  | registerValidateAsync _ _ _ => "register_validate_async"
  | registerTraceGenAsync _ _ _ _ => "register_trace_gen_async"
  | queryJob _ => "query_job"
  | awaitJob _ _ => "await_job"
  | cancelJob _ => "cancel_job"
  | exploreAssumeTransition _ => "explore_assume_transition"
  | exploreNextStep => "explore_next_step"
  | exploreQueryState => "explore_query_state"
  | exploreCheckInvariant _ => "explore_check_invariant"
  | exploreAssumeState _ => "explore_assume_state"
  | exploreRollback _ => "explore_rollback"
  | exploreDone => "explore_done"
  | reportState _ => "report_state"

/-! ## Encoding -/

abbrev Members := List (String × Json)

/-- `j[key] = v`. -/
def put (key : String) (v : Json) (ms : Members) : Members := Doc.assign key v ms

/-- `if (v) j[key] = *v`. -/
def putOption (key : String) (v : Option Json) (ms : Members) : Members :=
  match v with
  | some v => put key v ms
  | none => ms

def strings (xs : List String) : Json := .arr (xs.map .str)

def encodeApalacheConfig (c : ApalacheConfig) : Json :=
  .obj <| put "paramVars" (.str c.paramVars) <| put "lengthBound" (.int c.lengthBound) <|
    put "invariant" (.str c.invariant) <| putOption "constInit" (c.constInit.map .str) <|
    putOption "nextPredicate" (c.nextPredicate.map .str) <|
    putOption "initPredicate" (c.initPredicate.map .str) <| put "specPath" (.str c.specPath) []

def encodeTraceConfig (t : TraceGenerationConfig) : Json :=
  .obj <| putOption "view" (t.view.map .str) <| put "numTraces" (.int t.numTraces) []

def encodeSpec (s : ApalacheSpec) : Json := .obj <| put "sources" (strings s.sources) []

/-- The fields of a message besides its tag. -/
def ClientMessage.fields (ms : Members) : ClientMessage → Members
  | register cfg tc spec =>
    putOption "spec" (spec.map encodeSpec) <| put "traceConfig" (encodeTraceConfig tc) <|
      put "apalacheConfig" (encodeApalacheConfig cfg) ms
  | registerTraces cfg paths =>
    put "itfTracePaths" (strings paths) <| put "apalacheConfig" (encodeApalacheConfig cfg) ms
  | registerTraceGen cfg tc destPath spec | registerTraceGenAsync cfg tc destPath spec =>
    putOption "spec" (spec.map encodeSpec) <| putOption "destPath" (destPath.map .str) <|
      put "traceConfig" (encodeTraceConfig tc) <|
      put "apalacheConfig" (encodeApalacheConfig cfg) ms
  | registerExplore spec invariants exports maxSteps =>
    putOption "maxSteps" (maxSteps.map .int) <| put "exports" (strings exports) <|
      put "invariants" (strings invariants) <| put "spec" (encodeSpec spec) ms
  | registerExploreSession spec invariants exports =>
    put "exports" (strings exports) <| put "invariants" (strings invariants) <|
      put "spec" (encodeSpec spec) ms
  | registerValidate cfg bound spec | registerValidateAsync cfg bound spec =>
    putOption "spec" (spec.map encodeSpec) <| put "bound" (.int bound) <|
      put "apalacheConfig" (encodeApalacheConfig cfg) ms
  | queryJob jobId | cancelJob jobId => put "jobId" (.str jobId) ms
  | awaitJob jobId timeoutSecs =>
    putOption "timeoutSecs" (timeoutSecs.map .int) <| put "jobId" (.str jobId) ms
  | exploreAssumeTransition transitionId => put "transitionId" (.int transitionId) ms
  | exploreNextStep | exploreQueryState | exploreDone => ms
  | exploreCheckInvariant invariantId => put "invariantId" (.int invariantId) ms
  | exploreAssumeState state | reportState state => put "state" (encodeState state) ms
  | exploreRollback snapshotId => put "snapshotId" (.int snapshotId) ms

def ClientMessage.toJson (m : ClientMessage) : Json :=
  .obj <| m.fields <| put "proto_step" (.str m.name) []

/-- `encode_client_message`; `none`: the library throws. -/
def encodeClientMessage (lib : JsonLib) (m : ClientMessage) : Option String := lib.dump m.toJson

theorem encodeClientMessage_isSome (lib : JsonLib) (m : ClientMessage) :
    (encodeClientMessage lib m).isSome = m.toJson.utf8 := lib.dump_isSome _

theorem utf8_report (s : State) :
    (ClientMessage.reportState s).toJson.utf8 = (encodeState s).utf8 := by
  have hlt : "proto_step" < "state" := by decide
  have h : (ClientMessage.reportState s).toJson =
      .obj [("proto_step", .str "report_state"), ("state", encodeState s)] := by
    unfold ClientMessage.toJson ClientMessage.fields put
    rw [Doc.assign_append (by simp)]
    exact congrArg Json.obj (Doc.assign_append (List.forall_mem_singleton.mpr hlt))
  have ht : Text.utf8 "proto_step" = true ∧ Text.utf8 "report_state" = true ∧
      Text.utf8 "state" = true := by decide
  rw [h, Json.utf8_obj]
  simp [Json.utf8Members, ht]

end MirrorCpp.Protocol
