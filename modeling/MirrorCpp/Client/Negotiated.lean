import MirrorCpp.Client.Stepping
import MirrorCpp.Interface.Registration

/-!
# Flows with a compiled adapter (`run_compiled_negotiated`, `client.cpp`)

The adapter is looked up before the registration, and made only when the reply allows it. An empty
`std::function` is `none`.
-/

namespace MirrorCpp.Client

open Itf Protocol Interface

def mirrorcppTargetProfile : String := "mirrorcpp-v1"

def mirrorcppTypedMapsTargetProfile : String := "mirrorcpp-v2"

def stateComputerContractVersion : String := "mirrors.state-computer/v1"

/-- A library with what negotiation takes from it besides. -/
structure Negotiator extends Library where
  strict : StrictReader
  /-- `what()` of the call of an empty `std::function`. -/
  callWhat : String
  /-- The callbacks watch; they do not change what is parsed. -/
  agrees : ∀ line raw, strictParse strict line = .ok raw → reader.parse line = .ok raw

abbrev Callback (σ α : Type) := σ → Except Exn (Result α) × σ

structure LocalBinding (σ : Type) where
  semanticDigest : SemanticDigest
  computer : Option (Computer σ)
  assertCompatibleConfig : Option (ApalacheConfig → Callback σ Unit)
  dispose : Option (Callback σ Unit)

abbrev AdapterFactory (σ : Type) := Option (ApalacheConfig → Callback σ (LocalBinding σ))

structure CompiledAdapterSelection (σ : Type) where
  metadata : GeneratedModelInterface
  adapterId : String
  targetProfile : String := mirrorcppTargetProfile
  stateComputerContractVersion : String := Client.stateComputerContractVersion
  registry : Option (CompiledAdapterRegistry (AdapterFactory σ))
  policy : NegotiationPolicy := .require
  fallbackFactory : Option (AdapterFactory σ) := none

structure PreparedCompiledAdapter (σ : Type) where
  request : ModelInterfaceVerifyRequest
  key : CompiledAdapterKey
  factory : AdapterFactory σ
  fallbackFactory : Option (AdapterFactory σ)

variable {σ : Type}

/-! ## Preparation and authorisation -/

def prepareCompiledAdapter (rd : StrictReader) (selection : CompiledAdapterSelection σ) :
    Checked (PreparedCompiledAdapter σ) :=
  if selection.targetProfile ≠ mirrorcppTargetProfile ∧
      selection.targetProfile ≠ mirrorcppTypedMapsTargetProfile then
    .error (.refused (miError "target_profile_mismatch"
      "negotiated runner requires target profile mirrorcpp-v1 or mirrorcpp-v2"))
  else if selection.stateComputerContractVersion ≠ stateComputerContractVersion then
    .error (.refused (miError "state_computer_contract_mismatch"
      ("negotiated runner requires StateComputer contract " ++ stateComputerContractVersion)))
  else
    match selection.registry with
    | none =>
      .error (.refused (miError "adapter_not_registered" "compiled adapter registry is null"))
    | some registry => do
      let request ← makeVerifyRequest rd selection.metadata selection.policy
      let key : CompiledAdapterKey := {
        semanticDigest := request.expectedSemanticDigest
        adapterId := selection.adapterId
        targetProfile := selection.targetProfile
        stateComputerContractVersion := selection.stateComputerContractVersion }
      let factory ← lift (registry.resolve key)
      return { request, key, factory, fallbackFactory := selection.fallbackFactory }

/-- The fallback under `prefer`; else the error of `require`. -/
def PreparedCompiledAdapter.fallback (prepared : PreparedCompiledAdapter σ) (required : Error)
    (missing : String) : Result (Bool × AdapterFactory σ) :=
  if prepared.request.policy ≠ .prefer then .error required
  else
    match prepared.fallbackFactory with
    | none => .error (miError "legacy_fallback_unavailable" missing)
    | some factory => .ok (true, factory)

/-- The factory to call, and whether it is the fallback. -/
def authorizeCompiledReply (decoded : DecodedReply) (prepared : PreparedCompiledAdapter σ) :
    Result (Bool × AdapterFactory σ) :=
  match decoded.message with
  | .protocolError error => .error { kind := .protocol, message := error }
  | .registerError error =>
    match decoded.failure with
    | none => .error { kind := .registration, message := error }
    | some failure =>
      if failure.expectedSemanticDigest ≠ none ∧
          failure.expectedSemanticDigest ≠ some prepared.key.semanticDigest then
        .error (miError "negotiation_status_unexpected"
          "register_error expectedSemanticDigest does not match the request")
      else .error { kind := .registration, message := error, code := some failure.code }
  | .specValidated ⟨some text⟩ =>
    .error { kind := .specInvalid, message := "spec was not validated: " ++ text }
  | .specValidated ⟨none⟩ =>
    match decoded.reply with
    | none =>
      prepared.fallback
        (miError "negotiation_missing" "model-interface negotiation reply is missing")
        "old server requires an explicit fallback factory under prefer"
    | some reply =>
      match reply.status with
      | .matched =>
        if reply.semanticDigest ≠ some prepared.key.semanticDigest then
          .error (miError "interface_digest_mismatch"
            "server semantic digest does not match the compiled interface")
        else .ok (false, prepared.factory)
      | .unsupported =>
        prepared.fallback
          (miError "descriptor_schema_unsupported" "model-interface negotiation is unavailable")
          "preferred negotiation requires an explicit fallback factory"
      | .unavailable =>
        prepared.fallback
          (miError "negotiation_status_unexpected" "model-interface negotiation is unavailable")
          "preferred negotiation requires an explicit fallback factory"
      | .mismatch =>
        .error (miError "interface_digest_mismatch" "model-interface digest mismatch")
      | .resolved | .notModified | .tooLarge =>
        .error (miError "negotiation_status_unexpected"
          "descriptor-mode reply is invalid for compiled verification")
  | _ =>
    .error (miError "negotiation_status_unexpected" "expected spec_validated registration result")

/-! ## Callbacks -/

/-- A text for an exception a callback threw. -/
def threw (lead : String) : Exn → String
  | .binding _ what | .std what => lead ++ ": " ++ what
  | .unknown => lead

/-- The outcome of disposal. -/
def disposed : Except Exn (Result Unit) → Result Unit
  | .ok (.ok ()) => .ok ()
  | .ok (.error e) => .error (miError "adapter_dispose_failed" e.message)
  | .error x => .error (miError "adapter_dispose_failed" (threw "adapter disposal threw" x))

def noDispose : Error := miError "adapter_dispose_failed" "binding has no dispose callback"

/-- `dispose_binding`: the calls made, the outcome, and the state left. -/
def disposeBinding (binding : LocalBinding σ) (u : σ) : List Event × Result Unit × σ :=
  match binding.dispose with
  | none => ([], .error noDispose, u)
  | some dispose =>
    let (result, u) := dispose u
    ([.dispose result], disposed result, u)

/-- The error that counts: the first. -/
def outcome (primary cleanup : Result Unit) : Result Unit :=
  match primary with
  | .error e => .error e
  | .ok () => cleanup

/-- Dispose, close and return. -/
def settle (binding : LocalBinding σ) (u : σ) (primary : Result Unit) : Run σ :=
  let (calls, cleanup, u) := disposeBinding binding u
  ⟨calls ++ [.close], .returned (outcome primary cleanup), u⟩

/-- `fail_after_binding`. -/
def failAfterBinding (binding : LocalBinding σ) (u : σ) (e : Error) : Run σ :=
  settle binding u (.error e)

def LocalBinding.created (binding : LocalBinding σ) : Created :=
  { semanticDigest := binding.semanticDigest, disposable := binding.dispose.isSome }

/-- The error for an exception that left the stepping loop. -/
def steppingError : Exn → Error
  | .binding code what => miError code what
  | .std what => miError "adapter_failure" ("StateComputer threw: " ++ what)
  | .unknown => miError "adapter_failure" "StateComputer threw an unknown exception"

section Flow

variable (lib : Negotiator) (peer : Peer) (config : ApalacheConfig)

/-- Call a factory; `next` goes on with the binding. -/
def createBinding (fallback : Bool) (factory : AdapterFactory σ) (u : σ)
    (next : LocalBinding σ → σ → Run σ) : Run σ :=
  let failed (message : String) := miError "adapter_factory_failed" message
  match factory with
  | none => .fail u (failed (threw "adapter factory threw" (.std lib.callWhat)))
  | some create =>
    match create config u with
    | (.error x, u) =>
      .after (.factory fallback none) (.fail u (failed (threw "adapter factory threw" x)))
    | (.ok (.error e), u) => .after (.factory fallback none) (.fail u (failed e.message))
    | (.ok (.ok binding), u) =>
      .after (.factory fallback (some binding.created)) (next binding u)

/-- Check a new binding; `next` goes on with its computer. -/
def checkBinding (digest : SemanticDigest) (binding : LocalBinding σ) (u : σ)
    (next : Computer σ → σ → Run σ) : Run σ :=
  let mismatch (message : String) := miError "binding_config_mismatch" message
  if binding.semanticDigest ≠ digest then
    failAfterBinding binding u
      (miError "binding_digest_mismatch" "binding digest does not match adapter key")
  else
    match binding.computer, binding.assertCompatibleConfig with
    | none, _ =>
      failAfterBinding binding u
        (miError "adapter_factory_failed" "binding has no StateComputer")
    | some _, none =>
      failAfterBinding binding u (mismatch "binding has no configuration check")
    | some computer, some check =>
      match check config u with
      | (.error x, u) =>
        .after (.assertConfig false)
          (failAfterBinding binding u (mismatch (threw "binding configuration check threw" x)))
      | (.ok (.error e), u) =>
        .after (.assertConfig false) (failAfterBinding binding u (mismatch e.message))
      | (.ok (.ok ()), u) => .after (.assertConfig true) (next computer u)

/-- The stepping loop with a binding. It gets the first line again, from the prefixed transport, so
that its first receive is none of the transport's. -/
def stepBinding (binding : LocalBinding σ) (computer : Computer σ) (line : String)
    (rest : List Reply) (guard : Phase) (u : σ) : Run σ :=
  let stepped := runSteppingLoop lib.toLibrary peer.sends computer (.ok line :: rest) 1 guard u
  .behind stepped.events.tail <|
    match stepped.exit with
    | .waiting => ⟨[], .waiting, stepped.user⟩
    | .raised x => settle binding stepped.user (.error (steppingError x))
    | .returned primary => settle binding stepped.user primary

/-- The flow behind a reply that was received. -/
def answered (prepared : PreparedCompiledAdapter σ) (line : String) (rest : List Reply)
    (guard : Phase) (u : σ) : Run σ :=
  match decodeRegistrationReply lib.strict lib.toLibrary.decode line with
  | .error x => ⟨[], .raised (.std (lib.escapeWhat x)), u⟩
  | .ok (.error e) => .fail u e
  | .ok (.ok decoded) =>
    match authorizeCompiledReply decoded prepared with
    | .error e => .fail u e
    | .ok (fallback, factory) =>
      createBinding lib config fallback factory u fun binding u =>
        checkBinding config prepared.key.semanticDigest binding u fun computer u =>
          stepBinding lib peer binding computer line rest guard u

/-- The flow of a registration that is ready to be sent. -/
def negotiate (prepared : PreparedCompiledAdapter σ) (encoded : String) (guard : Phase) (u : σ) :
    Run σ :=
  .after (.send encoded (peer.sends 0)) <|
    match peer.sends 0 with
    | some e => .fail u e
    | none =>
      match peer.replies with
      | [] => ⟨[], .waiting, u⟩
      | .error e :: _ => .after (.recv (.error e)) (.fail u e)
      | .ok line :: rest =>
        .after (.recv (.ok line)) (answered lib peer config prepared line rest guard u)

def runCompiledNegotiated (registration : ClientMessage) (selection : CompiledAdapterSelection σ)
    (u : σ) : Run σ :=
  match prepareCompiledAdapter lib.strict selection with
  | .error (.refused e) => ⟨[], .returned (.error e), u⟩
  | .error (.threw f) => ⟨[], .raised (.std (lib.json.what f)), u⟩
  | .ok prepared =>
    match encodeRegistration lib.json registration prepared.request with
    | .error e => ⟨[], .returned (.error e), u⟩
    | .ok encoded =>
      match Phase.sent .idle registration with
      | .error e => ⟨[], .returned (.error e), u⟩
      | .ok guard => negotiate lib peer config prepared encoded guard u

def runClientWithTracesNegotiated (itfTracePaths : List String)
    (selection : CompiledAdapterSelection σ) (u : σ) : Run σ :=
  runCompiledNegotiated lib peer config (.registerTraces config itfTracePaths) selection u

def runClientNegotiated (traceConfig : TraceGenerationConfig)
    (selection : CompiledAdapterSelection σ) (inlineSpec : Option ApalacheSpec) (u : σ) : Run σ :=
  runCompiledNegotiated lib peer config (.register config traceConfig inlineSpec) selection u

end Flow

end MirrorCpp.Client
