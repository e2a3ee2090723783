import MirrorCpp.Interface.Contract
import MirrorCpp.Protocol.Request

/-!
# Registration with a model interface (`model_interface.cpp`)

The request a client attaches to its registration, the reply the mirror attaches to its answer, and
the registry of compiled adapters. A factory is of any type `φ`.
-/

namespace MirrorCpp.Interface

open Protocol

def modelInterfaceNegotiationSchema : String := "mirrors.model-interface-negotiation/v1"

def modelInterfaceDescriptorSchema : String := "mirrors.model-interface-descriptor/v1"

inductive NegotiationPolicy where
  | require
  | prefer
  deriving DecidableEq, Repr

inductive ModelInterfaceStatus where
  | matched
  | resolved
  | notModified
  | mismatch
  | unsupported
  | unavailable
  | tooLarge
  deriving DecidableEq, Repr

structure GeneratedModelInterface where
  semanticDigest : String
  contractJson : String

structure ModelInterfaceVerifyRequest where
  policy : NegotiationPolicy
  expectedSemanticDigest : SemanticDigest
  contract : Json

structure ModelInterfaceReply where
  status : ModelInterfaceStatus
  descriptorSchema : Option String
  semanticDigest : Option SemanticDigest
  provenanceDigest : Option SemanticDigest

structure ModelInterfaceFailure where
  status : ModelInterfaceStatus
  code : String
  expectedSemanticDigest : Option SemanticDigest
  actualSemanticDigest : Option SemanticDigest
  provenanceDigest : Option SemanticDigest

/-- `DecodedModelInterfaceRegistrationReply`. -/
structure DecodedReply where
  message : MirrorMessage
  reply : Option ModelInterfaceReply := none
  failure : Option ModelInterfaceFailure := none

/-! ## The reply -/

/-- The status of a name. -/
def statusOf (name : String) : Option ModelInterfaceStatus :=
  if name = "matched" then some .matched
  else if name = "resolved" then some .resolved
  else if name = "not_modified" then some .notModified
  else if name = "mismatch" then some .mismatch
  else if name = "unsupported" then some .unsupported
  else if name = "unavailable" then some .unavailable
  else if name = "too_large" then some .tooLarge
  else none

def decodeStatus (object : Json) : Result ModelInterfaceStatus := do
  let status ← stringField object "status" "modelInterface"
  match statusOf status with
  | some s => return s
  | none => .error (unexpectedStatus ("unknown model-interface status: " ++ status))

def checkSchema (extension : Json) (message : String) : Result Unit :=
  match stringField extension "schema" "modelInterface" with
  | .error _ => .error (unexpectedStatus message)
  | .ok schema =>
    if schema = modelInterfaceNegotiationSchema then .ok ()
    else .error (unexpectedStatus message)

/-- Whether the shape of a reply fits its status; else the refusal. -/
def ModelInterfaceReply.check (reply : ModelInterfaceReply) (bare : Bool) : Option String :=
  match reply.status with
  | .matched =>
    if reply.descriptorSchema ≠ some modelInterfaceDescriptorSchema ∨
        reply.semanticDigest = none ∨ !bare then
      some "invalid matched model-interface reply"
    else none
  | .unsupported | .unavailable =>
    if reply.descriptorSchema ≠ none ∨ reply.semanticDigest ≠ none ∨
        reply.provenanceDigest ≠ none ∨ !bare then
      some "unavailable negotiation carried descriptor identity"
    else none
  | .mismatch => if !bare then some "mismatch reply carried descriptor data" else none
  | _ => some "descriptor-mode status is invalid for a compiled verify client"

def optionalString (object : Json) (key path : String) : Result (Option String) :=
  if absent object key then .ok none else some <$> stringField object key path

def decodeReply (extension : Json) : Result ModelInterfaceReply := do
  exactObject extension "modelInterface"
    ["schema", "status", "descriptorSchema", "semanticDigest", "provenanceDigest",
      "descriptorBytes", "descriptor"] ["schema", "status"]
  checkSchema extension "unsupported model-interface negotiation schema"
  let status ← decodeStatus extension
  let semanticDigest ← optionalDigest extension "semanticDigest" "modelInterface"
  let provenanceDigest ← optionalDigest extension "provenanceDigest" "modelInterface"
  let descriptorSchema ← optionalString extension "descriptorSchema" "modelInterface"
  let reply : ModelInterfaceReply :=
    { status, descriptorSchema, semanticDigest, provenanceDigest }
  match reply.check (absent extension "descriptor" && absent extension "descriptorBytes") with
  | some message => .error (unexpectedStatus message)
  | none => return reply

/-- `descriptorBytes` of a failure, when there is one, is no negative number. -/
def checkDescriptorBytes (extension : Json) : Result Unit :=
  match extension.field? "descriptorBytes" with
  | none | some .null => .ok ()
  | some (.int n) =>
    if 0 ≤ n then .ok ()
    else .error (unexpectedStatus "modelInterface.descriptorBytes: nonnegative integer expected")
  | some _ =>
    .error (unexpectedStatus "modelInterface.descriptorBytes: nonnegative integer expected")

def decodeFailure (extension : Json) : Result ModelInterfaceFailure := do
  exactObject extension "modelInterface"
    ["schema", "status", "code", "expectedSemanticDigest", "actualSemanticDigest",
      "provenanceDigest", "descriptorBytes"] ["schema", "status", "code"]
  checkSchema extension "unsupported model-interface failure schema"
  let status ← decodeStatus extension
  if status ≠ .mismatch ∧ status ≠ .unsupported ∧ status ≠ .unavailable then
    .error (unexpectedStatus "unexpected status on verify register_error")
  else do
    checkDescriptorBytes extension
    match stringField extension "code" "modelInterface" with
    | .error _ => .error (unexpectedStatus "model-interface failure code is empty")
    | .ok code =>
      if code = "" then .error (unexpectedStatus "model-interface failure code is empty")
      else do
        let expectedSemanticDigest ←
          optionalDigest extension "expectedSemanticDigest" "modelInterface"
        let actualSemanticDigest ← optionalDigest extension "actualSemanticDigest" "modelInterface"
        let provenanceDigest ← optionalDigest extension "provenanceDigest" "modelInterface"
        if status = .mismatch ∧ expectedSemanticDigest = none then
          .error (unexpectedStatus "mismatch failure lacks expectedSemanticDigest")
        else
          return { status, code, expectedSemanticDigest, actualSemanticDigest, provenanceDigest }

section Decode

variable (rd : StrictReader) (decode : String → Except Escape (Result MirrorMessage))

/-- What the extension of a reply adds to its message. -/
def decodeExtension (raw : Json) (message : MirrorMessage) : Result DecodedReply :=
  match raw.field? "modelInterface" with
  | none | some .null => .ok { message }
  | some extension => do
    let tag ← stringField raw "proto_step" "mirror message"
    if tag = "spec_validated" then
      let reply ← decodeReply extension
      match message with
      | .specValidated ⟨none⟩ => return { message, reply := some reply }
      | _ => .error (unexpectedStatus "negotiation reply requires a valid specification")
    else if tag = "register_error" then
      let failure ← decodeFailure extension
      return { message, failure := some failure }
    else
      .error (unexpectedStatus "modelInterface is allowed only on registration replies")

/-- `decode_model_interface_registration_reply`; the outer error escapes. -/
def decodeRegistrationReply (line : String) : Except Escape (Result DecodedReply) :=
  match strictParse rd line with
  | .error e => .ok (.error e)
  | .ok raw =>
    if !raw.isObj then
      .ok (.error (unexpectedStatus "mirror registration reply must be an object"))
    else
      match decode line with
      | .error x => .error x
      | .ok (.error e) => .ok (.error e)
      | .ok (.ok message) => .ok (decodeExtension raw message)

end Decode

/-! ## What a decoded reply says of its text -/

/-- The extension offers the descriptor with this digest, and nothing but its identity. -/
structure Matched (extension : Json) (digest : SemanticDigest) : Prop where
  schema : extension.field? "schema" = some (.str modelInterfaceNegotiationSchema)
  status : extension.field? "status" = some (.str "matched")
  descriptor : extension.field? "descriptorSchema" = some (.str modelInterfaceDescriptorSchema)
  digest : ∃ wire, extension.field? "semanticDigest" = some (.str wire) ∧
    parseWireSemanticDigest wire = .ok digest
  bare : absent extension "descriptor" = true ∧ absent extension "descriptorBytes" = true

/-- The extension declines to negotiate. -/
structure Declined (extension : Json) : Prop where
  schema : extension.field? "schema" = some (.str modelInterfaceNegotiationSchema)
  status : extension.field? "status" = some (.str "unsupported") ∨
    extension.field? "status" = some (.str "unavailable")

section Decoded

variable {object extension raw : Json} {key path text : String} {r : ModelInterfaceReply}

theorem stringField_ok (h : stringField object key path = .ok text) :
    object.field? key = some (.str text) := by
  unfold stringField at h
  split at h
  · cases h
    assumption
  · cases h

theorem optionalDigest_ok {d : SemanticDigest} (h : optionalDigest object key path = .ok (some d)) :
    ∃ wire, object.field? key = some (.str wire) ∧ parseWireSemanticDigest wire = .ok d := by
  unfold optionalDigest at h
  split at h
  · cases h
  · cases h
  · rename_i wire hw
    obtain ⟨x, hx, hd⟩ := Fallible.map_eq_ok.mp h
    cases hd
    exact ⟨wire, hw, hx⟩
  · cases h

theorem checkSchema_ok {message : String} (h : checkSchema extension message = .ok ()) :
    extension.field? "schema" = some (.str modelInterfaceNegotiationSchema) := by
  unfold checkSchema at h
  split at h
  · cases h
  · rename_i hs
    split at h
    · rename_i he
      exact he ▸ stringField_ok hs
    · cases h

/-- The name of a status. -/
def ModelInterfaceStatus.name : ModelInterfaceStatus → String
  | matched => "matched"
  | resolved => "resolved"
  | notModified => "not_modified"
  | mismatch => "mismatch"
  | unsupported => "unsupported"
  | unavailable => "unavailable"
  | tooLarge => "too_large"

theorem statusOf_name {s : ModelInterfaceStatus} (h : statusOf text = some s) : text = s.name := by
  unfold statusOf at h
  repeat' split at h
  all_goals cases h
  all_goals assumption

theorem decodeStatus_ok {s : ModelInterfaceStatus} (h : decodeStatus object = .ok s) :
    object.field? "status" = some (.str s.name) := by
  obtain ⟨text, ht, h⟩ := Fallible.bind_eq_ok.mp h
  split at h
  · rename_i hs
    cases h
    exact statusOf_name hs ▸ stringField_ok ht
  · cases h

/-- What a decoded reply was read from. -/
theorem decodeReply_ok (h : decodeReply extension = .ok r) :
    extension.field? "schema" = some (.str modelInterfaceNegotiationSchema) ∧
    decodeStatus extension = .ok r.status ∧
    optionalDigest extension "semanticDigest" "modelInterface" = .ok r.semanticDigest ∧
    (∀ s, r.descriptorSchema = some s → extension.field? "descriptorSchema" = some (.str s)) ∧
    r.check (absent extension "descriptor" && absent extension "descriptorBytes") = none := by
  obtain ⟨-, -, h⟩ := Fallible.bind_eq_ok.mp h
  obtain ⟨⟨⟩, hs, h⟩ := Fallible.bind_eq_ok.mp h
  obtain ⟨status, hstatus, h⟩ := Fallible.bind_eq_ok.mp h
  obtain ⟨semantic, hsemantic, h⟩ := Fallible.bind_eq_ok.mp h
  obtain ⟨provenance, -, h⟩ := Fallible.bind_eq_ok.mp h
  obtain ⟨descriptor, hd, h⟩ := Fallible.bind_eq_ok.mp h
  dsimp only at h
  split at h
  · cases h
  rename_i hc
  cases h
  refine ⟨checkSchema_ok hs, hstatus, hsemantic, ?_, hc⟩
  rintro s rfl
  unfold optionalString at hd
  split at hd
  · cases hd
  · obtain ⟨x, hx, he⟩ := Fallible.map_eq_ok.mp hd
    cases he
    exact stringField_ok hx

theorem matched_of_decodeReply {d : SemanticDigest} (h : decodeReply extension = .ok r)
    (hs : r.status = .matched) (hd : r.semanticDigest = some d) : Matched extension d := by
  obtain ⟨schema, status, digest, descriptor, check⟩ := decodeReply_ok h
  rw [hs] at status
  rw [hd] at digest
  unfold ModelInterfaceReply.check at check
  rw [hs] at check
  dsimp only at check
  split at check
  · cases check
  rename_i hc
  simp only [ne_eq, not_or, not_not, Bool.not_eq_true, Bool.not_eq_false', Bool.and_eq_true] at hc
  exact ⟨schema, decodeStatus_ok status, descriptor _ hc.1, optionalDigest_ok digest, hc.2.2⟩

theorem declined_of_decodeReply (h : decodeReply extension = .ok r)
    (hs : r.status = .unsupported ∨ r.status = .unavailable) : Declined extension := by
  obtain ⟨schema, status, -⟩ := decodeReply_ok h
  refine ⟨schema, ?_⟩
  rcases hs with hs | hs
  · exact .inl (decodeStatus_ok (hs ▸ status))
  · exact .inr (decodeStatus_ok (hs ▸ status))

/-- The extension of an answer: there is none, or a reply to a valid specification, or a failure. -/
theorem decodeExtension_ok {message : MirrorMessage} {d : DecodedReply}
    (h : decodeExtension raw message = .ok d) : d.message = message ∧
    (d.reply = none ∧ d.failure = none ∧ absent raw "modelInterface" = true ∨
      ∃ extension, raw.field? "modelInterface" = some extension ∧
        ((∃ r, d.reply = some r ∧ decodeReply extension = .ok r ∧ message = .specValidated ⟨none⟩ ∧
            raw.field? "proto_step" = some (.str "spec_validated")) ∨
          d.reply = none ∧ raw.field? "proto_step" = some (.str "register_error"))) := by
  unfold decodeExtension at h
  split at h
  · rename_i hf
    cases h
    exact ⟨rfl, .inl ⟨rfl, rfl, by simp [absent, hf]⟩⟩
  · rename_i hf
    cases h
    exact ⟨rfl, .inl ⟨rfl, rfl, by simp [absent, hf]⟩⟩
  rename_i extension _ hf
  obtain ⟨tag, ht, h⟩ := Fallible.bind_eq_ok.mp h
  split at h
  · rename_i hv
    obtain ⟨r, hr, h⟩ := Fallible.bind_eq_ok.mp h
    split at h
    · cases h
      exact ⟨rfl, .inr ⟨extension, hf, .inl ⟨r, rfl, hr, rfl, hv ▸ stringField_ok ht⟩⟩⟩
    · cases h
  split at h
  · rename_i hv
    obtain ⟨failure, -, h⟩ := Fallible.bind_eq_ok.mp h
    cases h
    exact ⟨rfl, .inr ⟨extension, hf, .inr ⟨rfl, hv ▸ stringField_ok ht⟩⟩⟩
  · cases h

end Decoded

/-! ## The request -/

def NegotiationPolicy.name : NegotiationPolicy → String
  | require => "require"
  | prefer => "prefer"

def requestJson (request : ModelInterfaceVerifyRequest) : Json :=
  .obj <| put "contract" (.obj (put "inline" request.contract [])) <|
    put "expectedSemanticDigest" (.str (renderWireSemanticDigest request.expectedSemanticDigest)) <|
    put "acceptDescriptorSchemas" (strings [modelInterfaceDescriptorSchema]) <|
    put "policy" (.str request.policy.name) <| put "request" (.str "verify") <|
    put "schema" (.str modelInterfaceNegotiationSchema) []

/-- `outer[key] = value`. -/
def assignMember (outer : Json) (key : String) (value : Json) : Except JsonFault Json :=
  match outer with
  | .obj ms => .ok (.obj (put key value ms))
  | .null => .ok (.obj (put key value []))
  | _ => .error .wrongType

/-- `encode_registration`, of a `register` or `register_traces`. -/
def encodeRegistration (lib : JsonLib) (registration : ClientMessage)
    (request : ModelInterfaceVerifyRequest) : Result String :=
  let thrown (f : JsonFault) : Result String :=
    .error (unexpectedStatus ("cannot encode registration: " ++ lib.what f))
  match encodeClientMessage lib registration with
  | none => thrown .badUtf8
  | some text =>
    match lib.parse text with
    | none => thrown .syntaxError
    | some outer =>
      if outer.toJson.contains "modelInterface" then
        .error (unexpectedStatus "registration already contains modelInterface")
      else
        match assignMember outer.toJson "modelInterface" (requestJson request) with
        | .error f => thrown f
        | .ok outer =>
          match lib.dump outer with
          | none => thrown .badUtf8
          | some encoded =>
            if encoded.length > 65535 then
              .error (unexpectedStatus "model-interface registration exceeds 65535 bytes")
            else .ok encoded

def makeVerifyRequest (rd : StrictReader) (metadata : GeneratedModelInterface)
    (policy : NegotiationPolicy) : Checked ModelInterfaceVerifyRequest := do
  let digest ← lift (semanticDigestFromHex metadata.semanticDigest)
  let contract ← lift (strictParse rd metadata.contractJson)
  validateContract contract
  return { policy, expectedSemanticDigest := digest, contract }

theorem safe_makeVerifyRequest (rd : StrictReader) (metadata : GeneratedModelInterface)
    (policy : NegotiationPolicy) : Safe (makeVerifyRequest rd metadata policy) :=
  safe_bind (safe_lift _) fun _ _ => safe_bind (safe_lift _) fun _ _ =>
    safe_bind (safe_validateContract _) fun _ _ => safe_ok _

/-! ## The registry -/

structure CompiledAdapterKey where
  semanticDigest : SemanticDigest
  adapterId : String
  targetProfile : String
  stateComputerContractVersion : String
  deriving DecidableEq, Repr

structure CompiledAdapterRegistration (φ : Type) where
  key : CompiledAdapterKey
  factory : φ

section Registry

variable {φ : Type}

abbrev CompiledAdapterRegistry (φ : Type) := List (CompiledAdapterRegistration φ)

/-- The entries of a key. -/
def CompiledAdapterRegistry.exact (registry : CompiledAdapterRegistry φ)
    (key : CompiledAdapterKey) : CompiledAdapterRegistry φ :=
  registry.filter fun r => decide (r.key = key)

/-- Why no entry has the key. -/
def CompiledAdapterRegistry.missing (registry : CompiledAdapterRegistry φ)
    (key : CompiledAdapterKey) : Error :=
  let same := registry.filter fun r =>
    decide (r.key.semanticDigest = key.semanticDigest ∧ r.key.adapterId = key.adapterId)
  let target := same.any fun r => decide (r.key.targetProfile = key.targetProfile)
  if !same.isEmpty && !target then
    miError "target_profile_mismatch"
      ("adapter target profile does not match " ++ key.targetProfile)
  else if target then
    miError "state_computer_contract_mismatch"
      ("adapter StateComputer contract does not match " ++ key.stateComputerContractVersion)
  else miError "adapter_not_registered" ("adapter is not registered: " ++ key.adapterId)

def CompiledAdapterRegistry.resolve (registry : CompiledAdapterRegistry φ)
    (key : CompiledAdapterKey) : Result φ :=
  match registry.exact key with
  | [r] => .ok r.factory
  | _ :: _ =>
    .error (miError "adapter_ambiguous"
      ("multiple exact adapters are registered for " ++ key.adapterId))
  | [] => .error (registry.missing key)

variable {registry : CompiledAdapterRegistry φ} {key : CompiledAdapterKey}

/-- A factory is found only for a key of one entry. -/
theorem resolve_eq_ok {factory : φ} : registry.resolve key = .ok factory ↔
    registry.exact key = [⟨key, factory⟩] := by
  unfold CompiledAdapterRegistry.resolve
  constructor
  · intro h
    split at h
    · rename_i r hr
      have hk : r ∈ registry.exact key := hr ▸ List.mem_cons_self
      have hk : r.key = key := of_decide_eq_true (List.mem_filter.mp hk).2
      cases h
      rw [hr, ← hk]
    · cases h
    · cases h
  · intro h
    rw [h]

theorem resolve_single (key : CompiledAdapterKey) (factory : φ) :
    CompiledAdapterRegistry.resolve [⟨key, factory⟩] key = .ok factory :=
  resolve_eq_ok.mpr (by simp [CompiledAdapterRegistry.exact])

def CompiledAdapterRegistration.map {ψ : Type} (f : φ → ψ) (r : CompiledAdapterRegistration φ) :
    CompiledAdapterRegistration ψ := ⟨r.key, f r.factory⟩

/-- What is found, and why nothing is, depends on the keys only. -/
theorem resolve_map {ψ : Type} (f : φ → ψ) (registry : CompiledAdapterRegistry φ) :
    CompiledAdapterRegistry.resolve (registry.map (·.map f)) key = f <$> registry.resolve key := by
  have hexact : CompiledAdapterRegistry.exact (registry.map (·.map f)) key =
      (registry.exact key).map (·.map f) := List.filter_map
  have hmissing : CompiledAdapterRegistry.missing (registry.map (·.map f)) key =
      registry.missing key := by
    simp only [CompiledAdapterRegistry.missing, List.filter_map, List.isEmpty_map, List.any_map,
      Function.comp_def, CompiledAdapterRegistration.map]
  unfold CompiledAdapterRegistry.resolve
  rw [hexact, hmissing]
  match registry.exact key with
  | [] | [_] | _ :: _ :: _ => rfl

end Registry

end MirrorCpp.Interface
