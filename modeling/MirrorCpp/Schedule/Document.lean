import MirrorCpp.Lib.Json
import MirrorCpp.Lib.Fallible
import MirrorCpp.Names

/-!
# Schedules and their serialised form (`schedule.cpp`)

`parseSchedule` watches the callbacks of the parser for repeated keys and deep nesting, then
reads exactly the fields it knows. `encodeSchedule` prints a schedule and reads the text back.
An error is the text of the exception.
-/

namespace MirrorCpp.Schedule

set_option linter.dupNamespace false

open Fallible

def profile : String := "mirrorcpp.cooperative-checkpoints/v1"

def scheduleSchema : String := "mirrors.checkpoint-schedule/v1"

def receiptSchema : String := "mirrors.checkpoint-replay/v1"

def completion : String := "$done"

def maxArtifactBytes : Nat := 1048576

def maxObservationBytes : Nat := 65535

structure Step where
  actor : String
  checkpoint : String
  deriving DecidableEq, Repr

structure Schedule where
  schedulingProfile : String := profile
  identity : Identity
  inputs : Json := .obj []
  steps : List Step

def identifier (text : String) : Bool := boundedName ['/'] text

/-- `plain_json`: a value that survives serialisation. -/
def plainJson (value : Json) : Bool := value.plainBelow 28

/-! ## Printing -/

def identityJson (value : Identity) : Json :=
  .obj [("implementationSha256", .str value.implementationSha256),
    ("mappingSha256", .str value.mappingSha256),
    ("modelSemanticDigest", .str value.modelSemanticDigest)]

def Step.toJson (step : Step) : Json :=
  .obj [("actor", .str step.actor), ("checkpoint", .str step.checkpoint)]

def scheduleJson (value : Schedule) : Json :=
  .obj [("identity", identityJson value.identity), ("inputs", value.inputs),
    ("profile", .str value.schedulingProfile), ("schema", .str scheduleSchema),
    ("steps", .arr (value.steps.map Step.toJson))]

/-! ## Reading -/

/-- The library with its parser's callbacks: those made for a text, then the value or the text
of the parser's own exception. -/
structure JsonScan extends JsonLib where
  scan : String → List ParseEvent × Except String Doc
  scan_parse : ∀ t d, parse t = some d → scan t = (d.events, .ok d)

/-- A library that makes no callback for a text outside its grammar. -/
def JsonScan.of (lib : JsonLib) : JsonScan where
  toJsonLib := lib
  scan t :=
    match lib.parse t with
    | some d => (d.events, .ok d)
    | none => ([], .error (lib.what .syntaxError))
  scan_parse t d h := by simp only [h]

/-- The keys of the open objects, innermost first, and the number of open containers. -/
structure Nesting where
  keys : List (List String) := []
  depth : Nat := 0

/-- One callback. -/
def Nesting.step (n : Nesting) : ParseEvent → Except String Nesting
  | .objectStart =>
    if n.depth + 1 > 32 then .error "schedule nesting exceeds bound"
    else .ok { keys := [] :: n.keys, depth := n.depth + 1 }
  | .arrayStart =>
    if n.depth + 1 > 32 then .error "schedule nesting exceeds bound"
    else .ok { n with depth := n.depth + 1 }
  | .objectEnd => .ok { keys := n.keys.tail, depth := n.depth - 1 }
  | .arrayEnd => .ok { n with depth := n.depth - 1 }
  | .key k =>
    match n.keys with
    | [] => .ok n
    | keys :: rest =>
      if keys.contains k then .error "duplicate schedule JSON key"
      else .ok { n with keys := (k :: keys) :: rest }
  | .value => .ok n

/-- Exactly these members. -/
def exact (value : Json) (keys : List String) : Except String Unit :=
  if !value.isObj || value.size != keys.length then
    .error "schedule object has missing or unknown fields"
  else if !keys.all value.contains then .error "missing schedule field"
  else .ok ()

def check (condition : Bool) (message : String) : Except String Unit :=
  if condition then .ok () else .error message

section
variable (lib : JsonScan)

/-- The value, or the text of what an accessor throws. -/
def said {α : Type} : Except JsonFault α → Except String α
  | .ok a => .ok a
  | .error f => .error (lib.what f)

/-- `value.at(key).get<std::string>()`. -/
def stringAt (value : Json) (key : String) : Except String String :=
  said lib (value.field key >>= Json.getStr)

def readStep (step : Json) : Except String Step := do
  exact step ["actor", "checkpoint"]
  let actor ← stringAt lib step "actor"
  let checkpoint ← stringAt lib step "checkpoint"
  return { actor, checkpoint }

/-- The value of a text whose callbacks all pass. -/
def scanned (text : String) : Except String Json :=
  let (events, value) := lib.scan text
  (events.foldlM Nesting.step {}) >>= fun _ => Doc.toJson <$> value

def readIdentity (id : Json) : Except String Identity := do
  let modelSemanticDigest ← stringAt lib id "modelSemanticDigest"
  let mappingSha256 ← stringAt lib id "mappingSha256"
  let implementationSha256 ← stringAt lib id "implementationSha256"
  return { modelSemanticDigest, mappingSha256, implementationSha256 }

def Step.named (step : Step) : Bool :=
  identifier step.actor && (identifier step.checkpoint || step.checkpoint == completion)

/-- What `parse_schedule` does with the parsed value. -/
def readValue (value : Json) : Except String Schedule := do
  exact value ["schema", "profile", "identity", "inputs", "steps"]
  let schema ← said lib (value.field "schema")
  check (lib.eq schema (.str scheduleSchema)) "unknown schedule schema"
  let id ← said lib (value.field "identity")
  exact id ["modelSemanticDigest", "mappingSha256", "implementationSha256"]
  let schedulingProfile ← stringAt lib value "profile"
  let identity ← readIdentity lib id
  let inputs ← said lib (value.field "inputs")
  let steps ← said lib (value.field "steps")
  check (steps.isArr && decide (steps.size ≤ 65536)) "invalid schedule steps"
  let steps ← steps.children.mapM (readStep lib)
  check (schedulingProfile == profile && identity.valid) "invalid schedule profile or identity"
  check (steps.all Step.named) "invalid schedule identifier"
  return { schedulingProfile, identity, inputs, steps }

def parseSchedule (text : String) : Except String Schedule :=
  if text.length > maxArtifactBytes then .error "schedule exceeds byte bound"
  else match scanned lib text >>= readValue lib with
    | .ok s => .ok s
    | .error what => .error ("schedule decode failed: " ++ what)

def encodeSchedule (schedule : Schedule) : Except String String := do
  check (plainJson schedule.inputs) "inputs must be bounded plain JSON"
  let text ← match lib.dump (scheduleJson schedule) with
    | some t => .ok t
    | none => .error (lib.what .badUtf8)
  let _ ← parseSchedule lib text
  return text

variable {lib}

end

end MirrorCpp.Schedule
