import MirrorCpp.Sync.Execution

/-!
# The receipt of an execution (`schedule_sync.cpp`, `Execution::receipt`)

Everything an execution retained, as one JSON object with its members in key order.
-/

namespace MirrorCpp.Sync

def profile : String := "mirrorcpp.controlled-sync-experimental/v1"

def Outcome.name : Outcome → String
  | .completed => "completed"
  | .invalidProfile => "invalid_profile"
  | .applicationFailed => "application_failed"
  | .timedOut => "timed_out"
  | .evidenceExhausted => "evidence_exhausted"
  | .resourceMisuse => "resource_misuse"
  | .observationFailed => "observation_failed"
  | .controlledDeadlock => "controlled_deadlock"
  | .disabledChoice => "disabled_choice"
  | .decisionExhausted => "decision_exhausted"
  | .cancelled => "cancelled"

def Cleanup.name : Cleanup → String
  | .notStarted => "not_started"
  | .incomplete => "incomplete"
  | .confirmed => "confirmed"
  | .teardownFailed => "teardown_failed"

def Kind.name : Kind → String
  | .mutex => "mutex"
  | .queue => "queue"

def identityJson (id : Identity) : Json :=
  .obj [("implementationSha256", .str id.implementationSha256),
    ("mappingSha256", .str id.mappingSha256),
    ("modelSemanticDigest", .str id.modelSemanticDigest)]

namespace State

variable (s : State)

/-- The owner as a string, empty if there is none. -/
def ownerName (o : Option Nat) : Json := .str (o.elim "" fun i => (s.actor i).id)

def contents (q : List Int) : Json := .arr (q.map .int)

def failureGraphJson : Json :=
  match s.failureGraph with
  | none => .null
  | some g => .obj [
      ("contents", .obj (g.contents.map fun (id, q) => (id, contents q))),
      ("owners", .obj (g.owners.map fun (id, o) => (id, s.ownerName o))),
      ("waits", .arr (g.waits.map fun w => .obj [("actor", .str w.actor),
        ("operation", .str w.operation.name), ("resource", .str w.resource)]))]

def resourcesJson : Json :=
  .arr (s.resources.map fun o => .obj [("capacity", .int o.declaration.capacity),
    ("contents", contents o.queue), ("id", .str o.declaration.id),
    ("kind", .str o.declaration.kind.name), ("owner", s.ownerName o.owner)])

def actorState (i : Nat) : String :=
  if (s.actor i).finished then "finished"
  else if (s.actor i).parked then if s.enabled i then "enabled" else "blocked"
  else "running"

def actorsJson : Json :=
  .arr ((List.range s.actors.length).map fun i => .obj [("actor", .str (s.actor i).id),
    ("operation", .str (s.actor i).pending.op.name),
    ("resource", .str (s.actor i).pending.resource), ("state", .str (s.actorState i))])

/-- `Execution::receipt`. -/
def receipt (identity : Identity) (executionId : String) : Json :=
  .obj [("actors", s.actorsJson),
    ("budgetExceeded", .obj [("cleanup", .bool s.report.cleanupBudgetExceeded),
      ("execution", .bool s.report.executionBudgetExceeded)]),
    ("cleanup", .str s.report.cleanup.name),
    ("coverage", .str "recorded-controlled-resource-decisions-only"),
    ("decisions", .int s.report.decisions),
    ("detail", .str s.report.detail),
    ("events", .arr (s.events.map Event.toJson)),
    ("executionId", .str executionId),
    ("failureGraph", s.failureGraphJson),
    ("finished", .bool s.report.finished),
    ("identity", identityJson identity),
    ("modelComparison", .bool false),
    ("observations", .arr (s.observations.map Observation.toJson)),
    ("outcome", .str s.report.outcome.name),
    ("passed", .bool s.report.passed),
    ("profile", .str profile),
    ("resources", s.resourcesJson),
    ("schema", .str "mirrors.controlled-sync-replay/v1")]

end State

end MirrorCpp.Sync
