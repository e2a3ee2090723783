import MirrorCpp.Schedule.Course

/-!
# Receipts (`Execution::receipt`, `schedule.cpp`)

A receipt is the report of an execution with what it was asked to do, as one JSON object. Members
are listed in the order in which the library keeps them.
-/

namespace MirrorCpp.Schedule

def strings (xs : List String) : Json := .arr (xs.map .str)

def Event.toJson (e : Event) : Json :=
  .obj [("actor", .str e.actor), ("checkpoint", .str e.checkpoint), ("kind", .str e.kind.name),
    ("operation", .str e.operation), ("ordinal", .int e.ordinal), ("step", .int e.step)]

def Observation.toJson (o : Observation) : Json :=
  .obj [("afterSteps", .int o.afterSteps), ("state", o.state)]

def CleanupAttempt.toJson (a : CleanupAttempt) : Json :=
  .obj [("detail", .str a.detail), ("remainingActors", strings a.remainingActors),
    ("status", .str a.status.name)]

def ActorDeclaration.toJson (a : ActorDeclaration) : Json :=
  .obj [("actor", .str a.actor), ("operation", .str a.operation)]

def Policy.toJson (p : Policy) : Json :=
  .obj [("cleanupTimeoutMs", .int p.cleanupTimeout),
    ("executionTimeoutMs", .int p.executionTimeout),
    ("maxActors", .int p.maxActors), ("maxSteps", .int p.maxSteps)]

namespace Sys

/-- `Execution::receipt`. -/
def receipt (x : Sys) : Json :=
  let r := x.state.report
  .obj [
    ("actors", .arr (x.impl.adapter.actors.map ActorDeclaration.toJson)),
    ("checkpoints", strings x.impl.adapter.checkpoints),
    ("cleanup", .str r.cleanup.name),
    ("cleanupAttempts", .arr (r.cleanupAttempts.map CleanupAttempt.toJson)),
    ("coverage", .str "recorded-schedule-only"),
    ("detail", .str r.detail),
    ("events", .arr (r.events.map Event.toJson)),
    ("executionId", .str r.executionId),
    ("generation", .int r.generation),
    ("observations", .arr (r.observations.map Observation.toJson)),
    ("outcome", .str r.outcome.name),
    ("passed", .bool r.passed),
    ("policy", x.impl.policy.toJson),
    ("remainingActors", strings r.remainingActors),
    ("schedule", scheduleJson x.impl.schedule),
    ("scheduleCompleted", .bool r.scheduleCompleted),
    ("schema", .str receiptSchema)]

@[simp] theorem receipt_passed (x : Sys) :
    x.receipt.field? "passed" = some (.bool x.state.report.passed) := rfl

/-! ## Generations -/

open Shared

variable {lib : JsonLib} {x y : Sys} {i : Nat}

/-- An execution keeps the generation it was started with. -/
def generation (x : Sys) : Nat := x.state.report.generation

theorem generation_start (lib : JsonScan) (o : Opening) :
    (start lib o).generation = o.generation := by
  have h := congrArg Report.generation (initial_start lib o).report
  exact h

theorem generation_judged {s t : Shared} (h : Judged s t) :
    t.report.generation = s.report.generation := by rw [h.report]

theorem generation_fail (s : Shared) (o : Outcome) (d : String) :
    (s.fail o d).report.generation = s.report.generation := by
  unfold fail
  split <;> rfl

theorem generation_callTeardown (x : Sys) : x.callTeardown.generation = x.generation := by
  unfold callTeardown
  split <;> rfl

theorem generation_scan (h : Scan x y) : y.generation = x.generation := by
  cases h with
  | join | rest => rfl
  | tear => rw [generation_callTeardown]; rfl

theorem generation_wind (h : Wind x y) : y.generation = x.generation := by
  cases h with
  | wake _ h => exact generation_scan h
  | joined _ _ h => exact (generation_scan h).trans rfl
  | destroyTear => rw [generation_callTeardown]; rfl
  | torn | destroyJoin | destroyEnd | destroyTorn => rfl

theorem generation_retained (h : Retained x y) : y.generation = x.generation := by
  cases h with
  | failed => exact generation_fail _ _ _
  | kept => rfl

theorem generation_recordArrival (s : Shared) (n i : Nat) :
    (recordArrival s n i).report.generation = s.report.generation := by
  unfold recordArrival
  dsimp only
  split <;> rfl

theorem generation_move (h : Move x y) : y.generation = x.generation := by
  cases h with
  | work _ h =>
    obtain ⟨s, ps, rfl, hj⟩ := h.judged
    exact (generation_judged hj).trans rfl
  | @foreign i k checkpoint =>
    exact (generation_judged (judged_arrive x.state (.other k) i checkpoint)).trans rfl
  | refuse => exact generation_fail _ _ _
  | finish _ _ _ hj => exact generation_judged hj
  | spawnRefused => exact generation_fail _ _ _
  | barrierFailed _ hj => exact generation_judged hj
  | startObserved _ h =>
    exact (generation_judged (judged_settle _ _)).trans (generation_retained h)
  | @advanceObserved z late _ h =>
    have hg := generation_judged (judged_settle z.state late)
    refine Eq.trans ?_ (hg.trans (generation_retained h))
    unfold advanceObserved generation
    dsimp only
    split <;> rfl
  | wokenFailed _ hj => exact (generation_recordArrival _ _ _).trans (generation_judged hj)
  | wokenAstray =>
    exact (generation_fail _ _ _).trans (generation_recordArrival _ _ _)
  | wokenFinished => exact generation_recordArrival _ _ _
  | wokenParked => exact generation_recordArrival _ _ _
  | wind h => exact generation_wind h
  | cancel | stay | permit | badBudget | close | clean | destroy | spawn | barrier | joined
  | leave => rfl

theorem generation_step {c : Choice} (h : x.step lib c = some y) : y.generation = x.generation :=
  generation_move (move_of_step h)

theorem generation_finish (x : Sys) : x.finish.generation = x.generation := by
  unfold finish
  split
  · rfl
  · unfold generation
    dsimp only
    split
    · exact generation_fail _ _ _
    · rfl

theorem generation_cleanup (x : Sys) (timeout : Int) :
    (x.cleanup timeout).generation = x.generation := by
  unfold cleanup
  split
  · rfl
  · dsimp only
    split <;> rfl

theorem generation_advance (x : Sys) (st : Step) (late : Bool) :
    (x.advance st late).generation = x.generation := by
  unfold advance
  split
  · rfl
  · split
    · exact generation_fail _ _ _
    · rfl

end Sys

end MirrorCpp.Schedule
