import MirrorCpp.Protocol.Request

/-!
# Phases of a connection (`PhaseGuard`, `protocol.cpp`)

A guard accepts or refuses the messages a flow sends and receives; its state is the phase. An
accepted message leads to a phase, a refused one leaves it.
-/

namespace MirrorCpp.Protocol

inductive Phase where
  | idle
  | validating
  | ready
  | stepping
  | exploring
  | done
  deriving DecidableEq, Repr

/-- `phase_name`. -/
def Phase.name : Phase → String
  | idle => "idle"
  | validating => "validating"
  | ready => "ready"
  | stepping => "stepping"
  | exploring => "exploring"
  | done => "done"

/-- `expected_tags`. -/
def Phase.expectedTags : Phase → String
  | idle => "Register* | register_*_async | query_job | await_job | cancel_job"
  | validating => "spec_validated | gen_traces_done"
  | ready => "initial_state"
  | stepping => "next_step | step_ok | all_steps_done | step_mismatch"
  | exploring => "explore_* reply | explore_session_done"
  | done => "(no further messages)"

def errProtocol {α : Type} (m : String) : Result α := .error { kind := .protocol, message := m }

def isReg (tag : String) : Bool :=
  tag == "register" || tag == "register_traces" || tag == "register_trace_gen" ||
    tag == "register_explore" || tag == "register_explore_session" || tag == "register_validate"

/-- `PhaseGuard::sent`. -/
def Phase.sent (p : Phase) (msg : ClientMessage) : Result Phase :=
  let tag := msg.name
  if isReg tag then
    if p ≠ .idle then errProtocol ("cannot send " ++ tag ++ " in phase " ++ p.name)
    else .ok (if tag = "register_explore_session" then .exploring else .validating)
  else if tag = "register_validate_async" ∨ tag = "register_trace_gen_async" then
    if p ≠ .idle then errProtocol ("cannot send " ++ tag ++ " in phase " ++ p.name) else .ok p
  else if tag = "query_job" ∨ tag = "await_job" ∨ tag = "cancel_job" then
    if p ≠ .idle ∧ p ≠ .done then errProtocol ("cannot send " ++ tag ++ " in phase " ++ p.name)
    else .ok p
  else if tag = "report_state" then
    if p ≠ .stepping then errProtocol ("report_state requires phase stepping, got " ++ p.name)
    else .ok p
  else if "explore_".toList.isPrefixOf tag.toList then
    if p ≠ .exploring then errProtocol ("explore_* requires phase exploring, got " ++ p.name)
    else .ok p
  else errProtocol ("unexpected client message " ++ tag)

/-- The phase an accepted message leads to. -/
def Phase.after (p : Phase) : MirrorMessage → Option Phase
  | .specValidated m => if p ≠ .validating then none else some (if m.isValid then .ready else .done)
  | .genTracesDone _ => if p ≠ .validating then none else some .done
  | .initialState _ _ => if p ≠ .ready ∧ p ≠ .stepping then none else some .stepping
  | .nextStep _ _ | .stepOk => if p = .stepping then some p else none
  | .allStepsDone | .stepMismatch _ => if p ≠ .stepping then none else some .done
  | .explorerReady _ _ _ => if p = .exploring then some p else none
  | .exploreTransitionStatus _ | .exploreAssumeStatus _ | .exploreStepDone _ | .exploreState _
  | .exploreInvariantStatus _ | .exploreRollbackDone _ => if p = .exploring then some p else none
  | .exploreSessionDone => if p ≠ .exploring then none else some .done
  | .jobAccepted _ _ | .jobStatus _ _ | .jobResult _ _ =>
    if p = .idle ∨ p = .done then some p else none
  | .registerError _ | .protocolError _ => none

/-- `PhaseGuard::received`. -/
def Phase.received (p : Phase) (msg : MirrorMessage) : Result Phase :=
  let tag := msg.name
  -- errors may arrive at any point
  if tag = "register_error" ∨ tag = "protocol_error" then .ok p
  else match p.after msg with
    | some q => .ok q
    | none => errProtocol ("expected " ++ p.expectedTags ++ ", got " ++ tag)

/-! ## Registrations, reports and commands -/

/-- The messages that start a session of steps. -/
def ClientMessage.startsSteps : ClientMessage → Bool
  | register _ _ _ | registerTraces _ _ | registerExplore _ _ _ _ => true
  | _ => false

theorem sent_registration {m : ClientMessage} (h : m.startsSteps = true) :
    Phase.sent .idle m = .ok .validating := by
  cases m with
  | register _ _ _ | registerTraces _ _ | registerExplore _ _ _ _ => rfl
  | _ => cases h

theorem sent_report (p : Phase) (s : Itf.State) : p.sent (.reportState s) =
    if p ≠ .stepping then errProtocol ("report_state requires phase stepping, got " ++ p.name)
    else .ok p := rfl

/-- The commands of an exploration session. -/
def ClientMessage.isCommand : ClientMessage → Bool
  | exploreAssumeTransition _ | exploreNextStep | exploreQueryState | exploreCheckInvariant _
  | exploreAssumeState _ | exploreRollback _ | exploreDone => true
  | _ => false

theorem sent_command {m : ClientMessage} (h : m.isCommand = true) (p : Phase) : p.sent m =
    if p ≠ .exploring then errProtocol ("explore_* requires phase exploring, got " ++ p.name)
    else .ok p := by
  have ht : isReg m.name = false ∧
      ¬(m.name = "register_validate_async" ∨ m.name = "register_trace_gen_async") ∧
      ¬(m.name = "query_job" ∨ m.name = "await_job" ∨ m.name = "cancel_job") ∧
      m.name ≠ "report_state" ∧ "explore_".toList.isPrefixOf m.name.toList = true := by
    cases m with
    | exploreAssumeTransition _ | exploreNextStep | exploreQueryState | exploreCheckInvariant _
    | exploreAssumeState _ | exploreRollback _ | exploreDone =>
      simp only [ClientMessage.name]
      decide
    | _ => cases h
  obtain ⟨h1, h2, h3, h4, h5⟩ := ht
  unfold Phase.sent
  simp only [h1, Bool.false_eq_true, if_false, if_neg h2, if_neg h3, if_neg h4, if_pos h5]

end MirrorCpp.Protocol
