import MirrorCpp.Client.Stepping
import MirrorCpp.Protocol.Total

/-!
# The stepping loop follows the reference automaton

The protocol has three stages before the end: registered, validated, stepping. The automaton knows
nothing of errors, phases or transports; the loop accepts exactly its words, computes a state for
each step it accepts, and reports it.
-/

namespace MirrorCpp.Client

open Itf Protocol

/-! ## The reference automaton -/

inductive Stage where
  | registered
  | validated
  | stepping
  deriving DecidableEq, Repr

namespace Stage

def next : Stage → MirrorMessage → Option Stage
  | registered, .specValidated ⟨none⟩ => some validated
  | validated, .initialState _ _ => some stepping
  | stepping, .initialState _ _ | stepping, .nextStep _ _ | stepping, .stepOk => some stepping
  | _, _ => none

/-- The last message of a session that went well. -/
def ends : Stage → MirrorMessage → Bool
  | stepping, .allStepsDone => true
  | _, _ => false

/-- The phase of the guard. -/
def phase : Stage → Phase
  | registered => .validating
  | validated => .ready
  | stepping => .stepping

end Stage

/-- Messages that may come between the first state and the end. -/
def isStep : MirrorMessage → Bool
  | .initialState _ _ | .nextStep _ _ | .stepOk => true
  | _ => false

/-- What a message asks the computer for: the action, the parameters and the previous state. -/
def asks (prev : State) : MirrorMessage → Option (String × State × State)
  | .initialState action state => some (action, state, [])
  | .nextStep action parameters => some (action, parameters, prev)
  | _ => none

section Automaton

variable {σ : Type} (lib : Library)

/-- The message of a reply. -/
def answer : Reply → Option MirrorMessage
  | .ok line => match lib.decode line with
    | .ok (.ok m) => some m
    | _ => none
  | .error _ => none

/-- The automaton gets to the end, whatever comes behind it. -/
def finishes : Stage → List Reply → Bool
  | _, [] => false
  | q, reply :: rest => match answer lib reply with
    | some m => q.ends m || match q.next m with
      | some q' => finishes q' rest
      | none => false
    | none => false

/-- The messages the automaton follows. -/
def follows : Stage → List Reply → List MirrorMessage
  | _, [] => []
  | q, reply :: rest => match answer lib reply with
    | some m => match q.next m with
      | some q' => m :: follows q' rest
      | none => []
    | none => []

/-- A session that went well: a valid specification, a first state, any steps, the end. -/
def WentWell (replies : List Reply) : Prop :=
  ∃ (action : String) (state : State) (steps : List MirrorMessage),
    (∀ m ∈ steps, isStep m = true) ∧ replies.map (answer lib) =
      some (.specValidated ⟨none⟩) :: some (.initialState action state) ::
        (steps.map some ++ [some .allStepsDone])

/-- The calls that messages ask for, each with the previous call's state. -/
def callsOf (compute : Computer σ) : List MirrorMessage → State → σ → List Call
  | [], _, _ => []
  | m :: ms, prev, u => match asks prev m with
    | none => callsOf compute ms prev u
    | some (action, params, prev) => match compute action params prev u with
      | (.error x, _) => [⟨action, params, prev, .error x⟩]
      | (.ok state, u) => ⟨action, params, prev, .ok state⟩ :: callsOf compute ms state u

/-- The lines that report calls. -/
def reports (calls : List Call) : List String :=
  calls.filterMap fun c => match c.result with
    | .ok state => lib.encode (.reportState state)
    | .error _ => none

end Automaton

variable {σ : Type} {lib : Library}

theorem finishes_stepping {replies : List Reply} : finishes lib .stepping replies = true ↔
    ∃ (w rest : List Reply) (ms : List MirrorMessage), replies = w ++ rest ∧
      (∀ m ∈ ms, isStep m = true) ∧
      w.map (answer lib) = ms.map some ++ [some .allStepsDone] := by
  induction replies with
  | nil =>
    refine iff_of_false (by simp [finishes]) ?_
    rintro ⟨w, rest, ms, h, -, hw⟩
    obtain ⟨rfl, -⟩ := List.append_eq_nil_iff.mp h.symm
    simp at hw
  | cons reply replies ih =>
    constructor
    · intro h
      rw [finishes] at h
      cases ha : answer lib reply with
      | none => rw [ha] at h; cases h
      | some m =>
        simp only [ha, Bool.or_eq_true] at h
        rcases h with h | h
        · cases m with
          | allStepsDone => exact ⟨[reply], replies, [], rfl, by simp, by simp [ha]⟩
          | _ => cases h
        · have hm : isStep m = true ∧ finishes lib .stepping replies = true := by
            cases m with
            | initialState _ _ | nextStep _ _ | stepOk => exact ⟨rfl, h⟩
            | _ => cases h
          obtain ⟨w, rest, ms, rfl, hms, hw⟩ := ih.mp hm.2
          exact ⟨reply :: w, rest, m :: ms, rfl, by simpa [hm.1] using hms, by simp [ha, hw]⟩
    · rintro ⟨w, rest, ms, h, hms, hw⟩
      cases w with
      | nil => simp at hw
      | cons reply' w =>
        obtain ⟨rfl, rfl⟩ := List.cons.inj h
        cases ms with
        | nil =>
          simp only [List.map_cons, List.map_nil, List.nil_append, List.cons.injEq] at hw
          rw [finishes, hw.1]
          rfl
        | cons m ms =>
          simp only [List.map_cons, List.cons_append, List.cons.injEq] at hw
          have hm := hms m List.mem_cons_self
          have hrec := ih.mpr ⟨w, rest, ms, rfl, fun m hm => hms m (List.mem_cons_of_mem _ hm),
            hw.2⟩
          rw [finishes, hw.1]
          cases m with
          | initialState _ _ | nextStep _ _ | stepOk => exact hrec
          | _ => cases hm

/-- Before the steps a session cannot end. -/
theorem finishes_before {q : Stage} (hq : q ≠ .stepping) {replies : List Reply} :
    finishes lib q replies = true ↔ ∃ reply rest m q', replies = reply :: rest ∧
      answer lib reply = some m ∧ q.next m = some q' ∧ finishes lib q' rest = true := by
  cases replies with
  | nil => simp [finishes]
  | cons reply rest =>
    rw [finishes]
    cases ha : answer lib reply with
    | none => simp [ha]
    | some m =>
      have he : q.ends m = false := by
        cases q <;> first | rfl | exact absurd rfl hq
      cases hn : q.next m with
      | none => simp [he, hn, ha]
      | some q' => simp [he, hn, ha]

theorem next_registered {m : MirrorMessage} {q : Stage} :
    Stage.next .registered m = some q ↔ m = .specValidated ⟨none⟩ ∧ q = .validated := by
  cases m with
  | specValidated v =>
    obtain ⟨_ | text⟩ := v
    · simp [Stage.next, eq_comm]
    · simp [Stage.next]
  | _ => simp [Stage.next]

theorem next_validated {m : MirrorMessage} {q : Stage} : Stage.next .validated m = some q ↔
    ∃ action state, m = .initialState action state ∧ q = .stepping := by
  cases m <;> simp [Stage.next, eq_comm]

theorem finishes_registered {replies : List Reply} : finishes lib .registered replies = true ↔
    ∃ w rest, replies = w ++ rest ∧ WentWell lib w := by
  simp only [finishes_before (q := .registered) (by decide), next_registered]
  constructor
  · rintro ⟨r₁, _, _, _, rfl, h₁, ⟨rfl, rfl⟩, h⟩
    rw [finishes_before (by decide)] at h
    obtain ⟨r₂, rest, _, _, rfl, h₂, hn, h⟩ := h
    obtain ⟨action, state, rfl, rfl⟩ := next_validated.mp hn
    obtain ⟨w, rest, ms, rfl, hms, hw⟩ := finishes_stepping.mp h
    refine ⟨r₁ :: r₂ :: w, rest, rfl, action, state, ms, hms, ?_⟩
    rw [List.map_cons, List.map_cons, h₁, h₂, hw]
  · rintro ⟨w, rest, rfl, action, state, ms, hms, hw⟩
    match w, hw with
    | r₁ :: r₂ :: w, hw =>
      simp only [List.map_cons, List.cons.injEq] at hw
      refine ⟨r₁, r₂ :: w ++ rest, _, _, rfl, hw.1, ⟨rfl, rfl⟩, ?_⟩
      rw [finishes_before (by decide)]
      exact ⟨r₂, w ++ rest, _, _, rfl, hw.2.1, next_validated.mpr ⟨action, state, rfl, rfl⟩,
        finishes_stepping.mpr ⟨w, rest, ms, rfl, hms, hw.2.2⟩⟩
    | [_], hw => simp at hw
    | [], hw => simp at hw

/-! ## Runs that conform -/

/-- A run on `replies`, from stage `q` with the state `prev` last computed. -/
structure Conforms (lib : Library) (compute : Computer σ) (q : Stage) (replies : List Reply)
    (prev : State) (u : σ) (r : Run σ) : Prop where
  lines : r.lines = reports lib r.calls
  calls : r.calls = callsOf compute (follows lib q r.received) prev u
  received : r.received <+: replies
  waits : r.exit = .waiting → r.received = replies
  succeeds : r.Succeeds ↔ finishes lib q replies = true ∧ r.Delivered ∧ r.Computed
  closed : r.Closed

variable {compute : Computer σ} {q q' : Stage} {reply : Reply} {rest : List Reply} {prev : State}
  {u : σ} {m : MirrorMessage} {e : Error}

theorem conforms_waiting : Conforms lib compute q [] prev u ⟨[], .waiting, u⟩ where
  lines := rfl
  calls := rfl
  received := List.nil_prefix
  waits _ := rfl
  succeeds := by simp [Run.Succeeds, finishes]
  closed := by simp [Run.Closed]

/-- A reply the automaton does not go on with. -/
def Refused (lib : Library) (q : Stage) (reply : Reply) : Prop :=
  ∀ m, answer lib reply = some m → q.next m = none ∧ q.ends m = false

theorem follows_refused (h : Refused lib q reply) : follows lib q [reply] = [] := by
  rw [follows]
  cases ha : answer lib reply with
  | none => rfl
  | some m => simp only [(h m ha).1]

theorem finishes_refused (h : Refused lib q reply) : finishes lib q (reply :: rest) = false := by
  rw [finishes]
  cases ha : answer lib reply with
  | none => rfl
  | some m => simp only [(h m ha).1, (h m ha).2, Bool.or_self]

theorem conforms_refused (h : Refused lib q reply) :
    Conforms lib compute q (reply :: rest) prev u (.after (.recv reply) (.fail u e)) where
  lines := rfl
  calls := by
    rw [show (Run.after (.recv reply) (Run.fail u e)).received = [reply] from rfl,
      follows_refused h]
    rfl
  received := ⟨rest, rfl⟩
  waits := nofun
  succeeds := by simp [Run.Succeeds, Run.fail, finishes_refused h]
  closed := by simp

theorem conforms_ends (ha : answer lib reply = some m) (he : q.ends m = true)
    (hn : q.next m = none) : Conforms lib compute q (reply :: rest) prev u
      (.after (.recv reply) ⟨[.close], .returned (.ok ()), u⟩) where
  lines := rfl
  calls := by
    show [] = callsOf compute (follows lib q [reply]) prev u
    rw [follows, ha]
    simp only [hn]
    rfl
  received := ⟨rest, rfl⟩
  waits := nofun
  succeeds := by
    refine iff_of_true rfl ⟨?_, ?_, nofun⟩
    · rw [finishes, ha]
      simp [he]
    · simp [Run.Delivered, Run.after]
  closed := Run.closed_recv.mpr (Run.closed_close nofun)

theorem finishes_next (ha : answer lib reply = some m) (hn : q.next m = some q')
    (he : q.ends m = false) : finishes lib q (reply :: rest) = finishes lib q' rest := by
  rw [finishes, ha]
  simp [hn, he]

theorem follows_next (ha : answer lib reply = some m) (hn : q.next m = some q')
    (rs : List Reply) : follows lib q (reply :: rs) = m :: follows lib q' rs := by
  rw [follows, ha]
  simp only [hn]

/-- A message that asks for nothing. -/
theorem conforms_skip {r : Run σ} (ha : answer lib reply = some m) (hn : q.next m = some q')
    (he : q.ends m = false) (hs : asks prev m = none) (h : Conforms lib compute q' rest prev u r) :
    Conforms lib compute q (reply :: rest) prev u (.after (.recv reply) r) where
  lines := h.lines
  calls := by
    rw [Run.calls_recv, Run.received_recv, follows_next ha hn, callsOf, hs]
    exact h.calls
  received := List.cons_prefix_cons.mpr ⟨rfl, h.received⟩
  waits hw := congrArg (reply :: ·) (h.waits hw)
  succeeds := by
    rw [finishes_next ha hn he, Run.delivered_recv]
    exact h.succeeds
  closed := Run.closed_recv.mpr h.closed

/-- Every state the computer returns can be encoded. -/
def Encodable (compute : Computer σ) : Prop :=
  ∀ action params prev u state u', compute action params prev u = (.ok state, u') →
    (encodeState state).utf8 = true

/-- A message that asks for a state. -/
theorem conforms_report {sends : Nat → Option Error} {n : Nat} {action : String}
    {params p : State} {next : Phase → State → σ → Run σ} (henc : Encodable compute)
    (ha : answer lib reply = some m) (hn : q.next m = some q') (he : q.ends m = false)
    (hs : asks prev m = some (action, params, p))
    (h : ∀ state u', compute action params p u = (.ok state, u') →
      Conforms lib compute q' rest state u' (next .stepping state u')) :
    Conforms lib compute q (reply :: rest) prev u
      (.after (.recv reply) (report lib sends compute n .stepping action params p u next)) := by
  unfold report
  cases hc : compute action params p u with
  | mk result u' =>
    cases result with
    | error x =>
      exact {
        lines := rfl
        calls := by
          show [_] = callsOf compute (follows lib q [reply]) prev u
          rw [follows_next ha hn, callsOf, hs]
          simp only [hc]
        received := ⟨rest, rfl⟩
        waits := nofun
        succeeds := by simp [Run.Succeeds, Run.Computed, Run.calls, Run.after]
        closed := Run.closed_recv.mpr <| Run.closed_compute.mpr <| Run.closed_close nofun }
    | ok state =>
      have henc := henc _ _ _ _ _ _ hc
      obtain ⟨line, hline⟩ : ∃ line, lib.encode (.reportState state) = some line :=
        Option.isSome_iff_exists.mp (by
          rw [Library.encode, encodeClientMessage_isSome, utf8_report, henc])
      have hcalls : ∀ rs cs, cs = callsOf compute (follows lib q' rs) state u' →
          ⟨action, params, p, .ok state⟩ :: cs =
            callsOf compute (follows lib q (reply :: rs)) prev u := by
        rintro rs _ rfl
        rw [follows_next ha hn, callsOf, hs]
        simp only [hc]
      simp only [sent_report, ne_eq, not_true, if_false, sendMessage, hline]
      cases hsend : sends n with
      | some x =>
        dsimp only
        exact {
          lines := by simp [reports, hline]
          calls := hcalls [] [] rfl
          received := ⟨rest, rfl⟩
          waits := by rintro ⟨⟩
          succeeds := by
            simp [Run.Succeeds, Run.fail]
          closed := by simp }
      | none =>
        have h := h state u' hc
        exact {
          lines := by simp [reports, hline, h.lines]
          calls := hcalls _ _ h.calls
          received := List.cons_prefix_cons.mpr ⟨rfl, h.received⟩
          waits := fun hw => congrArg (reply :: ·) (h.waits hw)
          succeeds := by
            rw [finishes_next ha hn he, Run.delivered_recv, Run.delivered_compute,
              Run.delivered_send]
            refine h.succeeds.trans ?_
            simp [Run.Computed]
          closed := by simpa using h.closed }

/-! ## The loop -/

/-- The decoder returns on every line among the replies. -/
def Decodes (lib : Library) (replies : List Reply) : Prop :=
  ∀ line, .ok line ∈ replies → ∃ r, lib.decode line = .ok r

/-- A text that parses is UTF-8. -/
def Library.ParsesUtf8 (lib : Library) : Prop :=
  ∀ line j, lib.reader.parse line = .ok j → j.utf8 = true

theorem mismatchError_isSome (hutf8 : lib.ParsesUtf8) {line : String} {m : StepMismatch}
    (h : lib.decode line = .ok (.ok (.stepMismatch m))) (lastAction : String) :
    ∃ e, mismatchError lib m lastAction = some e := by
  obtain ⟨t, ht⟩ := @render_received lib.late lib.json lib.reader line m (hutf8 line) h
  apply Option.isSome_iff_exists.mp
  unfold mismatchError
  rw [ht]
  by_cases hm : m.hints = [] <;> simp [hm]

theorem answer_eq {line : String} {m : MirrorMessage} (h : lib.decode line = .ok (.ok m)) :
    answer lib (.ok line) = some m := by rw [answer, h]

theorem refused_of {line : String} (h : lib.decode line = .ok (.ok m)) (hn : q.next m = none)
    (he : q.ends m = false) : Refused lib q (.ok line) := by
  intro m' hm
  rw [answer_eq h] at hm
  cases hm
  exact ⟨hn, he⟩

theorem conforms_loop {sends : Nat → Option Error} (hutf8 : lib.ParsesUtf8)
    (henc : Encodable compute) {replies : List Reply} (hdec : Decodes lib replies)
    (hq : q ≠ .registered) (n : Nat) (prev : State) (lastAction : String) (u : σ) :
    Conforms lib compute q replies prev u
      (loop lib sends compute replies n q.phase prev lastAction u) := by
  induction replies generalizing q n prev lastAction u with
  | nil => exact conforms_waiting
  | cons reply rest ih =>
    have ih := fun n prev action u => @ih .stepping (fun line h => hdec line (.tail _ h))
      (by decide) n prev action u
    rw [loop]
    unfold receive
    cases reply with
    | error e => exact conforms_refused nofun
    | ok line =>
      obtain ⟨r, hr⟩ := hdec line List.mem_cons_self
      simp only [hr]
      cases r with
      | error e => exact conforms_refused (by simp [Refused, answer, hr])
      | ok m =>
        have ha := answer_eq hr
        cases m with
        | initialState action state =>
          cases q with
          | registered => exact absurd rfl hq
          | validated | stepping =>
            exact conforms_report henc ha rfl rfl rfl fun _ _ _ => ih _ _ _ _
        | nextStep action parameters =>
          cases q with
          | registered => exact absurd rfl hq
          | validated => exact conforms_refused (refused_of hr rfl rfl)
          | stepping => exact conforms_report henc ha rfl rfl rfl fun _ _ _ => ih _ _ _ _
        | stepOk =>
          cases q with
          | registered => exact absurd rfl hq
          | validated => exact conforms_refused (refused_of hr rfl rfl)
          | stepping => exact conforms_skip ha rfl rfl rfl (ih _ _ _ _)
        | allStepsDone =>
          cases q with
          | registered => exact absurd rfl hq
          | validated => exact conforms_refused (refused_of hr rfl rfl)
          | stepping => exact conforms_ends ha rfl rfl
        | stepMismatch m =>
          cases q with
          | registered => exact absurd rfl hq
          | validated => exact conforms_refused (refused_of hr rfl rfl)
          | stepping =>
            obtain ⟨e, he⟩ := mismatchError_isSome hutf8 hr lastAction
            have hg : Stage.stepping.phase.received (.stepMismatch m) = .ok .done := rfl
            simp only [hg, he]
            exact conforms_refused (refused_of hr rfl rfl)
        | _ =>
          cases q with
          | registered => exact absurd rfl hq
          | validated | stepping => exact conforms_refused (refused_of hr rfl rfl)

theorem conforms_runSteppingLoop {sends : Nat → Option Error} (hutf8 : lib.ParsesUtf8)
    (henc : Encodable compute) {replies : List Reply} (hdec : Decodes lib replies) (n : Nat)
    (u : σ) : Conforms lib compute .registered replies [] u
      (runSteppingLoop lib sends compute replies n .validating u) := by
  cases replies with
  | nil => exact conforms_waiting
  | cons reply rest =>
    unfold runSteppingLoop receive
    cases reply with
    | error e => exact conforms_refused nofun
    | ok line =>
      obtain ⟨r, hr⟩ := hdec line List.mem_cons_self
      simp only [hr]
      cases r with
      | error e => exact conforms_refused (by simp [Refused, answer, hr])
      | ok m =>
        cases m with
        | specValidated v =>
          obtain ⟨_ | text⟩ := v
          · have hloop := @conforms_loop _ _ _ .validated sends hutf8 henc _
              (fun line h => hdec line (.tail _ h)) (by decide) n [] "" u
            exact conforms_skip (answer_eq hr) rfl rfl rfl hloop
          · exact conforms_refused (refused_of hr rfl rfl)
        | _ => exact conforms_refused (refused_of hr rfl rfl)

/-! ## The flows -/

/-- The flows of steps with their arguments. -/
inductive StepsFlow where
  | withTraces (config : ApalacheConfig) (itfTracePaths : List String)
  | generated (config : ApalacheConfig) (traceConfig : TraceGenerationConfig)
      (inlineSpec : Option ApalacheSpec)
  | explored (spec : ApalacheSpec) (invariants exports : List String) (maxSteps : Int)

namespace StepsFlow

def registration : StepsFlow → ClientMessage
  | withTraces config paths => .registerTraces config paths
  | generated config traceConfig inlineSpec => .register config traceConfig inlineSpec
  | explored spec invariants exports maxSteps =>
    .registerExplore spec invariants exports (some maxSteps)

def run (lib : Library) (peer : Peer) (compute : Option (Computer σ)) (u : σ) :
    StepsFlow → Run σ
  | withTraces config paths => runClientWithTraces lib peer compute u config paths
  | generated config traceConfig inlineSpec =>
    runClient lib peer compute u config traceConfig inlineSpec
  | explored spec invariants exports maxSteps =>
    runClientExplore lib peer compute u spec invariants exports maxSteps

theorem startsSteps (flow : StepsFlow) : flow.registration.startsSteps = true := by
  cases flow <;> rfl

theorem run_eq (flow : StepsFlow) : ∃ name, ∀ (lib : Library) (peer : Peer)
    (compute : Option (Computer σ)) (u : σ),
    flow.run lib peer compute u = runRegistered lib peer compute u name flow.registration := by
  cases flow <;> exact ⟨_, fun _ _ _ _ => rfl⟩

end StepsFlow

/-- A run that follows the reference automaton, registered by `line`. -/
structure FollowsAutomaton (lib : Library) (compute : Computer σ) (peer : Peer) (line : String)
    (u : σ) (r : Run σ) : Prop where
  /-- The registration, then a report for each call that returned. -/
  lines : r.lines = line :: reports lib r.calls
  /-- A call for each step that was accepted. -/
  calls : r.calls = callsOf compute (follows lib .registered r.received) [] u
  received : r.received <+: peer.replies
  waits : r.exit = .waiting → r.received = peer.replies
  succeeds : r.Succeeds ↔ (∃ w rest, peer.replies = w ++ rest ∧ WentWell lib w) ∧
    r.Delivered ∧ r.Computed
  closed : r.Closed

/-- **A flow of steps follows the reference automaton.** A null computer is refused before anything
is sent, received or closed. -/
theorem run_follows (hutf8 : lib.ParsesUtf8) (flow : StepsFlow) (peer : Peer)
    (hdec : Decodes lib peer.replies) {line : String}
    (hline : lib.encode flow.registration = some line) (compute : Option (Computer σ))
    (henc : ∀ c, compute = some c → Encodable c) (u : σ) :
    match compute with
    | none => (flow.run lib peer compute u).events = [] ∧
        ∃ e, (flow.run lib peer compute u).exit = .returned (.error e)
    | some c => FollowsAutomaton lib c peer line u (flow.run lib peer compute u) := by
  obtain ⟨name, hrun⟩ := flow.run_eq
  rw [hrun]
  cases compute with
  | none => exact ⟨rfl, _, rfl⟩
  | some c =>
    have h := @conforms_runSteppingLoop _ _ _ peer.sends hutf8 (henc c rfl) _ hdec 1 u
    simp only [runRegistered, sent_registration flow.startsSteps, sendMessage, hline]
    cases peer.sends 0 with
    | some e =>
      exact {
        lines := rfl
        calls := rfl
        received := List.nil_prefix
        waits := nofun
        succeeds := by simp [Run.Succeeds, Run.fail]
        closed := by simp }
    | none =>
      exact {
        lines := congrArg (line :: ·) h.lines
        calls := h.calls
        received := h.received
        waits := h.waits
        succeeds := by
          rw [← finishes_registered, Run.delivered_send]
          refine h.succeeds.trans ?_
          simp [Run.Computed]
        closed := Run.closed_send.mpr h.closed }

/-! ## Sample runs -/

def compactLibrary : Library where
  late := false
  reader := compactReader
  json := Compact.lib
  escapeWhat _ := "std::exception"
  dumpWhat := "[json.exception.type_error.316] invalid UTF-8 byte"

def sampleFlow : StepsFlow := .withTraces { specPath := "Spec.tla" } ["trace.itf.json"]

def sampleText (j : Json) : String := (Compact.dump j).getD ""

/-- The replies of a session of two steps that goes well. -/
def samplePeer : Peer where
  replies := [
    .ok (sampleText (.obj [("proto_step", .str "spec_validated"), ("result", .str "valid")])),
    .ok (sampleText (.obj [("action", .str "init"), ("proto_step", .str "initial_state"),
      ("state", .obj [("x", .obj [("#bigint", .str "1")])])])),
    .ok (sampleText (.obj [("proto_step", .str "step_ok")])),
    .ok (sampleText (.obj [("action", .str "inc"), ("parameters", .obj []),
      ("proto_step", .str "next_step")])),
    .ok (sampleText (.obj [("proto_step", .str "all_steps_done")]))]
  sends _ := none

/-- Counts its calls. -/
def countCalls : Computer Nat := fun _ _ _ n => (.ok [("x", .integer n)], n + 1)

theorem decodes_samplePeer : Decodes compactLibrary samplePeer.replies := by
  have h : ∀ reply ∈ samplePeer.replies, (match reply with
      | .ok line => (compactLibrary.decode line).isOk
      | .error _ => true) = true := by decide +kernel
  intro line hm
  have hl := h _ hm
  dsimp only at hl
  cases hd : compactLibrary.decode line with
  | ok r => exact ⟨r, rfl⟩
  | error e => rw [hd] at hl; cases hl

theorem run_follows_sample : FollowsAutomaton compactLibrary countCalls samplePeer
    ((compactLibrary.encode sampleFlow.registration).getD "") 0
    (sampleFlow.run compactLibrary samplePeer (some countCalls) 0) := by
  refine run_follows (fun line j h => compactReader_utf8 h) sampleFlow samplePeer
    decodes_samplePeer ?_ (some countCalls) ?_ 0
  · decide +kernel
  · rintro _ ⟨⟩ action params prev u state u' h
    have h : (Except.ok [("x", .integer u)], u + 1) = (Except.ok state, u') := h
    obtain rfl : [("x", .integer u)] = state := Except.ok.inj (Prod.mk.inj h).1
    simp [encodeState, encodeFields, Json.utf8Members, utf8_integer,
      show Text.utf8 "x" = true by decide]

/-- Without a computer the transport stays open, and nothing is sent. -/
theorem null_computer_open : ∃ r : Run Nat, r = sampleFlow.run compactLibrary samplePeer none 0 ∧
    (∃ e, r.exit = .returned (.error e)) ∧ r.lines = [] ∧ ¬r.Closed :=
  ⟨_, rfl, ⟨_, rfl⟩, rfl, fun ⟨es, h, _⟩ => List.append_ne_nil_of_right_ne_nil es (by simp) h.symm⟩

end MirrorCpp.Client
