import MirrorCpp.Schedule.Retention
import MirrorCpp.Schedule.Quiescence
import Mathlib.Data.List.Induction

/-!
# Scheduled replays (`schedule_binding.cpp`, `replay_with_traces`)

A replay runs the negotiated client over a transport that watches for the peer's verdict. The
selection's callbacks act on a state of the caller; the binding session is a part of it.
-/

namespace MirrorCpp.Schedule

open Itf Protocol Fallible
open Client (Exn Library Negotiator Peer Reply Run CompiledAdapterSelection
  runClientWithTracesNegotiated)

/-! ## The peer's verdict -/

structure ObservedTransport where
  terminal : String := ""
  rawTerminal : String := ""

/-- `recv_line`. A line whose decoding throws is the last one: the exception ends the flow. -/
def ObservedTransport.recvLine (lib : Library) (o : ObservedTransport) : Reply → ObservedTransport
  | .error _ => o
  | .ok line =>
    match lib.decode line with
    | .ok (.ok m) =>
      let terminal := match m with
        | .allStepsDone => "all_steps_done"
        | .stepMismatch _ => "step_mismatch"
        | _ => o.terminal
      { terminal, rawTerminal := if terminal = "" then o.rawTerminal else line }
    | _ => o

def observe (lib : Library) (rs : List Reply) : ObservedTransport :=
  rs.foldl (ObservedTransport.recvLine lib) {}

/-- A reply that is a verdict. -/
def verdict (lib : Library) : Reply → Option MirrorMessage
  | .error _ => none
  | .ok line =>
    match lib.decode line with
    | .ok (.ok .allStepsDone) => some .allStepsDone
    | .ok (.ok (.stepMismatch m)) => some (.stepMismatch m)
    | _ => none

/-- The name of a verdict. -/
def verdictName : MirrorMessage → String
  | .allStepsDone => "all_steps_done"
  | _ => "step_mismatch"

theorem terminal_recvLine (lib : Library) (o : ObservedTransport) (r : Reply) :
    (o.recvLine lib r).terminal = ((verdict lib r).map verdictName).getD o.terminal := by
  cases r with
  | error e => rfl
  | ok line =>
    unfold ObservedTransport.recvLine verdict
    dsimp only
    cases lib.decode line with
    | error x => rfl
    | ok d =>
      cases d with
      | error e => rfl
      | ok m => cases m <;> rfl

/-- The verdict that counts is the last. -/
theorem terminal_observe (lib : Library) (rs : List Reply) :
    (observe lib rs).terminal =
      ((rs.filterMap (verdict lib)).getLast?.map verdictName).getD "" := by
  induction rs using List.reverseRecOn with
  | nil => rfl
  | append_singleton rs r ih =>
    rw [observe, List.foldl_append, List.foldl_cons, List.foldl_nil, terminal_recvLine,
      List.filterMap_append]
    cases hv : verdict lib r with
    | none =>
      rw [List.filterMap_cons_none hv, List.filterMap_nil, List.append_nil]
      exact ih
    | some m =>
      rw [List.filterMap_cons_some hv, List.filterMap_nil, List.getLast?_concat]
      rfl

theorem verdict_cases {lib : Library} {r : Reply} {m : MirrorMessage} (h : verdict lib r = some m) :
    m = .allStepsDone ∨ ∃ x, m = .stepMismatch x := by
  unfold verdict at h
  repeat' split at h
  all_goals cases h
  · exact .inl rfl
  · exact .inr ⟨_, rfl⟩

theorem terminal_matched {lib : Library} {rs : List Reply}
    (h : (observe lib rs).terminal = "all_steps_done") :
    (rs.filterMap (verdict lib)).getLast? = some .allStepsDone := by
  rw [terminal_observe] at h
  cases hl : (rs.filterMap (verdict lib)).getLast? with
  | none => simp [hl] at h
  | some m =>
    obtain ⟨r, -, hr⟩ := List.mem_filterMap.mp (List.mem_of_getLast? hl)
    obtain rfl | ⟨x, rfl⟩ := verdict_cases hr
    · rfl
    · simp [hl, verdictName] at h

/-! ## Evidence -/

def errorKindName : ErrorKind → String
  | .io => "io"
  | .spawn => "spawn"
  | .json => "json"
  | .protocol => "protocol"
  | .registration => "registration"
  | .specInvalid => "spec_invalid"
  | .stepMismatch => "step_mismatch"
  | .tls => "tls"
  | .registry => "registry"
  | .specSource => "spec_source"
  | .modelInterface => "model_interface"

/-- The hints in order; rendering throws where the library does. -/
def orderedHints (lib : Library) (hints : List DiffHint) : Except Exn (List Json) :=
  hints.mapM fun h =>
    match renderDiffHint lib.json h with
    | some text => .ok (.str text)
    | none => .error (.std lib.dumpWhat)

def clientEvidence (lib : Library) : Result Unit → Except Exn Json
  | .ok () => .ok (.obj [("status", .str "succeeded")])
  | .error e => do
    let hints ← orderedHints lib (e.hints.getD [])
    return .obj <|
      (e.actual.map fun s => ("actual", encodeState s)).toList ++
      (e.code.map fun c => ("code", .str c)).toList ++
      (e.expected.map fun s => ("expected", encodeState s)).toList ++
      [("kind", .str (errorKindName e.kind)), ("message", .str e.message),
        ("orderedHints", .arr hints), ("status", .str "failed")]

/-- The members of a comparison. -/
def comparisonJson (binding client : Json) (comparison : String) (passed : Bool)
    (o : ObservedTransport) : Json :=
  .obj [("binding", binding), ("client", client), ("comparison", .str comparison),
    ("passed", .bool passed), ("peerTerminal", .str o.terminal),
    ("peerTerminalRaw", .str o.rawTerminal),
    ("schema", .str "mirrors.scheduled-comparison/v1")]

/-- An error of the client that leaves a match of the peer standing. -/
def onlyDisposal (e : Error) : Bool :=
  e.kind == .modelInterface && e.code == some "adapter_dispose_failed"

def compare (o : ObservedTransport) (result : Result Unit) : String :=
  match result with
  | .ok () => if o.terminal = "all_steps_done" then "matched" else "incomplete"
  | .error e =>
    if o.terminal = "all_steps_done" ∧ onlyDisposal e then "matched"
    else if o.terminal = "step_mismatch" ∧ e.kind = .stepMismatch then "step_mismatch"
    else "incomplete"

structure ReplayResult where
  clientResult : Result Unit
  evidence : Json
  passed : Bool

/-- How a replay ended (`none`: the peer has not answered), what was received, and the state the
callbacks left. -/
structure Replay (σ : Type) where
  exit : Option (Except Exn ReplayResult)
  received : List Reply
  user : σ

section

variable {σ : Type} (lib : Negotiator) (session : σ → BindingSession)

def sessionReused : Error :=
  Interface.miError "schedule_session_reused" "scheduled replay requires a fresh binding session"

/-- The evidence of a replay, with the session as it was left. -/
def replayResult (o : ObservedTransport) (result : Result Unit) (s : BindingSession) :
    Except Exn ReplayResult := do
  let comparison := compare o result
  let passed := result.isOk && comparison == "matched" && s.fullyCompleted lib.json
  let client ← clientEvidence lib.toLibrary result
  let binding ← s.receipt lib.json
  return { clientResult := result, evidence := comparisonJson binding client comparison passed o,
           passed }

/-- The watching transport decodes the first reply before the client does. -/
def firstEscape : List Reply → Option Escape
  | .ok line :: _ =>
    match lib.toLibrary.decode line with
    | .error x => some x
    | .ok _ => none
  | _ => none

def replayWithTraces (peer : Peer) (config : ApalacheConfig) (traces : List String)
    (selection : CompiledAdapterSelection σ) (u : σ) : Replay σ :=
  let s := session u
  match s.receipt lib.json with
  | .error e => ⟨some (.error e), [], u⟩
  | .ok before =>
    if s.initializations ≠ 0 ∨ s.disposals ≠ 0 ∨ s.disposed then
      let rejected : Result Unit := .error sessionReused
      ⟨some do
        let client ← clientEvidence lib.toLibrary rejected
        return { clientResult := rejected,
                 evidence := comparisonJson before client "incomplete" false {}, passed := false },
        [], u⟩
    else
      let run := runClientWithTracesNegotiated lib peer config traces selection u
      match firstEscape lib run.received with
      | some x => ⟨some (.error (.std (lib.escapeWhat x))), run.received, u⟩
      | none =>
        let exit := match run.exit with
          | .waiting => none
          | .raised e => some (.error e)
          | .returned result =>
            some (replayResult lib (observe lib.toLibrary run.received) result (session run.user))
        ⟨exit, run.received, run.user⟩

theorem replayResult_passed {o : ObservedTransport} {result : Result Unit} {s : BindingSession}
    {r : ReplayResult} (h : replayResult lib o result s = .ok r) (hp : r.passed = true) :
    r.clientResult = .ok () ∧ o.terminal = "all_steps_done" ∧
      s.fullyCompleted lib.json = true := by
  unfold replayResult at h
  dsimp only at h
  obtain ⟨client, -, h⟩ := bind_eq_ok.mp h
  obtain ⟨binding, -, h⟩ := bind_eq_ok.mp h
  cases h
  simp only [Bool.and_eq_true, beq_iff_eq] at hp
  obtain ⟨⟨hok, hm⟩, hf⟩ := hp
  cases result with
  | error e => cases hok
  | ok v =>
    refine ⟨rfl, ?_, hf⟩
    unfold compare at hm
    dsimp only at hm
    split at hm
    · assumption
    · simp at hm

/-- A replay passes only on the peer's word, with the client's success and a complete session. -/
theorem replayWithTraces_passed {peer : Peer} {config : ApalacheConfig} {traces : List String}
    {selection : CompiledAdapterSelection σ} {u : σ} {r : ReplayResult}
    (h : (replayWithTraces lib session peer config traces selection u).exit = some (.ok r))
    (hp : r.passed = true) :
    r.clientResult = .ok () ∧
      ((replayWithTraces lib session peer config traces selection u).received.filterMap
        (verdict lib.toLibrary)).getLast? = some .allStepsDone ∧
      (session (replayWithTraces lib session peer config traces selection u).user).fullyCompleted
        lib.json = true := by
  unfold replayWithTraces at h ⊢
  dsimp only at h ⊢
  split at h
  · cases h
  · split at h
    · -- a session that was used before does not pass
      obtain ⟨client, -, he⟩ := bind_eq_ok.mp (Option.some.inj h)
      cases he; cases hp
    · rename_i hs hfresh
      split at h
      · cases h
      · rename_i he
        dsimp only at h
        split at h
        · cases h
        · cases h
        · rename_i result hx
          have hr := replayResult_passed lib (Option.some.inj h) hp
          simp only [hfresh, if_false]
          exact ⟨hr.1, terminal_matched hr.2.1, hr.2.2⟩

end

/-! ## A session over two generations -/

namespace Binding

def sample : Binding where
  session := { schedule := sampleSchedule, adapter := sampleAdapter, policy := {} }

/-- The first generation has begun to start. -/
def sampleStarting : Binding where
  session := { sample.session with
    execution := some Sys.sampleStart
    initializations := 1
    generations := [1] }
  point := .starting
  nextGeneration := 2

def sampleFactory : Starting where
  factory := .ok { workers := [{ actor := "a" }, { actor := "b" }] }
  random i := if i.val % 2 = 0 then 0x01234567 else 0x89abcdef

theorem sampleStarting_reach :
    (bindings sampleLib).ReachBy (fun _ a => a.returns = true) sampleStarting := by
  have hi : (bindings sampleLib).ReachBy (fun _ a => a.returns = true) sample :=
    .init ⟨_, _, _, _, rfl⟩
  have ho := hi.step (a := .initialize_ true) rfl (t := sample.initialize_ true) rfl
  refine ho.step (a := .start sampleFactory) rfl ?_
  have hstart : Sys.start sampleLib ((sample.initialize_ true).opening sampleFactory) =
      Sys.sampleStart := Sys.start_sample
  simp only [bindings, Binding.step, Binding.start, hstart]
  rfl

/-- Steps of the execution that is open. -/
def inside (cs : List Choice) : List Act := cs.map .inner

/-- One worker goes from its wait to its end. -/
def endSteps (i : Nat) : List Act :=
  inside [.wake i, .user i .return_, .close i, .permitted false, .joined,
    .observed (.ok .null) false, .leave] ++ [.proceed]

/-- The first generation runs to the end of its schedule. -/
def generationSteps : List Act :=
  inside Sys.openingSteps ++ [.proceed, .advance ⟨"a", "c"⟩ true false] ++
  inside [.wake 0, .user 0 (.arrive "c"), .arrive 0, .permitted false, .observed (.ok .null) false,
    .leave] ++ [.proceed, .advance ⟨"b", "$done"⟩ true false] ++ endSteps 1 ++
  [.advance ⟨"a", "$done"⟩ true false] ++ endSteps 0

/-- It is closed, and a receipt is made. -/
def closeSteps : List Act :=
  inside [.enter, .cleanupWake false, .cleanupTorn none] ++ [.proceed, .proceed]

def sampleRun (acts : List Act) : Option Binding :=
  (bindings sampleLib).exec (fun _ a => a.returns) acts sampleStarting

def isIdle (b : Binding) : Bool :=
  match b.point with
  | .idle => true
  | _ => false

theorem isIdle_eq {b : Binding} (h : b.isIdle = true) : b.point = .idle := by
  unfold isIdle at h
  split at h
  · assumption
  · cases h

/-- The verdict on a session and its counts, once it is idle. -/
def summary (b : Binding) : Bool × Bool × Nat × Nat :=
  (b.isIdle, b.session.fullyCompleted sampleLib.toJsonLib, b.session.executions.length,
    b.session.initializations)

theorem sampleRun_summary {acts : List Act} {n m : Nat}
    (h : (sampleRun acts).map summary = some (true, true, n, m)) :
    ∃ b, sampleRun acts = some b ∧ b.point = .idle ∧
      b.session.fullyCompleted sampleLib.toJsonLib = true ∧ b.session.executions.length = n ∧
      b.session.initializations = m := by
  obtain ⟨b, hb, he⟩ := Option.map_eq_some_iff.mp h
  simp only [summary, Prod.mk.injEq] at he
  exact ⟨b, hb, isIdle_eq he.1, he.2⟩

end Binding

/-! ## The evidence of a session -/

/-- What holds after every run of a session: the bounds, that a generation is started only when
all before it have passed and are receipted, that disposal is done once, and what full completion
promises. The number of records is that of the initialisations where no start has thrown. -/
theorem binding_evidence {lib : JsonScan} {b : Binding} (h : (bindings lib).Reach b) :
    b.session.initializations ≤ maxExecutions ∧
    (b.session.executions = b.session.entries.map Entry.json ∧
      b.session.receiptBytes = (b.session.entries.map (Entry.size lib.toJsonLib)).sum ∧
      b.session.receiptBytes ≤ maxReceiptBytes) ∧
    (b.point = .opening → b.session.Cleared) ∧
    (b.point = .idle → b.session.disposed = true → ∀ owner,
      b.step lib (.dispose owner) = some (b.answer b.session (.disposed b.session.disposal))) ∧
    (∀ r r', .disposed r ∈ b.answers → .disposed r' ∈ b.answers → r = r') ∧
    (b.point = .idle → b.session.fullyCompleted lib.toJsonLib = true → b.session.Evident ∧
      (b.session.executions.length = b.session.initializations ↔ b.session.lost = 0)) ∧
    ((bindings lib).ReachBy (fun _ a => a.returns = true) b → b.session.lost = 0) ∧
    ∀ (σ : Type) (rd : Negotiator) (session : σ → BindingSession) (peer : Peer)
      (config : ApalacheConfig) (traces : List String) (selection : CompiledAdapterSelection σ)
      (u : σ) (r : ReplayResult),
      let replay := replayWithTraces rd session peer config traces selection u
      replay.exit = some (.ok r) → r.passed = true →
        r.clientResult = .ok () ∧
        (replay.received.filterMap (verdict rd.toLibrary)).getLast? = some .allStepsDone ∧
        (session replay.user).fullyCompleted rd.json = true := by
  have H := Booked.reach h
  refine ⟨H.limit, ⟨H.kept.records, H.kept.bytes, H.kept.bound⟩, H.cleared, ?_, ?_, H.evident,
    lost_reach, ?_⟩
  · intro hp hd owner
    simp only [Binding.step, hp, Binding.dispose, if_pos hd]
  · intro r r' hr hr'
    exact (H.disposals hr).trans (H.disposals hr').symm
  · intro σ rd session peer config traces selection u r replay hx hp
    exact replayWithTraces_passed rd session hx hp

namespace Binding

/-- A session of one generation. -/
theorem binding_evidence_sample : ∃ b : Binding, b.session.Evident ∧
    b.session.executions.length = b.session.initializations := by
  have hrun : (sampleRun (generationSteps ++ .dispose true :: closeSteps)).map summary =
      some (true, true, 1, 1) := by
    decide +kernel
  obtain ⟨b, hb, hp, hf, hlen, hinit⟩ := sampleRun_summary hrun
  have hr := sampleStarting_reach.exec (fun _ _ h => h) hb
  obtain ⟨-, -, -, -, -, hevident, hlost, -⟩ := binding_evidence hr.reach
  obtain ⟨he, hiff⟩ := hevident hp hf
  exact ⟨b, he, hiff.mpr (hlost hr)⟩

/-- The start of the second generation throws; the session that is disposed of then counts as
complete, with one record for two initialisations. -/
theorem start_unrecorded : ∃ b : Binding, (bindings sampleLib).Reach b ∧ b.point = .idle ∧
    b.session.fullyCompleted sampleLib.toJsonLib = true ∧ b.session.executions.length = 1 ∧
    b.session.initializations = 2 := by
  have hrun : ((bindings sampleLib).exec (fun _ _ => true)
      (generationSteps ++ .initialize_ true :: closeSteps ++
        [.startThrew (.std "random_device could not be read"), .dispose true])
      sampleStarting).map summary = some (true, true, 1, 2) := by
    decide +kernel
  obtain ⟨b, hb, he⟩ := Option.map_eq_some_iff.mp hrun
  simp only [summary, Prod.mk.injEq] at he
  exact ⟨b, sampleStarting_reach.reach.exec (fun _ _ _ => trivial) hb, isIdle_eq he.1, he.2⟩

end Binding

end MirrorCpp.Schedule
