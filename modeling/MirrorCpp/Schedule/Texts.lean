import MirrorCpp.Schedule.Binding
import MirrorCpp.Schedule.Quiescence

/-!
# The texts of a receipt

Texts of the application enter the report cut to a number of bytes, wherever that falls. A text
that is cut inside a character leaves a report that does not print. `Clean` says of a step that it
hands over no such text; a run of clean steps keeps every text of its report within its bound and
valid (`Clear`), so its receipt prints, alone and in the evidence of its callers.
-/

namespace MirrorCpp.Schedule

open Fallible

/-- Valid UTF-8 that stays valid where it is cut to `n` bytes. -/
structure Whole (n : Nat) (t : String) : Prop where
  utf8 : Text.utf8 t = true
  uncut : Text.boundary n t = true

/-- Valid UTF-8 of at most `n` bytes. -/
structure Fit (n : Nat) (t : String) : Prop where
  utf8 : Text.utf8 t = true
  length : t.length ≤ n

section
variable {m n : Nat} {s t : String}

theorem Whole.of_ascii (h : Text.ascii t = true) : Whole n t :=
  ⟨Text.utf8_of_ascii h, Text.boundary_of_ascii h⟩

theorem Whole.cut (h : Whole n t) : Fit n (Text.firstBytes n t) :=
  ⟨(Text.utf8_firstBytes n h.utf8).trans h.uncut, Text.length_firstBytes n t⟩

theorem Fit.of_ascii (h : Text.ascii t = true) (hl : t.length ≤ n) : Fit n t :=
  ⟨Text.utf8_of_ascii h, hl⟩

theorem Fit.of_identifier (h : identifier t = true) : Fit 128 t := by
  refine .of_ascii (boundedName_ascii (by decide) h) ?_
  simp only [identifier, boundedName, Text.chars_eq, String.length_toList, Bool.and_eq_true,
    decide_eq_true_eq] at h
  exact h.1.2

theorem Fit.append (hs : Fit m s) (ht : Fit n t) : Fit (m + n) (s ++ t) := by
  refine ⟨Text.utf8_append hs.utf8 ht.utf8, ?_⟩
  rw [String.length_append]
  exact Nat.add_le_add hs.length ht.length

/-- A text within the bound is not cut. -/
theorem Fit.whole (h : Fit m t) (hmn : m ≤ n) : Whole n t :=
  ⟨h.utf8, Text.boundary_of_length (h.length.trans hmn)⟩

theorem fit_completion : Fit 128 completion := .of_ascii (by decide) (by decide)

end

/-! ## The report -/

structure ActorDeclaration.Clear (d : ActorDeclaration) : Prop where
  actor : Text.utf8 d.actor = true
  operation : Text.utf8 d.operation = true

structure ActorState.Clear (a : ActorState) : Prop where
  declaration : a.declaration.Clear
  checkpoint : Fit 128 a.checkpoint
  arrival : ∀ c, a.arrival = some c → Fit 128 c

structure Event.Clear (e : Event) : Prop where
  actor : Text.utf8 e.actor = true
  operation : Text.utf8 e.operation = true
  checkpoint : Fit 128 e.checkpoint

structure CleanupAttempt.Clear (a : CleanupAttempt) : Prop where
  detail : Fit 1024 a.detail
  remainingActors : ∀ n ∈ a.remainingActors, Text.utf8 n = true

structure Report.Clear (r : Report) : Prop where
  detail : Fit 1024 r.detail
  executionId : Text.utf8 r.executionId = true
  remainingActors : ∀ n ∈ r.remainingActors, Text.utf8 n = true
  events : ∀ e ∈ r.events, e.Clear
  observations : ∀ o ∈ r.observations, o.state.utf8 = true
  attempts : ∀ a ∈ r.cleanupAttempts, a.Clear

structure Shared.Clear (s : Shared) : Prop where
  actors : ∀ a ∈ s.actors, a.Clear
  report : s.report.Clear

theorem ActorState.Clear.default : ({} : ActorState).Clear :=
  ⟨⟨by decide, by decide⟩, .of_ascii (by decide) (by decide), nofun⟩

theorem Event.Clear.json {e : Event} (h : e.Clear) : e.toJson.utf8 = true := by
  have hk : ["actor", "checkpoint", "kind", "operation", "ordinal", "step"].all Text.utf8 =
    true := by decide
  have hkind : Text.utf8 e.kind.name = true := by cases e.kind <;> decide
  simp only [List.all_cons, List.all_nil, Bool.and_eq_true, and_true] at hk
  simp [Event.toJson, Json.utf8Members, hk, hkind, h.actor, h.operation, h.checkpoint.utf8]

theorem utf8_arr {α : Type} {f : α → Json} {xs : List α} (h : ∀ x ∈ xs, (f x).utf8 = true) :
    (Json.arr (xs.map f)).utf8 = true := by
  simpa [Json.utf8Elems_iff] using h

theorem utf8_strings {xs : List String} (h : ∀ x ∈ xs, Text.utf8 x = true) :
    (strings xs).utf8 = true := utf8_arr h

theorem CleanupAttempt.Clear.json {a : CleanupAttempt} (h : a.Clear) : a.toJson.utf8 = true := by
  have hk : ["detail", "remainingActors", "status"].all Text.utf8 = true := by decide
  have hstatus : Text.utf8 a.status.name = true := by cases a.status <;> decide
  simp only [List.all_cons, List.all_nil, Bool.and_eq_true, and_true] at hk
  simp [CleanupAttempt.toJson, Json.utf8Members, hk, hstatus, h.detail.utf8,
    utf8_strings h.remainingActors]

theorem ActorDeclaration.Clear.json {d : ActorDeclaration} (h : d.Clear) :
    d.toJson.utf8 = true := by
  have hk : ["actor", "operation"].all Text.utf8 = true := by decide
  simp only [List.all_cons, List.all_nil, Bool.and_eq_true, and_true] at hk
  simp [ActorDeclaration.toJson, Json.utf8Members, hk, h.actor, h.operation]

theorem Observation.json {o : Observation} (h : o.state.utf8 = true) : o.toJson.utf8 = true := by
  have hk : ["afterSteps", "state"].all Text.utf8 = true := by decide
  simp only [List.all_cons, List.all_nil, Bool.and_eq_true, and_true] at hk
  simp [Observation.toJson, Json.utf8Members, hk, h]

/-! ## The sections keep texts valid -/

namespace Shared

variable {s : Shared} {i : Nat}

theorem Clear.actor (h : s.Clear) (i : Nat) : (s.actor i).Clear := by
  by_cases hi : i < s.actors.length
  · exact h.actors _ (actor_mem hi)
  · rw [actor_of_ge (by omega)]
    exact .default

theorem Clear.setActor (h : s.Clear) {a : ActorState} (ha : a.Clear) : (s.setActor i a).Clear where
  actors b hb := by
    rcases List.mem_or_eq_of_mem_set hb with hb | rfl
    · exact h.actors b hb
    · exact ha
  report := h.report

theorem Clear.fail (h : s.Clear) {o : Outcome} {d : String}
    (hd : s.failed = false → Whole 1024 d) : (s.fail o d).Clear := by
  unfold Shared.fail
  split
  · exact h
  · rename_i hf
    exact ⟨h.actors, ⟨(hd (by simpa using hf)).cut, h.report.executionId,
      h.report.remainingActors, h.report.events, h.report.observations, h.report.attempts⟩⟩

/-- A failure whose text the program itself wrote. -/
theorem Clear.say (h : s.Clear) {o : Outcome} {d : String} (hd : Text.ascii d = true) :
    (s.fail o d).Clear := h.fail fun _ => .of_ascii hd

theorem Clear.settle (h : s.Clear) (late : Bool) : (s.settle late).Clear := by
  unfold Shared.settle
  dsimp only
  split <;> split
  · exact (h.say (by decide)).say (by decide)
  · exact h.say (by decide)
  · exact h.say (by decide)
  · exact h

theorem Clear.event (h : s.Clear) {kind : EventKind} {step : Nat} {a : ActorState}
    {checkpoint : String} (ha : a.Clear) (hc : Fit 128 checkpoint) :
    (s.event kind step a checkpoint).Clear where
  actors := h.actors
  report :=
    { h.report with
      events := fun e he => by
        rcases List.mem_append.mp he with he | he
        · exact h.report.events e he
        · obtain rfl := List.mem_singleton.mp he
          exact ⟨ha.declaration.actor, ha.declaration.operation, hc⟩ }

theorem Clear.register (h : s.Clear) (i : Nat) : (s.register i).Clear :=
  h.setActor ⟨(h.actor i).declaration, (h.actor i).checkpoint, (h.actor i).arrival⟩

theorem Clear.park (h : s.Clear) {checkpoint : String} (hc : Fit 128 checkpoint) (i : Nat) :
    (s.park i checkpoint).Clear :=
  h.setActor ⟨(h.actor i).declaration, hc, fun _ e => Option.some.inj e ▸ hc⟩

theorem Clear.astray (h : s.Clear) {checkpoint : String} (hc : Whole 128 checkpoint) (i : Nat) :
    (s.astray i checkpoint).Clear := by
  have hs := (h.setActor (i := i)
    ⟨(h.actor i).declaration, hc.cut, fun _ e => Option.some.inj e ▸ hc.cut⟩ :
    (s.setActor i { s.actor i with
      checkpoint := Text.firstBytes 128 checkpoint
      arrival := some (Text.firstBytes 128 checkpoint) }).Clear)
  have hsaid : Fit 23 "undeclared checkpoint: " := .of_ascii (by decide) (by decide)
  exact hs.fail fun _ => (hsaid.append hc.cut).whole (by decide)

theorem Clear.finishWorker (h : s.Clear) (i : Nat) : (s.finishWorker i).Clear := by
  refine h.setActor ⟨(h.actor i).declaration, fit_completion, fun c hc => ?_⟩
  obtain rfl := Option.some.inj hc
  cases ha : (s.actor i).arrival with
  | none => exact fit_completion
  | some c => exact (h.actor i).arrival c ha

/-- A worker comes to a checkpoint. -/
theorem Clear.arrive (h : s.Clear) {self : ThreadId} {checkpoint : String}
    (hc : (s.actor i).thread = some self → (s.actor i).phase = .running → s.stopping = false →
      s.declares checkpoint = false → Whole 128 checkpoint) :
    (s.arrive self i checkpoint).2.Clear := by
  rcases Sys.arrive_cases s self i checkpoint with
    ⟨-, he⟩ | ⟨ht, hp, ⟨-, he⟩ | ⟨hs, hd, he⟩ | ⟨-, hd, he⟩⟩ <;> rw [he]
  · exact h.say (by decide)
  · exact h
  · exact h.astray (hc ht hp hs hd) i
  · simp only [declares, Bool.and_eq_true] at hd
    exact h.park (.of_identifier hd.1) i

theorem Clear.permit (h : s.Clear) (n i : Nat) : (Sys.permit s n i).Clear :=
  (h.event (h.actor i) (h.actor i).checkpoint).setActor
    ⟨(h.actor i).declaration, (h.actor i).checkpoint, nofun⟩

theorem Clear.recordArrival (h : s.Clear) (n i : Nat) : (Sys.recordArrival s n i).Clear := by
  unfold Sys.recordArrival
  dsimp only
  split
  · rename_i c hc
    exact h.event (h.actor i) ((h.actor i).arrival c hc)
  · exact h

theorem Clear.markJoined (h : s.Clear) (i : Nat) : (Sys.markJoined s i).Clear :=
  h.setActor ⟨(h.actor i).declaration, (h.actor i).checkpoint, (h.actor i).arrival⟩

theorem Clear.checkProgram (h : s.Clear) (p : Program) : (Sys.checkProgram s p).Clear := by
  have hfail : ∀ {s : Shared} {c : Bool} {o : Outcome} {d : String}, s.Clear →
      Text.ascii d = true → (if c then s else s.fail o d).Clear ∧
        (if c then s.fail o d else s).Clear := by
    intro s c o d hs hd
    cases c
    · exact ⟨hs.say hd, hs⟩
    · exact ⟨hs, hs.say hd⟩
  unfold Sys.checkProgram
  exact (hfail (hfail (hfail h (by decide)).1 (by decide)).2 (by decide)).1

end Shared

/-! ## Admitted names -/

section
variable {lib : JsonScan} {schedule : Schedule} {adapter : Adapter} {policy : Policy}

theorem admitActors_named : ∀ {as : List ActorDeclaration} {seen : List String} {u : Unit},
    admitActors seen as = .ok u →
      ∀ a ∈ as, identifier a.actor = true ∧ identifier a.operation = true
  | [], _, _, _ => nofun
  | a :: as, seen, u, h => by
    simp only [admitActors, bind_eq_ok] at h
    obtain ⟨_, hc, h⟩ := h
    have hc := invalid_ok hc
    simp only [Bool.or_eq_false_iff, Bool.not_eq_false'] at hc
    exact List.forall_mem_cons.mpr ⟨hc.1, admitActors_named h⟩

theorem admitCheckpoints_named : ∀ {cs seen : List String} {u : Unit},
    admitCheckpoints seen cs = .ok u → ∀ c ∈ cs, identifier c = true
  | [], _, _, _ => nofun
  | c :: cs, seen, u, h => by
    simp only [admitCheckpoints, bind_eq_ok] at h
    obtain ⟨_, hc, h⟩ := h
    have hc := invalid_ok hc
    simp only [Bool.or_eq_false_iff, Bool.not_eq_false'] at hc
    exact List.forall_mem_cons.mpr ⟨hc.1, admitCheckpoints_named h⟩

theorem utf8_of_encodeSchedule {t : String} (h : encodeSchedule lib schedule = .ok t) :
    (scheduleJson schedule).utf8 = true := by
  rw [← lib.dump_isSome]
  simp only [encodeSchedule, bind_eq_ok] at h
  obtain ⟨_, -, h⟩ := h
  split at h
  · rename_i hd
    rw [hd]
    rfl
  · cases h

/-- The names an execution may write into its report. -/
structure Clear (schedule : Schedule) (adapter : Adapter) : Prop where
  actors : ∀ a ∈ adapter.actors, a.Clear
  checkpoints : ∀ c ∈ adapter.checkpoints, Text.utf8 c = true
  steps : ∀ st ∈ schedule.steps, Fit 128 st.checkpoint
  schedule : (scheduleJson schedule).utf8 = true

theorem clear_of_admission {reentrant : Bool}
    (h : admission lib schedule adapter policy reentrant = .ok ()) : Clear schedule adapter := by
  have hi := interleaved_of_admission h
  simp only [admission, bind_eq_ok] at h
  obtain ⟨_, -, _, -, _, -, h⟩ := h
  split at h
  · cases h
  simp only [bind_eq_ok] at h
  obtain ⟨_, -, h⟩ := h
  split at h
  · cases h
  rename_i t ht
  simp only [bind_eq_ok] at h
  obtain ⟨_, -, _, ha, _, hc, -⟩ := h
  have ha := admitActors_named ha
  have hc := admitCheckpoints_named hc
  refine ⟨fun a hm => ?_, fun c hm => (Fit.of_identifier (hc c hm)).utf8, fun st hm => ?_,
    utf8_of_encodeSchedule ht⟩
  · exact ⟨(Fit.of_identifier (ha a hm).1).utf8, (Fit.of_identifier (ha a hm).2).utf8⟩
  · by_cases hd : st.checkpoint = completion
    · exact hd ▸ fit_completion
    · exact .of_identifier (hc _ (hi.checkpoints st hm hd))

end

/-! ## The whole run -/

namespace Sys

variable {lib : JsonLib} {o : Opening} {x y : Sys} {i : Nat}

structure Clear (o : Opening) (x : Sys) : Prop where
  state : x.state.Clear
  schedule : x.impl.schedule = o.schedule
  adapter : x.impl.adapter = o.adapter
  teardownDetail : Fit 1024 x.impl.teardownDetail
  expected : ∀ i e, x.ctl = .permitted i e → Fit 128 e

/-- The text a factory's exception hands over, and where it is cut. -/
def Opening.cuts (o : Opening) : Option (Nat × String) :=
  match o.adapter.factory with
  | some (.error (some what)) => if o.stopped then none else some (1024, what)
  | _ => none

/-- The text a step hands over, and where it is cut. -/
def cuts (x : Sys) : Choice → Option (Nat × String)
  | .spawn (some what) | .observed (.error (some what)) _ =>
    if x.state.failed then none else some (1024, what)
  | .caught i =>
    match x.pc i with
    | .caught (some what) => if x.state.failed then none else some (1024, what)
    | _ => none
  | .arrive i =>
    match x.pc i with
    | .arriving checkpoint =>
      if (x.state.actor i).phase != .running || x.state.stopping || x.state.declares checkpoint
      then none else some (128, checkpoint)
    | _ => none
  | .cleanupTorn (some (some what)) => if x.impl.program.teardown then some (1024, what) else none
  | _ => none

/-- What is cut is valid, and not cut inside a character. -/
def Uncut (cut : Option (Nat × String)) : Prop := ∀ p ∈ cut, Whole p.1 p.2

def Clean (x : Sys) (c : Choice) : Prop := Uncut (x.cuts c)

instance (cut : Option (Nat × String)) : Decidable (Uncut cut) :=
  decidable_of_iff (cut.all fun p => Text.utf8 p.2 && Text.boundary p.1 p.2) <| by
    cases cut with
    | none => simp [Uncut]
    | some p =>
      simp only [Option.all_some, Bool.and_eq_true, Uncut, Option.mem_some_iff, forall_eq']
      exact ⟨fun h => ⟨h.1, h.2⟩, fun h => ⟨h.1, h.2⟩⟩

instance (x : Sys) (c : Choice) : Decidable (Clean x c) := inferInstanceAs (Decidable (Uncut _))

/-- Where the schedule, the adapter and the teardown's text stay. -/
theorem Clear.keep (h : Clear o x) (hs : y.state.Clear)
    (hi : y.impl.schedule = x.impl.schedule ∧ y.impl.adapter = x.impl.adapter ∧
      y.impl.teardownDetail = x.impl.teardownDetail)
    (hc : y.ctl = x.ctl ∨ ∀ i e, y.ctl ≠ .permitted i e) : Clear o y where
  state := hs
  schedule := hi.1.trans h.schedule
  adapter := hi.2.1.trans h.adapter
  teardownDetail := hi.2.2 ▸ h.teardownDetail
  expected i e he := by
    rcases hc with hc | hc
    · exact h.expected i e (hc ▸ he)
    · exact absurd he (hc i e)

theorem Clear.advance (hn : Schedule.Clear o.schedule o.adapter) (h : Clear o x) (st : Step)
    (late : Bool) : Clear o (x.advance st late) := by
  unfold Sys.advance
  split
  · exact h
  cases hr : x.refusal st late with
  | some r =>
    obtain ⟨outcome, detail⟩ := r
    refine h.keep (h.state.say ?_) ⟨rfl, rfl, rfl⟩ (.inr nofun)
    unfold refusal at hr
    repeat' split at hr
    all_goals cases hr
    all_goals decide
  | none =>
    refine ⟨h.state.permit _ _, h.schedule, h.adapter, h.teardownDetail, ?_⟩
    intro j e he
    cases he
    have hst := (refusal_none hr).2.2.1
    rw [h.schedule] at hst
    exact hn.steps st (List.mem_of_getElem? hst)

theorem Clear.finish (h : Clear o x) : Clear o x.finish := by
  unfold Sys.finish
  split
  · exact h
  · refine h.keep ?_ ⟨rfl, rfl, rfl⟩ (.inr nofun)
    dsimp only
    split
    · exact h.state.say (by decide)
    · exact h.state

theorem Clear.cleanup (h : Clear o x) (timeout : Int) : Clear o (x.cleanup timeout) := by
  unfold Sys.cleanup
  split
  · exact h.keep h.state ⟨rfl, rfl, rfl⟩ (.inr nofun)
  · dsimp only
    split
    · exact h.keep h.state ⟨rfl, rfl, rfl⟩ (.inr nofun)
    · exact h.keep ⟨h.state.actors, h.state.report⟩ ⟨rfl, rfl, rfl⟩ (.inr nofun)

theorem Clear.spawn (h : Clear o x) {refused : Option String}
    (hr : ∀ what, refused = some what → x.state.failed = false → Whole 1024 what) :
    Clear o (x.spawn refused) := by
  cases refused with
  | none =>
    refine h.keep h.state ⟨rfl, rfl, rfl⟩ (.inr fun i e => ?_)
    unfold Sys.spawn
    dsimp only
    split <;> nofun
  | some what => exact h.keep (h.state.fail (hr what rfl)) ⟨rfl, rfl, rfl⟩ (.inr nofun)

theorem Clear.passBarrier (h : Clear o x) (late : Bool) : Clear o (x.passBarrier late) := by
  refine h.keep (h.state.settle late) ⟨rfl, rfl, rfl⟩ (.inr fun i e => ?_)
  unfold Sys.passBarrier
  dsimp only
  split <;> nofun

theorem Clear.retain (h : Clear o x) {value : Except Thrown Json}
    (hv : ∀ what, value = .error (some what) → x.state.failed = false → Whole 1024 what) :
    Clear o (x.retain lib value) ∧ (x.retain lib value).ctl = x.ctl := by
  have hsay : ∀ {d : String}, (x.state.failed = false → Whole 1024 d) →
      Clear o { x with state := x.state.fail .observationFailed d } :=
    fun hd => h.keep (h.state.fail hd) ⟨rfl, rfl, rfl⟩ (.inl rfl)
  unfold Sys.retain
  dsimp only
  split
  · rename_i what
    refine ⟨hsay fun hf => ?_, rfl⟩
    cases what with
    | none => exact .of_ascii (by decide)
    | some what => exact hv what rfl hf
  · rename_i value
    split
    · exact ⟨hsay fun _ => .of_ascii (by decide), rfl⟩
    split
    · exact ⟨hsay fun _ => .of_ascii (lib.what_ascii _ nofun), rfl⟩
    · rename_i hsize
      split
      · exact ⟨hsay fun _ => .of_ascii (by decide), rfl⟩
      refine ⟨h.keep ⟨h.state.actors, ?_⟩ ⟨rfl, rfl, rfl⟩ (.inl rfl), rfl⟩
      refine { h.state.report with observations := fun ob hob => ?_ }
      rcases List.mem_append.mp hob with hob | hob
      · exact h.state.report.observations ob hob
      · obtain rfl := List.mem_singleton.mp hob
        -- its size was taken, so it prints
        change value.utf8 = true
        cases hu : value.utf8 with
        | true => rfl
        | false =>
          rw [lib.dumpSize_eq_none.mpr hu] at hsize
          cases hsize

theorem Clear.observed (h : Clear o x) {value : Except Thrown Json} {k : Caller} {late : Bool}
    (hv : ∀ what, value = .error (some what) → x.state.failed = false → Whole 1024 what) :
    Clear o (x.observed lib k value late) := by
  obtain ⟨hr, -⟩ := @Clear.retain lib o x h value hv
  cases k with
  | start =>
    refine hr.keep (hr.state.settle late) ⟨rfl, rfl, rfl⟩ (.inr fun i e => ?_)
    dsimp only [Sys.observed, startObserved]
    split <;> nofun
  | advance =>
    refine hr.keep ?_ ⟨rfl, rfl, rfl⟩ (.inr nofun)
    have hs := hr.state.settle late
    dsimp only [Sys.observed, advanceObserved]
    split
    · exact ⟨hs.actors, { hs.report with }⟩
    · exact hs

theorem Clear.permitWake (h : Clear o x) {e : String} (hctl : x.ctl = .permitted i e)
    (late : Bool) : Clear o (x.permitWake i e late) := by
  have hs := (h.state.settle late).recordArrival x.impl.nextStep i
  unfold Sys.permitWake
  dsimp only
  split
  · exact h.keep hs ⟨rfl, rfl, rfl⟩ (.inr nofun)
  split
  · refine h.keep (hs.fail fun _ => ?_) ⟨rfl, rfl, rfl⟩ (.inr nofun)
    have hwanted : Fit 9 "expected " := .of_ascii (by decide) (by decide)
    have hgot : Fit 13 ", arrived at " := .of_ascii (by decide) (by decide)
    exact (((hwanted.append (h.expected i e hctl)).append hgot).append
      (hs.actor i).checkpoint).whole (by decide)
  split
  · exact h.keep hs ⟨rfl, rfl, rfl⟩ (.inr nofun)
  · exact h.keep hs ⟨rfl, rfl, rfl⟩ (.inr nofun)

theorem Clear.advanceJoined (h : Clear o x) (i : Nat) : Clear o (x.advanceJoined i) :=
  h.keep (h.state.markJoined i) ⟨rfl, rfl, rfl⟩ (.inr nofun)

theorem Clear.cleanupEnd (h : Clear o x) : Clear o x.cleanupEnd := by
  refine h.keep ⟨h.state.actors, ?_⟩ ⟨rfl, rfl, rfl⟩ (.inr nofun)
  refine { h.state.report with attempts := fun a ha => ?_ }
  rcases List.mem_append.mp ha with ha | ha
  · exact h.state.report.attempts a ha
  · obtain rfl := List.mem_singleton.mp ha
    exact ⟨h.teardownDetail, h.state.report.remainingActors⟩

theorem Clear.callTeardown (h : Clear o x) (hc : ∀ i e, x.ctl ≠ .permitted i e) :
    Clear o x.callTeardown := by
  unfold Sys.callTeardown
  split
  · exact h.keep h.state ⟨rfl, rfl, rfl⟩ (.inr hc)
  · exact h

theorem Clear.cleanupScan (h : Clear o x) (k : Nat) : Clear o (x.cleanupScan k) := by
  unfold Sys.cleanupScan
  split
  · exact h.keep h.state ⟨rfl, rfl, rfl⟩ (.inr nofun)
  have hr : ∀ {c : Ctl} {attempted : Bool}, (∀ i e, c ≠ .permitted i e) ∨ c = x.ctl →
      Clear o { x with
        state := { x.state with report := { x.state.report with remainingActors := x.remaining } }
        impl := { x.impl with teardownAttempted := attempted }
        ctl := c } := by
    intro c attempted hc
    refine h.keep ⟨h.state.actors, ?_⟩ ⟨rfl, rfl, rfl⟩ hc.symm
    refine { h.state.report with remainingActors := fun n hn => ?_ }
    obtain ⟨i, -, rfl⟩ := List.mem_map.mp hn
    exact (h.state.actor i).declaration.actor
  unfold Sys.cleanupRest
  dsimp only
  split
  · have hy : Clear o { x with
        state := { x.state with report := { x.state.report with remainingActors := x.remaining } }
        impl := { x.impl with teardownAttempted := true }
        ctl := .tearing } := hr (.inl nofun)
    exact hy.callTeardown nofun
  · exact (hr (.inr rfl)).cleanupEnd

theorem Clear.cleanupTorn (h : Clear o x) {threw : Option Thrown}
    (ht : ∀ what, threw = some (some what) → x.impl.program.teardown = true → Whole 1024 what) :
    Clear o (x.cleanupTorn threw) := by
  have hd : ∀ {d : String}, Fit 1024 d → Clear o { x with impl := { x.impl with
      teardownFailed := true, teardownDetail := d } } :=
    fun hd => ⟨h.state, h.schedule, h.adapter, hd, h.expected⟩
  unfold Sys.cleanupTorn
  dsimp only
  cases hp : x.impl.program.teardown with
  | false => exact (hd (Whole.of_ascii (by decide)).cut).cleanupEnd
  | true =>
    rcases threw with _ | _ | what
    · exact h.cleanupEnd
    · exact (hd (.of_ascii (by decide) (by decide))).cleanupEnd
    · exact (hd (ht what rfl hp).cut).cleanupEnd

theorem Clear.destroyEnd (h : Clear o x) : Clear o x.destroyEnd := by
  unfold Sys.destroyEnd
  split
  · exact (h.keep h.state ⟨rfl, rfl, rfl⟩ (.inr nofun) :
      Clear o { x with ctl := .destroyTearing }).callTeardown nofun
  · exact h.keep h.state ⟨rfl, rfl, rfl⟩ (.inr nofun)

/-- A worker's section writes its own actor, or fails. -/
theorem Clear.workerStep (h : Clear o x) {c : Choice} (hc : Clean x c)
    (hi : ∀ j, c = .arrive j ∨ c = .caught j → j = i)
    (hs : x.workerStep i c = some y) : Clear o y := by
  have hpc : ∀ {s : Shared} {p : Pc}, s.Clear → Clear o ({ x with state := s }.setPc i p) :=
    fun hs => h.keep hs ⟨rfl, rfl, rfl⟩ (.inl rfl)
  cases c with
  | register j =>
    simp only [Sys.workerStep] at hs
    split at hs
    · simp only [Option.ite_none_left_eq_some, Option.some.injEq] at hs
      rw [← hs.2]
      exact hpc (h.state.register i)
    · cases hs
  | wake j =>
    simp only [Sys.workerStep] at hs
    split at hs
    · simp only [Option.ite_none_left_eq_some, Option.some.injEq] at hs
      rw [← hs.2]
      exact hpc h.state
    · cases hs
  | user j call =>
    simp only [Sys.workerStep] at hs
    split at hs
    · rw [← Option.some.inj hs]
      exact hpc h.state
    · cases hs
  | stop j =>
    simp only [Sys.workerStep] at hs
    split at hs
    · rw [← Option.some.inj hs]
      exact hpc h.state
    · cases hs
  | arrive j =>
    obtain rfl := hi j (by simp)
    simp only [Sys.workerStep] at hs
    split at hs
    · rename_i checkpoint hp
      simp only [Option.ite_none_left_eq_some, Option.some.injEq] at hs
      rw [← hs.2]
      refine hpc (h.state.arrive fun _ hr hst hd => hc (128, checkpoint) ?_)
      simp [cuts, hp, hr, hst, hd]
    · cases hs
  | caught j =>
    obtain rfl := hi j (by simp)
    simp only [Sys.workerStep] at hs
    split at hs
    · rename_i what hp
      simp only [Option.ite_none_left_eq_some, Option.some.injEq] at hs
      rw [← hs.2]
      refine hpc (h.state.fail fun hf => ?_)
      cases what with
      | none => exact .of_ascii (by decide)
      | some what => exact hc (1024, what) (by simp [cuts, hp, hf])
    · cases hs
  | close j =>
    simp only [Sys.workerStep] at hs
    split at hs
    · simp only [Option.ite_none_left_eq_some, Option.some.injEq] at hs
      rw [← hs.2]
      exact hpc (h.state.finishWorker i)
    · cases hs
  | _ => cases hs

theorem Clear.step {c : Choice} (hn : Schedule.Clear o.schedule o.adapter) (HC : Core x)
    (h : Clear o x) (hc : Clean x c) (hs : x.step lib c = some y) : Clear o y := by
  cases c with
  | advance st late =>
    simp only [Sys.step, Option.ite_none_right_eq_some, Option.some.injEq] at hs
    exact hs.2 ▸ h.advance hn st late
  | finish =>
    simp only [Sys.step, Option.ite_none_right_eq_some, Option.some.injEq] at hs
    exact hs.2 ▸ h.finish
  | cleanup timeout =>
    simp only [Sys.step, Option.ite_none_right_eq_some, Option.some.injEq] at hs
    exact hs.2 ▸ h.cleanup timeout
  | destroy =>
    simp only [Sys.step, Option.ite_none_right_eq_some, Option.some.injEq] at hs
    exact hs.2 ▸ h.keep ⟨h.state.actors, h.state.report⟩ ⟨rfl, rfl, rfl⟩
      (.inr fun i e => by rintro ⟨⟩)
  | spawn refused =>
    simp only [Sys.step, Option.ite_none_right_eq_some, Option.some.injEq] at hs
    refine hs.2 ▸ h.spawn fun what he hf => hc (1024, what) ?_
    simp [cuts, he, hf]
  | barrier late =>
    simp only [Sys.step, Option.ite_none_right_eq_some, Option.some.injEq] at hs
    exact hs.2 ▸ h.passBarrier late
  | observed value late =>
    simp only [Sys.step] at hs
    split at hs
    · refine Option.some.inj hs ▸ h.observed fun what he hf => hc (1024, what) ?_
      simp [cuts, he, hf]
    · cases hs
  | permitted late =>
    simp only [Sys.step] at hs
    split at hs
    · rename_i hctl
      simp only [Option.ite_none_right_eq_some, Option.some.injEq] at hs
      exact hs.2 ▸ h.permitWake hctl late
    · cases hs
  | joined =>
    simp only [Sys.step] at hs
    split at hs
    · simp only [Option.ite_none_right_eq_some, Option.some.injEq] at hs
      exact hs.2 ▸ h.advanceJoined _
    · cases hs
  | leave =>
    simp only [Sys.step, Option.ite_none_right_eq_some, Option.some.injEq] at hs
    refine hs.2 ▸ h.keep h.state ⟨rfl, rfl, rfl⟩ (.inr fun i e => ?_)
    dsimp only
    split <;> rintro ⟨⟩
  | enter =>
    simp only [Sys.step, Option.ite_none_right_eq_some, Option.some.injEq] at hs
    exact hs.2 ▸ h.cleanup _
  | cleanupWake late =>
    simp only [Sys.step, Option.ite_none_right_eq_some, Option.some.injEq] at hs
    exact hs.2 ▸ h.cleanupScan 0
  | cleanupJoined =>
    simp only [Sys.step] at hs
    split at hs
    · rename_i i _
      simp only [Option.ite_none_right_eq_some, Option.some.injEq] at hs
      have hj : Clear o { x.joined i with state := markJoined x.state i } :=
        h.keep (h.state.markJoined i) ⟨rfl, rfl, rfl⟩ (.inl rfl)
      exact hs.2 ▸ hj.cleanupScan (i + 1)
    · cases hs
  | cleanupTorn threw =>
    simp only [Sys.step, Option.ite_none_right_eq_some, Option.some.injEq] at hs
    refine hs.2 ▸ h.cleanupTorn fun what he ht => hc (1024, what) ?_
    simp [cuts, he, ht]
  | destroyJoin =>
    simp only [Sys.step] at hs
    split at hs
    · simp only [Option.ite_none_right_eq_some, Option.some.injEq] at hs
      exact hs.2 ▸ h.keep h.state ⟨rfl, rfl, rfl⟩ (.inl rfl)
    · cases hs
  | destroyEnd =>
    simp only [Sys.step, Option.ite_none_right_eq_some, Option.some.injEq] at hs
    exact hs.2 ▸ h.destroyEnd
  | destroyTorn =>
    simp only [Sys.step, Option.ite_none_right_eq_some, Option.some.injEq] at hs
    exact hs.2 ▸ h.keep h.state ⟨rfl, rfl, rfl⟩ (.inr fun i e => by rintro ⟨⟩)
  | register i | wake i | user i c | stop i | arrive i | caught i | close i =>
    simp only [Sys.step, Option.ite_none_right_eq_some] at hs
    exact h.workerStep hc (by simp) hs.2
  | cancel =>
    simp only [Sys.step, Option.ite_none_right_eq_some, Option.some.injEq] at hs
    exact hs.2 ▸ h.keep ⟨h.state.actors, h.state.report⟩ ⟨rfl, rfl, rfl⟩ (.inl rfl)
  | foreign i k checkpoint =>
    simp only [Sys.step, Option.ite_none_right_eq_some, Option.some.injEq] at hs
    rw [HC.misused] at hs
    exact hs.2 ▸ h.keep (h.state.say (by decide)) ⟨rfl, rfl, rfl⟩ (.inl rfl)

theorem Clear.unstarted {s : Shared} {impl : Impl} {c : Ctl} (hs : s.Clear)
    (hi : impl.schedule = o.schedule ∧ impl.adapter = o.adapter ∧ impl.teardownDetail = "")
    (hc : ∀ i e, c ≠ .permitted i e) : Clear o (unstarted s impl c) where
  state := hs
  schedule := hi.1
  adapter := hi.2.1
  teardownDetail := by
    change Fit 1024 impl.teardownDetail
    rw [hi.2.2]
    exact .of_ascii (by decide) (by decide)
  expected i e he := absurd he (hc i e)

/-- The name an execution is given: 32 hexadecimal digits. -/
def nonce (id : String) : Bool :=
  id.length == 32 && id.toList.all fun c => ('0' ≤ c && c ≤ '9') || ('a' ≤ c && c ≤ 'f')

theorem nonce_ascii {id : String} (h : nonce id = true) : Text.ascii id = true := by
  simp only [nonce, Bool.and_eq_true] at h
  exact hex_ascii h.2

theorem length_hexWord (w : UInt32) : (hexWord w).length = 8 := by
  rw [hexWord, List.length_map, List.length_reverse, List.length_range]

theorem nonce_executionId (o : Opening) : nonce o.executionId = true := by
  have hdigit : ∀ d < 16, (('0' ≤ Nat.digitChar d && Nat.digitChar d ≤ '9') ||
      ('a' ≤ Nat.digitChar d && Nat.digitChar d ≤ 'f')) = true := by decide
  simp only [nonce, Opening.executionId, Bool.and_eq_true, beq_iff_eq, String.length_ofList,
    String.toList_ofList]
  constructor
  · rw [List.length_flatMap, List.map_congr_left fun w _ => length_hexWord w, List.map_const',
      List.length_ofFn]
    rfl
  · rw [List.all_eq_true]
    intro c hc
    obtain ⟨w, -, hc⟩ := List.mem_flatMap.mp hc
    obtain ⟨k, -, rfl⟩ := List.mem_map.mp hc
    exact hdigit _ (Nat.mod_lt _ (by decide))

theorem Clear.start {lib : JsonScan} (ho : Uncut o.cuts)
    (h : admission lib o.schedule o.adapter o.policy o.reentrant = .ok ()) :
    Clear o (start lib o) := by
  rw [start_of_admission h]
  have hn := clear_of_admission h
  have hs : ∀ {cancelled : Bool}, Shared.Clear {
      actors := o.adapter.actors.map fun d => { declaration := d }
      checkpoints := o.adapter.checkpoints
      cancelled
      report := { generation := o.generation, executionId := o.executionId } } := by
    intro cancelled
    have hdetail : Fit 1024 "" := .of_ascii (by decide) (by decide)
    have hid := Text.utf8_of_ascii (nonce_ascii (nonce_executionId o))
    refine ⟨fun a ha => ?_, hdetail, hid, nofun, nofun, nofun, nofun⟩
    obtain ⟨d, hd, rfl⟩ := List.mem_map.mp ha
    exact { ActorState.Clear.default with declaration := hn.actors d hd }
  unfold admitted
  dsimp only
  split
  · exact .unstarted (hs.say (by decide)) ⟨rfl, rfl, rfl⟩ nofun
  rename_i hstop
  split
  · exact .unstarted hs ⟨rfl, rfl, rfl⟩ nofun
  · rename_i what hf
    refine .unstarted (hs.fail fun _ => ?_) ⟨rfl, rfl, rfl⟩ nofun
    cases what with
    | none => exact .of_ascii (by decide)
    | some what => exact ho (1024, what) (by simpa [Opening.cuts, hf] using hstop)
  · rename_i program _
    have hsay : ∀ {s : Shared} {c : Bool} {out : Outcome} {d : String}, s.Clear →
        Text.ascii d = true → (if c then s.fail out d else s).Clear := by
      intro s c out d hs hd
      cases c
      · exact hs
      · exact hs.say hd
    have hctl : ∀ {failed : Bool} i e, (if failed then Ctl.entering else .spawning) ≠
        .permitted i e := by
      intro failed i e
      cases failed <;> nofun
    exact .unstarted (hsay (hsay (hs.checkProgram program) (by decide)) (by decide))
      ⟨rfl, rfl, rfl⟩ hctl

theorem Clear.path {lib : JsonScan} (ho : Uncut o.cuts)
    (h : admission lib o.schedule o.adapter o.policy o.reentrant = .ok ())
    (hp : (lts lib).Path Clean (Sys.start lib o) x) : Clear o x ∧ (lts lib).Reach x := by
  induction hp with
  | refl => exact ⟨.start ho h, .init ⟨o, rfl⟩⟩
  | tail _ hc hs ih =>
    exact ⟨ih.1.step (clear_of_admission h) (.reach ih.2) hc hs, .step ih.2 trivial hs⟩

/-! ## The receipt -/

theorem Clear.receipt (hn : Schedule.Clear o.schedule o.adapter) (h : Clear o x) :
    x.receipt.utf8 = true := by
  have hk : ["actors", "checkpoints", "cleanup", "cleanupAttempts", "coverage", "detail", "events",
    "executionId", "generation", "observations", "outcome", "passed", "policy",
    "remainingActors", "schedule", "scheduleCompleted", "schema", "recorded-schedule-only",
    receiptSchema].all Text.utf8 = true := by decide
  have hpolicy : ["cleanupTimeoutMs", "executionTimeoutMs", "maxActors", "maxSteps"].all
    Text.utf8 = true := by decide
  have hcleanup : Text.utf8 x.state.report.cleanup.name = true := by
    cases x.state.report.cleanup <;> decide
  have houtcome : Text.utf8 x.state.report.outcome.name = true := by
    cases x.state.report.outcome <;> decide
  have hr := h.state.report
  have hactors := utf8_arr fun d hd => (hn.actors d hd).json
  have hevents := utf8_arr fun e he => (hr.events e he).json
  have hobservations := utf8_arr fun b hb => Observation.json (hr.observations b hb)
  have hattempts := utf8_arr fun a ha => (hr.attempts a ha).json
  have hremaining := utf8_strings hr.remainingActors
  have hcheckpoints := utf8_strings hn.checkpoints
  simp only [List.all_cons, List.all_nil, Bool.and_eq_true, and_true] at hk hpolicy
  simp only [Json.utf8] at hactors hevents hobservations hattempts
  simp [Sys.receipt, h.adapter, h.schedule, hn.schedule, Policy.toJson, Json.utf8Members, hk,
    hpolicy, hcleanup, houtcome, hr.detail.utf8, hr.executionId, hremaining, hcheckpoints,
    hactors, hevents, hobservations, hattempts]

/-- The row `explore_finite` keeps of an execution. -/
def explorationRow (x : Sys) (ordinal inputIndex : Nat) (category : String)
    (error : Option String) : Json :=
  .obj ([("category", .str category)] ++ (error.map fun e => ("error", .str e)).toList ++
    [("execution", x.receipt), ("inputIndex", .int inputIndex), ("ordinal", .int ordinal),
      ("schedule", scheduleJson x.impl.schedule)])

/-- The report can be kept as evidence: its texts are bounded and valid, and no `dump` of it
throws. -/
structure Retainable (lib : JsonLib) (x : Sys) : Prop where
  texts : x.state.report.Clear
  prints : (lib.dump x.receipt).isSome = true
  session : ∀ s : BindingSession, s.execution = some x →
    (∃ s', s.retain lib = .ok s') ∧ ∃ j, s.receipt lib = .ok j
  exploration : ∀ ordinal inputIndex category error, Text.utf8 category = true →
    (∀ e, error = some e → Text.utf8 e = true) →
    (lib.dump (x.explorationRow ordinal inputIndex category error)).isSome = true

theorem Clear.retainable (hn : Schedule.Clear o.schedule o.adapter) (h : Clear o x) :
    Retainable lib x := by
  have hu := h.receipt hn
  refine ⟨h.state.report, by rw [lib.dump_isSome]; exact hu, fun s hs => ?_,
    fun ordinal inputIndex category error hc he => ?_⟩
  · have hsize := lib.dumpSize_eq_some hu
    constructor
    · unfold BindingSession.retain
      rw [hs]
      dsimp only
      rw [hsize]
      split
      · exact ⟨_, rfl⟩
      · dsimp only
        split <;> exact ⟨_, rfl⟩
    · unfold BindingSession.receipt BindingSession.records
      rw [hs]
      dsimp only
      rw [hsize]
      split <;> exact ⟨_, rfl⟩
  · have hk : ["category", "error", "execution", "inputIndex", "ordinal", "schedule"].all
      Text.utf8 = true := by decide
    simp only [List.all_cons, List.all_nil, Bool.and_eq_true, and_true] at hk
    rw [lib.dump_isSome, explorationRow, h.schedule]
    cases error with
    | none => simp [Json.utf8Members, hk, hc, hu, hn.schedule]
    | some e => simp [Json.utf8Members, hk, hc, hu, hn.schedule, he e rfl]

/-- **Receipts print.** An admitted execution whose factory and steps hand over no text that is
cut inside a character can be kept as evidence wherever it stands. -/
theorem receipts_print (lib : JsonScan) (o : Opening) (x : Sys)
    (h : admission lib o.schedule o.adapter o.policy o.reentrant = .ok ())
    (ho : Uncut o.cuts) (hp : (lts lib).Path Clean (start lib o) x) : Retainable lib.toJsonLib x :=
  (Clear.path ho h hp).1.retainable (clear_of_admission h)

/-- `a` runs, and throws a text that is not ASCII. -/
def throwSteps : List Choice :=
  [.advance ⟨"a", "c"⟩ false, .wake 0, .user 0 (.throw_ (some "caf\u00c3\u00a9")), .caught 0]

theorem receipts_print_sample : ∃ x : Sys, x.state.report.detail = "caf\u00c3\u00a9" ∧
    Retainable sampleLib.toJsonLib x := by
  have h : ((lts sampleLib).exec (fun x c => decide (Clean x c)) (openingSteps ++ throwSteps)
      sampleStart).map (fun x => x.state.report.detail) = some "caf\u00c3\u00a9" := by
    decide +kernel
  obtain ⟨x, hx, he⟩ := Option.map_eq_some_iff.mp h
  rw [← start_sample] at hx
  exact ⟨x, he, receipts_print sampleLib sampleOpening x admission_sample (by decide)
    (.exec (fun _ _ => of_decide_eq_true) hx)⟩

/-- A text of `n + 2` bytes, the last two of them one character. -/
def padded (n : Nat) : String := String.ofList (List.replicate n 'a') ++ "\u00c3\u00a9"

theorem utf8_padded (n : Nat) : Text.utf8 (padded n) = true := by
  refine Text.utf8_append (Text.utf8_of_ascii ?_) (by decide)
  simp [Text.ascii, Text.asciiChar]

theorem cut_padded (n : Nat) : Text.utf8 (Text.firstBytes (n + 1) (padded n)) = false := by
  rw [Text.utf8_firstBytes _ (utf8_padded n)]
  simp [Text.boundary, padded, Text.continues]

/-- What a factory throws becomes the detail. -/
theorem detail_factory {lib : JsonScan} {what : String}
    (h : admission lib o.schedule o.adapter o.policy o.reentrant = .ok ())
    (hf : o.adapter.factory = some (.error (some what))) (hs : o.stopped = false) :
    (Sys.start lib o).state.report.detail = Text.firstBytes 1024 what := by
  rw [start_of_admission h]
  simp [admitted, hf, hs, Shared.fail, Sys.unstarted]

theorem receipt_of_detail (h : Text.utf8 x.state.report.detail = false) :
    x.receipt.utf8 = false := by
  simp [receipt, Json.utf8Members, h]

theorem retain_throws {s : BindingSession} (he : s.execution = some x) (hr : s.retained = false)
    (hu : x.receipt.utf8 = false) : s.retain lib = .error (.std (lib.what .badUtf8)) := by
  simp [BindingSession.retain, he, hr, lib.dumpSize_eq_none.mpr hu]

/-- The sample, its factory throwing such a text. -/
def cutOpening : Opening := sampleOpening.withFactory (.error (some (padded 1023)))

def cutSession : BindingSession where
  schedule := cutOpening.schedule
  adapter := cutOpening.adapter
  policy := cutOpening.policy
  execution := some (start sampleLib cutOpening)

theorem receipt_does_not_print :
    Text.utf8 (padded 1023) = true ∧ nonce cutOpening.executionId = true ∧
      admission sampleLib cutOpening.schedule cutOpening.adapter cutOpening.policy
        cutOpening.reentrant = .ok () ∧
      sampleLib.dump (start sampleLib cutOpening).receipt = none ∧
      ∃ e, cutSession.retain sampleLib.toJsonLib = .error e := by
  have hadm : admission sampleLib cutOpening.schedule cutOpening.adapter cutOpening.policy
      cutOpening.reentrant = .ok () :=
    (admission_withFactory (o := sampleOpening) rfl (.error (some (padded 1023)))).trans
      admission_sample
  have hcut : Text.utf8 (Text.firstBytes 1024 (padded 1023)) = false := cut_padded 1023
  have hdetail := detail_factory hadm rfl rfl
  have hu : (start sampleLib cutOpening).receipt.utf8 = false :=
    receipt_of_detail (hdetail ▸ hcut)
  exact ⟨utf8_padded 1023, by decide, hadm, sampleLib.dump_eq_none.mpr hu,
    .std (sampleLib.what .badUtf8), retain_throws rfl rfl hu⟩

end Sys

end MirrorCpp.Schedule
