import MirrorCpp.Schedule.Lifecycle

/-!
# The log of an execution

While an execution has not failed, its events are one permit and one arrival for each step behind,
in order, with the permit that is out on top; and it has been observed once before the first step
and once behind each. The arrival is written by the worker and taken by the controller: the slot
holds the checkpoint of the actor from the moment it stops running.
-/

namespace MirrorCpp.Schedule

/-- The `m`-th event of these steps: the permit of a step, or the arrival that ends it. -/
structure Event.Of (actors : List ActorDeclaration) (steps : List Step) (m : Nat) (e : Event) :
    Prop where
  ordinal : e.ordinal = m
  step : e.step = m / 2
  declared : ⟨e.actor, e.operation⟩ ∈ actors
  granted : ∃ st, steps[m / 2]? = some st ∧ e.actor = st.actor ∧
    (m % 2 = 0 ∧ e.kind = .permit ∨
      m % 2 = 1 ∧ e.kind = .arrival ∧ e.checkpoint = st.checkpoint)

/-- The log ends with the permit of this step for this actor. -/
def LastPermit (log : List Event) (step : Nat) (a : ActorDeclaration) : Prop :=
  ∃ before checkpoint,
    log = before ++ [⟨before.length, .permit, step, a.actor, a.operation, checkpoint⟩]

/-- The slot of an actor is empty exactly while it runs. -/
def ActorState.slot (a : ActorState) : Prop :=
  a.arrival = if a.phase = .running then none else some a.checkpoint

/-- The events of a step that is not behind. -/
def Ctl.halves : Ctl → Nat
  | .permitted _ _ => 1
  | .joining _ => 2
  | _ => 0

/-- The observation behind the last step has been made. -/
def Ctl.awaited : Ctl → Nat
  | .observer .advance => 0
  | _ => 1

/-- No step is under way. -/
theorem Ctl.still {c : Ctl} (h : c.stepping = false) :
    c.halves = 0 ∧ c.awaited = 1 ∧ ∀ i e, c ≠ .permitted i e := by
  rcases c with _ | _ | (_ | _) | _ | _ | _ | _ | _ | _ | _ | _ | _ | _ | _
  all_goals first | exact ⟨rfl, rfl, nofun⟩ | cases h

namespace Sys

open Shared

variable {x y : Sys} {lib : JsonScan} {i j : Nat}

/-- How often the observer has returned. -/
def seen (x : Sys) : Nat := if x.impl.initialized then x.impl.nextStep + x.ctl.awaited else 0

structure Logged (x : Sys) : Prop where
  length : x.state.report.events.length = 2 * x.impl.nextStep + x.ctl.halves
  events : ∀ (m : Nat) (e : Event), x.state.report.events[m]? = some e →
    e.Of x.impl.adapter.actors x.impl.schedule.steps m
  slot : ∀ i e, x.ctl = .permitted i e → (x.state.actor i).slot
  observations : x.state.report.observations.map Observation.afterSteps = List.range x.seen
  fresh : x.impl.initialized = false →
    x.impl.nextStep = 0 ∧ x.state.report.scheduleCompleted = false

theorem Initial.logged {o : Opening} (h : Initial o x) : Logged x := by
  have hi : x.impl.initialized = false := by rw [h.impl]
  have hn : x.impl.nextStep = 0 := by rw [h.impl]
  have he : x.state.report.events = [] := by rw [h.report]
  have hctl : x.ctl.halves = 0 ∧ ∀ i e, x.ctl ≠ .permitted i e := by
    rcases h.start with ⟨hc, -⟩ | ⟨hc, -⟩ | ⟨hc, -⟩ <;> simp [hc, Ctl.halves]
  refine ⟨?_, fun m e hm => ?_, fun i e hc => absurd hc (hctl.2 i e), ?_, fun _ => ⟨hn, ?_⟩⟩
  · rw [he, hn, hctl.1]
    rfl
  · rw [he] at hm
    cases hm
  · rw [h.report, seen, hi]
    rfl
  · rw [h.report]

/-! ## Steps that do not log -/

/-- Nothing has been logged between these states. -/
structure Quiet (x y : Sys) : Prop where
  events : y.state.report.events = x.state.report.events
  observations : y.state.report.observations = x.state.report.observations
  completed : y.state.report.scheduleCompleted = x.state.report.scheduleCompleted
  nextStep : y.impl.nextStep = x.impl.nextStep
  initialized : y.impl.initialized = x.impl.initialized
  halves : y.ctl.halves = x.ctl.halves
  awaited : y.ctl.awaited = x.ctl.awaited
  slot : ∀ i e, y.ctl = .permitted i e →
    x.ctl = .permitted i e ∧ ((x.state.actor i).slot → (y.state.actor i).slot)

theorem Logged.quiet (H : Logged x) (hf : Fixed x y) (h : Quiet x y) : Logged y where
  length := by rw [h.events, h.nextStep, h.halves, H.length]
  events := by
    rw [h.events, hf.adapter, hf.schedule]
    exact H.events
  slot i e hc := by
    obtain ⟨hx, hs⟩ := h.slot i e hc
    exact hs (H.slot i e hx)
  observations := by
    rw [h.observations, H.observations, seen, seen, h.initialized, h.nextStep, h.awaited]
  fresh hi := by
    rw [h.nextStep, h.completed]
    exact H.fresh (h.initialized ▸ hi)

/-- The controller goes from one place outside `advance` to another. -/
theorem Quiet.go (hx : x.ctl.stepping = false) (hy : y.ctl.stepping = false)
    (hr : y.state.report = x.state.report) (hn : y.impl.nextStep = x.impl.nextStep)
    (hi : y.impl.initialized = x.impl.initialized) : Quiet x y := by
  obtain ⟨hx, hx', -⟩ := Ctl.still hx
  obtain ⟨hy, hy', hne⟩ := Ctl.still hy
  exact {
    events := congrArg Report.events hr
    observations := congrArg Report.observations hr
    completed := congrArg Report.scheduleCompleted hr
    nextStep := hn
    initialized := hi
    halves := hy.trans hx.symm
    awaited := hy'.trans hx'.symm
    slot := fun i e he => absurd he (hne i e) }

/-- A worker changes its actor. -/
theorem Quiet.act {s : Shared} {a : ActorState} {ps : List Pc}
    (hs : s.actors = x.state.actors.set i a) (hr : s.report = x.state.report)
    (ha : ∀ e, x.ctl = .permitted i e → (x.state.actor i).slot → a.slot) :
    Quiet x { x with state := s, pcs := ps } where
  events := congrArg Report.events hr
  observations := congrArg Report.observations hr
  completed := congrArg Report.scheduleCompleted hr
  nextStep := rfl
  initialized := rfl
  halves := rfl
  awaited := rfl
  slot j e he := by
    refine ⟨he, fun h => ?_⟩
    have hact := actor_setActor x.state i j a
    have hj : s.actor j = (x.state.setActor i a).actor j := by
      simp [Shared.actor, setActor, hs]
    show (s.actor j).slot
    rw [hj, hact]
    split
    · rename_i hji
      rw [hji.1] at he h
      exact ha e he h
    · exact h

theorem Quiet.stroll (ps : List Pc) : Quiet x { x with pcs := ps } :=
  ⟨rfl, rfl, rfl, rfl, rfl, rfl, rfl, fun _ _ h => ⟨h, id⟩⟩

theorem Logged.work (HC : Course x) (HK : Core x) (H : Logged x) (hi : i < x.pcs.length)
    (h : Work x i y) (hy : y.state.failed = false) : Logged y := by
  have hf := (Move.work hi h).fixed
  have hph := HK.phase i
  cases h with
  | register hpc =>
    rw [hpc] at hph
    have hph : (x.state.actor i).phase = .starting := hph
    refine H.quiet hf (.act rfl rfl fun _ _ hs => ?_)
    simpa [ActorState.slot, hph] using hs
  | wake | stopped | user | asked | refused => exact H.quiet hf (.stroll _)
  | foreign =>
    have hy : x.state.misused.failed = false := hy
    rw [misused, failed_fail] at hy
    cases hy
  | @astray checkpoint =>
    have hy : (x.state.astray i checkpoint).failed = false := hy
    rw [astray, failed_fail] at hy
    cases hy
  | park => exact H.quiet hf (.act rfl rfl fun _ _ _ => rfl)
  | @threw what =>
    have hy : (x.state.workerThrew what).failed = false := hy
    rw [workerThrew, failed_fail] at hy
    cases hy
  | finish hpc =>
    rw [hpc, Pc.allows_loose rfl] at hph
    refine H.quiet hf (.act rfl rfl fun e hctl hs => ?_)
    have hst := HC.live_advancing (by rw [hctl]; rfl)
    have hrun : (x.state.actor i).phase = .running := by
      rcases hph with h | ⟨h, -⟩
      · exact h
      · rw [hst] at h; cases h
    have hnone : (x.state.actor i).arrival = none := by
      simpa [ActorState.slot, hrun] using hs
    simp [ActorState.slot, hnone]

/-! ## Steps that log -/

theorem events_append {P : Nat → Event → Prop} {es : List Event} {e : Event}
    (h : ∀ m e, es[m]? = some e → P m e) (he : P es.length e) :
    ∀ m e', (es ++ [e])[m]? = some e' → P m e' := by
  intro m e' hm
  rw [List.getElem?_append] at hm
  split at hm
  · exact h m e' hm
  · rename_i hle
    obtain ⟨h0, he'⟩ := List.getElem?_eq_some_iff.mp hm
    have hlen : m - es.length < 1 := h0
    obtain rfl : m = es.length := by omega
    rw [List.getElem_singleton] at he'
    exact he' ▸ he

/-- What a started actor declares. -/
theorem Named.declared (HN : Named x) (hk : x.impl.constructed = true)
    (hi : i < x.state.actors.length) : (x.state.actor i).declaration ∈ x.impl.adapter.actors := by
  rw [← HN hk]
  exact List.mem_map_of_mem (actor_mem hi)

theorem Logged.permit (HC : Course x) (HN : Named x) (H : Logged x) {st : Step} {late : Bool}
    (hctl : x.ctl = .idle) (hc : x.cannotAdvance = false) (hr : x.refusal st late = none) :
    Logged { x with
      state := Sys.permit x.state x.impl.nextStep (find x.state st.actor)
      ctl := .permitted (find x.state st.actor) st.checkpoint } := by
  obtain ⟨-, -, hst, hp⟩ := refusal_none hr
  obtain ⟨hi, hn⟩ := find_name (by rw [hp]; decide)
  have hinit := (cannotAdvance_false hc).1
  have hlen : x.state.report.events.length = 2 * x.impl.nextStep := by
    rw [H.length, hctl]
    rfl
  generalize find x.state st.actor = i at hp hi hn ⊢
  refine ⟨?_, ?_, fun j e hj => ?_, ?_, fun h => ?_⟩
  · show (x.state.report.events ++ [_]).length = 2 * x.impl.nextStep + 1
    rw [List.length_append, hlen]
    rfl
  · refine events_append H.events
      ⟨rfl, ?_, HN.declared (HC.built hinit) hi, st, ?_, hn, .inl ⟨?_, rfl⟩⟩
    · show x.impl.nextStep = _
      omega
    · rw [hlen, Nat.mul_div_cancel_left _ (by decide)]
      exact hst
    · omega
  · cases hj
    have hself := actor_setActor_self (x.state.event .permit x.impl.nextStep (x.state.actor i)
      (x.state.actor i).checkpoint) { x.state.actor i with arrival := none, phase := .running } hi
    show ((Sys.permit x.state x.impl.nextStep i).actor i).slot
    unfold Sys.permit
    dsimp only
    rw [hself]
    rfl
  · show x.state.report.observations.map _ = List.range (seen _)
    rw [H.observations, seen, seen, hctl]
    rfl
  · rw [show x.impl.initialized = false from h] at hinit
    cases hinit

/-- The arrival of the actor the controller waited on is logged. -/
theorem recordArrival_slot {s : Shared} {n : Nat} (hs : (s.actor i).slot)
    (hr : (s.actor i).phase ≠ .running) :
    recordArrival s n i = s.event .arrival n (s.actor i) (s.actor i).checkpoint := by
  have ha : (s.actor i).arrival = some (s.actor i).checkpoint := by
    rw [ActorState.slot, if_neg hr] at hs
    exact hs
  unfold recordArrival
  dsimp only
  rw [ha]

theorem Logged.arrival (HC : Course x) (HN : Named x) (HR : Rest x) (H : Logged x) {e : String}
    (hctl : x.ctl = .permitted i e) (hr : (x.state.actor i).phase ≠ .running)
    (he : (x.state.actor i).checkpoint = e) :
    recordArrival x.state x.impl.nextStep i =
        x.state.event .arrival x.impl.nextStep (x.state.actor i) (x.state.actor i).checkpoint ∧
      (recordArrival x.state x.impl.nextStep i).report.events.length = 2 * x.impl.nextStep + 2 ∧
      ∀ (m : Nat) (e : Event),
        (recordArrival x.state x.impl.nextStep i).report.events[m]? = some e →
          e.Of x.impl.adapter.actors x.impl.schedule.steps m := by
  obtain ⟨hi, hst⟩ := HR.permitted i e hctl
  have hk := HC.built (HC.ready (by rw [hctl]; rfl))
  have hlen : x.state.report.events.length = 2 * x.impl.nextStep + 1 := by
    rw [H.length, hctl]
    rfl
  have hrec := recordArrival_slot (n := x.impl.nextStep) (H.slot i e hctl) hr
  rw [hrec]
  refine ⟨rfl, ?_, ?_⟩
  · show (x.state.report.events ++ [_]).length = _
    rw [List.length_append, hlen]
    rfl
  · refine events_append H.events ⟨rfl, ?_, HN.declared hk hi, ⟨x.name i, e⟩, ?_, rfl,
      .inr ⟨?_, rfl, he⟩⟩
    · show x.impl.nextStep = _
      omega
    · rw [hlen, show (2 * x.impl.nextStep + 1) / 2 = x.impl.nextStep by omega]
      exact hst
    · omega

/-- A live execution behind its observer has one observation more. -/
theorem Retained.kept_of (h : Retained x y) (hy : y.state.failed = false) :
    ∃ bytes value, y = { x with
      impl := { x.impl with observationBytes := bytes }
      state := { x.state with report := { x.state.report with
        observations := x.state.report.observations ++ [⟨x.impl.nextStep, value⟩] } } } := by
  cases h with
  | @failed what =>
    have hy : (x.state.fail .observationFailed what).failed = false := hy
    rw [failed_fail] at hy
    cases hy
  | kept => exact ⟨_, _, rfl⟩

theorem Logged.startObserved (HC : Course x) (H : Logged x) {late : Bool}
    (hctl : x.ctl = .observer .start) (h : Retained x y)
    (hy : (y.startObserved late).state.failed = false) : Logged (y.startObserved late) := by
  have hy : (y.state.settle late).failed = false := hy
  have hs := (settle_live hy).1
  rw [hs] at hy
  obtain ⟨bytes, value, rfl⟩ := h.kept_of hy
  have hinit := HC.opening (by rw [hctl]; rfl)
  obtain ⟨hn, hc⟩ := H.fresh hinit
  unfold Sys.startObserved
  dsimp only at hs hy ⊢
  rw [hs]
  dsimp only
  rw [hy]
  have hlen : x.state.report.events.length = 2 * x.impl.nextStep := by
    rw [H.length, hctl]
    rfl
  refine ⟨hlen, H.events, nofun, ?_, nofun⟩
  show (x.state.report.observations ++ [_]).map _ = List.range (x.impl.nextStep + 1)
  rw [List.map_append, H.observations, seen, hinit, hn]
  rfl

theorem Logged.advanceObserved (HC : Course x) (H : Logged x) {late : Bool}
    (hctl : x.ctl = .observer .advance) (h : Retained x y)
    (hy : (y.advanceObserved late).state.failed = false) : Logged (y.advanceObserved late) := by
  have hsettled : (y.state.settle late).failed = false := by
    rw [← hy]
    unfold Sys.advanceObserved
    dsimp only
    split <;> rfl
  have hs := (settle_live hsettled).1
  rw [hs] at hsettled
  obtain ⟨bytes, value, rfl⟩ := h.kept_of hsettled
  have hinit := HC.ready (by rw [hctl]; rfl)
  have hlen : x.state.report.events.length = 2 * x.impl.nextStep := by
    rw [H.length, hctl]
    rfl
  have hobs : (x.state.report.observations ++ [Observation.mk x.impl.nextStep value]).map
      Observation.afterSteps = List.range (x.impl.nextStep + 1) := by
    rw [List.map_append, H.observations, seen, if_pos hinit, hctl, List.range_succ]
    rfl
  have hseen : (if x.impl.initialized then x.impl.nextStep + 1 else 0) = x.impl.nextStep + 1 :=
    if_pos hinit
  have hfresh : ∀ {p : Prop}, x.impl.initialized = false → p := by
    intro p h
    rw [hinit] at h
    cases h
  unfold Sys.advanceObserved
  dsimp only at hs ⊢
  rw [hs]
  split
  · exact ⟨hlen, H.events, nofun, hobs.trans (congrArg List.range hseen.symm), hfresh⟩
  · exact ⟨hlen, H.events, nofun, hobs.trans (congrArg List.range hseen.symm), hfresh⟩

/-! ## Every step -/

/-- `cleanup` and the destructor are outside `advance`. -/
theorem Wind.outside (h : Wind x y) : x.ctl.stepping = false := by
  obtain ⟨-, ⟨he, -⟩ | ⟨hg, -⟩⟩ := h.steady
  · cases hc : x.ctl with
    | observer k | permitted | joining => rw [hc] at he; cases he
    | _ => rfl
  · cases hc : x.ctl with
    | observer k | permitted | joining => rw [hc] at hg; cases hg
    | _ => rfl

theorem Wind.quiet (h : Wind x y) : Quiet x y := by
  have hw := h.wound
  obtain ⟨hc, -, hy⟩ := h.completed
  obtain ⟨hx, hx', -⟩ := Ctl.still h.outside
  obtain ⟨hy, hy', hne⟩ := Ctl.still hy
  exact {
    events := hw.events
    observations := hw.observations
    completed := hc
    nextStep := hw.nextStep
    initialized := hw.initialized
    halves := hy.trans hx.symm
    awaited := hy'.trans hx'.symm
    slot := fun i e he => absurd he (hne i e) }

theorem Logged.step (HC : Course x) (HK : Core x) (HN : Named x) (HR : Rest x)
    (H : Logged x) (h : Move x y) (hy : y.state.failed = false) : Logged y := by
  have hf := h.fixed
  cases h with
  | work hi h => exact H.work HC HK hi h hy
  | cancel => exact H.quiet hf ⟨rfl, rfl, rfl, rfl, rfl, rfl, rfl, fun _ _ h => ⟨h, id⟩⟩
  | @foreign i k checkpoint =>
    rw [HK.misused, misused, failed_fail] at hy
    cases hy
  | stay => exact H
  | refuse | spawnRefused => rw [failed_fail] at hy; cases hy
  | permit hctl hc hr => exact H.permit HC HN hctl hc hr
  | finish hctl _ _ hj =>
    exact H.quiet hf
      (.go (by rw [hctl]; rfl) rfl (congrArg Shared.report (hj.eq_of_live hy)) rfl rfl)
  | badBudget hctl | destroy hctl | barrier hctl =>
    exact H.quiet hf (.go (by rw [hctl]; rfl) rfl rfl rfl rfl)
  | close hctl | clean hctl =>
    refine H.quiet hf (.go ?_ rfl rfl rfl rfl)
    rcases hctl with hctl | hctl <;> rw [hctl] <;> rfl
  | spawn hctl =>
    refine H.quiet hf (.go (by rw [hctl]; rfl) ?_ rfl rfl rfl)
    dsimp only [Sys.spawn]
    split <;> rfl
  | barrierFailed _ _ hs => rw [hs] at hy; cases hy
  | startObserved hctl h => exact H.startObserved HC hctl h hy
  | advanceObserved hctl h => exact H.advanceObserved HC hctl h hy
  | wokenFailed _ _ hs => rw [recordArrival_failed, hs] at hy; cases hy
  | wokenAstray => rw [failed_fail] at hy; cases hy
  | @wokenFinished i e hctl _ hp he =>
    obtain ⟨hrec, hlen, hev⟩ := H.arrival HC HN HR hctl (by rw [hp]; decide) he
    refine ⟨hlen, hev, nofun, ?_, fun h => ?_⟩
    · rw [hrec]
      have hobs := H.observations
      rw [seen, hctl] at hobs
      exact hobs
    · rw [hrec]
      exact H.fresh h
  | @wokenParked i e hctl _ hr _ he =>
    obtain ⟨hrec, hlen, hev⟩ := H.arrival HC HN HR hctl hr he
    have hinit := HC.ready (by rw [hctl]; rfl)
    refine ⟨hlen, hev, nofun, ?_, fun h => ?_⟩
    · rw [hrec]
      have hobs := H.observations
      rw [seen, hctl, if_pos hinit] at hobs
      rw [seen]
      dsimp only
      rw [if_pos hinit]
      exact hobs
    · rw [show x.impl.initialized = false from h] at hinit
      cases hinit
  | joined hctl =>
    have hinit := HC.ready (by rw [hctl]; rfl)
    have hlen := H.length
    have hobs := H.observations
    rw [hctl] at hlen
    rw [seen, hctl, if_pos hinit] at hobs
    refine ⟨hlen, H.events, nofun, ?_, fun h => ?_⟩
    · rw [seen, if_pos (show (advanceJoined x _).impl.initialized = true from hinit)]
      exact hobs
    · rw [show x.impl.initialized = false from h] at hinit
      cases hinit
  | leave hctl =>
    refine H.quiet hf (.go (by rw [hctl]; rfl) ?_ rfl rfl rfl)
    dsimp only
    split <;> rfl
  | wind h => exact H.quiet hf h.quiet

/-- The log of every execution that has not failed. -/
theorem Logged.reach (h : (lts lib).Reach x) : x.state.failed = false → Logged x := by
  refine h.inv_of (P := fun x => x.state.failed = false → Logged x)
    (Q := fun x => Course x ∧ Core x ∧ Named x ∧ Rest x)
    (fun _ h => ⟨.reach h, .reach h, .reach h, .reach h⟩) ?_ ?_
  · rintro _ ⟨o, rfl⟩ -
    exact (initial_start lib o).logged
  · rintro x c y ⟨HC, HK, HN, HR⟩ H - hs hy
    have hm := move_of_step hs
    have hx : x.state.failed = false := by
      rcases hm.blame with ⟨he, -⟩ | ⟨he, -⟩
      · exact he ▸ hy
      · exact he
    exact (H hx).step HC HK HN HR hm hy

/-! ## The permit that is out -/

theorem declaration_eq (s : Shared) (i : Nat) :
    (s.actor i).declaration = (declarations s).getD i ⟨"", ""⟩ := by
  unfold Shared.actor declarations
  rw [List.getD_eq_getElem?_getD, List.getD_eq_getElem?_getD, List.getElem?_map]
  cases s.actors[i]? <;> rfl

/-- The permit that is out is the last event, whether the execution has failed or not. -/
def Granting (x : Sys) : Prop := ∀ i e, x.ctl = .permitted i e →
  LastPermit x.state.report.events x.impl.nextStep (x.state.actor i).declaration

theorem Granting.keep (H : Granting x)
    (hctl : ∀ i e, y.ctl = .permitted i e → x.ctl = .permitted i e)
    (hn : y.impl.nextStep = x.impl.nextStep)
    (he : y.state.report.events = x.state.report.events)
    (hd : declarations y.state = declarations x.state) : Granting y := by
  intro i e h
  rw [hn, he, declaration_eq, hd, ← declaration_eq]
  exact H i e (hctl i e h)

theorem Granting.move (H : Granting x) (h : Move x y) : Granting y := by
  have hd := h.declarations
  cases h with
  | work _ h =>
    have hctl := h.frame.2.2
    obtain ⟨s, ps, rfl, hj⟩ := h.judged
    exact H.keep (fun _ _ h => hctl ▸ h) rfl hj.events hd
  | cancel | stay => exact H
  | foreign => exact H.keep (fun _ _ h => h) rfl (judged_arrive _ _ _ _).events hd
  | @permit st =>
    rintro i e ⟨⟩
    refine ⟨x.state.report.events, (x.state.actor (find x.state st.actor)).checkpoint, ?_⟩
    rw [declaration_eq, hd, ← declaration_eq]
    rfl
  | wind h =>
    exact H.keep (fun i e hy => (h.quiet.slot i e hy).1) h.quiet.nextStep h.quiet.events hd
  | spawn =>
    intro i e he
    dsimp only [Sys.spawn] at he
    split at he <;> cases he
  | startObserved =>
    intro i e he
    dsimp only [Sys.startObserved] at he
    split at he <;> cases he
  | leave =>
    intro i e he
    dsimp only at he
    split at he <;> cases he
  | _ => rintro i e ⟨⟩

theorem Granting.reach (h : (lts lib).Reach x) : Granting x := by
  refine h.inv (P := Granting) ?_ fun x c y H _ hs => H.move (move_of_step hs)
  rintro _ ⟨o, rfl⟩ i e hctl
  rcases (initial_start lib o).start with ⟨hc, -⟩ | ⟨hc, -⟩ | ⟨hc, -⟩ <;> rw [hc] at hctl <;>
    cases hctl

/-! ## Reports that pass -/

/-- The teardown has been called where it counts. -/
structure Attempted (x : Sys) : Prop where
  tearing : x.ctl = .tearing → x.impl.teardownAttempted = true
  confirmed : x.state.report.cleanup = .confirmed → x.impl.teardownAttempted = true

theorem attempted_callTeardown (x : Sys) :
    x.callTeardown.impl.teardownAttempted = x.impl.teardownAttempted := by
  unfold callTeardown
  split <;> rfl

theorem cleanupEnd_confirmed (h : x.cleanupEnd.state.report.cleanup = .confirmed) :
    x.state.report.remainingActors = [] := by
  by_contra hr
  simp [cleanupEnd, hr] at h

/-- A confirmed cleanup has no actor remaining. -/
def Cleared (r : Report) : Prop := r.cleanup = .confirmed → r.remainingActors = []

theorem Scan.cleared (H : Cleared x.state.report) (h : Scan x y) : Cleared y.state.report := by
  cases h with
  | join => exact H
  | tear =>
    rw [state_callTeardown]
    exact fun _ => rfl
  | rest => exact cleanupEnd_confirmed

theorem Cleared.reach (h : (lts lib).Reach x) : Cleared x.state.report := by
  refine h.inv (P := fun x => Cleared x.state.report) ?_ fun x c y H _ hs => ?_
  · rintro _ ⟨o, rfl⟩ -
    rw [(initial_start lib o).report]
  · rcases (move_of_step hs).plain with hp | hw | ⟨-, rfl⟩
    · exact fun hc => hp.remaining.trans (H (hp.cleanup ▸ hc))
    · cases hw with
      | wake _ h => exact h.cleared H
      | joined _ _ h => exact Scan.cleared (by exact H) h
      | torn => exact cleanupEnd_confirmed
      | destroyTear =>
        rw [state_callTeardown]
        exact H
      | destroyJoin | destroyEnd | destroyTorn => exact H
    · exact H

theorem Scan.attempted (H : x.state.report.cleanup = .confirmed → x.impl.teardownAttempted = true)
    (h : Scan x y) : Attempted y := by
  cases h with
  | join => exact ⟨nofun, H⟩
  | tear =>
    have ha := attempted_callTeardown { x with
      state := { x.state with report := { x.state.report with remainingActors := [] } }
      impl := { x.impl with teardownAttempted := true }
      ctl := .tearing }
    exact ⟨fun _ => ha, fun _ => ha⟩
  | rest h => exact ⟨nofun, fun hc => h (cleanupEnd_confirmed hc)⟩

theorem Attempted.wind (H : Attempted x) (h : Wind x y) : Attempted y := by
  cases h with
  | wake _ h => exact h.attempted H.confirmed
  | joined _ _ h => exact Scan.attempted (by exact H.confirmed) h
  | torn hctl => exact ⟨nofun, fun _ => H.tearing hctl⟩
  | destroyJoin => exact ⟨H.tearing, H.confirmed⟩
  | destroyTear =>
    refine ⟨fun hc => ?_, fun hc => ?_⟩
    · rw [ctl_callTeardown] at hc
      cases hc
    · rw [attempted_callTeardown]
      rw [state_callTeardown] at hc
      exact H.confirmed hc
  | destroyEnd | destroyTorn => exact ⟨nofun, H.confirmed⟩

/-- Only `cleanup` goes to the teardown. -/
theorem Move.tearing (h : Move x y) (hy : y.ctl = .tearing) : x.ctl = .tearing ∨ Wind x y := by
  cases h with
  | wind h => exact .inr h
  | work _ h => exact .inl (h.frame.2.2 ▸ hy)
  | cancel | foreign | stay => exact .inl hy
  | spawn =>
    dsimp only [Sys.spawn] at hy
    split at hy <;> cases hy
  | startObserved =>
    dsimp only [Sys.startObserved] at hy
    split at hy <;> cases hy
  | leave =>
    dsimp only at hy
    split at hy <;> cases hy
  | _ => cases hy

theorem Attempted.step (H : Attempted x) (h : Move x y) : Attempted y := by
  rcases h.plain with hp | hw | ⟨hctl, rfl⟩
  · refine ⟨fun hy => ?_, fun hc => hp.held.attempted.trans (H.confirmed (hp.cleanup ▸ hc))⟩
    rcases h.tearing hy with hx | hw
    · exact hp.held.attempted.trans (H.tearing hx)
    · exact (H.wind hw).tearing hy
  · exact H.wind hw
  · refine ⟨fun hy => absurd hy ?_, H.confirmed⟩
    dsimp only [Sys.spawn]
    split <;> exact nofun

theorem Attempted.reach (h : (lts lib).Reach x) : Attempted x := by
  refine h.inv ?_ fun _ _ _ H _ hs => H.step (move_of_step hs)
  rintro _ ⟨o, rfl⟩
  have hi := initial_start lib o
  refine ⟨fun hc => ?_, fun hc => ?_⟩
  · rcases hi.start with ⟨h, -⟩ | ⟨h, -⟩ | ⟨h, -⟩ <;> rw [h] at hc <;> cases hc
  · rw [hi.report] at hc
    cases hc

/-- An execution that has not failed was built, with a teardown. -/
theorem teardown_of_live (h : (lts lib).Reach x) : x.state.failed = false →
    x.impl.constructed = true ∧ x.impl.program.teardown = true := by
  refine h.inv (P := fun x => x.state.failed = false →
    x.impl.constructed = true ∧ x.impl.program.teardown = true) ?_ fun x c y H _ hs hy => ?_
  · rintro _ ⟨o, rfl⟩ hf
    rcases (initial_start lib o).start with ⟨-, h, -⟩ | ⟨-, h, -⟩ | ⟨-, -, -, hk, ht, -⟩
    · rw [h] at hf; cases hf
    · rw [h] at hf; cases hf
    · exact ⟨hk, ht⟩
  · have hm := move_of_step hs
    have hx : x.state.failed = false := by
      rcases hm.blame with ⟨he, -⟩ | ⟨he, -⟩
      · exact he ▸ hy
      · exact he
    rw [hm.fixed.constructed, hm.fixed.program]
    exact H hx

/-- The whole schedule has been logged and observed. -/
structure Played (x : Sys) : Prop where
  length : x.state.report.events.length = 2 * x.impl.schedule.steps.length
  events : ∀ (m : Nat) (e : Event), x.state.report.events[m]? = some e →
    e.Of x.impl.adapter.actors x.impl.schedule.steps m
  observations : x.state.report.observations.map Observation.afterSteps =
    List.range (x.impl.schedule.steps.length + 1)
  finished : ∀ i, i < x.state.actors.length → (x.state.actor i).phase = .finished ∧
    x.pc i = .closed ∧ x.joinable i = false

theorem live_of_completed (h : (lts lib).Reach x) (ho : x.state.report.outcome = .completed) :
    x.state.failed = false := by
  cases hf : x.state.failed with
  | false => rfl
  | true => exact absurd ho ((failed_iff h).mp hf)

theorem played_of_completed (h : (lts lib).Reach x) (ho : x.state.report.outcome = .completed)
    (hc : x.state.report.scheduleCompleted = true) : Played x := by
  have hf := live_of_completed h ho
  have HL := Logged.reach h hf
  have HP := Completed.reach h
  have hk := (teardown_of_live h hf).1
  have hn := HP.steps hc
  have hstill : x.ctl.stepping = false := by
    cases hs : x.ctl.stepping with
    | false => rfl
    | true => rw [HP.stepping hs] at hc; cases hc
  obtain ⟨hhalves, hawaited, -⟩ := Ctl.still hstill
  have hinit : x.impl.initialized = true := by
    cases hi : x.impl.initialized with
    | true => rfl
    | false => rw [(HL.fresh hi).2] at hc; cases hc
  refine ⟨?_, HL.events, ?_, fun i hi => ?_⟩
  · rw [HL.length, hn, hhalves]
    rfl
  · rw [HL.observations, seen, if_pos hinit, hn, hawaited]
  · have hd : x.Done i := by
      have hmem := (Named.reach h).declared hk hi
      unfold Done
      rw [hn, List.take_length]
      exact ((Course.reach h).admitted hk).completes _ hmem
    obtain ⟨hphase, hjoined⟩ := (Rest.reach h).behind i hi hd
    exact ⟨hphase, (Core.reach h).marked i hjoined⟩

/-- Behind a confirmed cleanup no thread remains, and the teardown has been called once. -/
theorem confirmed_clean (h : (lts lib).Reach x) (hf : x.state.failed = false)
    (hc : x.state.report.cleanup = .confirmed) :
    x.impl.threads.all (!·) = true ∧ x.impl.teardowns = 1 := by
  have ha := (Attempted.reach h).confirmed hc
  exact ⟨(Torn.reach h).joined (.inl ha), (Torn.reach h).ran ha (teardown_of_live h hf).2⟩

end Sys

end MirrorCpp.Schedule
