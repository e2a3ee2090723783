import MirrorCpp.Schedule.Places
import MirrorCpp.Schedule.WellFormed
import MirrorCpp.Lib.JsonCompact

/-!
# Quiescence

`Rest` says which actors run, which have finished, and how far the schedule is behind them: an
actor runs only under the permit the controller waits on, and it has finished exactly when its
`$done` step is behind. So the observer sees every actor parked or joined, and no step of an
admitted schedule finds its actor away from its hook.
-/

namespace MirrorCpp.Schedule

/-- The checkpoint an actor shows is `$done` when it has finished, and not while it is parked. -/
def ActorState.spoken (a : ActorState) : Prop :=
  match a.phase with
  | .starting | .parked => a.checkpoint ≠ completion
  | .running => True
  | .finished => a.checkpoint = completion

/-- No permit, no join and no failure is on its way. -/
def Ctl.calm : Ctl → Bool
  | .permitted _ _ | .joining _ | .returning | .entering => false
  | _ => true

namespace Sys

open Shared

variable {x y : Sys} {lib : JsonScan} {i j : Nat}

/-! ## Names -/

def name (x : Sys) (i : Nat) : String := (x.state.actor i).declaration.actor

def declarations (s : Shared) : List ActorDeclaration := s.actors.map ActorState.declaration

/-- The `$done` step of the actor is behind. -/
def Done (x : Sys) (i : Nat) : Prop :=
  doneStep (x.name i) ∈ x.impl.schedule.steps.take x.impl.nextStep

theorem declarations_setActor (s : Shared) (i : Nat) {a : ActorState}
    (ha : a.declaration = (s.actor i).declaration) :
    declarations (s.setActor i a) = declarations s := by
  unfold declarations setActor
  rw [List.map_set, ha]
  conv_rhs => rw [← set_actor_self s i, List.map_set]

theorem declarations_fail (s : Shared) (o : Outcome) (d : String) :
    declarations (s.fail o d) = declarations s := by
  unfold declarations Shared.fail
  split <;> rfl

theorem Work.declarations (h : Work x i y) : declarations y.state = declarations x.state := by
  cases h with
  | register | park | finish => exact declarations_setActor _ _ rfl
  | astray => exact (declarations_fail _ _ _).trans (declarations_setActor _ _ rfl)
  | foreign | threw => exact declarations_fail _ _ _
  | _ => rfl

theorem Scan.frame (h : Scan x y) : y.state.actors = x.state.actors := by
  cases h with
  | join | rest => rfl
  | tear =>
    unfold callTeardown
    split <;> rfl

theorem Wind.declarations (h : Wind x y) : declarations y.state = declarations x.state := by
  cases h with
  | wake _ h => simp only [Sys.declarations, h.frame]
  | joined _ _ h =>
    simp only [Sys.declarations, h.frame]
    exact declarations_setActor _ _ rfl
  | destroyTear =>
    unfold callTeardown
    split <;> rfl
  | _ => rfl

theorem declarations_judged {s t : Shared} (h : Judged s t) : declarations t = declarations s := by
  simp only [declarations, h.actors]

/-- No step renames an actor. -/
theorem Move.declarations (h : Move x y) : declarations y.state = declarations x.state := by
  cases h with
  | work _ h => exact h.declarations
  | foreign =>
    rename_i i k checkpoint _
    rcases arrive_cases x.state (.other k) i checkpoint with
      ⟨-, he⟩ | ⟨-, -, ⟨-, he⟩ | ⟨-, -, he⟩ | ⟨-, -, he⟩⟩ <;> rw [he]
    · exact declarations_fail _ _ _
    · exact (declarations_fail _ _ _).trans (declarations_setActor _ _ rfl)
    · exact declarations_setActor _ _ rfl
  | refuse => exact declarations_fail _ _ _
  | permit => exact declarations_setActor _ _ rfl
  | finish _ _ _ hj => exact declarations_judged hj
  | spawnRefused => exact declarations_fail _ _ _
  | barrierFailed _ hj => exact declarations_judged hj
  | startObserved _ h =>
    refine (declarations_judged (judged_settle _ _)).trans ?_
    cases h with
    | failed => exact declarations_fail _ _ _
    | kept => rfl
  | @advanceObserved z late _ h =>
    have hz : Sys.declarations z.state = Sys.declarations x.state := by
      cases h with
      | failed => exact declarations_fail _ _ _
      | kept => rfl
    rw [← hz, ← declarations_judged (judged_settle z.state late)]
    unfold Sys.advanceObserved
    dsimp only
    split <;> rfl
  | wokenFailed _ hj =>
    simp only [Sys.declarations, recordArrival_actors]
    exact declarations_judged hj
  | wokenAstray =>
    rw [declarations_fail]
    simp only [Sys.declarations, recordArrival_actors]
  | wokenFinished | wokenParked => simp only [Sys.declarations, recordArrival_actors]
  | joined => exact declarations_setActor _ _ rfl
  | wind h => exact h.declarations
  | _ => rfl

/-- The actors are the declared ones, in order. -/
def Named (x : Sys) : Prop :=
  x.impl.constructed = true → declarations x.state = x.impl.adapter.actors

/-- What `start` fixes. -/
structure Fixed (x y : Sys) : Prop where
  schedule : y.impl.schedule = x.impl.schedule
  adapter : y.impl.adapter = x.impl.adapter
  constructed : y.impl.constructed = x.impl.constructed
  program : y.impl.program = x.impl.program

theorem fixed_callTeardown (h : Fixed x y) : Fixed x y.callTeardown := by
  unfold callTeardown
  split
  · exact ⟨h.schedule, h.adapter, h.constructed, h.program⟩
  · exact h

theorem Scan.fixed (h : Scan x y) : Fixed x y := by
  cases h with
  | tear => exact fixed_callTeardown ⟨rfl, rfl, rfl, rfl⟩
  | _ => exact ⟨rfl, rfl, rfl, rfl⟩

theorem Move.fixed (h : Move x y) : Fixed x y := by
  cases h with
  | work _ h =>
    have hi := h.frame.2.1
    exact ⟨by rw [hi], by rw [hi], by rw [hi], by rw [hi]⟩
  | startObserved _ h | advanceObserved _ h => cases h <;> exact ⟨rfl, rfl, rfl, rfl⟩
  | wind h =>
    cases h with
    | wake _ h => exact h.fixed
    | joined _ _ h => exact ⟨h.fixed.schedule, h.fixed.adapter, h.fixed.constructed,
      h.fixed.program⟩
    | destroyTear => exact fixed_callTeardown ⟨rfl, rfl, rfl, rfl⟩
    | _ => exact ⟨rfl, rfl, rfl, rfl⟩
  | _ => exact ⟨rfl, rfl, rfl, rfl⟩

theorem Named.reach (h : (lts lib).Reach x) : Named x := by
  refine h.inv ?_ fun y c z H _ hs => ?_
  · rintro _ ⟨o, rfl⟩ hk
    have hi := initial_start lib o
    have had : (start lib o).impl.adapter = o.adapter := by rw [hi.impl]
    rcases hi.actors with ⟨-, hc⟩ | ha
    · rw [hk] at hc; cases hc
    · simp [Sys.declarations, ha, declaredActors, had, Function.comp_def]
  · have hm := move_of_step hs
    intro hk
    rw [hm.declarations, hm.fixed.adapter]
    exact H (hm.fixed.constructed ▸ hk)

/-! ## Who may run -/

/-- The actor is out on a permit, or the execution has failed or is being stopped. -/
def Away (x : Sys) (i : Nat) : Prop :=
  (∃ e, x.ctl = .permitted i e) ∨
    (x.state.failed = true ∧ (x.ctl = .returning ∨ x.ctl = .entering)) ∨ x.state.stopping = true

structure Rest (x : Sys) : Prop where
  spoken : ∀ i, (x.state.actor i).spoken
  running : ∀ i, (x.state.actor i).phase = .running → x.Away i
  one : ∀ i j, (x.state.actor i).phase = .running → (x.state.actor j).phase = .running → i = j
  behind : ∀ i, i < x.state.actors.length → x.Done i →
    (x.state.actor i).phase = .finished ∧ (x.state.actor i).joined = true
  finished : ∀ i, (x.state.actor i).phase = .finished → x.Done i ∨ x.ctl = .joining i ∨ x.Away i
  starting : ∀ i, i < x.state.actors.length → (x.state.actor i).phase = .starting →
    x.impl.initialized = false ∧ x.ctl ≠ .observer .start
  permitted : ∀ i e, x.ctl = .permitted i e → i < x.state.actors.length ∧
    x.impl.schedule.steps[x.impl.nextStep]? = some ⟨x.name i, e⟩
  joining : ∀ i, x.ctl = .joining i → i < x.state.actors.length ∧
    (x.state.actor i).phase = .finished ∧
    x.impl.schedule.steps[x.impl.nextStep]? = some (doneStep (x.name i))

theorem Initial.rest {o : Opening} (h : Initial o x) : Rest x := by
  have hph : ∀ i, (x.state.actor i).phase = .starting := fun i => by rw [h.actor]
  have hi : x.impl.initialized = false := by rw [h.impl]
  have hn : x.impl.nextStep = 0 := by rw [h.impl]
  have hctl : (∀ i e, x.ctl ≠ .permitted i e) ∧ (∀ i, x.ctl ≠ .joining i) ∧
      x.ctl ≠ .observer .start := by
    rcases h.start with ⟨hc, -⟩ | ⟨hc, -⟩ | ⟨hc, -⟩ <;> simp [hc]
  refine ⟨fun i => ?_, fun i hr => ?_, fun i j hr => ?_, fun i _ hd => ?_, fun i hr => ?_,
    fun i _ _ => ⟨hi, hctl.2.2⟩, fun i e hc => absurd hc (hctl.1 i e),
    fun i hc => absurd hc (hctl.2.1 i)⟩
  · rw [h.actor]
    change "$start" ≠ completion
    decide
  · rw [hph] at hr; cases hr
  · rw [hph] at hr; cases hr
  · simp [Done, hn] at hd
  · rw [hph] at hr; cases hr

/-- One actor changes, as a worker changes it. -/
theorem Rest.act (H : Rest x) {s : Shared} {ps : List Pc} {a : ActorState}
    (hi : i < x.state.actors.length) (hs : s.actors = x.state.actors.set i a)
    (hst : s.stopping = x.state.stopping) (hf : x.state.failed = true → s.failed = true)
    (hd : a.declaration = (x.state.actor i).declaration) (hsp : a.spoken)
    (hrun : a.phase = .running → (x.state.actor i).phase = .running)
    (hkeep : (x.state.actor i).phase = .finished →
      a.phase = .finished ∧ a.joined = (x.state.actor i).joined)
    (hfin : a.phase = .finished → (x.state.actor i).phase = .finished ∨ x.Away i)
    (hstart : a.phase = .starting → (x.state.actor i).phase = .starting) :
    Rest { x with state := s, pcs := ps } := by
  have hact : ∀ j, s.actor j = if j = i then a else x.state.actor j := fun j => by
    have := actor_setActor x.state i j a
    simp only [hi, and_true] at this
    rw [← this]
    simp [Shared.actor, setActor, hs]
  have hlen : s.actors.length = x.state.actors.length := by simp [hs]
  have hname : ∀ j, name { x with state := s, pcs := ps } j = x.name j := fun j => by
    simp only [name, hact]
    split
    · rename_i h; rw [h, hd]
    · rfl
  have hdone : ∀ j, Done { x with state := s, pcs := ps } j ↔ x.Done j := fun j => by
    unfold Done
    rw [hname]
  have haway : ∀ j, x.Away j → Away { x with state := s, pcs := ps } j := fun j h => by
    rcases h with h | ⟨h, hc⟩ | h
    · exact .inl h
    · exact .inr (.inl ⟨hf h, hc⟩)
    · exact .inr (.inr (hst.trans h))
  have hrun' : ∀ j, (s.actor j).phase = .running → (x.state.actor j).phase = .running := by
    intro j hr
    rw [hact] at hr
    split at hr
    · rename_i h; rw [h]; exact hrun hr
    · exact hr
  refine ⟨fun j => ?_, fun j hr => haway j (H.running j (hrun' j hr)),
    fun j k hj hk => H.one j k (hrun' j hj) (hrun' k hk), fun j hj hdj => ?_, fun j hr => ?_,
    fun j hj hr => ?_, fun j e hc => ?_, fun j hc => ?_⟩
  · change (s.actor j).spoken
    rw [hact]
    split
    · exact hsp
    · exact H.spoken j
  · change (s.actor j).phase = .finished ∧ (s.actor j).joined = true
    have h := H.behind j (hlen ▸ hj) ((hdone j).mp hdj)
    rw [hact]
    split
    · rename_i hji
      rw [hji] at h
      obtain ⟨h1, h2⟩ := hkeep h.1
      exact ⟨h1, h2.trans h.2⟩
    · exact h
  · change (s.actor j).phase = .finished at hr
    rw [hact] at hr
    rw [hdone]
    split at hr
    · rename_i hji
      rw [hji]
      rcases hfin hr with h | h
      · exact (H.finished i h).imp_right fun h => h.imp_right (haway i)
      · exact .inr (.inr (haway i h))
    · exact (H.finished j hr).imp_right fun h => h.imp_right (haway j)
  · change (s.actor j).phase = .starting at hr
    rw [hact] at hr
    split at hr
    · rename_i hji
      exact H.starting j (hlen ▸ hj) (by rw [hji]; exact hstart hr)
    · exact H.starting j (hlen ▸ hj) hr
  · rw [hname]
    exact ⟨hlen.symm ▸ (H.permitted j e hc).1, (H.permitted j e hc).2⟩
  · obtain ⟨h1, h2, h3⟩ := H.joining j hc
    rw [hname]
    refine ⟨hlen.symm ▸ h1, ?_, h3⟩
    change (s.actor j).phase = .finished
    rw [hact]
    split
    · rename_i hji
      rw [hji] at h2
      exact (hkeep h2).1
    · exact h2

/-- A judgement leaves the actors alone. -/
theorem Rest.judged (H : Rest x) {s : Shared} (ps : List Pc) (hj : Judged x.state s) :
    Rest { x with state := s, pcs := ps } := by
  have hact : ∀ j, s.actor j = x.state.actor j := hj.actor
  have hname : ∀ j, name { x with state := s, pcs := ps } j = x.name j := fun j => by
    simp only [name, hact]
  have hdone : ∀ j, Done { x with state := s, pcs := ps } j ↔ x.Done j := fun j => by
    unfold Done
    rw [hname]
  have haway : ∀ j, x.Away j → Away { x with state := s, pcs := ps } j := fun j h => by
    rcases h with h | ⟨h, hc⟩ | h
    · exact .inl h
    · exact .inr (.inl ⟨by rw [hj.eq_of_failed h]; exact h, hc⟩)
    · exact .inr (.inr (hj.stopping.trans h))
  refine ⟨fun j => hact j ▸ H.spoken j, fun j hr => haway j (H.running j (hact j ▸ hr)),
    fun j k h h' => H.one j k (hact j ▸ h) (hact k ▸ h'),
    fun j h hd => hact j ▸ H.behind j (hj.actors ▸ h) ((hdone j).mp hd), fun j hr => ?_,
    fun j h hr => H.starting j (hj.actors ▸ h) (hact j ▸ hr), fun j e hc => ?_, fun j hc => ?_⟩
  · rw [hdone]
    exact (H.finished j (hact j ▸ hr)).imp_right fun h => h.imp_right (haway j)
  · rw [hname]
    exact ⟨hj.actors ▸ (H.permitted j e hc).1, (H.permitted j e hc).2⟩
  · rw [hname]
    exact ⟨hj.actors ▸ (H.joining j hc).1, hact j ▸ (H.joining j hc).2.1, (H.joining j hc).2.2⟩

theorem completion_not_identifier : identifier completion = false := by decide

/-- What a worker does to its actor. -/
theorem Rest.work (HC : Core x) (H : Rest x) (hi : i < x.pcs.length) (h : Work x i y) : Rest y := by
  have hia : i < x.state.actors.length := HC.length ▸ hi
  have hph := HC.phase i
  cases h with
  | register hpc =>
    rw [hpc] at hph
    have hph : (x.state.actor i).phase = .starting := hph
    have hsp := H.spoken i
    simp only [ActorState.spoken, hph] at hsp
    exact H.act hia rfl rfl id rfl hsp nofun (fun h => by rw [hph] at h; cases h) nofun nofun
  | wake | stopped | user | asked | refused => exact H.judged _ (.refl _)
  | foreign => exact H.judged _ (judged_misused _)
  | threw => exact H.judged _ (judged_workerThrew _ _)
  | astray hpc _ _ hr =>
    refine H.act hia (judged_fail _ (by decide) _).actors (judged_fail _ (by decide) _).stopping
      (fun _ => failed_fail _ _ _) rfl ?_ (fun _ => hr) (fun h => by rw [hr] at h; cases h)
      (fun h => ?_) (fun h => ?_)
    · simp only [ActorState.spoken, hr]
    · rw [show _ = _ from h] at hr; cases hr
    · rw [show _ = _ from h] at hr; cases hr
  | park hpc _ _ hr _ hd =>
    refine H.act hia rfl rfl id rfl ?_ nofun (fun h => by rw [hr] at h; cases h) nofun nofun
    rintro rfl
    simp [declares, completion_not_identifier] at hd
  | finish hpc =>
    rw [hpc, Pc.allows_loose rfl] at hph
    refine H.act hia rfl rfl id rfl rfl nofun (fun h => ?_) (fun _ => .inr ?_) nofun
    · rw [h] at hph; simp at hph
    · rcases hph with hr | ⟨hs, -⟩
      · exact H.running i hr
      · exact .inr (.inr hs)

/-! ### The controller -/

/-- From a place where nothing is under way, the actors as they are. -/
theorem Rest.settle (H : Rest x) (hx : x.ctl.calm = true)
    (ha : y.state.actors = x.state.actors)
    (hst : x.state.stopping = true → y.state.stopping = true)
    (hs : y.impl.schedule = x.impl.schedule) (hn : y.impl.nextStep = x.impl.nextStep)
    (hy : (∀ i e, y.ctl ≠ .permitted i e) ∧ ∀ i, y.ctl ≠ .joining i)
    (hstart : ∀ i, i < x.state.actors.length → (x.state.actor i).phase = .starting →
      y.impl.initialized = false ∧ y.ctl ≠ .observer .start) : Rest y := by
  have hact : ∀ j, y.state.actor j = x.state.actor j := fun j => by simp [Shared.actor, ha]
  have hname : ∀ j, y.name j = x.name j := fun j => by simp only [name, hact]
  have hdone : ∀ j, y.Done j ↔ x.Done j := fun j => by
    unfold Done
    rw [hname, hs, hn]
  have haway : ∀ j, x.Away j → y.Away j := fun j h => by
    rcases h with ⟨e, h⟩ | ⟨-, h | h⟩ | h
    · rw [h] at hx; cases hx
    · rw [h] at hx; cases hx
    · rw [h] at hx; cases hx
    · exact .inr (.inr (hst h))
  refine ⟨fun j => hact j ▸ H.spoken j, fun j hr => haway j (H.running j (hact j ▸ hr)),
    fun j k h h' => H.one j k (hact j ▸ h) (hact k ▸ h'),
    fun j h hd => hact j ▸ H.behind j (ha ▸ h) ((hdone j).mp hd), fun j hr => ?_,
    fun j h hr => hstart j (ha ▸ h) (hact j ▸ hr), fun j e hc => absurd hc (hy.1 j e),
    fun j hc => absurd hc (hy.2 j)⟩
  rw [hdone]
  rcases H.finished j (hact j ▸ hr) with h | h | h
  · exact .inl h
  · rw [h] at hx; cases hx
  · exact .inr (.inr (haway j h))

/-- Once the workers are being stopped, an actor may be joined at any time. -/
theorem Rest.stopped (H : Rest x) (hs : y.state.stopping = true)
    (hlen : y.state.actors.length = x.state.actors.length)
    (ha : ∀ j, y.state.actor j =
      { x.state.actor j with joined := (y.state.actor j).joined } ∧
      ((x.state.actor j).joined = true → (y.state.actor j).joined = true))
    (hf : Fixed x y) (hn : y.impl.nextStep = x.impl.nextStep)
    (hi : y.impl.initialized = x.impl.initialized)
    (hy : (∀ i e, y.ctl ≠ .permitted i e) ∧ (∀ i, y.ctl ≠ .joining i) ∧ y.ctl ≠ .observer .start) :
    Rest y := by
  have hph : ∀ j, (y.state.actor j).phase = (x.state.actor j).phase := fun j => by rw [(ha j).1]
  have hname : ∀ j, y.name j = x.name j := fun j => by simp only [name]; rw [(ha j).1]
  have hdone : ∀ j, y.Done j ↔ x.Done j := fun j => by
    unfold Done
    rw [hname, hf.schedule, hn]
  refine ⟨fun j => ?_, fun _ _ => .inr (.inr hs),
    fun j k h h' => H.one j k (hph j ▸ h) (hph k ▸ h'), fun j h hd => ?_,
    fun _ _ => .inr (.inr (.inr (.inr hs))), fun j h hr => ?_, fun j e hc => absurd hc (hy.1 j e),
    fun j hc => absurd hc (hy.2.1 j)⟩
  · rw [(ha j).1]; exact H.spoken j
  · obtain ⟨h1, h2⟩ := H.behind j (hlen ▸ h) ((hdone j).mp hd)
    exact ⟨(hph j).trans h1, (ha j).2 h2⟩
  · exact ⟨hi.trans (H.starting j (hlen ▸ h) (hph j ▸ hr)).1, hy.2.2⟩

/-- The frame of `cleanup` and the destructor. -/
structure Wound (x y : Sys) : Prop where
  length : y.state.actors.length = x.state.actors.length
  actor : ∀ j, y.state.actor j = { x.state.actor j with joined := (y.state.actor j).joined } ∧
    ((x.state.actor j).joined = true → (y.state.actor j).joined = true)
  nextStep : y.impl.nextStep = x.impl.nextStep
  initialized : y.impl.initialized = x.impl.initialized
  events : y.state.report.events = x.state.report.events
  observations : y.state.report.observations = x.state.report.observations

theorem Wound.callTeardown (h : Wound x y) : Wound x y.callTeardown := by
  unfold Sys.callTeardown
  split
  · exact ⟨h.length, h.actor, h.nextStep, h.initialized, h.events, h.observations⟩
  · exact h

theorem Scan.wound (h : Scan x y) : Wound x y := by
  cases h with
  | tear => exact Wound.callTeardown ⟨rfl, fun _ => ⟨rfl, id⟩, rfl, rfl, rfl, rfl⟩
  | _ => exact ⟨rfl, fun _ => ⟨rfl, id⟩, rfl, rfl, rfl, rfl⟩

theorem Wind.wound (h : Wind x y) : Wound x y := by
  cases h with
  | wake _ h => exact h.wound
  | @joined i _ _ _ h =>
    have hw := h.wound
    refine ⟨hw.length.trans (length_setActor _ _ _), fun j => ?_, hw.nextStep, hw.initialized,
      hw.events, hw.observations⟩
    obtain ⟨h1, h2⟩ := hw.actor j
    refine ⟨?_, fun hj => h2 ?_⟩
    · rw [h1]
      change ActorState.mk _ _ _ _ _ _ = _
      rw [actor_markJoined]
    · change ((markJoined x.state i).actor j).joined = true
      rw [joined_markJoined, hj, Bool.true_or]
  | destroyTear => exact Wound.callTeardown ⟨rfl, fun _ => ⟨rfl, id⟩, rfl, rfl, rfl, rfl⟩
  | _ => exact ⟨rfl, fun _ => ⟨rfl, id⟩, rfl, rfl, rfl, rfl⟩

theorem Rest.not_starting (H : Rest x) (h : x.impl.initialized = true ∨ x.ctl = .observer .start)
    {i : Nat} (hi : i < x.state.actors.length) : (x.state.actor i).phase ≠ .starting := by
  intro hp
  obtain ⟨h1, h2⟩ := H.starting i hi hp
  rcases h with h | h
  · rw [h] at h1; cases h1
  · exact h2 h

/-- In an idle, live execution no actor runs, and those behind their `$done` step have finished. -/
theorem Rest.parked_iff (HC : Course x) (H : Rest x) (hctl : x.ctl = .idle)
    (hc : x.cannotAdvance = false) (hi : i < x.state.actors.length) :
    (x.state.actor i).phase = .parked ↔ ¬x.Done i := by
  obtain ⟨hin, hcl, -, -⟩ := cannotAdvance_false hc
  have hst := HC.live hcl (by rw [hctl]; rfl)
  have haway : ¬x.Away i := by
    rintro (⟨e, h⟩ | ⟨-, h | h⟩ | h)
    · rw [hctl] at h; cases h
    · rw [hctl] at h; cases h
    · rw [hctl] at h; cases h
    · rw [hst] at h; cases h
  constructor
  · intro hp hd
    rw [(H.behind i hi hd).1] at hp; cases hp
  · intro hd
    cases hp : (x.state.actor i).phase with
    | parked => rfl
    | starting => exact absurd hp (H.not_starting (.inl hin) hi)
    | running => exact absurd (H.running i hp) haway
    | finished =>
      rcases H.finished i hp with h | h | h
      · exact absurd h hd
      · rw [hctl] at h; cases h
      · exact absurd h haway

/-- The actor of a name. -/
theorem find_name {s : Shared} {a : String} (h : (s.actor (find s a)).phase ≠ .starting) :
    find s a < s.actors.length ∧ (s.actor (find s a)).declaration.actor = a := by
  have hlt := lt_of_phase h
  refine ⟨hlt, ?_⟩
  unfold find at hlt ⊢
  have := List.findIdx_getElem (w := hlt)
  simpa [Shared.actor, List.getD_eq_getElem?_getD, hlt] using this

theorem Rest.permit (HC : Course x) (H : Rest x) {st : Step} {late : Bool} (hctl : x.ctl = .idle)
    (hc : x.cannotAdvance = false) (hr : x.refusal st late = none) :
    Rest { x with
      state := Sys.permit x.state x.impl.nextStep (find x.state st.actor)
      ctl := .permitted (find x.state st.actor) st.checkpoint } := by
  obtain ⟨-, -, hst, hp⟩ := refusal_none hr
  obtain ⟨hi, hn⟩ := find_name (by rw [hp]; decide)
  generalize find x.state st.actor = i at hp hi hn ⊢
  have hact : ∀ j, (Sys.permit x.state x.impl.nextStep i).actor j =
      if j = i then { x.state.actor i with arrival := none, phase := .running }
      else x.state.actor j := fun j => by
    have := actor_setActor (x.state.event .permit x.impl.nextStep (x.state.actor i)
      (x.state.actor i).checkpoint) i j { x.state.actor i with arrival := none, phase := .running }
    simpa [Sys.permit, hi, event, Shared.actor] using this
  have hlen : (Sys.permit x.state x.impl.nextStep i).actors.length = x.state.actors.length := by
    simp [Sys.permit, event]
  have hname : ∀ j, ((Sys.permit x.state x.impl.nextStep i).actor j).declaration.actor =
      x.name j := fun j => by
    rw [hact]
    split
    · rename_i h; rw [h]; rfl
    · rfl
  have hnone : ∀ j, (x.state.actor j).phase ≠ .running := fun j hj => by
    have hlt := lt_of_phase (s := x.state) (i := j) (by rw [hj]; decide)
    have := H.parked_iff HC hctl hc hlt
    rw [hj] at this
    by_cases hd : x.Done j
    · rw [(H.behind j hlt hd).1] at hj; cases hj
    · have := this.mpr hd; cases this
  have hdone : ¬x.Done i := (H.parked_iff HC hctl hc hi).mp hp
  refine ⟨fun j => ?_, fun j hj => ?_, fun j k hj hk => ?_, fun j hj hd => ?_, fun j hj => ?_,
    fun j hj hs => ?_, fun j e he => ?_, by intros; contradiction⟩
  · change ActorState.spoken ((Sys.permit x.state x.impl.nextStep i).actor j)
    rw [hact]
    split
    · exact trivial
    · exact H.spoken j
  · change ((Sys.permit x.state x.impl.nextStep i).actor j).phase = .running at hj
    rw [hact] at hj
    split at hj
    · rename_i h
      rw [h]
      exact .inl ⟨_, rfl⟩
    · exact absurd hj (hnone j)
  · change ((Sys.permit x.state x.impl.nextStep i).actor j).phase = .running at hj
    change ((Sys.permit x.state x.impl.nextStep i).actor k).phase = .running at hk
    rw [hact] at hj hk
    split at hj
    · split at hk
      · rename_i h h'; rw [h, h']
      · exact absurd hk (hnone k)
    · exact absurd hj (hnone j)
  · change ((Sys.permit x.state x.impl.nextStep i).actor j).phase = .finished ∧
      ((Sys.permit x.state x.impl.nextStep i).actor j).joined = true
    have hd : x.Done j := by
      unfold Done at hd ⊢
      rw [← hname j]
      exact hd
    rw [hact]
    split
    · rename_i h; exact absurd (h ▸ hd) hdone
    · exact H.behind j (hlen ▸ hj) hd
  · change ((Sys.permit x.state x.impl.nextStep i).actor j).phase = .finished at hj
    rw [hact] at hj
    split at hj
    · cases hj
    · have hlt := lt_of_phase (s := x.state) (i := j) (by rw [hj]; decide)
      left
      unfold Done
      by_contra hd
      have hd : ¬x.Done j := by
        unfold Done
        rw [← hname j]
        exact hd
      rw [(H.parked_iff HC hctl hc hlt).mpr hd] at hj
      cases hj
  · change ((Sys.permit x.state x.impl.nextStep i).actor j).phase = .starting at hs
    rw [hact] at hs
    split at hs
    · cases hs
    · exact absurd hs (H.not_starting (.inl (cannotAdvance_false hc).1) (hlen ▸ hj))
  · cases he
    refine ⟨hlen.symm ▸ hi, ?_⟩
    have : name { x with
        state := Sys.permit x.state x.impl.nextStep i
        ctl := .permitted i st.checkpoint } i = st.actor := (hname i).trans hn
    rw [this]
    exact hst

/-! ### A step of the schedule is behind -/

theorem Named.eq_of_name (HC : Course x) (HN : Named x) (hk : x.impl.constructed = true)
    (hi : i < x.state.actors.length) (hj : j < x.state.actors.length) (h : x.name i = x.name j) :
    i = j := by
  have hn := (HC.admitted hk).names
  rw [← HN hk, Sys.declarations, List.map_map] at hn
  have hget : ∀ {k : Nat}, k < x.state.actors.length →
      (x.state.actors.map (ActorDeclaration.actor ∘ ActorState.declaration))[k]? =
        some (x.name k) := by
    intro k hk
    simp [name, Shared.actor, List.getD_eq_getElem?_getD, hk]
  have h1 := hget hi
  rw [h, ← hget hj] at h1
  exact (List.getElem?_inj (by simpa using hi) hn).mp h1

theorem mem_take_succ {α : Type} {l : List α} {n : Nat} {a b : α} (h : l[n]? = some b) :
    a ∈ l.take (n + 1) ↔ a ∈ l.take n ∨ a = b := by
  rw [List.take_add_one, h]
  simp

/-- The permitted actor parked where it should. -/
theorem Rest.parked (HC : Course x) (H : Rest x) {e : String} (hctl : x.ctl = .permitted i e)
    (hf : x.state.failed = false) (hr : (x.state.actor i).phase ≠ .running)
    (hp : (x.state.actor i).phase ≠ .finished) (he : (x.state.actor i).checkpoint = e) :
    Rest { x with
      state := recordArrival x.state x.impl.nextStep i
      impl := { x.impl with nextStep := x.impl.nextStep + 1 }
      ctl := .observer .advance } := by
  have ha : x.ctl.advancing = true := by rw [hctl]; rfl
  have hst := HC.live_advancing ha
  obtain ⟨hi, hstep⟩ := H.permitted i e hctl
  have hact : ∀ j, (recordArrival x.state x.impl.nextStep i).actor j = x.state.actor j :=
    recordArrival_actor _ _ _
  have hlen := congrArg List.length (recordArrival_actors x.state x.impl.nextStep i)
  have hec : e ≠ completion := by
    have := H.spoken i
    rw [← he]
    unfold ActorState.spoken at this
    cases hph : (x.state.actor i).phase with
    | running => exact absurd hph hr
    | finished => exact absurd hph hp
    | starting | parked => rw [hph] at this; exact this
  have hdone : ∀ j, doneStep (x.name j) ∈ x.impl.schedule.steps.take (x.impl.nextStep + 1) ↔
      x.Done j := fun j => by
    rw [mem_take_succ hstep]
    refine ⟨fun h => h.resolve_right fun h => hec ?_, .inl⟩
    exact (Step.mk.inj h).2.symm
  have haway : ∀ j, x.Away j → j = i := fun j h => by
    rcases h with ⟨e', h⟩ | ⟨h, -⟩ | h
    · rw [hctl] at h; cases h; rfl
    · rw [hf] at h; cases h
    · rw [hst] at h; cases h
  refine ⟨fun j => hact j ▸ H.spoken j, fun j hj => ?_, fun j k h h' => ?_, fun j h hd => ?_,
    fun j hj => ?_, fun j h hs => ?_, nofun, nofun⟩
  · have hj : (x.state.actor j).phase = .running := hact j ▸ hj
    rw [haway j (H.running j hj)] at hj
    exact absurd hj hr
  · exact H.one j k (hact j ▸ h) (hact k ▸ h')
  · change ((recordArrival x.state x.impl.nextStep i).actor j).phase = .finished ∧
      ((recordArrival x.state x.impl.nextStep i).actor j).joined = true
    rw [hact]
    refine H.behind j (hlen ▸ h) ((hdone j).mp ?_)
    unfold Done name at hd
    rw [hact] at hd
    exact hd
  · have hj : (x.state.actor j).phase = .finished := hact j ▸ hj
    left
    unfold Done name
    change doneStep ((recordArrival x.state x.impl.nextStep i).actor j).declaration.actor ∈ _
    rw [hact]
    refine (hdone j).mpr ?_
    rcases H.finished j hj with h | h | h
    · exact h
    · rw [hctl] at h; cases h
    · rw [haway j h] at hj
      exact absurd hj hp
  · exact absurd (hact j ▸ hs) (H.not_starting (.inl (HC.ready ha)) (hlen ▸ h))

/-- The actor whose `$done` step it was is joined. -/
theorem Rest.joined (HC : Course x) (HN : Named x) (H : Rest x) (hctl : x.ctl = .joining i) :
    Rest (x.advanceJoined i) := by
  have ha : x.ctl.advancing = true := by rw [hctl]; rfl
  have hst := HC.live_advancing ha
  obtain ⟨hi, hph, hstep⟩ := H.joining i hctl
  have hact : ∀ j, (markJoined x.state i).actor j =
      { x.state.actor j with joined := ((markJoined x.state i).actor j).joined } :=
    actor_markJoined _ _
  have hphase : ∀ j, ((markJoined x.state i).actor j).phase = (x.state.actor j).phase :=
    fun j => by rw [hact]
  have hname : ∀ j, name (x.advanceJoined i) j = x.name j := fun j => by
    change ((markJoined x.state i).actor j).declaration.actor = _
    rw [hact]
    rfl
  have hlen : (markJoined x.state i).actors.length = x.state.actors.length := length_setActor _ _ _
  have hdone : ∀ j, (x.advanceJoined i).Done j ↔ x.Done j ∨ x.name j = x.name i := fun j => by
    unfold Done
    rw [hname]
    change _ ∈ x.impl.schedule.steps.take (x.impl.nextStep + 1) ↔ _
    rw [mem_take_succ hstep]
    unfold doneStep
    simp
  have haway : ∀ j, ¬x.Away j := fun j h => by
    rcases h with ⟨e', h⟩ | ⟨-, h | h⟩ | h
    · rw [hctl] at h; cases h
    · rw [hctl] at h; cases h
    · rw [hctl] at h; cases h
    · rw [hst] at h; cases h
  refine ⟨fun j => ?_, fun j hj => ?_, fun j k h h' => ?_, fun j h hd => ?_, fun j hj => ?_,
    fun j h hs => ?_, nofun, nofun⟩
  · change ((markJoined x.state i).actor j).spoken
    rw [hact]
    exact H.spoken j
  · exact absurd (H.running j (hphase j ▸ hj)) (haway j)
  · exact H.one j k (hphase j ▸ h) (hphase k ▸ h')
  · change ((markJoined x.state i).actor j).phase = .finished ∧
      ((markJoined x.state i).actor j).joined = true
    have hj : j < x.state.actors.length := hlen ▸ h
    rw [hphase, joined_markJoined]
    rcases (hdone j).mp hd with hd | hd
    · obtain ⟨h1, h2⟩ := H.behind j hj hd
      exact ⟨h1, by rw [h2, Bool.true_or]⟩
    · have hji := HN.eq_of_name HC (HC.built (HC.ready ha)) hj hi hd
      rw [hji]
      exact ⟨hph, by simp [hi]⟩
  · have hj : (x.state.actor j).phase = .finished := hphase j ▸ hj
    left
    rw [hdone]
    rcases H.finished j hj with h | h | h
    · exact .inl h
    · rw [hctl] at h; cases h; exact .inr rfl
    · exact absurd h (haway j)
  · exact absurd (hphase j ▸ hs) (H.not_starting (.inl (HC.ready ha)) (hlen ▸ h))

/-! ### Every step -/

/-- The end of `advance` behind a failure. -/
theorem Rest.returning (H : Rest x) {s : Shared} (ha : s.actors = x.state.actors)
    (hf : s.failed = true) : Rest { x with state := s, ctl := .returning } := by
  have hact : ∀ j, s.actor j = x.state.actor j := fun j => by
    unfold Shared.actor
    rw [ha]
  have hdone : ∀ j, Done { x with state := s, ctl := .returning } j ↔ x.Done j := fun j => by
    unfold Done name
    change doneStep (s.actor j).declaration.actor ∈ _ ↔ _
    rw [hact]
  refine ⟨fun j => hact j ▸ H.spoken j, fun j _ => .inr (.inl ⟨hf, .inl rfl⟩),
    fun j k h h' => H.one j k (hact j ▸ h) (hact k ▸ h'),
    fun j h hd => hact j ▸ H.behind j (ha ▸ h) ((hdone j).mp hd),
    fun j _ => .inr (.inr (.inr (.inl ⟨hf, .inl rfl⟩))), fun j h hs => ?_, nofun, nofun⟩
  exact ⟨(H.starting j (ha ▸ h) (hact j ▸ hs)).1, nofun⟩

theorem Rest.finishedWake (HC : Course x) (H : Rest x) {e : String} {n : Nat}
    (hctl : x.ctl = .permitted i e) (hf : x.state.failed = false)
    (hp : (x.state.actor i).phase = .finished) (he : (x.state.actor i).checkpoint = e) :
    Rest { x with state := recordArrival x.state n i, ctl := .joining i } := by
  have ha : x.ctl.advancing = true := by rw [hctl]; rfl
  obtain ⟨hi, hstep⟩ := H.permitted i e hctl
  have hact : ∀ j, (recordArrival x.state n i).actor j = x.state.actor j :=
    recordArrival_actor _ _ _
  have hlen : (recordArrival x.state n i).actors.length = x.state.actors.length := by
    rw [recordArrival_actors]
  have hname : ∀ j, name { x with state := recordArrival x.state n i, ctl := .joining i } j =
      x.name j := fun j => by
    unfold name
    change ((recordArrival x.state n i).actor j).declaration.actor = _
    rw [hact]
  have hdone : ∀ j, Done { x with state := recordArrival x.state n i, ctl := .joining i } j ↔
      x.Done j := fun j => by unfold Done; rw [hname]
  have haway : ∀ j, x.Away j → j = i := fun j h => by
    rcases h with ⟨e', h⟩ | ⟨h, -⟩ | h
    · rw [hctl] at h; cases h; rfl
    · rw [hf] at h; cases h
    · rw [HC.live_advancing ha] at h; cases h
  refine ⟨fun j => hact j ▸ H.spoken j, fun j hr => ?_,
    fun j k h h' => H.one j k (hact j ▸ h) (hact k ▸ h'),
    fun j h hd => hact j ▸ H.behind j (hlen ▸ h) ((hdone j).mp hd), fun j hr => ?_,
    fun j h hs => ?_, nofun, fun j hc => ?_⟩
  · have hr : (x.state.actor j).phase = .running := hact j ▸ hr
    rw [haway j (H.running j hr), hp] at hr
    cases hr
  · rw [hdone]
    rcases H.finished j (hact j ▸ hr) with h | h | h
    · exact .inl h
    · rw [hctl] at h; cases h
    · rw [haway j h]
      exact .inr (.inl rfl)
  · exact absurd (hact j ▸ hs) (H.not_starting (.inl (HC.ready ha)) (hlen ▸ h))
  · cases hc
    have hsp := H.spoken i
    simp only [ActorState.spoken, hp] at hsp
    rw [hname]
    refine ⟨hlen ▸ hi, hact i ▸ hp, ?_⟩
    rw [hstep, ← he, hsp]
    rfl

theorem Rest.leave (HC : Course x) (H : Rest x) (hctl : x.ctl = .returning) :
    Rest { x with ctl := if x.state.failed then .entering else .idle } := by
  have ha : x.ctl.advancing = true := by rw [hctl]; rfl
  have hst := HC.live_advancing ha
  have haway : ∀ j, x.Away j → Away { x with
      ctl := if x.state.failed then .entering else .idle } j := fun j h => by
    rcases h with ⟨e', h⟩ | ⟨h, -⟩ | h
    · rw [hctl] at h; cases h
    · exact .inr (.inl ⟨h, .inr (by simp [h])⟩)
    · rw [hst] at h; cases h
  refine ⟨H.spoken, fun j hr => haway j (H.running j hr), H.one, H.behind, fun j hr => ?_,
    fun j hj hs => absurd hs (H.not_starting (.inl (HC.ready ha)) hj), fun j e hc => ?_,
    fun j hc => ?_⟩
  · rcases H.finished j hr with h | h | h
    · exact .inl h
    · rw [hctl] at h; cases h
    · exact .inr (.inr (haway j h))
  · dsimp only at hc
    split at hc <;> cases hc
  · dsimp only at hc
    split at hc <;> cases hc

theorem Rest.startObserved (H : Rest x) (hctl : x.ctl = .observer .start) (h : Retained x y)
    (late : Bool) : Rest (y.startObserved late) := by
  have ha : y.state.actors = x.state.actors := by
    cases h with
    | failed => exact (judged_fail _ (by decide) _).actors
    | kept => rfl
  obtain ⟨hs, -⟩ := h.steady
  have hj := judged_settle y.state late
  refine H.settle (by rw [hctl]; rfl) (hj.actors.trans ha)
    (fun h => hj.stopping.trans (hs.stopping.trans h)) hs.schedule ?_ ?_ ?_
  · cases h <;> rfl
  · dsimp only [Sys.startObserved]
    split <;> exact ⟨nofun, nofun⟩
  · exact fun i hi hp => absurd hp (H.not_starting (.inr hctl) hi)

theorem Rest.advanceObserved (HC : Course x) (H : Rest x) (hctl : x.ctl = .observer .advance)
    (h : Retained x y) (late : Bool) : Rest (y.advanceObserved late) := by
  have ha : y.state.actors = x.state.actors := by
    cases h with
    | failed => exact (judged_fail _ (by decide) _).actors
    | kept => rfl
  obtain ⟨hs, -⟩ := h.steady
  have hj := judged_settle y.state late
  have hfr : (y.advanceObserved late).state.actors = (y.state.settle late).actors ∧
      (y.advanceObserved late).state.stopping = (y.state.settle late).stopping := by
    unfold Sys.advanceObserved
    dsimp only
    split <;> exact ⟨rfl, rfl⟩
  refine H.settle (by rw [hctl]; rfl) (hfr.1.trans (hj.actors.trans ha))
    (fun h => hfr.2.trans (hj.stopping.trans (hs.stopping.trans h))) hs.schedule ?_
      ⟨nofun, nofun⟩ ?_
  · cases h <;> rfl
  · exact fun i hi hp => absurd hp
      (H.not_starting (.inl (HC.ready (by rw [hctl]; rfl))) hi)

theorem Rest.step (HC : Course x) (HK : Core x) (HN : Named x) (HH : Halted x) (H : Rest x)
    (h : Move x y) : Rest y := by
  cases h with
  | work hi h => exact H.work HK hi h
  | cancel =>
    exact ⟨H.spoken, H.running, H.one, H.behind, H.finished, H.starting, H.permitted, H.joining⟩
  | @foreign i k checkpoint =>
    rw [HK.misused]
    exact H.judged _ (judged_misused _)
  | stay => exact H
  | refuse hctl hc ho =>
    exact H.settle (by rw [hctl]; rfl) (judged_fail _ ho _).actors
      (judged_fail _ ho _).stopping.trans rfl rfl ⟨nofun, nofun⟩
      fun i hi hp => absurd hp (H.not_starting (.inl (cannotAdvance_false hc).1) hi)
  | permit hctl hc hr => exact H.permit HC hctl hc hr
  | finish hctl hcl hk hj =>
    exact H.settle (by rw [hctl]; rfl) hj.actors hj.stopping.trans rfl rfl ⟨nofun, nofun⟩
      fun i hi hp => absurd hp (H.not_starting (.inl (HC.waiting hctl hcl hk)) hi)
  | badBudget hctl hb =>
    have := (HC.admitted (HC.unclosed (.inr (.inr hctl))).2).budget
    rw [hb] at this; cases this
  | close hctl hk =>
    rcases hctl with hctl | hctl
    · exact H.settle (by rw [hctl]; rfl) rfl id rfl rfl ⟨nofun, nofun⟩
        fun i hi hp => ⟨(H.starting i hi hp).1, nofun⟩
    · rw [(HC.unclosed (.inr (.inr hctl))).2] at hk; cases hk
  | clean =>
    exact H.stopped rfl rfl (fun _ => ⟨rfl, id⟩) ⟨rfl, rfl, rfl, rfl⟩ rfl rfl ⟨nofun, nofun, nofun⟩
  | destroy =>
    exact H.stopped rfl rfl (fun _ => ⟨rfl, id⟩) ⟨rfl, rfl, rfl, rfl⟩ rfl rfl ⟨nofun, nofun, nofun⟩
  | spawn hctl =>
    refine H.settle (by rw [hctl]; rfl) rfl id rfl rfl ?_ fun i hi hp =>
      ⟨(H.starting i hi hp).1, ?_⟩
    · dsimp only [Sys.spawn]
      split <;> exact ⟨nofun, nofun⟩
    · dsimp only [Sys.spawn]
      split <;> exact nofun
  | spawnRefused hctl =>
    exact H.settle (by rw [hctl]; rfl) (judged_fail _ (by decide) _).actors
      (judged_fail _ (by decide) _).stopping.trans rfl rfl ⟨nofun, nofun⟩
      fun i hi hp => ⟨(H.starting i hi hp).1, nofun⟩
  | barrierFailed hctl hj =>
    exact H.settle (by rw [hctl]; rfl) hj.actors hj.stopping.trans rfl rfl ⟨nofun, nofun⟩
      fun i hi hp => ⟨(H.starting i hi hp).1, nofun⟩
  | barrier hctl hf hp =>
    refine H.settle (by rw [hctl]; rfl) rfl id rfl rfl ⟨nofun, nofun⟩ fun i hi hs => ?_
    have := all_actors hp hi
    rw [hs] at this; cases this
  | startObserved hctl h => exact H.startObserved hctl h _
  | advanceObserved hctl h => exact H.advanceObserved HC hctl h _
  | wokenFailed _ hj hf =>
    exact H.returning ((recordArrival_actors _ _ _).trans hj.actors)
      ((recordArrival_failed _ _ _).trans hf)
  | wokenAstray =>
    exact H.returning ((judged_fail _ (by decide) _).actors.trans (recordArrival_actors _ _ _))
      (failed_fail _ _ _)
  | wokenFinished hctl hf hp he => exact H.finishedWake HC hctl hf hp he
  | wokenParked hctl hf hr hp he => exact H.parked HC hctl hf hr hp he
  | joined hctl => exact H.joined HC HN hctl
  | leave hctl => exact H.leave HC hctl
  | wind h =>
    have hw := h.wound
    obtain ⟨hs, hy⟩ := h.steady
    have hst : y.state.stopping = true :=
      hs.stopping.trans (HH (hy.imp (fun h => h.1) fun h => h.1))
    refine H.stopped hst hw.length hw.actor (Move.wind h).fixed hw.nextStep hw.initialized ?_
    rcases hy with ⟨-, hy | hy⟩ | ⟨-, hy⟩
    all_goals refine ⟨fun i e he => ?_, fun i he => ?_, fun he => ?_⟩ <;> rw [he] at hy <;> cases hy

theorem Rest.reach (h : (lts lib).Reach x) : Rest x := by
  refine h.inv_of (Q := fun x => Course x ∧ Core x ∧ Named x ∧ Halted x)
    (fun _ h => ⟨.reach h, .reach h, .reach h, .reach h⟩) ?_ ?_
  · rintro _ ⟨o, rfl⟩
    exact (initial_start lib o).rest
  · rintro x c y ⟨HC, HK, HN, HH⟩ H - hs
    exact H.step HC HK HN HH (move_of_step hs)

/-- **Quiescence.** At most one actor runs; the observer runs while every actor is parked or
finished and joined; and whenever `advance` may take a step, an actor is parked exactly when its
`$done` step is not behind, so no step of the admitted schedule finds it elsewhere. -/
theorem quiescence (h : (lts lib).Reach x) :
    (∀ i j, (x.state.actor i).phase = .running → (x.state.actor j).phase = .running → i = j) ∧
    (∀ k, x.ctl = .observer k → ∀ i, i < x.state.actors.length →
      (x.state.actor i).phase = .parked ∨
        (x.state.actor i).phase = .finished ∧ (x.state.actor i).joined = true ∧ x.pc i = .closed) ∧
    (x.ctl = .idle → x.cannotAdvance = false → ∀ i, i < x.state.actors.length →
      ((x.state.actor i).phase = .parked ↔
        doneStep (x.name i) ∉ x.impl.schedule.steps.take x.impl.nextStep)) ∧
    (x.ctl = .idle → x.cannotAdvance = false → ∀ st late,
      x.refusal st late ≠ some (.unexpectedCheckpoint, "selected actor is not parked")) := by
  have HC := Course.reach h
  have HK := Core.reach h
  have HN := Named.reach h
  have H := Rest.reach h
  refine ⟨H.one, fun k hctl i hi => ?_, fun hctl hc i hi => H.parked_iff HC hctl hc hi,
    fun hctl hc st late hr => ?_⟩
  · have hcl : x.impl.closed = false := by
      cases k with
      | start => exact (HC.unclosed (.inl (by rw [hctl]; rfl))).1
      | advance => exact (HC.unclosed (.inr (.inl (by rw [hctl]; rfl)))).1
    have hst := HC.live hcl (by rw [hctl]; rfl)
    have haway : ¬x.Away i := by
      rintro (⟨e, h⟩ | ⟨-, h | h⟩ | h)
      · rw [hctl] at h; cases h
      · rw [hctl] at h; cases h
      · rw [hctl] at h; cases h
      · rw [hst] at h; cases h
    cases hp : (x.state.actor i).phase with
    | parked => exact .inl rfl
    | starting =>
      refine absurd hp (H.not_starting ?_ hi)
      cases k with
      | start => exact .inr hctl
      | advance => exact .inl (HC.ready (by rw [hctl]; rfl))
    | running => exact absurd (H.running i hp) haway
    | finished =>
      rcases H.finished i hp with hd | hd | hd
      · have hj := (H.behind i hi hd).2
        exact .inr ⟨rfl, hj, (HK.marked i hj).1⟩
      · rw [hctl] at hd; cases hd
      · exact absurd hd haway
  · -- the step asked for is one of a declared actor, and none follows its `$done` step
    have hk := HC.built (cannotAdvance_false hc).1
    have hA := HC.admitted hk
    unfold refusal at hr
    split at hr
    · cases hr
    split at hr
    · cases hr
    split at hr
    · cases hr
    rename_i hst
    simp only [ne_eq, not_not] at hst
    split at hr
    · rename_i hp
      refine hp ?_
      have hmem := hA.declared st (List.mem_of_getElem? hst)
      rw [← HN hk, Sys.declarations, List.map_map] at hmem
      obtain ⟨a, ha, hn⟩ := List.mem_map.mp hmem
      have hlt : find x.state st.actor < x.state.actors.length :=
        List.findIdx_lt_length_of_exists ⟨a, ha, by simpa using hn⟩
      have hname : x.name (find x.state st.actor) = st.actor := by
        unfold find at hlt
        have := List.findIdx_getElem (w := hlt)
        simpa [name, find, Shared.actor, List.getD_eq_getElem?_getD, hlt] using this
      rw [H.parked_iff HC hctl hc hlt]
      unfold Done
      rw [hname]
      exact hA.ended _ _ hst
    · cases hr

end Sys

/-! ## A schedule of two actors -/

namespace Sys

/-- An admitted schedule starts the execution. -/
theorem start_of_admission {lib : JsonScan} {o : Opening}
    (h : admission lib o.schedule o.adapter o.policy o.reentrant = .ok ()) :
    start lib o =
      admitted o { report := { generation := o.generation, executionId := o.executionId } }
        { schedule := o.schedule, policy := o.policy, adapter := o.adapter } := by
  unfold start
  rw [h]

/-- The execution of the sample before its first thread. -/
def sampleStart : Sys :=
  admitted sampleOpening
    { report := { generation := sampleOpening.generation, executionId :=
      sampleOpening.executionId } }
    { schedule := sampleOpening.schedule, policy := sampleOpening.policy,
      adapter := sampleOpening.adapter }

theorem start_sample : start sampleLib sampleOpening = sampleStart :=
  start_of_admission admission_sample

/-- Both workers park and the observer reports nothing. -/
def openingSteps : List Choice :=
  [.spawn none, .spawn none, .register 1, .register 0, .barrier false, .observed (.ok .null) false]

/-- `a` goes to its checkpoint. -/
def firstSteps : List Choice :=
  [.advance ⟨"a", "c"⟩ false, .wake 0, .user 0 (.arrive "c"), .arrive 0, .permitted false]

def sampleRun (cs : List Choice) : Option Sys :=
  (lts sampleLib).exec (fun _ _ => true) cs sampleStart

theorem sampleRun_reach {cs : List Choice} {x : Sys} (h : sampleRun cs = some x) :
    (lts sampleLib).Reach x :=
  .exec (fun _ _ _ => trivial) (.init ⟨sampleOpening, start_sample.symm⟩) h

theorem quiescence_sample : ∃ x : Sys, x.ctl = .observer .advance ∧ x.impl.nextStep = 1 ∧
    x.state.actors.length = 2 ∧ ∀ i, i < x.state.actors.length →
      (x.state.actor i).phase = .parked ∨
        (x.state.actor i).phase = .finished ∧ (x.state.actor i).joined = true ∧
          x.pc i = .closed := by
  have h : (sampleRun (openingSteps ++ firstSteps)).map
      (fun x => (x.ctl, x.impl.nextStep, x.state.actors.length)) =
        some (.observer .advance, 1, 2) := by
    decide +kernel
  obtain ⟨x, hx, he⟩ := Option.map_eq_some_iff.mp h
  simp only [Prod.mk.injEq] at he
  exact ⟨x, he.1, he.2.1, he.2.2, (quiescence (sampleRun_reach hx)).2.1 _ he.1⟩

end Sys

end MirrorCpp.Schedule
