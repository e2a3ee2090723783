import MirrorCpp.Schedule.Admission

/-!
# The course of an execution

Where the controller may stand: which of its places belong to `start`, to `advance`, to `cleanup`
and to the destructor, and what is closed, built and stopped there.
-/

namespace MirrorCpp.Schedule

/-- In `start`, behind the factory. -/
def Ctl.opening : Ctl → Bool
  | .spawning | .barrier | .observer .start => true
  | _ => false

def Ctl.advancing : Ctl → Bool
  | .permitted _ _ | .joining _ | .observer .advance | .returning => true
  | _ => false

/-- In `cleanup`, behind its first section. -/
def Ctl.ending : Ctl → Bool
  | .cleaning | .cleanupJoin _ | .tearing => true
  | _ => false

/-- In the destructor, or behind it. -/
def Ctl.gone : Ctl → Bool
  | .destroying | .destroyTearing | .destroyed => true
  | _ => false

theorem Ctl.advancing_only : ∀ {c : Ctl}, c.advancing = true →
    c.opening = false ∧ c.ending = false ∧ c.gone = false ∧ c ≠ .idle ∧ c ≠ .entering
  | .observer .advance, _ => by simp [Ctl.opening, Ctl.ending, Ctl.gone]
  | .permitted _ _, _ | .joining _, _ | .returning, _ => by
    simp [Ctl.opening, Ctl.ending, Ctl.gone]

namespace Sys

open Shared

variable {x y : Sys} {lib : JsonScan} {i j : Nat}

structure Course (x : Sys) : Prop where
  stopping : x.state.stopping = true → x.impl.closed = true ∨ x.ctl.gone = true
  unclosed : x.ctl.opening = true ∨ x.ctl.advancing = true ∨ x.ctl = .entering →
    x.impl.closed = false ∧ x.impl.constructed = true
  ending : x.ctl.ending = true → x.impl.closed = true ∧ x.impl.constructed = true
  opening : x.ctl.opening = true → x.impl.initialized = false
  ready : x.ctl.advancing = true → x.impl.initialized = true
  waiting : x.ctl = .idle → x.impl.closed = false → x.impl.constructed = true →
    x.impl.initialized = true
  past : x.ctl = .entering → x.state.failed = true ∨ x.state.report.scheduleCompleted = true
  built : x.impl.initialized = true → x.impl.constructed = true
  admitted : x.impl.constructed = true →
    Admitted x.impl.schedule x.impl.adapter x.impl.policy

theorem Initial.course {o : Opening} (h : Initial o x) : Course x := by
  have hc : x.impl.closed = false := by rw [h.impl]
  have hi : x.impl.initialized = false := by rw [h.impl]
  have ha : x.impl.schedule = o.schedule ∧ x.impl.adapter = o.adapter ∧
    x.impl.policy = o.policy := by rw [h.impl]; exact ⟨rfl, rfl, rfl⟩
  have hs := h.stopping
  rcases h.start with ⟨hctl, hf, hk⟩ | ⟨hctl, hf, hk, hA⟩ | ⟨hctl, -, -, hk, -, -, hA⟩
  · constructor <;> simp [hctl, hk, hc, hi, hs, Ctl.opening, Ctl.advancing, Ctl.ending]
  · constructor <;>
      simp [hctl, hk, hc, hi, hs, hf, ha.1, ha.2.1, ha.2.2, hA, Ctl.opening, Ctl.advancing,
        Ctl.ending]
  · constructor <;>
      simp [hctl, hk, hc, hi, hs, ha.1, ha.2.1, ha.2.2, hA, Ctl.opening, Ctl.advancing,
        Ctl.ending]

/-- A failure changes nothing here. -/
theorem Course.judged (H : Course x) {s : Shared} (hj : Judged x.state s) :
    Course { x with state := s } where
  stopping h := H.stopping (hj.stopping ▸ h)
  unclosed := H.unclosed
  ending := H.ending
  opening := H.opening
  ready := H.ready
  waiting := H.waiting
  past h := by
    rcases H.past h with h | h
    · exact .inl (by rw [hj.eq_of_failed h]; exact h)
    · exact .inr (hj.scheduleCompleted.trans h)
  built := H.built
  admitted := H.admitted

/-- What `Course` speaks about, but for the place of the controller and a failure. -/
structure Steady (x y : Sys) : Prop where
  stopping : y.state.stopping = x.state.stopping
  failed : x.state.failed = true → y.state.failed = true
  completed : y.state.report.scheduleCompleted = x.state.report.scheduleCompleted
  closed : y.impl.closed = x.impl.closed
  constructed : y.impl.constructed = x.impl.constructed
  initialized : y.impl.initialized = x.impl.initialized
  schedule : y.impl.schedule = x.impl.schedule
  adapter : y.impl.adapter = x.impl.adapter
  policy : y.impl.policy = x.impl.policy

theorem Steady.trans {z : Sys} (h : Steady x y) (h' : Steady y z) : Steady x z where
  stopping := h'.stopping.trans h.stopping
  failed hf := h'.failed (h.failed hf)
  completed := h'.completed.trans h.completed
  closed := h'.closed.trans h.closed
  constructed := h'.constructed.trans h.constructed
  initialized := h'.initialized.trans h.initialized
  schedule := h'.schedule.trans h.schedule
  adapter := h'.adapter.trans h.adapter
  policy := h'.policy.trans h.policy

theorem steady_judged {s : Shared} (hj : Judged x.state s) (c : Ctl) :
    Steady x { x with state := s, ctl := c } where
  stopping := hj.stopping
  failed hf := by rw [hj.eq_of_failed hf]; exact hf
  completed := hj.scheduleCompleted
  closed := rfl
  constructed := rfl
  initialized := rfl
  schedule := rfl
  adapter := rfl
  policy := rfl

/-- A step that stays in its place, or goes to one that asks for less. -/
theorem Course.steady (H : Course x) (h : Steady x y)
    (hctl : y.ctl = x.ctl ∨ (y.ctl.opening = true → x.ctl.opening = true) ∧
      (y.ctl.advancing = true → x.ctl.advancing = true) ∧ y.ctl ≠ .entering ∧
      (y.ctl = .idle → y.impl.closed = false → y.impl.constructed = true →
        y.impl.initialized = true) ∧
      (y.ctl.ending = true → x.ctl.ending = true) ∧ (x.ctl.gone = true → y.ctl.gone = true)) :
    Course y where
  stopping hs := by
    rw [h.closed]
    rcases H.stopping (h.stopping ▸ hs) with hc | hg
    · exact .inl hc
    · rcases hctl with hctl | ⟨-, -, -, -, -, hctl⟩
      · exact .inr (hctl ▸ hg)
      · exact .inr (hctl hg)
  unclosed hc := by
    rw [h.closed, h.constructed]
    rcases hctl with hctl | ⟨ho, ha, he, -⟩
    · exact H.unclosed (hctl ▸ hc)
    · rcases hc with hc | hc | hc
      · exact H.unclosed (.inl (ho hc))
      · exact H.unclosed (.inr (.inl (ha hc)))
      · exact absurd hc he
  ending hc := by
    rw [h.closed, h.constructed]
    rcases hctl with hctl | ⟨-, -, -, -, he, -⟩
    · exact H.ending (hctl ▸ hc)
    · exact H.ending (he hc)
  opening hc := by
    rw [h.initialized]
    rcases hctl with hctl | ⟨ho, -⟩
    · exact H.opening (hctl ▸ hc)
    · exact H.opening (ho hc)
  ready hc := by
    rw [h.initialized]
    rcases hctl with hctl | ⟨-, ha, -⟩
    · exact H.ready (hctl ▸ hc)
    · exact H.ready (ha hc)
  waiting hi hc hk := by
    rcases hctl with hctl | ⟨-, -, -, hw, -⟩
    · rw [h.initialized]
      exact H.waiting (hctl ▸ hi) (h.closed ▸ hc) (h.constructed ▸ hk)
    · exact hw hi hc hk
  past he := by
    rcases hctl with hctl | ⟨-, -, hn, -⟩
    · rcases H.past (hctl ▸ he) with hf | hf
      · exact .inl (h.failed hf)
      · exact .inr (h.completed.trans hf)
    · exact absurd he hn
  built hi := by
    rw [h.constructed]
    exact H.built (h.initialized ▸ hi)
  admitted hk := by
    rw [h.schedule, h.adapter, h.policy]
    exact H.admitted (h.constructed ▸ hk)

theorem judged_setActor {s t : Shared} {a : ActorState} (h : Judged (s.setActor i a) t) :
    Judged s { t with actors := s.actors } where
  actors := rfl
  stopping := h.stopping
  cancelled := h.cancelled
  checkpoints := h.checkpoints
  report := h.report
  first := by
    rcases h.first with rfl | h'
    · exact .inl rfl
    · exact .inr h'

theorem judged_actors {s t : Shared} (h : Judged s t) : Judged s { t with actors := s.actors } := by
  have ht : { t with actors := s.actors } = t := by rw [← h.actors]
  rw [ht]; exact h

theorem judged_arrive (s : Shared) (self : ThreadId) (i : Nat) (checkpoint : String) :
    Judged s { (s.arrive self i checkpoint).2 with actors := s.actors } := by
  rcases arrive_cases s self i checkpoint with
    ⟨-, he⟩ | ⟨-, -, ⟨-, he⟩ | ⟨-, -, he⟩ | ⟨-, -, he⟩⟩ <;> rw [he]
  · exact judged_actors (judged_misused s)
  · exact judged_actors (.refl s)
  · exact judged_setActor (judged_fail _ (by decide) _)
  · exact judged_setActor (.refl _)

/-- A worker's section is a judgement but for its actor. -/
theorem Work.judged (h : Work x i y) :
    ∃ s ps, y = { x with state := s, pcs := ps } ∧
      Judged x.state { s with actors := x.state.actors } := by
  cases h with
  | register => exact ⟨_, _, rfl, judged_setActor (.refl _)⟩
  | wake | stopped | user | asked | refused => exact ⟨_, _, rfl, .refl _⟩
  | foreign => exact ⟨_, _, rfl, judged_actors (judged_misused _)⟩
  | astray => exact ⟨_, _, rfl, judged_setActor (judged_fail _ (by decide) _)⟩
  | park => exact ⟨_, _, rfl, judged_setActor (.refl _)⟩
  | threw => exact ⟨_, _, rfl, judged_actors (judged_workerThrew _ _)⟩
  | finish => exact ⟨_, _, rfl, judged_setActor (.refl _)⟩

/-- The actors do not matter here. -/
theorem steady_of_judged {s : Shared} (ps : List Pc)
    (hj : Judged x.state { s with actors := x.state.actors }) (c : Ctl) :
    Steady x { x with state := s, pcs := ps, ctl := c } where
  stopping := hj.stopping
  failed hf := (congrArg Shared.failed (hj.eq_of_failed hf)).trans hf
  completed := hj.scheduleCompleted
  closed := rfl
  constructed := rfl
  initialized := rfl
  schedule := rfl
  adapter := rfl
  policy := rfl

/-! ### `cleanup` and the destructor -/

theorem Steady.callTeardown (h : Steady x y) : Steady x y.callTeardown := by
  unfold Sys.callTeardown
  split
  · exact h.trans ⟨rfl, id, rfl, rfl, rfl, rfl, rfl, rfl, rfl⟩
  · exact h

@[simp] theorem ctl_callTeardown (x : Sys) : x.callTeardown.ctl = x.ctl := by
  unfold callTeardown
  split <;> rfl

theorem Scan.steady (h : Scan x y) : Steady x y ∧ (y.ctl.ending = true ∨ y.ctl = .idle) := by
  cases h with
  | join => exact ⟨⟨rfl, id, rfl, rfl, rfl, rfl, rfl, rfl, rfl⟩, .inl rfl⟩
  | tear =>
    refine ⟨Steady.callTeardown ⟨rfl, id, rfl, rfl, rfl, rfl, rfl, rfl, rfl⟩, .inl ?_⟩
    rw [ctl_callTeardown]; rfl
  | rest => exact ⟨⟨rfl, id, rfl, rfl, rfl, rfl, rfl, rfl, rfl⟩, .inr rfl⟩

/-- These sections stay in `cleanup`, leave it, or stay in the destructor. -/
theorem Wind.steady (h : Wind x y) : Steady x y ∧
    (x.ctl.ending = true ∧ (y.ctl.ending = true ∨ y.ctl = .idle) ∨
      x.ctl.gone = true ∧ y.ctl.gone = true) := by
  cases h with
  | wake hctl h =>
    obtain ⟨hs, hc⟩ := h.steady
    exact ⟨hs, .inl ⟨by rw [hctl]; rfl, hc⟩⟩
  | @joined i _ hctl _ h =>
    obtain ⟨hs, hc⟩ := h.steady
    have hj : Steady x { x.joined i with state := markJoined x.state i } :=
      ⟨rfl, id, rfl, rfl, rfl, rfl, rfl, rfl, rfl⟩
    exact ⟨hj.trans hs, .inl ⟨by rw [hctl]; rfl, hc⟩⟩
  | torn hctl =>
    exact ⟨⟨rfl, id, rfl, rfl, rfl, rfl, rfl, rfl, rfl⟩, .inl ⟨by rw [hctl]; rfl, .inr rfl⟩⟩
  | destroyJoin hctl =>
    have hg : x.ctl.gone = true := by rw [hctl]; rfl
    exact ⟨⟨rfl, id, rfl, rfl, rfl, rfl, rfl, rfl, rfl⟩, .inr ⟨hg, hg⟩⟩
  | destroyTear hctl =>
    refine ⟨Steady.callTeardown ⟨rfl, id, rfl, rfl, rfl, rfl, rfl, rfl, rfl⟩,
      .inr ⟨by rw [hctl]; rfl, ?_⟩⟩
    rw [ctl_callTeardown]; rfl
  | destroyEnd hctl | destroyTorn hctl =>
    exact ⟨⟨rfl, id, rfl, rfl, rfl, rfl, rfl, rfl, rfl⟩, .inr ⟨by rw [hctl]; rfl, rfl⟩⟩

theorem Course.wind (H : Course x) (h : Wind x y) : Course y := by
  obtain ⟨hs, ⟨he, hy⟩ | ⟨hg, hy⟩⟩ := h.steady
  · obtain ⟨hc, hk⟩ := H.ending he
    refine H.steady hs (.inr ?_)
    have hclosed : y.impl.closed = true := hs.closed.trans hc
    generalize y.ctl = c at hy
    generalize x.ctl = d at he
    rcases hy with hy | rfl
    · cases c <;> cases hy <;> cases d <;> cases he <;>
        simp [Ctl.opening, Ctl.advancing, Ctl.ending, Ctl.gone]
    · cases d <;> cases he <;>
        simp [Ctl.opening, Ctl.advancing, Ctl.ending, Ctl.gone, hclosed]
  · refine H.steady hs (.inr ?_)
    generalize y.ctl = c at hy
    generalize x.ctl = d at hg
    cases c <;> cases hy <;> cases d <;> cases hg <;>
      simp [Ctl.opening, Ctl.advancing, Ctl.ending, Ctl.gone]

/-! ### Every step -/

theorem Retained.steady (h : Retained x y) : Steady x y ∧ y.ctl = x.ctl := by
  cases h with
  | failed => exact ⟨steady_judged (judged_fail _ (by decide) _) x.ctl, rfl⟩
  | kept => exact ⟨⟨rfl, id, rfl, rfl, rfl, rfl, rfl, rfl, rfl⟩, rfl⟩

theorem judged_recordArrival {s t : Shared} (h : Judged s t) (n i : Nat) :
    (recordArrival t n i).stopping = s.stopping ∧
      (s.failed = true → (recordArrival t n i).failed = true) ∧
      (recordArrival t n i).report.scheduleCompleted = s.report.scheduleCompleted := by
  refine ⟨by rw [recordArrival_stopping, h.stopping], fun hf => ?_, ?_⟩
  · rw [recordArrival_failed, h.eq_of_failed hf]; exact hf
  · rw [← h.scheduleCompleted]
    unfold recordArrival
    dsimp only
    split <;> rfl

theorem cannotAdvance_false (h : x.cannotAdvance = false) : x.impl.initialized = true ∧
    x.impl.closed = false ∧ x.state.failed = false ∧ x.state.report.scheduleCompleted = false := by
  simpa [cannotAdvance, and_assoc] using h

/-- A step from one place of `advance` to another. -/
theorem Course.advance (H : Course x) (h : Steady x y) (hx : x.ctl.advancing = true)
    (hy : y.ctl.advancing = true) : Course y := by
  obtain ⟨h1, h2, h3, h4, h5⟩ := Ctl.advancing_only hy
  have hg := (Ctl.advancing_only hx).2.2.1
  exact H.steady h (.inr ⟨by simp [h1], fun _ => hx, h5, fun hi => absurd hi h4, by simp [h2],
    by simp [hg]⟩)

/-- `advance` begins. -/
theorem Course.begin (H : Course x) (hc : x.cannotAdvance = false) (h : Steady x y)
    (hx : x.ctl = .idle) (hy : y.ctl.advancing = true) : Course y := by
  obtain ⟨hi, hcl, -, -⟩ := cannotAdvance_false hc
  have hk := H.built hi
  obtain ⟨h1, h2, h3, h4, h5⟩ := Ctl.advancing_only hy
  refine ⟨fun hs => ?_, fun _ => ?_, fun he => ?_, fun ho => ?_, fun _ => ?_, fun hw => ?_,
    fun he => ?_, fun _ => ?_, fun _ => ?_⟩
  · rw [h.closed]
    rcases H.stopping (h.stopping ▸ hs) with h' | h'
    · exact .inl h'
    · rw [hx] at h'; cases h'
  · rw [h.closed, h.constructed]; exact ⟨hcl, hk⟩
  · rw [h2] at he; cases he
  · rw [h1] at ho; cases ho
  · rw [h.initialized]; exact hi
  · exact absurd hw h4
  · exact absurd he h5
  · rw [h.constructed]; exact hk
  · rw [h.schedule, h.adapter, h.policy]; exact H.admitted hk

/-- The observer's return ends `start`. -/
theorem Course.startObserved (H : Course x) (hctl : x.ctl = .observer .start) (h : Retained x y)
    (late : Bool) : Course (y.startObserved late) := by
  obtain ⟨hs, hc⟩ := h.steady
  obtain ⟨hcl, hk⟩ := H.unclosed (.inl (by rw [hctl]; rfl))
  have hj := judged_settle y.state late
  have hst : (y.state.settle late).stopping = true → False := fun h' => by
    rcases H.stopping (hs.stopping ▸ hj.stopping ▸ h') with h | h
    · rw [hcl] at h; cases h
    · rw [hctl] at h; cases h
  have hA := H.admitted hk
  rw [← hs.schedule, ← hs.adapter, ← hs.policy] at hA
  rw [← hs.closed] at hcl
  rw [← hs.constructed] at hk
  unfold Sys.startObserved
  cases hf : (y.state.settle late).failed <;>
    refine ⟨fun h => (hst h).elim, ?_, ?_, ?_, ?_, ?_, ?_, ?_, fun _ => hA⟩ <;>
    simp [hcl, hk, hf, Ctl.opening, Ctl.advancing, Ctl.ending]

theorem Course.advanceObserved (H : Course x) (hctl : x.ctl = .observer .advance)
    (h : Retained x y) (late : Bool) : Course (y.advanceObserved late) := by
  obtain ⟨hs, hc⟩ := h.steady
  have hj := judged_settle y.state late
  have ha : x.ctl.advancing = true := by rw [hctl]; rfl
  obtain ⟨hcl, hk⟩ := H.unclosed (.inr (.inl ha))
  have hA := H.admitted hk
  have hi := H.ready ha
  have hst : (y.state.settle late).stopping = true → False := fun h' => by
    rcases H.stopping (hs.stopping ▸ hj.stopping ▸ h') with h | h
    · rw [hcl] at h; cases h
    · rw [hctl] at h; cases h
  rw [← hs.schedule, ← hs.adapter, ← hs.policy] at hA
  rw [← hs.closed] at hcl
  rw [← hs.constructed] at hk
  rw [← hs.initialized] at hi
  unfold Sys.advanceObserved
  dsimp only
  split <;>
    refine ⟨fun h => (hst h).elim, ?_, ?_, ?_, ?_, ?_, ?_, ?_, fun _ => hA⟩ <;>
    simp [hcl, hk, hi, Ctl.opening, Ctl.advancing, Ctl.ending]

theorem Course.step (H : Course x) (h : Move x y) : Course y := by
  cases h with
  | work _ h =>
    obtain ⟨s, ps, rfl, hj⟩ := h.judged
    exact H.steady (steady_of_judged ps hj x.ctl) (.inl rfl)
  | cancel => exact H.steady ⟨rfl, id, rfl, rfl, rfl, rfl, rfl, rfl, rfl⟩ (.inl rfl)
  | foreign =>
    exact H.steady (steady_of_judged x.pcs (judged_arrive _ _ _ _) x.ctl) (.inl rfl)
  | stay => exact H
  | refuse hctl hc ho =>
    exact H.begin hc (steady_judged (judged_fail _ ho _) _) hctl rfl
  | permit hctl hc =>
    exact H.begin hc ⟨rfl, id, rfl, rfl, rfl, rfl, rfl, rfl, rfl⟩ hctl rfl
  | @finish s hctl hc hk hj hl =>
    have hi := H.waiting hctl hc hk
    have hst : _ → False := fun h => by
      rcases H.stopping (hj.stopping ▸ h) with h | h
      · rw [hc] at h; cases h
      · rw [hctl] at h; cases h
    refine ⟨fun h => (hst h).elim, fun _ => ⟨hc, hk⟩, nofun, nofun, nofun, nofun, fun _ => ?_,
      fun _ => hk, fun _ => H.admitted hk⟩
    cases hf : s.failed with
    | true => exact .inl rfl
    | false => exact .inr (hj.scheduleCompleted.trans (hl hf))
  | badBudget hctl hb =>
    have := (H.admitted (H.unclosed (.inr (.inr hctl))).2).budget
    rw [hb] at this; cases this
  | close hctl hk =>
    rcases hctl with hctl | hctl
    · exact ⟨fun _ => .inl rfl, nofun, nofun, nofun, nofun, nofun, nofun, H.built, H.admitted⟩
    · rw [(H.unclosed (.inr (.inr hctl))).2] at hk; cases hk
  | clean _ hk =>
    exact ⟨fun _ => .inl rfl, nofun, fun _ => ⟨rfl, hk⟩, nofun, nofun, nofun, nofun, H.built,
      H.admitted⟩
  | destroy =>
    exact ⟨fun _ => .inr rfl, nofun, nofun, nofun, nofun, nofun, nofun, H.built, H.admitted⟩
  | spawn hctl =>
    refine H.steady ⟨rfl, id, rfl, rfl, rfl, rfl, rfl, rfl, rfl⟩ (.inr ?_)
    unfold Sys.spawn
    dsimp only
    split <;> simp [hctl, Ctl.opening, Ctl.advancing, Ctl.ending, Ctl.gone]
  | spawnRefused hctl =>
    refine H.steady (steady_judged (judged_fail _ (by decide) _) _) (.inr ?_)
    simp [hctl, Ctl.opening, Ctl.advancing, Ctl.ending, Ctl.gone]
  | barrierFailed hctl hj hf =>
    have ho : x.ctl.opening = true := by rw [hctl]; rfl
    obtain ⟨hc, hk⟩ := H.unclosed (.inl ho)
    refine ⟨fun h => ?_, fun _ => ⟨hc, hk⟩, nofun, nofun, nofun, nofun, fun _ => .inl hf, H.built,
      H.admitted⟩
    rcases H.stopping (hj.stopping ▸ h) with h | h
    · exact .inl h
    · rw [hctl] at h; cases h
  | barrier hctl =>
    refine H.steady ⟨rfl, id, rfl, rfl, rfl, rfl, rfl, rfl, rfl⟩ (.inr ?_)
    simp [hctl, Ctl.opening, Ctl.advancing, Ctl.ending, Ctl.gone]
  | startObserved hctl h => exact H.startObserved hctl h _
  | advanceObserved hctl h => exact H.advanceObserved hctl h _
  | wokenFailed hctl hj =>
    obtain ⟨h1, h2, h3⟩ := judged_recordArrival hj _ _
    exact H.advance ⟨h1, h2, h3, rfl, rfl, rfl, rfl, rfl, rfl⟩ (by rw [hctl]; rfl) rfl
  | @wokenAstray i e d hctl =>
    obtain ⟨h1, h2, h3⟩ := judged_recordArrival (.refl x.state) x.impl.nextStep i
    have hj := judged_fail (recordArrival x.state x.impl.nextStep i)
      (show Outcome.unexpectedCheckpoint ≠ .completed by decide) d
    exact H.advance ⟨hj.stopping.trans h1, fun _ => failed_fail _ _ _,
      hj.scheduleCompleted.trans h3, rfl, rfl, rfl, rfl, rfl, rfl⟩ (by rw [hctl]; rfl) rfl
  | wokenFinished hctl | wokenParked hctl =>
    obtain ⟨h1, h2, h3⟩ := judged_recordArrival (.refl x.state) x.impl.nextStep _
    exact H.advance ⟨h1, h2, h3, rfl, rfl, rfl, rfl, rfl, rfl⟩ (by rw [hctl]; rfl) rfl
  | joined hctl =>
    exact H.advance ⟨rfl, id, rfl, rfl, rfl, rfl, rfl, rfl, rfl⟩ (by rw [hctl]; rfl) rfl
  | leave hctl =>
    have ha : x.ctl.advancing = true := by rw [hctl]; rfl
    obtain ⟨hc, hk⟩ := H.unclosed (.inr (.inl ha))
    have hi := H.ready ha
    have hst : x.state.stopping = true → False := fun h => by
      rcases H.stopping h with h | h
      · rw [hc] at h; cases h
      · rw [hctl] at h; cases h
    cases hf : x.state.failed <;>
      refine ⟨fun h => (hst h).elim, ?_, ?_, ?_, ?_, ?_, ?_, H.built, H.admitted⟩ <;>
      simp [hc, hk, hi, hf, Ctl.opening, Ctl.advancing, Ctl.ending]
  | wind h => exact H.wind h

/-- Behind the first section of `cleanup` and in the destructor the workers are being stopped. -/
def Halted (x : Sys) : Prop := x.ctl.ending = true ∨ x.ctl.gone = true → x.state.stopping = true

theorem Halted.step (H : Halted x) (h : Move x y) : Halted y := by
  cases h with
  | work _ h =>
    obtain ⟨s, ps, rfl, hj⟩ := h.judged
    exact fun hc => hj.stopping.trans (H hc)
  | cancel => exact H
  | foreign => exact fun hc => (judged_arrive _ _ _ _).stopping.trans (H hc)
  | stay => exact H
  | clean | destroy => exact fun _ => rfl
  | spawn =>
    refine fun hc => absurd hc ?_
    simp only [Sys.spawn]
    split <;> simp [Ctl.ending, Ctl.gone]
  | startObserved =>
    refine fun hc => absurd hc ?_
    simp only [Sys.startObserved]
    split <;> simp [Ctl.ending, Ctl.gone]
  | leave =>
    refine fun hc => absurd hc ?_
    dsimp only
    split <;> simp [Ctl.ending, Ctl.gone]
  | wind h =>
    obtain ⟨hs, ⟨he, -⟩ | ⟨hg, -⟩⟩ := h.steady
    · exact fun _ => hs.stopping.trans (H (.inl he))
    · exact fun _ => hs.stopping.trans (H (.inr hg))
  | _ => exact fun hc => absurd hc (by simp [Sys.advanceObserved, advanceJoined, Ctl.ending,
    Ctl.gone])

theorem Halted.reach (h : (lts lib).Reach x) : Halted x := by
  refine h.inv ?_ fun _ _ _ H _ hs => H.step (move_of_step hs)
  rintro _ ⟨o, rfl⟩ hc
  rcases (initial_start lib o).start with ⟨hctl, -⟩ | ⟨hctl, -⟩ | ⟨hctl, -⟩ <;>
    simp [hctl, Ctl.ending, Ctl.gone] at hc

theorem Course.reach (h : (lts lib).Reach x) : Course x :=
  h.inv (by rintro _ ⟨o, rfl⟩; exact (initial_start lib o).course)
    fun _ _ _ H _ hs => H.step (move_of_step hs)

/-- Where the execution is neither closed nor being destroyed. -/
theorem Course.live (H : Course x) (hc : x.impl.closed = false) (hg : x.ctl.gone = false) :
    x.state.stopping = false := by
  cases hs : x.state.stopping with
  | false => rfl
  | true =>
    rcases H.stopping hs with h | h
    · rw [hc] at h; cases h
    · rw [hg] at h; cases h

theorem Course.live_advancing (H : Course x) (h : x.ctl.advancing = true) :
    x.state.stopping = false :=
  H.live (H.unclosed (.inr (.inl h))).1 (Ctl.advancing_only h).2.2.1

end Sys

end MirrorCpp.Schedule
