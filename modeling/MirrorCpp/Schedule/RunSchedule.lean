import MirrorCpp.Schedule.Log

/-!
# Running a schedule (`run_schedule`, `schedule.cpp`)

The client that starts an execution, grants the steps of its schedule one after another and
finishes it. Its statements stand between the critical sections of the execution; the workers,
stop requests and foreign threads go on around them.
-/

namespace MirrorCpp.Schedule

/-- Where `run_schedule` stands. -/
inductive RunPoint where
  | starting
  | looping
  | finishing
  | returned
  /-- `advance` has thrown; the execution is destroyed on the way out. -/
  | threw
  deriving DecidableEq, Repr

structure ScheduleRun where
  execution : Sys
  /-- The steps the loop has not come to. -/
  rest : List Step := []
  point : RunPoint := .starting

/-- The calls of a client. -/
def Choice.client : Choice → Bool
  | .advance _ _ | .finish | .cleanup _ | .destroy => true
  | _ => false

namespace ScheduleRun

/-- `run_schedule` behind a call that has returned. -/
def go (d : ScheduleRun) (late : Bool) : ScheduleRun :=
  match d.point with
  | .starting =>
    if !d.execution.impl.initialized then { d with point := .returned }
    else { d with point := .looping, rest := d.execution.impl.schedule.steps }
  | .looping =>
    match d.rest with
    | [] => { d with execution := d.execution.finish, point := .finishing }
    | st :: rest =>
      if d.execution.impl.closed then
        { d with execution := d.execution.finish, point := .finishing }
      else if d.execution.cannotAdvance then
        { d with execution := d.execution.destroy, point := .threw }
      else { d with execution := d.execution.advance st late, rest }
  | .finishing => { d with point := .returned }
  | .returned | .threw => d

/-- The next statement of `run_schedule`, with the clock reading of the call it makes, or a step
of the execution around it. -/
inductive Act where
  | go (late : Bool)
  | around (c : Choice)

def exited (d : ScheduleRun) : Bool := d.point == .returned || d.point == .threw

def step (lib : JsonLib) (d : ScheduleRun) : Act → Option ScheduleRun
  | .go late => if d.execution.ctl = .idle ∧ d.exited = false then some (d.go late) else none
  | .around c =>
    if c.client then none
    else (d.execution.step lib c).map fun execution => { d with execution }

end ScheduleRun

/-- `run_schedule` on any schedule and adapter, around any program. -/
def runSchedule (lib : JsonScan) : Lts ScheduleRun ScheduleRun.Act where
  init d := ∃ o, d = { execution := Sys.start lib o }
  step := ScheduleRun.step lib.toJsonLib

/-- An admitted schedule has steps. -/
theorem Admitted.steps_ne {schedule : Schedule} {adapter : Adapter} {policy : Policy}
    (h : Admitted schedule adapter policy) : schedule.steps.length ≠ 0 := by
  obtain ⟨a, ha⟩ := List.exists_mem_of_ne_nil _ h.actors
  exact Nat.ne_of_gt (List.length_pos_of_mem (h.completes a ha))

namespace Sys

open Shared

variable {x y : Sys} {lib : JsonScan} {i j : Nat}

/-! ## What holds of every client -/

/-- A closed execution has been cleaned up, or is being. -/
def Swept (x : Sys) : Prop := x.impl.closed = true → x.impl.constructed = true →
  x.state.report.cleanup ≠ .notStarted ∨ x.ctl.ending = true ∨ x.ctl.gone = true

theorem cleanupEnd_swept (x : Sys) : x.cleanupEnd.state.report.cleanup ≠ .notStarted := by
  unfold cleanupEnd
  dsimp only
  split
  · decide
  · split <;> decide

theorem Scan.swept (h : Scan x y) :
    y.state.report.cleanup ≠ .notStarted ∨ y.ctl.ending = true := by
  cases h with
  | join => exact .inr rfl
  | tear =>
    rw [ctl_callTeardown]
    exact .inr rfl
  | rest => exact .inl (cleanupEnd_swept _)

theorem Wind.swept (h : Wind x y) :
    y.state.report.cleanup ≠ .notStarted ∨ y.ctl.ending = true ∨ y.ctl.gone = true := by
  cases h with
  | wake _ h => exact h.swept.imp_right .inl
  | joined _ _ h => exact h.swept.imp_right .inl
  | torn => exact .inl (cleanupEnd_swept _)
  | destroyJoin hctl =>
    refine .inr (.inr ?_)
    show x.ctl.gone = true
    rw [hctl]
    rfl
  | destroyTear =>
    rw [ctl_callTeardown]
    exact .inr (.inr rfl)
  | destroyEnd | destroyTorn => exact .inr (.inr rfl)

theorem Swept.step (HC : Course x) (H : Swept x) (h : Move x y) : Swept y := by
  -- the other places are those of an execution that is not closed
  have hopen : ∀ {p : Prop}, x.ctl.opening = true ∨ x.ctl.advancing = true ∨ x.ctl = .entering →
      x.impl.closed = true → p := by
    intro p h hc
    rw [(HC.unclosed h).1] at hc
    cases hc
  cases h with
  | work _ h =>
    obtain ⟨-, hi, hctl⟩ := h.frame
    obtain ⟨s, ps, rfl, hj⟩ := h.judged
    intro hc hk
    rw [show s.report.cleanup = x.state.report.cleanup from hj.cleanup]
    exact H hc hk
  | cancel | stay => exact H
  | @foreign i k checkpoint =>
    intro hc hk
    rw [show (x.state.arrive (.other k) i checkpoint).2.report.cleanup = x.state.report.cleanup
      from (judged_arrive _ _ _ _).cleanup]
    exact H hc hk
  | refuse _ hc | permit _ hc =>
    intro hcl
    rw [(cannotAdvance_false hc).2.1] at hcl
    cases hcl
  | finish _ hc =>
    intro hcl
    rw [hc] at hcl
    cases hcl
  | badBudget hctl => exact hopen (.inr (.inr hctl))
  | close _ hk =>
    intro _ hk'
    rw [hk] at hk'
    cases hk'
  | clean => exact fun _ _ => .inr (.inl rfl)
  | destroy => exact fun _ _ => .inr (.inr rfl)
  | startObserved hctl h =>
    intro hc
    exact hopen (.inl (by rw [hctl]; rfl)) (h.steady.1.closed ▸ hc)
  | advanceObserved hctl h =>
    intro hc
    exact hopen (.inr (.inl (by rw [hctl]; rfl))) (h.steady.1.closed ▸ hc)
  | spawn hctl | spawnRefused hctl | barrierFailed hctl | barrier hctl =>
    exact hopen (.inl (by rw [hctl]; rfl))
  | wokenFailed hctl | wokenAstray hctl | wokenFinished hctl | wokenParked hctl | joined hctl
  | leave hctl =>
    exact hopen (.inr (.inl (by rw [hctl]; rfl)))
  | wind h => exact fun _ _ => h.swept

theorem Swept.reach (h : (lts lib).Reach x) : Swept x := by
  refine h.inv_of (Q := Course) (fun _ h => .reach h) ?_ fun _ _ _ HC H _ hs =>
    H.step HC (move_of_step hs)
  rintro _ ⟨o, rfl⟩ hc
  rw [(initial_start lib o).impl] at hc
  cases hc

/-- While an execution lives and waits for its client, the schedule counts as completed from the
last step on. -/
def Counted (x : Sys) : Prop := x.state.failed = false → x.impl.initialized = true →
  x.impl.closed = false → x.ctl = .idle ∨ x.ctl = .returning →
  x.impl.nextStep = x.impl.schedule.steps.length → x.state.report.scheduleCompleted = true

theorem Counted.step (HC : Course x) (HL : x.state.failed = false → Logged x) (H : Counted x)
    (h : Move x y) : Counted y := by
  intro hf hi hc hctl hn
  have hx : x.state.failed = false := by
    rcases h.blame with ⟨he, -⟩ | ⟨he, -⟩
    · exact he ▸ hf
    · exact he
  cases h with
  | work _ h =>
    obtain ⟨-, himpl, hplace⟩ := h.frame
    obtain ⟨s, ps, rfl, hj⟩ := h.judged
    exact hj.scheduleCompleted.trans (H hx hi hc hctl hn)
  | cancel | stay => exact H hf hi hc hctl hn
  | foreign => exact (judged_arrive _ _ _ _).scheduleCompleted.trans (H hx hi hc hctl hn)
  | refuse | spawnRefused | wokenAstray => rw [failed_fail] at hf; cases hf
  | barrierFailed _ _ hs => rw [hs] at hf; cases hf
  | wokenFailed _ _ hs => rw [recordArrival_failed, hs] at hf; cases hf
  | badBudget hctl' hb =>
    have := (HC.admitted (HC.unclosed (.inr (.inr hctl'))).2).budget
    rw [hb] at this
    cases this
  | close | clean => cases hc
  | @startObserved z late hctl' h =>
    -- there is a first step to take
    have ho : x.ctl.opening = true := by rw [hctl']; rfl
    have hn : z.impl.nextStep = z.impl.schedule.steps.length := hn
    rw [h.held.2.2.2, h.steady.1.schedule, ((HL hx).fresh (HC.opening ho)).1] at hn
    exact absurd hn.symm (HC.admitted (HC.unclosed (.inl ho)).2).steps_ne
  | @advanceObserved z late hctl' h =>
    unfold Sys.advanceObserved at hf hn ⊢
    dsimp only at hf hn ⊢
    split
    · rfl
    · rename_i hnot
      rw [if_neg hnot] at hf
      simp [hf, hn] at hnot
  | leave hctl' => exact H hf hi hc (.inr hctl') hn
  | wind h =>
    obtain ⟨hs, ⟨he, -⟩ | ⟨hg, hg'⟩⟩ := h.steady
    · rw [hs.closed, (HC.ending he).1] at hc
      cases hc
    · rcases hctl with hctl | hctl <;> rw [hctl] at hg' <;> cases hg'
  | spawn =>
    dsimp only [Sys.spawn] at hctl
    split at hctl <;> rcases hctl with hctl | hctl <;> cases hctl
  | _ => rcases hctl with hctl | hctl <;> cases hctl

theorem Counted.reach (h : (lts lib).Reach x) : Counted x := by
  refine h.inv_of (Q := fun x => Course x ∧ (x.state.failed = false → Logged x))
    (fun _ h => ⟨.reach h, .reach h⟩) ?_ fun _ _ _ ⟨HC, HL⟩ H _ hs =>
      H.step HC HL (move_of_step hs)
  rintro _ ⟨o, rfl⟩ - hi
  rw [(initial_start lib o).impl] at hi
  cases hi

/-- No step is behind the last one. -/
theorem nextStep_le (h : (lts lib).Reach x) (hf : x.state.failed = false) :
    x.impl.nextStep ≤ x.impl.schedule.steps.length := by
  have HL := Logged.reach h hf
  by_contra hlt
  have hlen := HL.length
  have hm : 2 * x.impl.schedule.steps.length < x.state.report.events.length := by omega
  obtain ⟨st, hst, -⟩ := (HL.events _ _ (List.getElem?_eq_getElem hm)).granted
  rw [Nat.mul_div_cancel_left _ (by decide)] at hst
  exact absurd (List.getElem?_eq_some_iff.mp hst).1 (lt_irrefl _)

/-- While a live execution waits for its client, its workers wait in their hooks. -/
theorem Rest.no_work (HC : Course x) (HK : Core x) (H : Rest x) (hctl : x.ctl = .idle)
    (hc : x.impl.closed = false) (hi : x.impl.initialized = true) {k : Nat}
    (hf : x.state.failed = false) (hk : k < x.pcs.length) : ¬Work x k y := by
  have hst := HC.live hc (by rw [hctl]; rfl)
  have hrun : (x.state.actor k).phase ≠ .running := by
    intro hp
    rcases H.running k hp with ⟨e, h⟩ | ⟨h, -⟩ | h
    · rw [hctl] at h; cases h
    · rw [hf] at h; cases h
    · rw [hst] at h; cases h
  have hstart := H.not_starting (.inl hi) (i := k) (HK.length ▸ hk)
  have hloose : (x.pc k).loose ≠ true := by
    intro hl
    have hph := HK.phase k
    rw [Pc.allows_loose hl] at hph
    rcases hph with h | ⟨h, -⟩
    · exact hrun h
    · rw [hst] at h; cases h
  intro h
  cases h with
  | register hpc =>
    have hph := HK.phase k
    rw [hpc] at hph
    exact hstart hph
  | wake _ _ _ hr => exact hrun hr
  | stopped _ _ hs => rw [hst] at hs; cases hs
  | user hpc | asked hpc | foreign hpc | refused hpc | astray hpc | park hpc | threw hpc
  | finish hpc =>
    refine hloose ?_
    rw [hpc]
    rfl

/-- The client may call: the execution waits for it, and is open. -/
def Waits (x : Sys) : Prop :=
  x.ctl = .idle ∧ x.impl.closed = false ∧ x.impl.initialized = true

/-- What goes on around a client that does not call. -/
theorem step_idle {c : Choice} {lib : JsonLib} (hctl : x.ctl = .idle) (hc : c.client = false)
    (h : x.step lib c = some y) :
    (∃ k, k < x.pcs.length ∧ Work x k y) ∨
    y = { x with state := { x.state with cancelled := true } } ∨
    ∃ i k checkpoint, c = .foreign i k checkpoint ∧
      y = { x with state := (x.state.arrive (.other k) i checkpoint).2 } := by
  cases c with
  | advance | finish | cleanup | destroy => cases hc
  | register i | wake i | user i c | stop i | arrive i | caught i | close i =>
    simp only [step, Option.ite_none_right_eq_some] at h
    exact .inl ⟨i, h.1, work_of_workerStep h.2⟩
  | cancel =>
    simp only [step, Option.ite_none_right_eq_some, Option.some.injEq] at h
    exact .inr (.inl h.2.symm)
  | foreign i k checkpoint =>
    simp only [step, Option.ite_none_right_eq_some, Option.some.injEq] at h
    exact .inr (.inr ⟨i, k, checkpoint, rfl, h.2.symm⟩)
  | destroyJoin =>
    simp only [step] at h
    split at h
    · rw [hctl] at h
      simp at h
    · cases h
  | _ =>
    simp only [step, hctl] at h
    simp at h

/-- The impl and the place of an execution do not change around a client that does not call. -/
theorem idle_around {c : Choice} {lib : JsonLib} (hctl : x.ctl = .idle) (hc : c.client = false)
    (h : x.step lib c = some y) : y.ctl = .idle ∧ y.impl = x.impl ∧
      y.state.report.scheduleCompleted = x.state.report.scheduleCompleted ∧
      y.state.report.cleanup = x.state.report.cleanup := by
  rcases step_idle hctl hc h with ⟨k, -, hw⟩ | rfl | ⟨i, k, checkpoint, -, rfl⟩
  · obtain ⟨-, hi, hp⟩ := hw.frame
    obtain ⟨s, ps, rfl, hj⟩ := hw.judged
    exact ⟨hp.trans hctl, hi, hj.scheduleCompleted, hj.cleanup⟩
  · exact ⟨hctl, rfl, rfl, rfl⟩
  · have hj := judged_arrive x.state (.other k) i checkpoint
    exact ⟨hctl, rfl, hj.scheduleCompleted, hj.cleanup⟩

/-- An open execution that waits for its client fails by a foreign call alone. -/
theorem waits_step {c : Choice} {lib : JsonLib} (HC : Course x) (HK : Core x) (HR : Rest x)
    (hc : c.client = false) (h : x.step lib c = some y) (hw : Waits y)
    (hf : y.state.failed = true) :
    (Waits x ∧ x.state.failed = true ∧ y.state.report.outcome = x.state.report.outcome) ∨
    (∃ i k checkpoint, c = .foreign i k checkpoint) ∧
      y.state.report.outcome = .uncontrolledActor := by
  obtain ⟨hctl, hclosed, hinit⟩ := hw
  by_cases hx : x.ctl = .idle
  · obtain ⟨-, hi, -⟩ := idle_around hx hc h
    have hwx : Waits x := ⟨hx, hi ▸ hclosed, hi ▸ hinit⟩
    rcases (move_of_step h).blame with ⟨he, ho, -⟩ | ⟨hx', -, -⟩
    · exact .inl ⟨hwx, he ▸ hf, ho⟩
    · rcases step_idle hx hc h with ⟨k, hk, hw⟩ | rfl | ⟨i, k, checkpoint, rfl, rfl⟩
      · exact absurd hw (HR.no_work HC HK hx hwx.2.1 hwx.2.2 hx' hk)
      · rw [show x.state.failed = true from hf] at hx'
        cases hx'
      · refine .inr ⟨⟨i, k, checkpoint, rfl⟩, ?_⟩
        show ((x.state.arrive (.other k) i checkpoint).2).report.outcome = _
        rw [HK.misused]
        simp [misused, Shared.fail, hx']
  · -- an execution comes back to its client alive, or closed
    cases move_of_step h with
    | work _ hw => exact absurd (hw.frame.2.2 ▸ hctl) hx
    | cancel | foreign => exact absurd hctl hx
    | stay hctl' | refuse hctl' | permit hctl' | finish hctl' | destroy hctl' =>
      exact absurd hctl' hx
    | badBudget hctl' hb =>
      have := (HC.admitted (HC.unclosed (.inr (.inr hctl'))).2).budget
      rw [hb] at this
      cases this
    | close | clean => cases hclosed
    | @startObserved z late =>
      have hinit : (!(z.state.settle late).failed) = true := hinit
      have hf : (z.state.settle late).failed = true := hf
      rw [hf] at hinit
      cases hinit
    | leave =>
      have hf : x.state.failed = true := hf
      dsimp only at hctl
      rw [if_pos hf] at hctl
      cases hctl
    | wind h =>
      obtain ⟨hs, ⟨he, -⟩ | ⟨-, hg⟩⟩ := h.steady
      · rw [hs.closed, (HC.ending he).1] at hclosed
        cases hclosed
      · rw [hctl] at hg
        cases hg
    | spawn =>
      dsimp only [Sys.spawn] at hctl
      split at hctl <;> cases hctl
    | _ => cases hctl

/-! ## The steps the client waits for -/

end Sys

/-- A step has been granted, and not counted. -/
def Ctl.pending : Ctl → Nat
  | .permitted _ _ | .joining _ => 1
  | _ => 0

theorem Ctl.pending_eq {c : Ctl} (h : c.stepping = false) : c.pending = 0 := by
  rcases c with _ | _ | (_ | _) | _ | _ | _ | _ | _ | _ | _ | _ | _ | _ | _
  all_goals first | rfl | cases h

namespace Sys

open Shared

variable {x y : Sys} {lib : JsonScan} {i j : Nat}

/-- The steps the client has asked for. -/
def asked (x : Sys) : Nat := x.impl.nextStep + x.ctl.pending

/-- Only the client asks for a step. -/
theorem asked_around {c : Choice} {lib : JsonLib} (hc : c.client = false)
    (h : x.step lib c = some y) (hf : y.state.failed = false) : y.asked = x.asked := by
  by_cases hx : x.ctl = .idle
  · obtain ⟨hctl, hi, -⟩ := idle_around hx hc h
    rw [asked, asked, hi, hctl, hx]
  · cases move_of_step h with
    | work _ hw =>
      obtain ⟨-, hi, hctl⟩ := hw.frame
      rw [asked, asked, hi, hctl]
    | cancel | foreign => rfl
    | stay hctl | refuse hctl | permit hctl | finish hctl | destroy hctl => exact absurd hctl hx
    | badBudget hctl => rw [asked, asked, hctl]; rfl
    | close hctl | clean hctl =>
      rcases hctl with hctl | hctl
      · exact absurd hctl hx
      · rw [asked, asked, hctl]
        rfl
    | spawn hctl =>
      rw [asked, asked, hctl]
      dsimp only [Sys.spawn]
      split <;> rfl
    | spawnRefused | wokenAstray => rw [failed_fail] at hf; cases hf
    | barrierFailed _ _ hs => rw [hs] at hf; cases hf
    | wokenFailed _ _ hs => rw [recordArrival_failed, hs] at hf; cases hf
    | barrier hctl => rw [asked, asked, hctl]; rfl
    | startObserved hctl hr =>
      rw [asked, asked, hctl, ← hr.held.2.2.2]
      dsimp only [Sys.startObserved]
      split <;> rfl
    | advanceObserved hctl hr =>
      rw [asked, asked, hctl, ← hr.held.2.2.2]
      dsimp only [Sys.advanceObserved]
      rfl
    | wokenFinished hctl | wokenParked hctl | joined hctl => rw [asked, asked, hctl]; rfl
    | leave hctl =>
      rw [asked, asked, hctl]
      dsimp only
      split <;> rfl
    | wind h =>
      have hq := h.quiet
      obtain ⟨-, -, hy⟩ := h.completed
      rw [asked, asked, hq.nextStep, Ctl.pending_eq hy, Ctl.pending_eq h.outside]

/-- An execution that is closed or about to be is so behind a failure or its client. -/
theorem closed_around {c : Choice} {lib : JsonLib} (HC : Course x) (hc : c.client = false)
    (h : x.step lib c = some y) (hy : y.impl.closed = true ∨ y.ctl = .entering) :
    (x.impl.closed = true ∨ x.ctl = .entering) ∨ y.state.failed = true := by
  by_cases hx : x.ctl = .idle
  · obtain ⟨hctl, hi, -⟩ := idle_around hx hc h
    rw [hi, hctl] at hy
    rcases hy with hy | hy
    · exact .inl (.inl hy)
    · cases hy
  · have hopen : ∀ {p : Prop}, x.ctl.opening = true ∨ x.ctl.advancing = true →
        x.impl.closed = true → p := by
      intro p h hc
      rw [(HC.unclosed (h.imp_right .inl)).1] at hc
      cases hc
    cases move_of_step h with
    | work _ hw =>
      obtain ⟨-, hi, hctl⟩ := hw.frame
      rw [hi, hctl] at hy
      exact .inl hy
    | cancel | foreign => exact .inl hy
    | stay hctl | refuse hctl | permit hctl | finish hctl | destroy hctl => exact absurd hctl hx
    | badBudget hctl => exact .inl (.inr hctl)
    | close hctl | clean hctl => exact .inl (.inr (hctl.resolve_left hx))
    | spawnRefused | wokenAstray => exact .inr (failed_fail _ _ _)
    | barrierFailed _ _ hs => exact .inr hs
    | wokenFailed _ _ hs => exact .inr ((recordArrival_failed _ _ _).trans hs)
    | @startObserved z late hctl hr =>
      rcases hy with hy | hy
      · exact hopen (.inl (by rw [hctl]; rfl)) (hr.steady.1.closed ▸ hy)
      · dsimp only [Sys.startObserved] at hy
        split at hy
        · exact .inr ‹_›
        · cases hy
    | advanceObserved hctl hr =>
      rcases hy with hy | hy
      · exact hopen (.inr (by rw [hctl]; rfl)) (hr.steady.1.closed ▸ hy)
      · cases hy
    | leave hctl =>
      rcases hy with hy | hy
      · exact hopen (.inr (by rw [hctl]; rfl)) hy
      · dsimp only at hy
        split at hy
        · exact .inr ‹_›
        · cases hy
    | spawn hctl =>
      rcases hy with hy | hy
      · exact hopen (.inl (by rw [hctl]; rfl)) hy
      · dsimp only [Sys.spawn] at hy
        split at hy <;> cases hy
    | barrier =>
      rcases hy with hy | hy
      · exact .inl (.inl hy)
      · cases hy
    | wokenFinished | wokenParked | joined =>
      rcases hy with hy | hy
      · exact .inl (.inl hy)
      · cases hy
    | wind hw =>
      obtain ⟨hs, hctl⟩ := hw.steady
      rcases hy with hy | hy
      · exact .inl (.inl (hs.closed ▸ hy))
      · rcases hctl with ⟨-, h | h⟩ | ⟨-, h⟩ <;> rw [hy] at h <;> cases h

/-! ## Outcomes -/

/-- The failures recorded between these states are not of this kind. -/
def Spares (o : Outcome) (s t : Shared) : Prop := t.report.outcome = o → s.report.outcome = o

theorem spares_fail {o o' : Outcome} (h : o' ≠ o) (s : Shared) (d : String) :
    Spares o s (s.fail o' d) := by
  unfold Spares Shared.fail
  split
  · exact id
  · exact fun he => absurd he h

theorem Spares.trans {o : Outcome} {s t u : Shared} (h : Spares o s t) (h' : Spares o t u) :
    Spares o s u := fun he => h (h' he)

theorem spares_settle (s : Shared) (late : Bool) : Spares .invalidSchedule s (s.settle late) := by
  unfold settle
  dsimp only
  have hc : Spares .invalidSchedule s
      (if s.cancelled then s.fail .cancelled "execution cancelled" else s) := by
    split
    · exact spares_fail (by decide) _ _
    · exact id
  split
  · exact hc.trans (spares_fail (by decide) _ _)
  · exact hc

theorem spares_recordArrival (o : Outcome) (s : Shared) (n i : Nat) :
    Spares o s (recordArrival s n i) := by
  unfold recordArrival
  dsimp only
  split <;> exact id

theorem Work.spares (h : Work x i y) : Spares .invalidSchedule x.state y.state := by
  cases h with
  | foreign => exact spares_fail (by decide) _ _
  | threw => exact spares_fail (by decide) _ _
  | astray => exact spares_fail (by decide) (x.state.setActor _ _) _
  | _ => exact id

theorem Retained.spares (h : Retained x y) : Spares .invalidSchedule x.state y.state := by
  cases h with
  | failed => exact spares_fail (by decide) _ _
  | kept => exact id

theorem Scan.spares (h : Scan x y) (o : Outcome) : Spares o x.state y.state := by
  cases h with
  | tear =>
    rw [state_callTeardown]
    exact id
  | _ => exact id

theorem Wind.spares (h : Wind x y) (o : Outcome) : Spares o x.state y.state := by
  cases h with
  | wake _ h => exact h.spares o
  | joined _ _ h => exact (h.spares o).trans id
  | destroyTear =>
    rw [state_callTeardown]
    exact id
  | _ => exact id

theorem spares_permitWake (x : Sys) (i : Nat) (e : String) (late : Bool) :
    Spares .invalidSchedule x.state (x.permitWake i e late).state := by
  have hs : Spares .invalidSchedule x.state
      (recordArrival (x.state.settle late) x.impl.nextStep i) :=
    (spares_settle _ _).trans (spares_recordArrival _ _ _ _)
  unfold permitWake
  dsimp only
  split
  · exact hs
  · split
    · exact hs.trans (spares_fail (by decide) _ _)
    · split <;> exact hs

theorem spares_observed (lib : JsonLib) (x : Sys) (k : Caller) (value : Except Thrown Json)
    (late : Bool) : Spares .invalidSchedule x.state (x.observed lib k value late).state := by
  have hs : Spares .invalidSchedule x.state ((x.retain lib value).state.settle late) :=
    (retained lib x value).spares.trans (spares_settle _ _)
  cases k with
  | start => exact hs
  | advance =>
    show Spares _ _ ((x.retain lib value).advanceObserved late).state
    unfold Sys.advanceObserved
    dsimp only
    split <;> exact hs

/-- Only a client is told that its schedule is invalid. -/
theorem spares_around {c : Choice} {lib : JsonLib} (HK : Core x) (hc : c.client = false)
    (h : x.step lib c = some y) : Spares .invalidSchedule x.state y.state := by
  cases c with
  | advance | finish | cleanup | destroy => cases hc
  | register i | wake i | user i c | stop i | arrive i | caught i | close i =>
    simp only [step, Option.ite_none_right_eq_some] at h
    exact (work_of_workerStep h.2).spares
  | cancel =>
    simp only [step, Option.ite_none_right_eq_some, Option.some.injEq] at h
    rw [← h.2]
    exact id
  | foreign i k checkpoint =>
    simp only [step, Option.ite_none_right_eq_some, Option.some.injEq] at h
    rw [← h.2]
    show Spares _ _ (x.state.arrive (.other k) i checkpoint).2
    rw [HK.misused]
    exact spares_fail (by decide) _ _
  | spawn refused =>
    simp only [step, Option.ite_none_right_eq_some, Option.some.injEq] at h
    rw [← h.2]
    cases refused with
    | none => exact id
    | some what => exact spares_fail (by decide) _ _
  | barrier late =>
    simp only [step, Option.ite_none_right_eq_some, Option.some.injEq] at h
    rw [← h.2]
    exact spares_settle _ _
  | observed value late =>
    simp only [step] at h
    split at h
    · rw [← Option.some.inj h]
      exact spares_observed _ _ _ _ _
    · cases h
  | permitted late =>
    simp only [step] at h
    split at h
    · simp only [Option.ite_none_right_eq_some, Option.some.injEq] at h
      rw [← h.2]
      exact spares_permitWake _ _ _ _
    · cases h
  | joined =>
    simp only [step] at h
    split at h
    · simp only [Option.ite_none_right_eq_some, Option.some.injEq] at h
      rw [← h.2]
      exact id
    · cases h
  | leave | destroyTorn =>
    simp only [step, Option.ite_none_right_eq_some, Option.some.injEq] at h
    rw [← h.2]
    exact id
  | enter =>
    simp only [step, Option.ite_none_right_eq_some, Option.some.injEq] at h
    rw [← h.2]
    unfold Sys.cleanup
    split
    · exact id
    · dsimp only
      split <;> exact id
  | cleanupWake late =>
    simp only [step, Option.ite_none_right_eq_some, Option.some.injEq] at h
    rw [← h.2]
    exact (scan x 0).spares _
  | cleanupJoined =>
    simp only [step] at h
    split at h
    · simp only [Option.ite_none_right_eq_some, Option.some.injEq] at h
      rw [← h.2]
      exact (scan _ _).spares _
    · cases h
  | cleanupTorn threw =>
    simp only [step, Option.ite_none_right_eq_some, Option.some.injEq] at h
    rw [← h.2]
    exact (wind_torn x threw h.1).spares _
  | destroyJoin =>
    simp only [step] at h
    split at h
    · simp only [Option.ite_none_right_eq_some, Option.some.injEq] at h
      rw [← h.2]
      exact id
    · cases h
  | destroyEnd =>
    simp only [step, Option.ite_none_right_eq_some, Option.some.injEq] at h
    rw [← h.2]
    exact (wind_destroyEnd x h.1.1 h.1.2).spares _

theorem spares_checkProgram (s : Shared) (p : Program) :
    Spares .invalidSchedule s (checkProgram s p) := by
  have h : ∀ {s : Shared} {c : Bool} (d : String),
      Spares .invalidSchedule s (if c then s else s.fail .applicationFailed d) := by
    intro s c d
    split
    · exact id
    · exact spares_fail (by decide) _ _
  have h' : ∀ {s : Shared} {c : Bool} (d : String),
      Spares .invalidSchedule s (if c then s.fail .applicationFailed d else s) := by
    intro s c d
    split
    · exact spares_fail (by decide) _ _
    · exact id
  unfold checkProgram
  dsimp only
  exact ((h _).trans (h' _)).trans (h _)

theorem outcome_admitted (o : Opening) (s : Shared) (impl : Impl)
    (hk : impl.constructed = false) (ho : s.report.outcome ≠ .invalidSchedule) :
    (admitted o s impl).impl.constructed = true →
      (admitted o s impl).state.report.outcome ≠ .invalidSchedule := by
  have hnot : ∀ {p : Prop}, impl.constructed = true → p := by
    intro p h
    rw [hk] at h
    cases h
  unfold admitted
  dsimp only
  split
  · exact hnot
  · split
    · exact hnot
    · exact hnot
    · rename_i program _
      intro _
      have hlate : ∀ (s : Shared), Spares .invalidSchedule s
          (if o.late then s.fail .timedOut "construction exceeded execution deadline" else s) := by
        intro s
        split
        · exact spares_fail (by decide) _ _
        · exact id
      have hstopped : ∀ (s : Shared), Spares .invalidSchedule s
          (if s.cancelled then s.fail .cancelled "cancelled during construction" else s) := by
        intro s
        split
        · exact spares_fail (by decide) _ _
        · exact id
      have hall := ((spares_checkProgram { s with
        actors := o.adapter.actors.map fun d => { declaration := d }
        checkpoints := o.adapter.checkpoints
        cancelled := o.stoppedDuring } program).trans (hstopped _)).trans (hlate _)
      exact fun he => ho (hall he)

/-- An execution that was built was not refused. -/
theorem outcome_start {lib : JsonScan} {o : Opening} :
    (start lib o).impl.constructed = true →
      (start lib o).state.report.outcome ≠ .invalidSchedule := by
  cases hA : admission lib o.schedule o.adapter o.policy o.reentrant with
  | ok u =>
    rw [start_of_admission hA]
    exact outcome_admitted o _ _ rfl (show Outcome.completed ≠ .invalidSchedule by decide)
  | error r =>
    unfold start
    rw [hA]
    exact nofun

/-! ## Flags that stay -/

theorem Move.initialized (HC : Course x) (h : Move x y) (hi : x.impl.initialized = true) :
    y.impl.initialized = true := by
  cases h with
  | work _ h =>
    rw [h.frame.2.1]
    exact hi
  | startObserved hctl =>
    rw [HC.opening (by rw [hctl]; rfl)] at hi
    cases hi
  | advanceObserved hctl h =>
    rw [← h.steady.1.initialized] at hi
    exact hi
  | wind h => exact h.wound.initialized.trans hi
  | _ => exact hi

theorem Move.shutting (HC : Course x) (h : Move x y)
    (hx : x.impl.closed = true ∨ x.ctl = .entering) : y.impl.closed = true ∨ y.ctl = .entering := by
  rcases hx with hc | hctl
  · left
    rcases h.plain with hp | hw | ⟨-, rfl⟩
    · exact hp.held.closed hc
    · exact hw.steady.1.closed.trans hc
    · exact hc
  · cases h with
    | work _ h => exact .inr (h.frame.2.2.trans hctl)
    | cancel | foreign => exact .inr hctl
    | close | clean => exact .inl rfl
    | badBudget _ hb =>
      have := (HC.admitted (HC.unclosed (.inr (.inr hctl))).2).budget
      rw [hb] at this
      cases this
    | wind h =>
      obtain ⟨-, ⟨he, -⟩ | ⟨he, -⟩⟩ := h.steady <;> rw [hctl] at he <;> cases he
    | stay h | refuse h | permit h | finish h | destroy h | spawn h | spawnRefused h
    | barrierFailed h | barrier h | startObserved h | advanceObserved h | wokenFailed h
    | wokenAstray h | wokenFinished h | wokenParked h | joined h | leave h =>
      rw [hctl] at h
      cases h

/-- Behind its last call a completed schedule stays completed. -/
theorem Move.completed (HC : Course x) (h : Move x y)
    (hx : x.impl.closed = true ∨ x.ctl = .entering)
    (hc : x.state.report.scheduleCompleted = true) :
    y.state.report.scheduleCompleted = true := by
  rcases h.plain with hp | hw | ⟨-, rfl⟩
  · rcases hp.completed with he | ⟨hctl, -⟩
    · exact he.trans hc
    · rcases hx with hx | hx
      · rw [(HC.unclosed (.inr (.inl (by rw [hctl]; rfl)))).1] at hx
        cases hx
      · rw [hctl] at hx
        cases hx
  · exact hw.steady.1.completed.trans hc
  · exact hc

end Sys

/-! ## The client -/

namespace ScheduleRun

open Sys Shared

variable {lib : JsonScan} {d d' : ScheduleRun}

/-- What holds while `run_schedule` runs, and behind it. -/
structure Paced (d : ScheduleRun) : Prop where
  unclosed : d.point = .starting ∨ d.point = .looping →
    d.execution.impl.closed = true ∨ d.execution.ctl = .entering → d.execution.state.failed = true
  misled : d.point = .starting ∨ d.point = .looping → d.execution.Waits →
    d.execution.state.failed = true → d.execution.state.report.outcome = .uncontrolledActor
  fresh : d.point = .starting → d.execution.state.failed = false → d.execution.asked = 0
  looping : d.point = .looping → d.execution.impl.initialized = true ∧
    (d.execution.state.failed = false →
      d.rest = d.execution.impl.schedule.steps.drop d.execution.asked)
  finishing : d.point = .finishing →
    (d.execution.impl.closed = true ∨ d.execution.ctl = .entering) ∧
    (d.execution.state.failed = false → d.execution.state.report.scheduleCompleted = true)
  returned : d.point = .returned → d.execution.ctl = .idle ∧
    (d.execution.impl.constructed = true → d.execution.impl.closed = true) ∧
    (d.execution.state.failed = false → d.execution.state.report.scheduleCompleted = true)
  threw : d.point = .threw → d.execution.state.report.outcome = .uncontrolledActor
  admitted : d.execution.impl.constructed = true →
    d.execution.state.report.outcome ≠ .invalidSchedule

/-- A statement of `run_schedule` is a call of the execution, or none. -/
theorem go_execution (lib : JsonLib) {late : Bool} (hctl : d.execution.ctl = .idle) :
    (d.go late).execution = d.execution ∨
      ∃ c, d.execution.step lib c = some (d.go late).execution := by
  have hfinish : d.execution.step lib .finish = some d.execution.finish := if_pos hctl
  unfold go
  split
  · split <;> exact .inl rfl
  · split
    · exact .inr ⟨_, hfinish⟩
    · rename_i st rest _
      split
      · exact .inr ⟨_, hfinish⟩
      · split
        · exact .inr ⟨.destroy, if_pos hctl⟩
        · exact .inr ⟨.advance st late, if_pos hctl⟩
  · exact .inl rfl
  · exact .inl rfl
  · exact .inl rfl

/-- The execution of a run is an execution. -/
theorem reach_execution (h : (runSchedule lib).Reach d) : (lts lib).Reach d.execution := by
  refine h.inv (P := fun d => (lts lib).Reach d.execution) ?_ fun d a d' H _ hs => ?_
  · rintro _ ⟨o, rfl⟩
    exact .init ⟨o, rfl⟩
  · have hs : ScheduleRun.step lib.toJsonLib d a = some d' := hs
    cases a with
    | go late =>
      simp only [ScheduleRun.step, Option.ite_none_right_eq_some, Option.some.injEq] at hs
      obtain ⟨⟨hctl, -⟩, rfl⟩ := hs
      rcases @go_execution d lib.toJsonLib late hctl with he | ⟨c, hc⟩
      · rw [he]
        exact H
      · exact H.step trivial hc
    | around c =>
      simp only [ScheduleRun.step] at hs
      split at hs
      · cases hs
      · obtain ⟨y, hy, rfl⟩ := Option.map_eq_some_iff.mp hs
        exact H.step trivial hy

theorem paced_start (o : Opening) : Paced { execution := start lib o } := by
  have hi := initial_start lib o
  have hinit : (start lib o).impl.initialized = false := by rw [hi.impl]
  have hclosed : (start lib o).impl.closed = false := by rw [hi.impl]
  refine ⟨fun _ h => ?_, fun _ hw => ?_, fun _ _ => ?_, nofun, nofun, nofun, nofun, outcome_start⟩
  · rcases h with h | h
    · have h : (start lib o).impl.closed = true := h
      rw [hclosed] at h
      cases h
    · have h : (start lib o).ctl = .entering := h
      rcases hi.start with ⟨hc, -⟩ | ⟨-, hf, -⟩ | ⟨hc, -⟩
      · rw [h] at hc; cases hc
      · exact hf
      · rw [h] at hc; cases hc
  · have hw : (start lib o).impl.initialized = true := hw.2.2
    rw [hinit] at hw
    cases hw
  · have hn : (start lib o).impl.nextStep = 0 := by rw [hi.impl]
    show (start lib o).asked = 0
    rw [asked, hn]
    rcases hi.start with ⟨hc, -⟩ | ⟨hc, -⟩ | ⟨hc, -⟩ <;> rw [hc] <;> rfl

theorem Paced.around {c : Choice} {y : Sys} (hr : (lts lib).Reach d.execution) (H : Paced d)
    (hc : c.client = false) (hs : d.execution.step lib.toJsonLib c = some y) :
    Paced { d with execution := y } := by
  have HC := Course.reach hr
  have HK := Core.reach hr
  have hm := move_of_step hs
  have hfix := hm.fixed
  have hlive : y.state.failed = false → d.execution.state.failed = false := fun hf => by
    rcases hm.blame with ⟨he, -⟩ | ⟨he, -⟩
    · exact he ▸ hf
    · exact he
  have hfailed : d.execution.state.failed = true → y.state.failed = true ∧
      y.state.report.outcome = d.execution.state.report.outcome := fun hf => by
    rcases hm.blame with ⟨he, ho, -⟩ | ⟨he, -⟩
    · exact ⟨he.trans hf, ho⟩
    · rw [hf] at he; cases he
  refine ⟨fun hp hy => ?_, fun hp hw hf => ?_, fun hp hf => ?_, fun hp => ?_, fun hp => ?_,
    fun hp => ?_, fun hp => ?_, fun hk => ?_⟩
  · rcases closed_around HC hc hs hy with hx | hf
    · exact (hfailed (H.unclosed hp hx)).1
    · exact hf
  · rcases waits_step HC HK (.reach hr) hc hs hw hf with ⟨hx, hfx, ho⟩ | ⟨-, ho⟩
    · exact ho.trans (H.misled hp hx hfx)
    · exact ho
  · exact (asked_around hc hs hf).trans (H.fresh hp (hlive hf))
  · obtain ⟨hi, hrest⟩ := H.looping hp
    refine ⟨hm.initialized HC hi, fun hf => ?_⟩
    show d.rest = y.impl.schedule.steps.drop y.asked
    rw [hfix.schedule, asked_around hc hs hf]
    exact hrest (hlive hf)
  · obtain ⟨hx, hcompleted⟩ := H.finishing hp
    exact ⟨hm.shutting HC hx, fun hf => hm.completed HC hx (hcompleted (hlive hf))⟩
  · obtain ⟨hctl, hcl, hcompleted⟩ := H.returned hp
    obtain ⟨hctl', hi, hsame, -⟩ := idle_around hctl hc hs
    refine ⟨hctl', ?_, fun hf => hsame.trans (hcompleted (hlive hf))⟩
    show y.impl.constructed = true → y.impl.closed = true
    rw [hi]
    exact hcl
  · have ho := H.threw hp
    have hf : d.execution.state.failed = true := (failed_iff hr).mpr (by rw [ho]; decide)
    exact (hfailed hf).2.trans ho
  · exact fun he => H.admitted (hfix.constructed ▸ hk) (spares_around HK hc hs he)

/-- `run_schedule` calls `finish` behind a failure or the whole schedule. -/
theorem Paced.finish (hr : (lts lib).Reach d.execution) (H : Paced d)
    (hctl : d.execution.ctl = .idle) (hp : d.point = .looping)
    (hend : d.execution.impl.closed = true ∨ d.rest = []) :
    Paced { d with execution := d.execution.finish, point := .finishing } := by
  obtain ⟨hinit, hrest⟩ := H.looping hp
  have hk := (Course.reach hr).built hinit
  cases hcl : d.execution.impl.closed with
  | true =>
    have he : d.execution.finish = d.execution := by
      unfold Sys.finish
      rw [hcl]
      rfl
    rw [he]
    have hfailed := H.unclosed (.inr hp) (.inl hcl)
    refine ⟨nofun, nofun, nofun, nofun, fun _ => ⟨.inl hcl, fun hf => ?_⟩, nofun, nofun, H.admitted⟩
    rw [hfailed] at hf
    cases hf
  | false =>
    have hnil := hend.resolve_left (by rw [hcl]; decide)
    have hcompleted : d.execution.state.failed = false →
        d.execution.state.report.scheduleCompleted = true := by
      intro hf
      refine Counted.reach hr hf hinit hcl (.inl hctl) (Nat.le_antisymm (nextStep_le hr hf) ?_)
      have h := hrest hf
      rw [hnil, asked, hctl] at h
      exact List.drop_eq_nil_iff.mp h.symm
    have he : d.execution.finish = { d.execution with ctl := .entering } := by
      have hs : (if !d.execution.impl.initialized ||
            !d.execution.state.report.scheduleCompleted then
          d.execution.state.fail .invalidSchedule "finish requires the complete admitted schedule"
          else d.execution.state) = d.execution.state := by
        cases hf : d.execution.state.failed with
        | true =>
          rw [fail_of_failed hf]
          exact ite_self _
        | false => rw [hinit, hcompleted hf]; rfl
      unfold Sys.finish
      rw [hs, hcl, hk]
      rfl
    rw [he]
    exact ⟨nofun, nofun, nofun, nofun, fun _ => ⟨.inr rfl, hcompleted⟩, nofun, nofun, H.admitted⟩

/-- Its steps are refused for a stop request or the deadline alone. -/
theorem Paced.advance {late : Bool} {st : Step} {rest : List Step} (H : Paced d)
    (hctl : d.execution.ctl = .idle) (hp : d.point = .looping) (hrest : d.rest = st :: rest)
    (hc : d.execution.cannotAdvance = false) :
    Paced { d with execution := d.execution.advance st late, rest } := by
  obtain ⟨hinit, hcl, hf, -⟩ := cannotAdvance_false hc
  have hdrop : st :: rest = d.execution.impl.schedule.steps.drop d.execution.impl.nextStep := by
    have h := (H.looping hp).2 hf
    rw [hrest, asked, hctl] at h
    exact h
  have hnext : d.execution.impl.schedule.steps[d.execution.impl.nextStep]? = some st := by
    have h := congrArg List.head? hdrop
    rw [List.head?_drop] at h
    exact h.symm
  have hnot : ∀ s, d.point = .starting → s := fun _ h => by rw [hp] at h; cases h
  unfold Sys.advance
  rw [if_neg (by rw [hc]; decide)]
  cases hrefusal : d.execution.refusal st late with
  | some r =>
    obtain ⟨o, detail⟩ := r
    have ho : o ≠ .invalidSchedule := by
      rintro rfl
      unfold refusal at hrefusal
      repeat' split at hrefusal
      all_goals first | (rename_i h; exact absurd hnext h) | cases hrefusal
    refine ⟨fun _ _ => failed_fail _ _ _, fun _ hw => ?_, hnot _, fun _ => ⟨hinit, fun hf => ?_⟩,
      ?_, ?_, ?_, fun hk he => H.admitted hk (spares_fail ho _ _ he)⟩
    · have hw : Ctl.returning = .idle := hw.1
      cases hw
    · have hf : (d.execution.state.fail o detail).failed = false := hf
      rw [failed_fail] at hf
      cases hf
    all_goals
      intro h
      rw [show d.point = _ from h] at hp
      cases hp
  | none =>
    refine ⟨fun _ h => ?_, fun _ hw => ?_, hnot _, fun _ => ⟨hinit, fun _ => ?_⟩, ?_, ?_, ?_,
      H.admitted⟩
    · rcases h with h | h
      · have h : d.execution.impl.closed = true := h
        rw [hcl] at h
        cases h
      · cases h
    · have hw := hw.1
      cases hw
    · show rest = d.execution.impl.schedule.steps.drop (d.execution.impl.nextStep + 1)
      rw [← List.drop_drop, ← hdrop]
      rfl
    all_goals
      intro h
      rw [show d.point = _ from h] at hp
      cases hp

/-- Where `advance` throws the schedule is not behind: a foreign thread has failed it. -/
theorem Paced.blocked {st : Step} {rest : List Step} (hr : (lts lib).Reach d.execution)
    (H : Paced d) (hctl : d.execution.ctl = .idle) (hp : d.point = .looping)
    (hrest : d.rest = st :: rest) (hcl : d.execution.impl.closed = false)
    (hc : d.execution.cannotAdvance = true) :
    d.execution.Waits ∧ d.execution.state.failed = true := by
  obtain ⟨hinit, hdrop⟩ := H.looping hp
  refine ⟨⟨hctl, hcl, hinit⟩, ?_⟩
  cases hf : d.execution.state.failed with
  | true => rfl
  | false =>
    have hdone : d.execution.state.report.scheduleCompleted = true := by
      simpa [cannotAdvance, hinit, hcl, hf] using hc
    have h := hdrop hf
    rw [asked, hctl, (Completed.reach hr).steps hdone, hrest] at h
    have hnil : st :: rest = [] := h.trans (List.drop_length ..)
    cases hnil

theorem Paced.go {late : Bool} (hr : (lts lib).Reach d.execution) (H : Paced d)
    (hctl : d.execution.ctl = .idle) : Paced (d.go late) := by
  have HC := Course.reach hr
  unfold ScheduleRun.go
  split
  · rename_i hp
    split
    · rename_i hinit
      have hinit : d.execution.impl.initialized = false := by simpa using hinit
      have hclosed : d.execution.impl.constructed = true → d.execution.impl.closed = true := by
        intro hk
        cases hcl : d.execution.impl.closed with
        | true => rfl
        | false =>
          rw [HC.waiting hctl hcl hk] at hinit
          cases hinit
      refine ⟨nofun, nofun, nofun, nofun, nofun, fun _ => ⟨hctl, hclosed, fun hf => ?_⟩, nofun,
        H.admitted⟩
      have hf : d.execution.state.failed = false := hf
      rw [H.unclosed (.inl hp) (.inl (hclosed (teardown_of_live hr hf).1))] at hf
      cases hf
    · rename_i hinit
      have hinit : d.execution.impl.initialized = true := by simpa using hinit
      refine ⟨fun _ => H.unclosed (.inl hp), fun _ => H.misled (.inl hp), nofun,
        fun _ => ⟨hinit, fun hf => ?_⟩, nofun, nofun, nofun, H.admitted⟩
      show _ = d.execution.impl.schedule.steps.drop d.execution.asked
      rw [H.fresh hp hf]
      rfl
  · rename_i hp
    split
    · rename_i hrest
      exact H.finish hr hctl hp (.inr hrest)
    · rename_i st rest hrest
      split
      · rename_i hcl
        exact H.finish hr hctl hp (.inl hcl)
      · rename_i hcl
        have hcl : d.execution.impl.closed = false := by simpa using hcl
        split
        · rename_i hc
          obtain ⟨hw, hf⟩ := H.blocked hr hctl hp hrest hcl hc
          have ho := H.misled (.inr hp) hw hf
          exact ⟨nofun, nofun, nofun, nofun, nofun, nofun, fun _ => ho, H.admitted⟩
        · rename_i hc
          exact H.advance hctl hp hrest (by simpa using hc)
  · rename_i hp
    obtain ⟨hx, hcompleted⟩ := H.finishing hp
    refine ⟨nofun, nofun, nofun, nofun, nofun, fun _ => ⟨hctl, fun _ => ?_, hcompleted⟩, nofun,
      H.admitted⟩
    rcases hx with hx | hx
    · exact hx
    · rw [hctl] at hx
      cases hx
  · exact H
  · exact H

theorem Paced.step {a : Act} (hr : (runSchedule lib).Reach d) (H : Paced d)
    (hs : d.step lib.toJsonLib a = some d') : Paced d' := by
  have hx := reach_execution hr
  cases a with
  | go late =>
    simp only [ScheduleRun.step, Option.ite_none_right_eq_some, Option.some.injEq] at hs
    obtain ⟨⟨hctl, -⟩, rfl⟩ := hs
    exact H.go hx hctl
  | around c =>
    simp only [ScheduleRun.step] at hs
    split at hs
    · cases hs
    · rename_i hc
      obtain ⟨y, hy, rfl⟩ := Option.map_eq_some_iff.mp hs
      exact H.around hx (by simpa using hc) hy

theorem Paced.reach (h : (runSchedule lib).Reach d) : Paced d := by
  refine h.inv_of (Q := (runSchedule lib).Reach) (fun _ h => h) ?_ fun _ _ _ hr H _ hs =>
    H.step hr hs
  rintro _ ⟨o, rfl⟩
  exact paced_start o

/-- **What `run_schedule` returns.** Its execution is closed and has been cleaned up, unless it was
not built; it has played the whole schedule, logged and observed, unless it names a failure; and it
passes where neither the run nor the cleanup failed. That the schedule is invalid it is told by the
admission alone. -/
theorem runSchedule_returns (h : (runSchedule lib).Reach d) (hp : d.point = .returned) :
    d.execution.ctl = .idle ∧
    (d.execution.impl.constructed = true → d.execution.impl.closed = true ∧
      d.execution.state.report.cleanup ≠ .notStarted ∧
      d.execution.state.report.outcome ≠ .invalidSchedule) ∧
    (d.execution.state.report.outcome = .completed →
      d.execution.state.report.scheduleCompleted = true ∧ d.execution.Played) ∧
    (d.execution.state.report.passed = true ↔ d.execution.state.report.outcome = .completed ∧
      d.execution.state.report.cleanup = .confirmed) := by
  have hr := reach_execution h
  have H := Paced.reach h
  obtain ⟨hctl, hcl, hcompleted⟩ := H.returned hp
  have hdone : d.execution.state.report.outcome = .completed →
      d.execution.state.report.scheduleCompleted = true := fun ho =>
    hcompleted (live_of_completed hr ho)
  refine ⟨hctl, fun hk => ⟨hcl hk, ?_, H.admitted hk⟩,
    fun ho => ⟨hdone ho, played_of_completed hr ho (hdone ho)⟩, ?_⟩
  · rcases Swept.reach hr (hcl hk) hk with hc | hc | hc
    · exact hc
    · rw [hctl] at hc; cases hc
    · rw [hctl] at hc; cases hc
  · simp only [Report.passed, Bool.and_eq_true, beq_iff_eq]
    exact ⟨fun h => ⟨h.1.1, h.2⟩, fun h => ⟨⟨h.1, hdone h.1⟩, h.2⟩⟩

/-- Steps of the execution between two of `run_schedule`. -/
def between (cs : List Choice) : List Act := cs.map .around

/-- A worker goes from its hook to its end, and the controller takes and observes that. -/
def ending (i : Nat) : List Choice :=
  [.wake i, .user i .return_, .close i, .permitted false, .joined, .observed (.ok .null) false,
    .leave]

/-- `run_schedule` on the schedule of two actors. -/
def sampleActs : List Act :=
  between openingSteps ++ [.go false, .go false] ++
    between [.wake 0, .user 0 (.arrive "c"), .arrive 0, .permitted false,
      .observed (.ok .null) false, .leave] ++ [.go false] ++
    between (ending 1) ++ [.go false] ++ between (ending 0) ++ [.go false] ++
    between [.enter, .cleanupWake false, .cleanupTorn none] ++ [.go false]

def sampleExec (acts : List Act) : Option ScheduleRun :=
  (runSchedule sampleLib).exec (fun _ _ => true) acts { execution := sampleStart }

theorem sampleExec_reach {acts : List Act} (h : sampleExec acts = some d) :
    (runSchedule sampleLib).Reach d := by
  refine .exec (fun _ _ _ => trivial) (.init ⟨sampleOpening, ?_⟩) h
  rw [start_sample]

theorem sampleActs_returned : (sampleExec sampleActs).map (fun d =>
    (d.point, d.execution.state.report.outcome, d.execution.state.report.cleanup)) =
      some (.returned, .completed, .confirmed) := by decide +kernel

theorem runSchedule_returns_sample : ∃ d : ScheduleRun, (runSchedule sampleLib).Reach d ∧
    d.execution.state.report.passed = true ∧ d.execution.Played := by
  obtain ⟨d, hd, e⟩ := Option.map_eq_some_iff.mp sampleActs_returned
  simp only [Prod.mk.injEq] at e
  obtain ⟨hp, ho, hc⟩ := e
  obtain ⟨-, -, hplayed, hpassed⟩ := runSchedule_returns (sampleExec_reach hd) hp
  exact ⟨d, sampleExec_reach hd, hpassed.mpr ⟨ho, hc⟩, (hplayed ho).2⟩

/-- No foreign thread calls a hook here. -/
def Owned (_ : ScheduleRun) (a : Act) : Prop :=
  ∀ i k checkpoint, a ≠ .around (.foreign i k checkpoint)

/-- Without foreign calls an execution that waits for `run_schedule` lives. -/
structure Undisturbed (d : ScheduleRun) : Prop where
  waits : d.point = .starting ∨ d.point = .looping → d.execution.Waits →
    d.execution.state.failed = false
  point : d.point ≠ .threw

theorem advance_ctl {x : Sys} {st : Step} {late : Bool} (hc : x.cannotAdvance = false) :
    (x.advance st late).ctl ≠ .idle := by
  unfold Sys.advance
  rw [if_neg (by rw [hc]; decide)]
  split <;> exact nofun

theorem Undisturbed.away (hp : d.point = .finishing ∨ d.point = .returned) : Undisturbed d := by
  refine ⟨fun h => ?_, fun h => ?_⟩
  · rcases hp with hp | hp <;> rcases h with h | h <;> rw [hp] at h <;> cases h
  · rcases hp with hp | hp <;> rw [hp] at h <;> cases h

theorem Undisturbed.go {late : Bool} (hr : (runSchedule lib).Reach d) (H : Undisturbed d)
    (hctl : d.execution.ctl = .idle) : Undisturbed (d.go late) := by
  unfold ScheduleRun.go
  split
  · rename_i hp
    split
    · exact .away (.inr rfl)
    · exact ⟨fun _ => H.waits (.inl hp), nofun⟩
  · rename_i hp
    split
    · exact .away (.inl rfl)
    · rename_i st rest hrest
      split
      · exact .away (.inl rfl)
      · rename_i hcl
        split
        · rename_i hc
          obtain ⟨hw, hf⟩ := (Paced.reach hr).blocked (reach_execution hr) hctl hp hrest
            (by simpa using hcl) hc
          rw [H.waits (.inr hp) hw] at hf
          cases hf
        · rename_i hc
          refine ⟨fun _ hw => absurd hw.1 (advance_ctl (by simpa using hc)), ?_⟩
          show d.point ≠ .threw
          rw [hp]
          decide
  · exact .away (.inr rfl)
  · exact H
  · exact H

theorem Undisturbed.step {a : Act} (hr : (runSchedule lib).Reach d) (H : Undisturbed d)
    (ha : Owned d a) (hs : d.step lib.toJsonLib a = some d') : Undisturbed d' := by
  have hx := reach_execution hr
  cases a with
  | go late =>
    simp only [ScheduleRun.step, Option.ite_none_right_eq_some, Option.some.injEq] at hs
    obtain ⟨⟨hctl, -⟩, rfl⟩ := hs
    exact H.go hr hctl
  | around c =>
    simp only [ScheduleRun.step] at hs
    split at hs
    · cases hs
    · rename_i hc
      obtain ⟨y, hy, rfl⟩ := Option.map_eq_some_iff.mp hs
      refine ⟨fun hp hw => ?_, H.point⟩
      cases hf : y.state.failed with
      | false => rfl
      | true =>
        rcases waits_step (.reach hx) (.reach hx) (.reach hx) (by simpa using hc) hy hw hf with
          ⟨hwx, hfx, -⟩ | ⟨⟨i, k, checkpoint, rfl⟩, -⟩
        · rw [H.waits hp hwx] at hfx
          cases hfx
        · exact absurd rfl (ha i k checkpoint)

theorem Undisturbed.reach (h : (runSchedule lib).ReachBy Owned d) : Undisturbed d := by
  refine h.inv_of (Q := (runSchedule lib).Reach) (fun _ h => h.reach) ?_
    fun _ _ _ hr H ha hs => H.step hr ha hs
  rintro _ ⟨o, rfl⟩
  refine ⟨fun _ hw => ?_, nofun⟩
  have hw : (start lib o).impl.initialized = true := hw.2.2
  rw [(initial_start lib o).impl] at hw
  cases hw

/-- **When `run_schedule` throws.** A foreign thread has failed the execution through a hook,
between two of its calls; where none does, it never throws. -/
theorem runSchedule_throws :
    ((runSchedule lib).Reach d → d.point = .threw →
      d.execution.state.report.outcome = .uncontrolledActor) ∧
    ((runSchedule lib).ReachBy Owned d → d.point ≠ .threw) :=
  ⟨fun h => (Paced.reach h).threw, fun h => (Undisturbed.reach h).point⟩

/-- A foreign thread calls the hook of `a` before the first step. -/
def disturbedActs : List Act :=
  between openingSteps ++ [.go false, .around (.foreign 0 0 "c"), .go false]

theorem disturbedActs_threw : (sampleExec disturbedActs).map point = some .threw := by
  decide +kernel

theorem runSchedule_throws_sample : ∃ d : ScheduleRun, d.point = .threw ∧
    d.execution.state.report.outcome = .uncontrolledActor ∧
      ¬(runSchedule sampleLib).ReachBy Owned d := by
  obtain ⟨d, hd, hp⟩ := Option.map_eq_some_iff.mp disturbedActs_threw
  exact ⟨d, hp, runSchedule_throws.1 (sampleExec_reach hd) hp,
    fun h => runSchedule_throws.2 h hp⟩

end ScheduleRun

end MirrorCpp.Schedule
