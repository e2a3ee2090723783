import MirrorCpp.Lib.Settling
import MirrorCpp.Schedule.RunSchedule

/-!
# Deterministic programs under `run_schedule`

`App` is a program whose workers and observer are functions of their own state, of what their
calls gave them and of the state they share; `Config` is one of its executions in `run_schedule`.
`Mover` picks the party whose critical section is next: no stop is requested, no deadline of
`start` or `advance` passes, threads are created and no foreign thread calls a hook. What the
deadline and the teardown of the final cleanup do is left open. Behind the initial barrier an
execution that has neither failed nor been closed has one party to pick (`turn`).
-/

namespace MirrorCpp.Schedule

universe u v

/-- User code: worker `i` from what its last call gave it to its next call, and the observer. -/
structure App (L : Type u) (S : Type v) where
  next : Nat → Ret → L → S → Call × L × S
  observe : S → Except Thrown Json × S

/-- Whose critical section comes next. -/
inductive Mover where
  | client
  | spawn
  | barrier
  | observed
  | permitted
  | joined
  | leave
  | enter
  | cleanupWake (late : Bool)
  | cleanupJoined
  | cleanupTorn (threw : Option Thrown)
  | worker (i : Nat)

structure Config (L : Type u) (S : Type v) where
  run : ScheduleRun
  locals : Nat → L
  shared : S

namespace Config

variable {L : Type u} {S : Type v}

abbrev sys (k : Config L S) : Sys := k.run.execution

end Config

namespace App

variable {L : Type u} {S : Type v} (app : App L S)

/-- The next section of worker `i`. -/
def workerChoice (k : Config L S) (i : Nat) : Option Choice :=
  match k.sys.pc i with
  | .unborn => none
  | .born => some (.register i)
  | .waiting _ => some (.wake i)
  | .user r => some (.user i (app.next i r (k.locals i) k.shared).1)
  | .arriving _ => some (.arrive i)
  | .asking => some (.stop i)
  | .caught _ => some (.caught i)
  | .closing => some (.close i)
  | .closed => none

/-- What the party does. -/
def choice (k : Config L S) : Mover → Option ScheduleRun.Act
  | .client => some (.go false)
  | .spawn => some (.around (.spawn none))
  | .barrier => some (.around (.barrier false))
  | .observed => some (.around (.observed (app.observe k.shared).1 false))
  | .permitted => some (.around (.permitted false))
  | .joined => some (.around .joined)
  | .leave => some (.around .leave)
  | .enter => some (.around .enter)
  | .cleanupWake late => some (.around (.cleanupWake late))
  | .cleanupJoined => some (.around .cleanupJoined)
  | .cleanupTorn threw => some (.around (.cleanupTorn threw))
  | .worker i => (app.workerChoice k i).map .around

/-- The effect on the program's own state. -/
def play (k : Config L S) (d : ScheduleRun) : Mover → Config L S
  | .observed => { k with run := d, shared := (app.observe k.shared).2 }
  | .worker i =>
    match k.sys.pc i with
    | .user r =>
      let (_, l, s) := app.next i r (k.locals i) k.shared
      { run := d, locals := Function.update k.locals i l, shared := s }
    | _ => { k with run := d }
  | _ => { k with run := d }

def step (lib : JsonLib) (k : Config L S) (m : Mover) : Option (Config L S) :=
  (app.choice k m).bind fun a => (k.run.step lib a).map fun d => app.play k d m

/-- `run_schedule` behind the factory, with the state the factory left. -/
def start (lib : JsonScan) (o : Sys.Opening) (locals : Nat → L) (shared : S) : Config L S :=
  ⟨{ execution := Sys.start lib o }, locals, shared⟩

/-- The executions of `app` from `k`, under every interleaving. -/
def lts (lib : JsonScan) (k : Config L S) : Lts (Config L S) Mover where
  init := (· = k)
  step := app.step lib.toJsonLib

variable {app : App L S} {lib : JsonScan} {k k' k₀ : Config L S} {m : Mover}

theorem run_play (k : Config L S) (d : ScheduleRun) (m : Mover) : (app.play k d m).run = d := by
  unfold play
  split
  · rfl
  · split <;> rfl
  · rfl

/-- Outside user code the program's state is left alone. -/
theorem play_hook {d : ScheduleRun} {i : Nat} (h : ∀ r, k.sys.pc i ≠ .user r) :
    app.play k d (.worker i) = { k with run := d } := by
  unfold play
  dsimp only
  split
  · exact absurd ‹_› (h _)
  · rfl

theorem step_cases {lib : JsonLib} (h : app.step lib k m = some k') :
    ∃ a, app.choice k m = some a ∧ k.run.step lib a = some k'.run ∧ k' = app.play k k'.run m := by
  obtain ⟨a, ha, h⟩ := Option.bind_eq_some_iff.mp h
  obtain ⟨d, hd, rfl⟩ := Option.map_eq_some_iff.mp h
  exact ⟨a, ha, by rw [run_play]; exact hd, by rw [run_play]⟩

end App

namespace Sys

/-- A section around `run_schedule` that a mover makes. -/
inductive Moved (lib : JsonLib) (x : Sys) : Mover → Sys → Prop where
  | spawn (hctl : x.ctl = .spawning) : Moved lib x .spawn (x.spawn none)
  | barrier (hctl : x.ctl = .barrier) (hw : waitOver x.state x.state.allParked false = true) :
      Moved lib x .barrier (x.passBarrier false)
  | observed {c : Caller} {value : Except Thrown Json} (hctl : x.ctl = .observer c) :
      Moved lib x .observed (x.observed lib c value false)
  | permitted {i : Nat} {e : String} (hctl : x.ctl = .permitted i e)
      (hw : waitOver x.state ((x.state.actor i).phase != .running) false = true) :
      Moved lib x .permitted (x.permitWake i e false)
  | joined {i : Nat} (hctl : x.ctl = .joining i) (hpc : x.pc i = .closed) :
      Moved lib x .joined (x.advanceJoined i)
  | leave (hctl : x.ctl = .returning) :
      Moved lib x .leave { x with ctl := if x.state.failed then .entering else .idle }
  | enter (hctl : x.ctl = .entering) :
      Moved lib x .enter (x.cleanup x.impl.policy.cleanupTimeout)
  | sweep {m : Mover} {y : Sys} (hctl : x.ctl.ending = true) (h : Wind x y) : Moved lib x m y
  | worker {i : Nat} {y : Sys} (hi : i < x.pcs.length) (h : Work x i y) :
      Moved lib x (.worker i) y

end Sys

/-- In the thread loop of `start` or at the barrier behind it. -/
def Ctl.outset : Ctl → Bool
  | .spawning | .barrier => true
  | _ => false

theorem Ctl.ending_only {c : Ctl} (h : c.ending = true) : c.gone = false ∧ c.outset = false := by
  cases c <;> first | exact ⟨rfl, rfl⟩ | cases h

namespace Sys

open Shared

variable {x y : Sys} {lib : JsonLib} {m : Mover} {i : Nat}

theorem Move.closed (h : Move x y) (hc : x.impl.closed = true) : y.impl.closed = true := by
  rcases h.plain with hp | hw | ⟨-, rfl⟩
  · exact hp.held.closed hc
  · exact hw.steady.1.closed.trans hc
  · exact hc

theorem cancelled_fail (s : Shared) (o : Outcome) (d : String) :
    (s.fail o d).cancelled = s.cancelled := by
  unfold fail
  split <;> rfl

theorem cancelled_recordArrival (s : Shared) (n i : Nat) :
    (recordArrival s n i).cancelled = s.cancelled := by
  unfold recordArrival
  dsimp only
  split <;> rfl

theorem cancelled_permitWake (x : Sys) (i : Nat) (e : String) (late : Bool) :
    (x.permitWake i e late).state.cancelled = x.state.cancelled := by
  have hs : (recordArrival (x.state.settle late) x.impl.nextStep i).cancelled =
      x.state.cancelled := (cancelled_recordArrival _ _ _).trans (judged_settle _ _).cancelled
  unfold permitWake
  generalize recordArrival (x.state.settle late) x.impl.nextStep i = s at hs
  dsimp only
  split
  · exact hs
  · split
    · exact (cancelled_fail _ _ _).trans hs
    · split <;> exact hs

theorem Retained.cancelled (h : Retained x y) : y.state.cancelled = x.state.cancelled := by
  cases h with
  | failed => exact cancelled_fail _ _ _
  | kept => rfl

theorem cancelled_observed (x : Sys) (c : Caller) (value : Except Thrown Json) (late : Bool) :
    (x.observed lib c value late).state.cancelled = x.state.cancelled := by
  have hs : ((x.retain lib value).state.settle late).cancelled = x.state.cancelled :=
    (judged_settle _ _).cancelled.trans (retained lib x value).cancelled
  cases c with
  | start => exact hs
  | advance =>
    unfold observed advanceObserved
    generalize (x.retain lib value).state.settle late = s at hs
    dsimp only
    split <;> exact hs

theorem Scan.cancelled (h : Scan x y) : y.state.cancelled = x.state.cancelled := by
  cases h with
  | tear => rw [state_callTeardown]
  | _ => rfl

theorem Moved.move (h : Moved lib x m y) : Move x y := by
  cases h with
  | spawn hctl => exact .spawn hctl
  | barrier hctl hw => exact move_passBarrier x false hctl hw
  | @observed c value hctl =>
    cases c with
    | start => exact .startObserved hctl (retained lib x value)
    | advance => exact .advanceObserved hctl (retained lib x value)
  | permitted hctl hw => exact move_permitWake x _ _ false hctl hw
  | joined hctl hpc => exact .joined hctl hpc
  | leave hctl => exact .leave hctl
  | enter hctl => exact move_cleanup x _ (.inr hctl) fun _ => rfl
  | sweep _ h => exact .wind h
  | worker hi h => exact .work hi h

/-- Only `cleanup` cancels. -/
theorem Moved.cancelled (h : Moved lib x m y) :
    y.state.cancelled = x.state.cancelled ∨ y.impl.closed = true := by
  cases h with
  | spawn | joined | leave => exact .inl rfl
  | barrier => exact .inl (judged_settle _ _).cancelled
  | observed => exact .inl (cancelled_observed _ _ _ _)
  | permitted => exact .inl (cancelled_permitWake _ _ _ _)
  | enter =>
    unfold cleanup
    split
    · exact .inl rfl
    · dsimp only
      split <;> exact .inr rfl
  | sweep _ h =>
    left
    cases h with
    | wake _ h => exact h.cancelled
    | joined _ _ h => exact h.cancelled
    | destroyTear => rw [state_callTeardown]
    | _ => rfl
  | worker _ h =>
    obtain ⟨s, ps, rfl, hj⟩ := h.judged
    exact .inl hj.cancelled

/-- The sections around the client do not destroy the execution, and start no threads behind the
barrier. -/
theorem Moved.places (h : Moved lib x m y) :
    (x.ctl.gone = false → y.ctl.gone = false) ∧ (x.ctl.outset = false → y.ctl.outset = false) := by
  cases h with
  | spawn hctl =>
    refine ⟨fun _ => ?_, fun hx => by rw [hctl] at hx; cases hx⟩
    unfold Sys.spawn
    dsimp only
    split <;> rfl
  | barrier =>
    unfold passBarrier
    dsimp only
    split <;> exact ⟨fun _ => rfl, fun _ => rfl⟩
  | @observed c =>
    cases c with
    | start =>
      unfold Sys.observed startObserved
      dsimp only
      split <;> exact ⟨fun _ => rfl, fun _ => rfl⟩
    | advance => exact ⟨fun _ => rfl, fun _ => rfl⟩
  | permitted =>
    unfold permitWake
    dsimp only
    split
    · exact ⟨fun _ => rfl, fun _ => rfl⟩
    · split
      · exact ⟨fun _ => rfl, fun _ => rfl⟩
      · split <;> exact ⟨fun _ => rfl, fun _ => rfl⟩
  | joined => exact ⟨fun _ => rfl, fun _ => rfl⟩
  | leave =>
    dsimp only
    split <;> exact ⟨fun _ => rfl, fun _ => rfl⟩
  | enter =>
    unfold cleanup
    split
    · exact ⟨fun _ => rfl, fun _ => rfl⟩
    · dsimp only
      split <;> exact ⟨fun _ => rfl, fun _ => rfl⟩
  | sweep hctl h =>
    rcases h.steady.2 with ⟨-, hy | hy⟩ | ⟨hg, -⟩
    · obtain ⟨hg, ho⟩ := Ctl.ending_only hy
      exact ⟨fun _ => hg, fun _ => ho⟩
    · rw [hy]
      exact ⟨fun _ => rfl, fun _ => rfl⟩
    · rw [(Ctl.ending_only hctl).1] at hg
      cases hg
  | worker _ h =>
    rw [h.frame.2.2]
    exact ⟨id, id⟩

end Sys

/-- A statement of `run_schedule`. -/
inductive ScheduleRun.Went (d : ScheduleRun) : ScheduleRun → Prop where
  | refused (hp : d.point = .starting) (hi : d.execution.impl.initialized = false) :
      Went d { d with point := .returned }
  | began (hp : d.point = .starting) :
      Went d { d with point := .looping, rest := d.execution.impl.schedule.steps }
  | finish (hp : d.point = .looping) :
      Went d { d with execution := d.execution.finish, point := .finishing }
  | threw (hp : d.point = .looping) :
      Went d { d with execution := d.execution.destroy, point := .threw }
  | advance {st : Step} {rest : List Step} (hp : d.point = .looping)
      (hc : d.execution.cannotAdvance = false) :
      Went d { d with execution := d.execution.advance st false, rest }
  | returned (hp : d.point = .finishing) : Went d { d with point := .returned }

theorem ScheduleRun.went {d : ScheduleRun} (he : d.exited = false) : Went d (d.go false) := by
  unfold go
  split
  · rename_i hp
    split
    · rename_i hi
      exact .refused hp (by simpa using hi)
    · exact .began hp
  · rename_i hp
    split
    · exact .finish hp
    · split
      · exact .finish hp
      · split
        · exact .threw hp
        · rename_i hc
          exact .advance hp (by simpa using hc)
  · exact .returned ‹_›
  · rename_i hp
    rw [exited, hp] at he
    cases he
  · rename_i hp
    rw [exited, hp] at he
    cases he

namespace App

open Sys Shared

variable {L : Type u} {S : Type v} {app : App L S} {lib : JsonScan} {k k' k₀ : Config L S}
  {m : Mover} {i : Nat}

/-- The choices of a worker. -/
theorem workerChoice_cases {c : Choice} (h : app.workerChoice k i = some c) :
    ∀ {lib : JsonLib} {y : Sys}, k.sys.step lib c = some y →
      i < k.sys.pcs.length ∧ Work k.sys i y := by
  intro lib y hs
  unfold workerChoice at h
  split at h <;> cases h <;>
  · simp only [Sys.step, Option.ite_none_right_eq_some] at hs
    exact ⟨hs.1, work_of_workerStep hs.2⟩

/-- A section around `run_schedule` is a step of the execution. -/
theorem around_step {lib : JsonLib} {c : Choice} (ha : app.choice k m = some (.around c))
    (h : app.step lib k m = some k') :
    k.sys.step lib c = some k'.sys ∧ k'.run = { k.run with execution := k'.sys } := by
  obtain ⟨a, ha', hs, -⟩ := step_cases h
  obtain rfl := Option.some.inj (ha'.symm.trans ha)
  simp only [ScheduleRun.step] at hs
  split at hs
  · cases hs
  · obtain ⟨y, hy, he⟩ := Option.map_eq_some_iff.mp hs
    have hy' : k'.sys = y := by rw [Config.sys, ← he]
    exact ⟨by rw [hy']; exact hy, by rw [hy', ← he]⟩

/-- The section a party picks is one that it makes. -/
theorem moved_of_section {lib : JsonLib} {c : Choice} {y : Sys}
    (ha : app.choice k m = some (.around c)) (hs : k.sys.step lib c = some y) :
    Moved lib k.sys m y := by
  cases m with
  | client => cases ha
  | worker i =>
    obtain ⟨c, hc, he⟩ := Option.map_eq_some_iff.mp ha
    cases he
    obtain ⟨hi, hw⟩ := workerChoice_cases hc hs
    exact .worker hi hw
  | spawn | leave | enter =>
    cases ha
    simp only [Sys.step, Option.ite_none_right_eq_some, Option.some.injEq] at hs
    rw [← hs.2]
    first | exact .spawn hs.1 | exact .leave hs.1 | exact .enter hs.1
  | barrier =>
    cases ha
    simp only [Sys.step, Option.ite_none_right_eq_some, Option.some.injEq] at hs
    rw [← hs.2]
    exact .barrier hs.1.1 hs.1.2
  | observed =>
    cases ha
    simp only [Sys.step] at hs
    split at hs
    · rw [← Option.some.inj hs]
      exact .observed ‹_›
    · cases hs
  | permitted =>
    cases ha
    simp only [Sys.step] at hs
    split at hs
    · simp only [Option.ite_none_right_eq_some, Option.some.injEq] at hs
      rw [← hs.2]
      exact .permitted ‹_› hs.1
    · cases hs
  | joined =>
    cases ha
    simp only [Sys.step] at hs
    split at hs
    · simp only [Option.ite_none_right_eq_some, Option.some.injEq] at hs
      rw [← hs.2]
      exact .joined ‹_› hs.1
    · cases hs
  | cleanupWake late =>
    cases ha
    simp only [Sys.step, Option.ite_none_right_eq_some, Option.some.injEq] at hs
    rw [← hs.2]
    exact .sweep (by rw [hs.1.1]; rfl) (.wake hs.1.1 (scan _ _))
  | cleanupJoined =>
    cases ha
    simp only [Sys.step] at hs
    split at hs
    · rename_i i hctl
      simp only [Option.ite_none_right_eq_some, Option.some.injEq] at hs
      rw [← hs.2]
      exact .sweep (by rw [hctl]; rfl) (.joined hctl hs.1 (scan _ _))
    · cases hs
  | cleanupTorn threw =>
    cases ha
    simp only [Sys.step, Option.ite_none_right_eq_some, Option.some.injEq] at hs
    rw [← hs.2]
    exact .sweep (by rw [hs.1]; rfl) (wind_torn _ _ hs.1)

/-- A statement of the client, or a section around it. -/
theorem moved_of_step {lib : JsonLib} (h : app.step lib k m = some k') :
    (m = .client ∧ k.sys.ctl = .idle ∧ k.run.Went k'.run) ∨
      (k'.run = { k.run with execution := k'.sys } ∧ Moved lib k.sys m k'.sys) := by
  obtain ⟨a, ha, hs, -⟩ := step_cases h
  cases a with
  | around c =>
    obtain ⟨hs, he⟩ := around_step ha h
    exact .inr ⟨he, moved_of_section ha hs⟩
  | go late =>
    cases m with
    | client =>
      cases ha
      simp only [ScheduleRun.step, Option.ite_none_right_eq_some, Option.some.injEq] at hs
      refine .inl ⟨rfl, hs.1.1, ?_⟩
      rw [← hs.2]
      exact ScheduleRun.went hs.1.2
    | worker i =>
      obtain ⟨c, -, he⟩ := Option.map_eq_some_iff.mp ha
      cases he
    | _ => cases ha

/-- The run begins behind the sequential part of `start`. -/
def Begun (lib : JsonScan) (k₀ : Config L S) : Prop :=
  ∃ o, k₀.run = { execution := Sys.start lib o }

theorem begun_start (o : Opening) (locals : Nat → L) (shared : S) :
    Begun lib (start lib o locals shared) := ⟨o, rfl⟩

/-- A run of the program is a run of any program. -/
theorem reach_run (hb : Begun lib k₀) (h : (app.lts lib k₀).Reach k) :
    (runSchedule lib).ReachBy ScheduleRun.Owned k.run := by
  induction h with
  | init h =>
    obtain ⟨o, ho⟩ := hb
    exact .init ⟨o, h ▸ ho⟩
  | @step k k' m _ _ hs ih =>
    obtain ⟨a, ha, hd, -⟩ := step_cases hs
    refine .step (a := a) ih ?_ hd
    rintro i n checkpoint rfl
    cases m with
    | worker j =>
      obtain ⟨c, hc, he⟩ := Option.map_eq_some_iff.mp ha
      unfold workerChoice at hc
      split at hc <;> cases hc <;> cases he
    | _ => cases ha

theorem reach_sys (hb : Begun lib k₀) (h : (app.lts lib k₀).Reach k) :
    (Schedule.lts lib).Reach k.sys := ScheduleRun.reach_execution (reach_run hb h).reach

/-- Nothing stops the execution but its cleanup. -/
structure Prompt (x : Sys) : Prop where
  gone : x.ctl.gone = false
  cancelled : x.state.cancelled = true → x.state.failed = true ∨ x.impl.closed = true

theorem prompt_start (o : Opening) : Prompt (Sys.start lib o) := by
  rcases (initial_start lib o).start with ⟨hctl, hf, -⟩ | ⟨hctl, hf, -⟩ | ⟨hctl, -, hc, -⟩
  · exact ⟨by rw [hctl]; rfl, fun _ => .inl hf⟩
  · exact ⟨by rw [hctl]; rfl, fun _ => .inl hf⟩
  · refine ⟨by rw [hctl]; rfl, fun h => ?_⟩
    rw [hc] at h
    cases h

/-- A failure is kept, and so is a closed execution. -/
theorem Prompt.move {x y : Sys} (H : Prompt x) (hm : Move x y) (hg : y.ctl.gone = false)
    (hc : y.state.cancelled = x.state.cancelled ∨ y.impl.closed = true) : Prompt y := by
  refine ⟨hg, fun hy => ?_⟩
  rcases hc with he | hcl
  · rcases H.cancelled (he ▸ hy) with hf | hcl
    · rcases hm.blame with ⟨hf', -⟩ | ⟨-, hf', -⟩
      · exact .inl (hf'.trans hf)
      · exact .inl hf'
    · exact .inr (hm.closed hcl)
  · exact .inr hcl

theorem cancelled_finish (x : Sys) : x.finish.state.cancelled = x.state.cancelled := by
  unfold Sys.finish
  split
  · rfl
  · dsimp only
    split
    · exact cancelled_fail _ _ _
    · rfl

theorem cancelled_advance (x : Sys) (st : Step) (late : Bool) :
    (x.advance st late).state.cancelled = x.state.cancelled := by
  unfold Sys.advance
  split
  · rfl
  · split
    · exact cancelled_fail _ _ _
    · rfl

/-- The places a call leaves the controller at. -/
theorem places_finish (x : Sys) (hctl : x.ctl = .idle) :
    x.finish.ctl = .idle ∨ x.finish.ctl = .entering := by
  unfold Sys.finish
  split
  · exact .inl hctl
  · exact .inr rfl

theorem places_advance (x : Sys) (st : Step) (late : Bool) (hc : x.cannotAdvance = false) :
    (x.advance st late).ctl = .returning ∨ ∃ i e, (x.advance st late).ctl = .permitted i e := by
  unfold Sys.advance
  rw [if_neg (by rw [hc]; decide)]
  split
  · exact .inl rfl
  · exact .inr ⟨_, _, rfl⟩

theorem Prompt.step (hr : (runSchedule lib).ReachBy ScheduleRun.Owned k'.run) (H : Prompt k.sys)
    (h : app.step lib.toJsonLib k m = some k') : Prompt k'.sys := by
  rcases moved_of_step h with ⟨-, hctl, hw⟩ | ⟨-, hm⟩
  · unfold Config.sys at hctl H ⊢
    generalize k'.run = d at hw hr ⊢
    cases hw with
    | refused | began | returned => exact H
    | finish =>
      refine H.move (move_finish _ hctl) ?_ (.inl (cancelled_finish _))
      rcases places_finish _ hctl with he | he <;> rw [he] <;> rfl
    | threw => exact absurd rfl (ScheduleRun.Undisturbed.reach hr).point
    | advance _ hc =>
      refine H.move (move_advance _ _ _ hctl) ?_ (.inl (cancelled_advance _ _ _))
      rcases places_advance _ _ _ hc with he | ⟨i, e, he⟩ <;> rw [he] <;> rfl
  · exact H.move hm.move (hm.places.1 H.gone) hm.cancelled

theorem Prompt.reach (hb : Begun lib k₀) (h : (app.lts lib k₀).Reach k) : Prompt k.sys := by
  induction h with
  | init h =>
    obtain ⟨o, ho⟩ := hb
    rw [h, Config.sys, ho]
    exact prompt_start o
  | step hr hc hs ih => exact ih.step (reach_run hb (hr.step hc hs)) hs

end App

/-! ## A live execution has one party to pick -/

namespace Sys

open Shared

variable {x y : Sys} {lib : JsonScan} {i : Nat}

/-- Behind its barrier a live execution has been initialised, or is about to be. -/
theorem initialized_of_live (h : (lts lib).Reach x) (hf : x.state.failed = false)
    (hcl : x.impl.closed = false) (hg : x.ctl.gone = false) (ho : x.ctl.outset = false) :
    x.impl.initialized = true ∨ x.ctl = .observer .start := by
  have HC := Course.reach h
  cases hctl : x.ctl with
  | spawning | barrier => rw [hctl] at ho; cases ho
  | observer c =>
    cases c with
    | start => exact .inr rfl
    | advance => exact .inl (HC.ready (by rw [hctl]; rfl))
  | idle => exact .inl (HC.waiting hctl hcl (teardown_of_live h hf).1)
  | permitted | joining | returning => exact .inl (HC.ready (by rw [hctl]; rfl))
  | entering =>
    rcases HC.past hctl with hfx | hc
    · rw [hf] at hfx; cases hfx
    · cases hi : x.impl.initialized with
      | true => exact .inl rfl
      | false =>
        rw [((Logged.reach h hf).fresh hi).2] at hc
        cases hc
  | cleaning | cleanupJoin | tearing =>
    rw [(HC.ending (by rw [hctl]; rfl)).1] at hcl
    cases hcl
  | destroying | destroyTearing | destroyed => rw [hctl] at hg; cases hg

/-- A worker that moves has been granted a permit, and runs. -/
theorem running_of_work (h : (lts lib).Reach x) (hf : x.state.failed = false)
    (hcl : x.impl.closed = false) (hg : x.ctl.gone = false) (ho : x.ctl.outset = false)
    (hi : i < x.pcs.length) (hw : Work x i y) :
    (∃ e, x.ctl = .permitted i e) ∧ (x.state.actor i).phase = .running := by
  have HC := Course.reach h
  have HK := Core.reach h
  have H := Rest.reach h
  have hst := HC.live hcl hg
  have hstart := H.not_starting (initialized_of_live h hf hcl hg ho) (HK.length ▸ hi)
  have hloose : (x.pc i).loose = true → (x.state.actor i).phase = .running := by
    intro hl
    have hph := HK.phase i
    rw [Pc.allows_loose hl, hst] at hph
    exact hph.resolve_right fun h => by cases h.1
  have hrun : (x.state.actor i).phase = .running := by
    cases hw with
    | register hpc =>
      have hph := HK.phase i
      rw [hpc] at hph
      exact absurd hph hstart
    | wake _ _ _ hr => exact hr
    | stopped _ _ hs => rw [hst] at hs; cases hs
    | user hpc | asked hpc | foreign hpc | refused hpc | astray hpc | park hpc | threw hpc
    | finish hpc =>
      refine hloose ?_
      rw [hpc]
      rfl
  refine ⟨?_, hrun⟩
  rcases H.running i hrun with he | ⟨h, -⟩ | h
  · exact he
  · rw [hf] at h; cases h
  · rw [hst] at h; cases h

end Sys

/-- Behind its barrier, neither failed nor closed. -/
structure Config.Live {L : Type u} {S : Type v} (k : Config L S) : Prop where
  failed : k.sys.state.failed = false
  closed : k.sys.impl.closed = false
  outset : k.sys.ctl.outset = false

namespace App

open Sys Shared

variable {L : Type u} {S : Type v} {app : App L S} {lib : JsonScan} {k k' k₀ : Config L S}
  {m : Mover} {i : Nat}

/-- Who is next. -/
def turn (x : Sys) : Mover :=
  match x.ctl with
  | .observer _ => .observed
  | .permitted i _ => if (x.state.actor i).phase = .running then .worker i else .permitted
  | .joining _ => .joined
  | .returning => .leave
  | .entering => .enter
  | _ => .client

/-- **Only one party can move.** -/
theorem eq_turn (hb : Begun lib k₀) (hr : (app.lts lib k₀).Reach k) (hl : k.Live)
    (h : app.step lib.toJsonLib k m = some k') : m = turn k.sys := by
  have hx := reach_sys hb hr
  have HP := Prompt.reach hb hr
  have hcancelled : k.sys.state.cancelled = false := by
    cases hc : k.sys.state.cancelled with
    | false => rfl
    | true =>
      rcases HP.cancelled hc with hf | hcl
      · rw [hl.failed] at hf; cases hf
      · rw [hl.closed] at hcl; cases hcl
  have ho := hl.outset
  rcases moved_of_step h with ⟨rfl, hctl, -⟩ | ⟨-, hm⟩
  · rw [turn, hctl]
  · generalize k'.sys = y at hm
    cases hm with
    | spawn hctl | barrier hctl => rw [hctl] at ho; cases ho
    | observed hctl | joined hctl | leave hctl | enter hctl => rw [turn, hctl]
    | @permitted i e hctl hw =>
      have hp : (k.sys.state.actor i).phase ≠ .running := by
        simpa [waitOver, hl.failed, hcancelled] using hw
      rw [turn, hctl]
      exact (if_neg hp).symm
    | sweep hctl =>
      have hcl := hl.closed
      rw [((Course.reach hx).ending hctl).1] at hcl
      cases hcl
    | @worker i _ hi hw =>
      obtain ⟨⟨e, hctl⟩, hp⟩ := running_of_work hx hl.failed hl.closed HP.gone ho hi hw
      rw [turn, hctl]
      exact (if_pos hp).symm

/-- So its next configuration is determined. -/
theorem determined (hb : Begun lib k₀) : (app.lts lib k₀).Determined Config.Live := by
  intro k m m' k₁ k₂ hr hl h h'
  have h : app.step lib.toJsonLib k m = some k₁ := h
  have h' : app.step lib.toJsonLib k m' = some k₂ := h'
  rw [eq_turn hb hr hl h] at h
  rw [eq_turn hb hr hl h', h] at h'
  exact Option.some.inj h'

end App

end MirrorCpp.Schedule
