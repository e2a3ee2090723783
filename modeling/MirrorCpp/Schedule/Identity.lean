import MirrorCpp.Schedule.RunSchedule

/-!
# The identity of an execution

`start` draws a generation and an id, and the report carries them to the receipt. No section reads
them: under another identity an execution takes the same steps, and it keeps the one it was given.
-/

namespace MirrorCpp.Schedule

structure RunIdentity where
  generation : Nat
  executionId : String

/-- The same state under another identity. -/
def Shared.named (n : RunIdentity) (s : Shared) : Shared :=
  { s with report := { s.report with generation := n.generation, executionId := n.executionId } }

namespace Shared

variable (n : RunIdentity) (s : Shared)

theorem fail_named (o : Outcome) (d : String) : (s.named n).fail o d = (s.fail o d).named n := by
  unfold fail
  rw [show (s.named n).failed = s.failed from rfl]
  split <;> rfl

theorem fail_if_named (c : Prop) [Decidable c] (o : Outcome) (d : String) :
    (if c then (s.named n).fail o d else s.named n) = (if c then s.fail o d else s).named n := by
  split
  · exact fail_named n s o d
  · rfl

theorem fail_unless_named (c : Prop) [Decidable c] (o : Outcome) (d : String) :
    (if c then s.named n else (s.named n).fail o d) = (if c then s else s.fail o d).named n := by
  split
  · rfl
  · exact fail_named n s o d

theorem settle_named (late : Bool) : (s.named n).settle late = (s.settle late).named n := by
  unfold settle
  dsimp only
  rw [show (s.named n).cancelled = s.cancelled from rfl, fail_if_named, fail_if_named]

theorem arrive_named (self : ThreadId) (i : Nat) (checkpoint : String) :
    (s.named n).arrive self i checkpoint =
      ((s.arrive self i checkpoint).1, (s.arrive self i checkpoint).2.named n) := by
  unfold arrive
  simp only [show (s.named n).actor i = s.actor i from rfl,
    show (s.named n).stopping = s.stopping from rfl,
    show (s.named n).declares checkpoint = s.declares checkpoint from rfl]
  split
  · exact congrArg _ (fail_named n s _ _)
  · split
    · rfl
    · split
      · exact congrArg (Prod.mk false) (fail_named n (s.setActor i _) _ _)
      · rfl

end Shared

namespace Sys

open Shared

/-- The same execution under another identity. -/
def named (n : RunIdentity) (x : Sys) : Sys := { x with state := x.state.named n }

variable (n : RunIdentity) (x : Sys)

/-! ## The sections of the controller -/

theorem spawn_named (refused : Option String) :
    (x.named n).spawn refused = (x.spawn refused).named n := by
  cases refused with
  | none => rfl
  | some what =>
    exact congrArg (fun s => { x with state := s, ctl := .barrier }) (fail_named n _ _ _)

theorem passBarrier_named (late : Bool) :
    (x.named n).passBarrier late = (x.passBarrier late).named n := by
  unfold passBarrier
  rw [show (x.named n).state = x.state.named n from rfl, settle_named]
  rfl

theorem retain_named (lib : JsonLib) (value : Except Thrown Json) :
    (x.named n).retain lib value = (x.retain lib value).named n := by
  have hfail : ∀ what, { x.named n with state := (x.named n).state.fail .observationFailed what } =
      { x with state := x.state.fail .observationFailed what }.named n := fun what =>
    congrArg (fun s => { x with state := s }) (fail_named n x.state _ _)
  unfold retain
  cases value with
  | error what => exact hfail _
  | ok value =>
    dsimp only
    split
    · exact hfail _
    · split
      · exact hfail _
      · rename_i bytes _
        rw [show (x.named n).impl = x.impl from rfl]
        split
        · exact hfail _
        · rfl

theorem startObserved_named (late : Bool) :
    (x.named n).startObserved late = (x.startObserved late).named n := by
  unfold startObserved
  rw [show (x.named n).state = x.state.named n from rfl, settle_named]
  rfl

theorem advanceObserved_named (late : Bool) :
    (x.named n).advanceObserved late = (x.advanceObserved late).named n := by
  unfold advanceObserved
  rw [show (x.named n).state = x.state.named n from rfl, settle_named]
  generalize x.state.settle late = s
  dsimp only
  rw [show (s.named n).failed = s.failed from rfl, show (x.named n).impl = x.impl from rfl]
  split <;> rfl

theorem observed_named (lib : JsonLib) (k : Caller) (value : Except Thrown Json) (late : Bool) :
    (x.named n).observed lib k value late = (x.observed lib k value late).named n := by
  cases k with
  | start =>
    show ((x.named n).retain lib value).startObserved late = _
    rw [retain_named, startObserved_named]
    rfl
  | advance =>
    show ((x.named n).retain lib value).advanceObserved late = _
    rw [retain_named, advanceObserved_named]
    rfl

theorem advance_named (requested : Step) (late : Bool) :
    (x.named n).advance requested late = (x.advance requested late).named n := by
  unfold advance
  rw [show (x.named n).cannotAdvance = x.cannotAdvance from rfl,
    show (x.named n).refusal requested late = x.refusal requested late from rfl]
  split
  · rfl
  · split
    · exact congrArg (fun s => { x with state := s, ctl := .returning }) (fail_named n _ _ _)
    · rfl

theorem recordArrival_named (s : Shared) (index i : Nat) :
    recordArrival (s.named n) index i = (recordArrival s index i).named n := by
  unfold recordArrival
  rw [show (s.named n).actor i = s.actor i from rfl]
  dsimp only
  split <;> rfl

theorem permitWake_named (i : Nat) (expected : String) (late : Bool) :
    (x.named n).permitWake i expected late = (x.permitWake i expected late).named n := by
  unfold permitWake
  rw [show (x.named n).state = x.state.named n from rfl, settle_named,
    show (x.named n).impl = x.impl from rfl, recordArrival_named]
  generalize recordArrival (x.state.settle late) x.impl.nextStep i = s
  dsimp only
  rw [show (s.named n).failed = s.failed from rfl, show (s.named n).actor i = s.actor i from rfl]
  split
  · rfl
  · split
    · exact congrArg (fun s => { x with state := s, ctl := .returning }) (fail_named n _ _ _)
    · split <;> rfl

theorem finish_named : (x.named n).finish = x.finish.named n := by
  unfold finish
  rw [show (x.named n).impl = x.impl from rfl]
  split
  · rfl
  · rw [show (x.named n).state.report.scheduleCompleted = x.state.report.scheduleCompleted from rfl,
      show (x.named n).state = x.state.named n from rfl, fail_named]
    split <;> rfl

theorem cleanup_named (timeout : Int) :
    (x.named n).cleanup timeout = (x.cleanup timeout).named n := by
  unfold cleanup
  dsimp only
  rw [show (x.named n).impl = x.impl from rfl]
  split
  · rfl
  · split <;> rfl

theorem callTeardown_named : (x.named n).callTeardown = x.callTeardown.named n := by
  unfold callTeardown
  rw [show (x.named n).impl = x.impl from rfl]
  split <;> rfl

theorem cleanupRest_named : (x.named n).cleanupRest = x.cleanupRest.named n := by
  have hrest : ∀ z : Sys, (if z.remaining = [] ∧ z.impl.teardownAttempted = false then
      (named n { z with
        impl := { z.impl with teardownAttempted := true }, ctl := .tearing }).callTeardown
      else (z.named n).cleanupEnd) =
        (if z.remaining = [] ∧ z.impl.teardownAttempted = false then
          { z with
            impl := { z.impl with teardownAttempted := true }, ctl := .tearing }.callTeardown
        else z.cleanupEnd).named n := by
    intro z
    split
    · exact callTeardown_named n _
    · rfl
  exact hrest { x with state := { x.state with report :=
    { x.state.report with remainingActors := x.remaining } } }

theorem cleanupScan_named (k : Nat) : (x.named n).cleanupScan k = (x.cleanupScan k).named n := by
  unfold cleanupScan
  rw [show (x.named n).mayJoin = x.mayJoin from rfl, show (x.named n).impl = x.impl from rfl]
  split
  · rfl
  · exact cleanupRest_named n x

theorem cleanupTorn_named (threw : Option Thrown) :
    (x.named n).cleanupTorn threw = (x.cleanupTorn threw).named n := by
  unfold cleanupTorn
  rw [show (x.named n).impl = x.impl from rfl]
  dsimp only
  split <;> rfl

theorem destroyEnd_named : (x.named n).destroyEnd = x.destroyEnd.named n := by
  unfold destroyEnd
  rw [show (x.named n).impl = x.impl from rfl]
  split
  · exact callTeardown_named n { x with ctl := .destroyTearing }
  · rfl

/-! ## Steps -/

theorem workerStep_named (i : Nat) (c : Choice) :
    (x.named n).workerStep i c = (x.workerStep i c).map (named n) := by
  cases c
  case register | close =>
    unfold workerStep
    dsimp only
    rw [show (x.named n).pc i = x.pc i from rfl]
    split
    · rw [show (x.named n).locked = x.locked from rfl]
      split <;> rfl
    · rfl
  case wake =>
    unfold workerStep
    dsimp only
    rw [show (x.named n).pc i = x.pc i from rfl]
    split
    · rw [show (x.named n).locked = x.locked from rfl,
        show (x.named n).state.canWake i = x.state.canWake i from rfl]
      split <;> rfl
    · rfl
  case user | stop =>
    unfold workerStep
    dsimp only
    rw [show (x.named n).pc i = x.pc i from rfl]
    split <;> rfl
  case arrive =>
    unfold workerStep
    dsimp only
    rw [show (x.named n).pc i = x.pc i from rfl]
    split
    · rw [show (x.named n).locked = x.locked from rfl,
        show (x.named n).state = x.state.named n from rfl, arrive_named]
      split <;> rfl
    · rfl
  case caught =>
    unfold workerStep
    dsimp only
    rw [show (x.named n).pc i = x.pc i from rfl]
    split
    · rw [show (x.named n).locked = x.locked from rfl,
        show (x.named n).state.workerThrew _ = (x.state.workerThrew _).named n from
          fail_named n _ _ _]
      split <;> rfl
    · rfl
  all_goals rfl

/-- An execution under another identity takes the same steps. -/
theorem step_named (lib : JsonLib) (c : Choice) :
    (x.named n).step lib c = (x.step lib c).map (named n) := by
  have hite : ∀ {p : Prop} [Decidable p] {y z : Sys}, y = z.named n →
      (if p then some y else none) = (if p then some z else none).map (named n) := by
    intro p _ y z h
    rw [h]
    split <;> rfl
  cases c with
  | advance requested late => exact hite (advance_named n x requested late)
  | finish => exact hite (finish_named n x)
  | cleanup timeout => exact hite (cleanup_named n x timeout)
  | destroy => exact hite rfl
  | spawn refused => exact hite (spawn_named n x refused)
  | barrier late => exact hite (passBarrier_named n x late)
  | observed value late =>
    unfold Sys.step
    dsimp only
    rw [show (x.named n).ctl = x.ctl from rfl]
    split
    · exact congrArg some (observed_named n x lib _ value late)
    · rfl
  | permitted late =>
    unfold Sys.step
    dsimp only
    rw [show (x.named n).ctl = x.ctl from rfl]
    split
    · exact hite (permitWake_named n x _ _ late)
    · rfl
  | joined =>
    unfold Sys.step
    dsimp only
    rw [show (x.named n).ctl = x.ctl from rfl]
    split
    · exact hite rfl
    · rfl
  | leave => exact hite rfl
  | enter => exact hite (cleanup_named n x _)
  | cleanupWake late => exact hite (cleanupScan_named n x 0)
  | cleanupJoined =>
    unfold Sys.step
    dsimp only
    rw [show (x.named n).ctl = x.ctl from rfl]
    split
    · exact hite (cleanupScan_named n { x.joined _ with state := markJoined x.state _ } _)
    · rfl
  | cleanupTorn threw => exact hite (cleanupTorn_named n x threw)
  | destroyJoin =>
    unfold Sys.step
    dsimp only
    rw [show (x.named n).impl = x.impl from rfl]
    split
    · exact hite rfl
    · rfl
  | destroyEnd => exact hite (destroyEnd_named n x)
  | destroyTorn => exact hite rfl
  | register i | wake i | user i _ | stop i | arrive i | caught i | close i =>
    unfold Sys.step
    dsimp only
    rw [workerStep_named, show (x.named n).pcs = x.pcs from rfl]
    split <;> rfl
  | cancel => exact hite rfl
  | foreign i k checkpoint =>
    refine hite ?_
    rw [show (x.named n).state = x.state.named n from rfl, arrive_named]
    rfl

/-! ## What `start` gives -/

theorem checkProgram_named (s : Shared) (p : Program) :
    checkProgram (s.named n) p = (checkProgram s p).named n := by
  unfold checkProgram
  dsimp only
  rw [fail_unless_named]
  generalize (if (collect [] p.workers).1 then s else
    s.fail .applicationFailed "missing worker function or duplicate worker identity") = t
  rw [show (t.named n).actors = t.actors from rfl, fail_if_named]
  exact fail_unless_named n _ _ _ _

theorem unstarted_fail_named (s : Shared) (impl : Impl) (o : Outcome) (d : String) :
    unstarted ((s.named n).fail o d) impl = (unstarted (s.fail o d) impl).named n := by
  rw [fail_named]
  rfl

theorem admitted_named (o : Opening) (s : Shared) (impl : Impl) :
    admitted o (s.named n) impl = (admitted o s impl).named n := by
  have hchecked : ∀ {t u : Shared} {i : Impl}, t = u.named n →
      unstarted t i (if t.failed then .entering else .spawning) =
        (unstarted u i (if u.failed then .entering else .spawning)).named n := by
    rintro _ u i rfl
    rfl
  have hfail : ∀ {t u : Shared} {p : Shared → Bool} {out : Outcome} {d : String},
      t = u.named n → (∀ s : Shared, p (s.named n) = p s) →
      (if p t then t.fail out d else t) = (if p u then u.fail out d else u).named n := by
    rintro _ u p out d rfl hp
    rw [hp]
    exact fail_if_named n u _ _ _
  let s' (stopped : Bool) : Shared := { s with
    actors := o.adapter.actors.map fun d => { declaration := d }
    checkpoints := o.adapter.checkpoints
    cancelled := stopped }
  unfold admitted
  dsimp only
  cases o.stopped with
  | true => exact unstarted_fail_named n (s' true) _ _ _
  | false =>
    cases o.adapter.factory with
    | none => rfl
    | some made =>
      cases made with
      | error what => exact unstarted_fail_named n (s' false) _ _ _
      | ok program =>
        have hstop := checkProgram_named n (s' o.stoppedDuring) program
        exact hchecked (@hfail _ _ (fun _ => o.late) _ _
          (@hfail _ _ Shared.cancelled _ _ hstop fun _ => rfl) fun _ => rfl)

/-- The same start at another time. -/
def Opening.renewed (o : Opening) (generation : Nat) (random : Fin 4 → UInt32) : Opening :=
  { o with generation, random }

theorem start_renewed (lib : JsonScan) (o : Opening) (generation : Nat) (random : Fin 4 → UInt32) :
    start lib (o.renewed generation random) =
      (start lib o).named ⟨generation, (o.renewed generation random).executionId⟩ := by
  unfold start
  dsimp only
  have hadmission : admission lib (o.renewed generation random).schedule
      (o.renewed generation random).adapter (o.renewed generation random).policy
      (o.renewed generation random).reentrant =
        admission lib o.schedule o.adapter o.policy o.reentrant := rfl
  rw [hadmission]
  let n : RunIdentity := ⟨generation, (o.renewed generation random).executionId⟩
  let s : Shared := { report := { generation := o.generation, executionId := o.executionId } }
  split
  · exact unstarted_fail_named n s _ _ _
  · exact admitted_named n o s _

/-! ## An execution keeps its identity -/

def identity (x : Sys) : RunIdentity := ⟨x.state.report.generation, x.state.report.executionId⟩

def Opening.identity (o : Opening) : RunIdentity := ⟨o.generation, o.executionId⟩

theorem identity_start (lib : JsonScan) (o : Opening) : (start lib o).identity = o.identity := by
  rw [identity, (initial_start lib o).report]
  rfl

end Sys

namespace ScheduleRun

/-- The same run under another identity. -/
def named (n : RunIdentity) (d : ScheduleRun) : ScheduleRun :=
  { d with execution := d.execution.named n }

variable (n : RunIdentity) (d : ScheduleRun)

theorem go_named (late : Bool) : (d.named n).go late = (d.go late).named n := by
  unfold go
  rw [show (d.named n).point = d.point from rfl]
  split
  · rw [show (d.named n).execution.impl = d.execution.impl from rfl]
    split <;> rfl
  · rw [show (d.named n).rest = d.rest from rfl]
    split
    · exact congrArg (fun execution => { d with execution, point := .finishing })
        (Sys.finish_named n _)
    · rename_i st rest _
      rw [show (d.named n).execution.impl = d.execution.impl from rfl,
        show (d.named n).execution.cannotAdvance = d.execution.cannotAdvance from rfl]
      split
      · exact congrArg (fun execution => { d with execution, point := .finishing })
          (Sys.finish_named n _)
      · split
        · rfl
        · exact congrArg (fun execution => { d with execution, rest })
            (Sys.advance_named n _ st late)
  · rfl
  · rfl
  · rfl

theorem step_named (lib : JsonLib) (a : Act) :
    (d.named n).step lib a = (d.step lib a).map (named n) := by
  cases a with
  | go late =>
    unfold step
    dsimp only
    rw [show (d.named n).execution.ctl = d.execution.ctl from rfl,
      show (d.named n).exited = d.exited from rfl, go_named]
    split <;> rfl
  | around c =>
    unfold step
    dsimp only
    split
    · rfl
    · rw [show (d.named n).execution = d.execution.named n from rfl, Sys.step_named,
        Option.map_map, Option.map_map]
      rfl

/-- A run reports under the identity its start was given. -/
theorem identity_reach {lib : JsonScan} {d : ScheduleRun} (h : (runSchedule lib).Reach d) :
    ∃ o : Sys.Opening, d.execution.identity = o.identity := by
  refine h.inv (P := fun d => ∃ o : Sys.Opening, d.execution.identity = o.identity) ?_
    fun d a d' H _ hs => ?_
  · rintro _ ⟨o, rfl⟩
    exact ⟨o, Sys.identity_start lib o⟩
  · have hown := step_named d.execution.identity d lib.toJsonLib a
    have hs : d.step lib.toJsonLib a = some d' := hs
    rw [show d.named d.execution.identity = d from rfl, hs] at hown
    have hown : d' = d'.named d.execution.identity := Option.some.inj hown
    rw [hown]
    exact H

end ScheduleRun

end MirrorCpp.Schedule
