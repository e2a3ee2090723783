import MirrorCpp.Schedule.Programs

/-!
# Settled executions

An execution in `run_schedule` has settled when it has failed, or when it has been closed without
a failure. Its outcome, its detail, its observations and whether the schedule was completed are
written then; of its events one may be missing, the arrival of an actor that is still out on a
permit (`Trail`).
-/

namespace MirrorCpp.Schedule

/-- No thread is being started, and no observation on its way. -/
def Ctl.settled : Ctl → Bool
  | .spawning | .barrier | .observer _ | .joining _ => false
  | _ => true

/-- Two reports tell the same, but for their events and their cleanup. -/
structure Report.Agrees (r q : Report) : Prop where
  outcome : q.outcome = r.outcome
  detail : q.detail = r.detail
  completed : q.scheduleCompleted = r.scheduleCompleted
  observations : q.observations = r.observations

theorem Report.Agrees.refl (r : Report) : r.Agrees r := ⟨rfl, rfl, rfl, rfl⟩

theorem Report.Agrees.trans {r q p : Report} (h : r.Agrees q) (h' : q.Agrees p) : r.Agrees p :=
  ⟨h'.outcome.trans h.outcome, h'.detail.trans h.detail, h'.completed.trans h.completed,
    h'.observations.trans h.observations⟩

theorem Report.Agrees.symm {r q : Report} (h : r.Agrees q) : q.Agrees r :=
  ⟨h.outcome.symm, h.detail.symm, h.completed.symm, h.observations.symm⟩

namespace Sys

open Shared

variable {x y z : Sys} {lib : JsonLib} {m : Mover} {i : Nat} {A : Option String → Prop}

/-- The event `recordArrival` appends where actor `i` has published `slot`. -/
def arrivals (x : Sys) (i : Nat) (slot : Option String) : List Event :=
  (slot.map fun checkpoint => ⟨x.state.report.events.length, .arrival, x.impl.nextStep,
    (x.state.actor i).declaration.actor, (x.state.actor i).declaration.operation,
    checkpoint⟩).toList

theorem events_recordArrival (x : Sys) (i : Nat) :
    (recordArrival x.state x.impl.nextStep i).report.events =
      x.state.report.events ++ x.arrivals i (x.state.actor i).arrival := by
  unfold recordArrival arrivals
  dsimp only
  cases (x.state.actor i).arrival with
  | none => exact (List.append_nil _).symm
  | some checkpoint => rfl

theorem agrees_recordArrival (s : Shared) (n i : Nat) :
    s.report.Agrees (recordArrival s n i).report := by
  unfold recordArrival
  dsimp only
  split <;> exact ⟨rfl, rfl, rfl, rfl⟩

/-- What a settled execution still writes: the events may end in an arrival that the controller
finds, one of `A`. -/
structure Trail (A : Option String → Prop) (x y : Sys) : Prop where
  agrees : x.state.report.Agrees y.state.report
  nextStep : y.impl.nextStep = x.impl.nextStep
  declared : declarations y.state = declarations x.state
  log : (y.ctl = x.ctl ∧ y.state.report.events = x.state.report.events) ∨
    (∀ i e, y.ctl ≠ .permitted i e) ∧
      ((∀ i e, x.ctl ≠ .permitted i e) ∧ y.state.report.events = x.state.report.events ∨
        ∃ i e slot, x.ctl = .permitted i e ∧ A slot ∧
          y.state.report.events = x.state.report.events ++ x.arrivals i slot)

namespace Trail

theorem refl (x : Sys) : Trail A x x := ⟨.refl _, rfl, rfl, .inl ⟨rfl, rfl⟩⟩

theorem arrivals_eq (h : Trail A x y) (he : y.state.report.events = x.state.report.events)
    (i : Nat) (slot : Option String) : y.arrivals i slot = x.arrivals i slot := by
  have hd : (y.state.actor i).declaration = (x.state.actor i).declaration := by
    rw [declaration_eq, declaration_eq, h.declared]
  unfold arrivals
  rw [he, h.nextStep, hd]

theorem trans (h : Trail A x y) (h' : Trail A y z) : Trail A x z where
  agrees := h.agrees.trans h'.agrees
  nextStep := h'.nextStep.trans h.nextStep
  declared := h'.declared.trans h.declared
  log := by
    rcases h.log with ⟨hctl, he⟩ | ⟨hy, hx⟩
    · rcases h'.log with ⟨hctl', he'⟩ | ⟨hz, ⟨hy, he'⟩ | ⟨i, e, slot, hy, hA, he'⟩⟩
      · exact .inl ⟨hctl'.trans hctl, he'.trans he⟩
      · exact .inr ⟨hz, .inl ⟨hctl ▸ hy, he'.trans he⟩⟩
      · refine .inr ⟨hz, .inr ⟨i, e, slot, hctl ▸ hy, hA, ?_⟩⟩
        rw [he', he, h.arrivals_eq he]
    · rcases h'.log with ⟨hctl', he'⟩ | ⟨hz, ⟨-, he'⟩ | ⟨i, e, slot, hy', -⟩⟩
      · rw [← he'] at hx
        exact .inr ⟨hctl'.symm ▸ hy, hx⟩
      · rw [← he'] at hx
        exact .inr ⟨hz, hx⟩
      · exact absurd hy' (hy i e)

/-- Behind no permit nothing is logged. -/
theorem events (h : Trail A x y) (hx : ∀ i e, x.ctl ≠ .permitted i e) :
    y.state.report.events = x.state.report.events := by
  rcases h.log with ⟨-, he⟩ | ⟨-, ⟨-, he⟩ | ⟨i, e, slot, hctl, -⟩⟩
  · exact he
  · exact he
  · exact absurd hctl (hx i e)

/-- Behind a permit that is over the arrival found is logged. -/
theorem arrived (h : Trail A x y) {e : String} (hx : x.ctl = .permitted i e)
    (hy : ∀ i e, y.ctl ≠ .permitted i e) :
    ∃ slot, A slot ∧
      y.state.report.events = x.state.report.events ++ x.arrivals i slot := by
  rcases h.log with ⟨hctl, -⟩ | ⟨-, ⟨hx', -⟩ | ⟨j, e', slot, hj, hA, he⟩⟩
  · exact absurd (hctl.trans hx) (hy i e)
  · exact absurd hx (hx' i e)
  · rw [hx] at hj
    obtain ⟨rfl, -⟩ := Ctl.permitted.inj hj
    exact ⟨slot, hA, he⟩

/-- A step that logs nothing and is not the one behind a permit. -/
theorem still (hr : x.state.report.Agrees y.state.report)
    (hn : y.impl.nextStep = x.impl.nextStep)
    (hd : declarations y.state = declarations x.state)
    (he : y.state.report.events = x.state.report.events) (hx : ∀ i e, x.ctl ≠ .permitted i e)
    (hy : ∀ i e, y.ctl ≠ .permitted i e) : Trail A x y :=
  ⟨hr, hn, hd, .inr ⟨hy, .inl ⟨hx, he⟩⟩⟩

end Trail

/-- Failed with no observation under way, or closed without a failure. -/
def Settled (x : Sys) : Prop :=
  x.state.failed = true ∧ x.ctl.settled = true ∨
    x.state.failed = false ∧ x.impl.closed = true

theorem Settled.settled (HC : Course x) (H : Settled x) : x.ctl.settled = true := by
  rcases H with ⟨-, h⟩ | ⟨-, hcl⟩
  · exact h
  · have hopen : x.ctl.opening = true ∨ x.ctl.advancing = true → x.ctl.settled = true := by
      intro h
      rw [(HC.unclosed (h.imp_right .inl)).1] at hcl
      cases hcl
    cases hctl : x.ctl with
    | spawning | barrier => exact hctl ▸ hopen (.inl (by rw [hctl]; rfl))
    | joining => exact hctl ▸ hopen (.inr (by rw [hctl]; rfl))
    | observer c =>
      cases c with
      | start => exact hctl ▸ hopen (.inl (by rw [hctl]; rfl))
      | advance => exact hctl ▸ hopen (.inr (by rw [hctl]; rfl))
    | _ => rfl

/-- At the end of `advance` and at the start of `cleanup` a settled execution has failed. -/
theorem Settled.failed (HC : Course x) (H : Settled x)
    (h : x.ctl.advancing = true ∨ x.ctl = .entering) : x.state.failed = true := by
  rcases H with ⟨hf, -⟩ | ⟨-, hcl⟩
  · exact hf
  · rw [(HC.unclosed (.inr h)).1] at hcl
    cases hcl

theorem Scan.agrees (h : Scan x y) :
    y.state.failed = x.state.failed ∧ x.state.report.Agrees y.state.report := by
  cases h with
  | tear =>
    rw [state_callTeardown]
    exact ⟨rfl, rfl, rfl, rfl, rfl⟩
  | _ => exact ⟨rfl, rfl, rfl, rfl, rfl⟩

/-- The end of `cleanup` and the destructor record no failure. -/
theorem Wind.agrees (h : Wind x y) :
    y.state.failed = x.state.failed ∧ x.state.report.Agrees y.state.report := by
  cases h with
  | wake _ h => exact h.agrees
  | joined _ _ h => exact h.agrees
  | destroyTear =>
    rw [state_callTeardown]
    exact ⟨rfl, rfl, rfl, rfl, rfl⟩
  | _ => exact ⟨rfl, rfl, rfl, rfl, rfl⟩

/-- A worker of a failed execution reports nothing. -/
theorem Work.trail (h : Work x i y) (hf : x.state.failed = true) :
    y.state.failed = true ∧ y.ctl = x.ctl ∧ Trail A x y := by
  have hd := h.declarations
  have hctl := h.frame.2.2
  obtain ⟨s, ps, rfl, hj⟩ := h.judged
  have hs := hj.eq_of_failed hf
  have hr : s.report = x.state.report := by
    have h := congrArg Shared.report hs
    exact h
  refine ⟨(congrArg Shared.failed hs).trans hf, hctl, ?_, rfl, hd, .inl ⟨hctl, ?_⟩⟩
  · show x.state.report.Agrees s.report
    rw [hr]
    exact .refl _
  · exact congrArg Report.events hr

/-- `advance` behind its wait, on a failed execution. -/
theorem permitWake_failed {e : String} {late : Bool} (hf : x.state.failed = true) :
    x.permitWake i e late =
      { x with state := recordArrival x.state x.impl.nextStep i, ctl := .returning } := by
  unfold permitWake
  rw [(judged_settle x.state late).eq_of_failed hf]
  dsimp only
  rw [if_pos ((recordArrival_failed _ _ _).trans hf)]

/-- **A settled execution stays settled**, and writes what its trail allows. -/
theorem Settled.moved (HC : Course x) (H : Settled x)
    (hspent : x.state.failed = false → x.impl.closed = true →
      ∀ i, i < x.pcs.length → x.pc i = .closed)
    (hA : ∀ i e, x.ctl = .permitted i e → A (x.state.actor i).arrival)
    (h : Moved lib x m y) : Settled y ∧ Trail A x y := by
  have hs := H.settled HC
  cases h with
  | spawn hctl | barrier hctl | observed hctl | joined hctl =>
    rw [hctl] at hs
    cases hs
  | @permitted i e hctl =>
    have hf := H.failed HC (.inl (by rw [hctl]; rfl))
    rw [permitWake_failed hf]
    refine ⟨.inl ⟨(recordArrival_failed _ _ _).trans hf, rfl⟩, agrees_recordArrival _ _ _, rfl, ?_,
      .inr ⟨nofun, .inr ⟨i, e, _, hctl, hA i e hctl, events_recordArrival x i⟩⟩⟩
    unfold Sys.declarations
    dsimp only
    rw [recordArrival_actors]
  | leave hctl =>
    have hf := H.failed HC (.inl (by rw [hctl]; rfl))
    rw [if_pos hf]
    exact ⟨.inl ⟨hf, rfl⟩, .still (.refl _) rfl rfl rfl (by rw [hctl]; exact nofun) nofun⟩
  | enter hctl =>
    have hf := H.failed HC (.inr hctl)
    have hx : ∀ i e, x.ctl ≠ .permitted i e := by rw [hctl]; exact nofun
    unfold cleanup
    split
    · exact ⟨.inl ⟨hf, rfl⟩, .still (.refl _) rfl rfl rfl hx nofun⟩
    · dsimp only
      split
      · exact ⟨.inl ⟨hf, rfl⟩, .still (.refl _) rfl rfl rfl hx nofun⟩
      · exact ⟨.inl ⟨hf, rfl⟩, .still (.refl _) rfl rfl rfl hx nofun⟩
  | sweep hctl h =>
    obtain ⟨hf, hr⟩ := h.agrees
    obtain ⟨hst, hplaces⟩ := h.steady
    have hq := h.quiet
    have hx : ∀ i e, x.ctl ≠ .permitted i e := by
      intro i e he
      rw [he] at hctl
      cases hctl
    have hy : y.ctl.settled = true ∧ ∀ i e, y.ctl ≠ .permitted i e := by
      have hend : y.ctl.ending = true ∨ y.ctl = .idle := by
        rcases hplaces with ⟨-, h⟩ | ⟨hg, -⟩
        · exact h
        · rw [(Ctl.ending_only hctl).1] at hg
          cases hg
      generalize y.ctl = c at hend
      rcases hend with hend | rfl
      · cases c with
        | cleaning | cleanupJoin | tearing => exact ⟨rfl, nofun⟩
        | _ => cases hend
      · exact ⟨rfl, nofun⟩
    refine ⟨?_, .still hr hq.nextStep h.declarations hq.events hx hy.2⟩
    rcases H with ⟨hfx, -⟩ | ⟨hfx, hcl⟩
    · exact .inl ⟨hf.trans hfx, hy.1⟩
    · exact .inr ⟨hf.trans hfx, hst.closed.trans hcl⟩
  | worker hi h =>
    rcases H with ⟨hf, hset⟩ | ⟨hf, hcl⟩
    · obtain ⟨hfy, hctl, ht⟩ := h.trail hf
      exact ⟨.inl ⟨hfy, hctl ▸ hset⟩, ht⟩
    · have hpc := hspent hf hcl _ hi
      cases h with
      | register h | wake h | stopped h | user h | asked h | foreign h | refused h | astray h
      | park h | threw h | finish h =>
        rw [hpc] at h
        cases h

/-- A worker leaves the others alone. -/
theorem Work.other {j : Nat} (h : Work x j y) (hij : i ≠ j) :
    y.pc i = x.pc i ∧ y.state.actor i = x.state.actor i := by
  cases h with
  | register | park | finish => exact ⟨pc_setPc_ne _ _ hij, actor_setActor_ne _ _ hij⟩
  | wake | stopped | user | asked | refused => exact ⟨pc_setPc_ne _ _ hij, rfl⟩
  | foreign => exact ⟨pc_setPc_ne _ _ hij, (judged_misused _).actor i⟩
  | threw => exact ⟨pc_setPc_ne _ _ hij, (judged_workerThrew _ _).actor i⟩
  | astray =>
    exact ⟨pc_setPc_ne _ _ hij,
      ((judged_fail _ (by decide) _).actor i).trans (actor_setActor_ne _ _ hij)⟩

/-! ## How a live execution settles -/

/-- Worker `i` has failed the execution and not yet ended: the controller may find its arrival
now or later. -/
inductive Faulted (i : Nat) (x : Sys) : Prop where
  | threw (ho : x.state.report.outcome = .applicationFailed) (hpc : x.pc i = .closing)
      (ha : (x.state.actor i).arrival = none) : Faulted i x
  | astray {checkpoint : String} (ho : x.state.report.outcome = .unexpectedCheckpoint)
      (hpc : x.pc i = .user .threw) (ha : (x.state.actor i).arrival = some checkpoint) :
      Faulted i x

theorem outcome_fail {s : Shared} (hf : s.failed = false) (o : Outcome) (d : String) :
    (s.fail o d).report.outcome = o := by
  unfold fail
  rw [if_neg (by rw [hf]; decide)]

/-- A worker that fails a live execution. -/
theorem Work.faulted (HK : Core x) (hi : i < x.pcs.length) (hf : x.state.failed = false)
    (hrun : (x.state.actor i).phase = .running) (hslot : (x.state.actor i).slot)
    (h : Work x i y) (hy : y.state.failed = true) : Faulted i y := by
  have hlive : ∀ {p : Prop}, x.state.failed = true → p := fun h => by rw [hf] at h; cases h
  cases h with
  | register | wake | stopped | user | asked | refused | park | finish => exact hlive hy
  | foreign hpc _ hw =>
    have hth := HK.thread i
    rw [hpc] at hth
    rcases hw with hw | hw
    · exact absurd hth hw
    · exact absurd hrun hw
  | @astray checkpoint =>
    have ho : (x.state.astray i checkpoint).report.outcome = .unexpectedCheckpoint :=
      @outcome_fail (x.state.setActor i _) hf _ _
    refine @Faulted.astray _ _ (Text.firstBytes 128 checkpoint) ho (pc_setPc_self _ _ hi) ?_
    show ((x.state.astray i checkpoint).actor i).arrival = _
    unfold Shared.astray
    dsimp only
    rw [(judged_fail _ (by decide) _).actor, actor_setActor_self _ _ (HK.length ▸ hi)]
  | @threw what =>
    refine .threw (outcome_fail hf _ _) (pc_setPc_self _ _ hi) ?_
    show ((x.state.workerThrew what).actor i).arrival = none
    rw [(judged_workerThrew _ _).actor, hslot, if_pos hrun]

/-- Settled just now; where the controller still waits behind a permit, by the fault of the worker
that has it. -/
structure Settles (y : Sys) : Prop where
  settled : Settled y
  faulted : ∀ i e, y.ctl = .permitted i e → Faulted i y

theorem Settles.at (hf : y.state.failed = true) (hs : y.ctl.settled = true)
    (hp : ∀ i e, y.ctl ≠ .permitted i e) : Settles y :=
  ⟨.inl ⟨hf, hs⟩, fun i e h => absurd h (hp i e)⟩

theorem settles_observed (x : Sys) (c : Caller) (value : Except Thrown Json)
    (hy : (x.observed lib c value false).state.failed = true) :
    Settles (x.observed lib c value false) := by
  cases c with
  | start =>
    refine .at hy ?_ ?_
    · unfold observed startObserved at hy ⊢
      dsimp only at hy ⊢
      rw [if_pos hy]
      rfl
    · unfold observed startObserved
      dsimp only
      split <;> exact nofun
  | advance => exact .at hy rfl nofun

theorem settles_permitWake (x : Sys) (i : Nat) (e : String)
    (hy : (x.permitWake i e false).state.failed = true) : Settles (x.permitWake i e false) := by
  unfold permitWake at hy ⊢
  generalize recordArrival (x.state.settle false) x.impl.nextStep i = s at hy ⊢
  dsimp only at hy ⊢
  split
  · rename_i hf
    exact .at hf rfl nofun
  · rename_i hf
    rw [if_neg hf] at hy
    split
    · exact .at (failed_fail _ _ _) rfl nofun
    · rename_i he
      rw [if_neg he] at hy
      split at hy <;> exact absurd hy hf

/-- A section settles a live execution where the permitted worker fails, or the controller is past
its waits. -/
theorem Moved.settles {lib : JsonScan} (hx : (lts lib).Reach x) (hf : x.state.failed = false)
    (hcl : x.impl.closed = false) (hg : x.ctl.gone = false) (ho : x.ctl.outset = false)
    (h : Moved lib.toJsonLib x m y) (hy : y.state.failed = true ∨ y.impl.closed = true) :
    Settles y := by
  have HC := Course.reach hx
  cases hfy : y.state.failed with
  | false =>
    have hcy := hy.resolve_left (by rw [hfy]; decide)
    refine ⟨.inr ⟨hfy, hcy⟩, fun i e he => ?_⟩
    rw [((HC.step h.move).unclosed (.inr (.inl (by rw [he]; rfl)))).1] at hcy
    cases hcy
  | true =>
    have hlive : ∀ {p : Prop}, x.state.failed = true → p := fun h => by rw [hf] at h; cases h
    cases h with
    | spawn hctl | barrier hctl => rw [hctl] at ho; cases ho
    | observed => exact settles_observed _ _ _ hfy
    | permitted => exact settles_permitWake _ _ _ hfy
    | joined | leave => exact hlive hfy
    | enter =>
      refine hlive ?_
      unfold cleanup at hfy
      split at hfy
      · exact hfy
      · dsimp only at hfy
        split at hfy <;> exact hfy
    | sweep hctl =>
      rw [(HC.ending hctl).1] at hcl
      cases hcl
    | @worker i _ hi h =>
      obtain ⟨⟨e, hctl⟩, hrun⟩ := running_of_work hx hf hcl hg ho hi h
      have hplace := h.frame.2.2
      refine ⟨.inl ⟨hfy, by rw [hplace, hctl]; rfl⟩, fun j e' hj => ?_⟩
      rw [hplace, hctl] at hj
      obtain ⟨rfl, -⟩ := Ctl.permitted.inj hj
      exact h.faulted (Core.reach hx) hi hf hrun ((Logged.reach hx hf).slot i e hctl) hfy

end Sys

namespace ScheduleRun

open Sys Shared

variable {d d' : ScheduleRun} {A : Option String → Prop}

/-- A statement of `run_schedule` settles a live execution where it fails it. -/
theorem Went.settles (hf : d.execution.state.failed = false)
    (hcl : d.execution.impl.closed = false) (h : d.Went d') (hp : d'.point ≠ .threw)
    (hy : d'.execution.state.failed = true ∨ d'.execution.impl.closed = true) :
    Settles d'.execution := by
  have hlive : ∀ {p : Prop},
      d.execution.state.failed = true ∨ d.execution.impl.closed = true → p := by
    rintro p (h | h)
    · rw [hf] at h; cases h
    · rw [hcl] at h; cases h
  cases h with
  | refused | began | returned => exact hlive hy
  | threw => exact absurd rfl hp
  | finish =>
    unfold Sys.finish at hy ⊢
    split
    · rename_i hx
      rw [if_pos hx] at hy
      exact hlive hy
    · rename_i hx
      rw [if_neg hx] at hy
      rcases hy with hy | hy
      · exact .at hy rfl nofun
      · exact hlive (.inr hy)
  | advance _ hc =>
    unfold Sys.advance at hy ⊢
    rw [if_neg (by rw [hc]; decide)] at hy ⊢
    split
    · exact .at (failed_fail _ _ _) rfl nofun
    · rename_i hx
      rw [hx] at hy
      exact hlive hy

/-- A statement of `run_schedule` writes nothing where the execution has settled. -/
theorem Went.trail (hctl : d.execution.ctl = .idle) (H : Settled d.execution) (h : d.Went d')
    (hp : d'.point ≠ .threw) : Settled d'.execution ∧ Trail A d.execution d'.execution := by
  cases h with
  | refused | began | returned => exact ⟨H, .refl _⟩
  | threw => exact absurd rfl hp
  | finish =>
    unfold Sys.finish
    split
    · exact ⟨H, .refl _⟩
    · rename_i hx
      rcases H with ⟨hf, -⟩ | ⟨-, hcl⟩
      · rw [fail_of_failed hf, ite_self]
        exact ⟨.inl ⟨hf, rfl⟩,
          .still (.refl _) rfl rfl rfl (by rw [hctl]; exact nofun) nofun⟩
      · rw [hcl] at hx
        exact absurd rfl hx
  | advance _ hc =>
    obtain ⟨-, hcl, hf, -⟩ := cannotAdvance_false hc
    rcases H with ⟨hf', -⟩ | ⟨-, hcl'⟩
    · rw [hf] at hf'; cases hf'
    · rw [hcl] at hcl'; cases hcl'

/-- What was closed without a failure has no worker left. -/
theorem closed_of_spent {lib : JsonScan} (h : (runSchedule lib).ReachBy Owned d)
    (hf : d.execution.state.failed = false) (hcl : d.execution.impl.closed = true) {i : Nat}
    (hi : i < d.execution.pcs.length) : d.execution.pc i = .closed := by
  have hx := reach_execution h.reach
  have H := Paced.reach h.reach
  have hdone : d.execution.state.report.scheduleCompleted = true := by
    cases hp : d.point with
    | starting =>
      rw [H.unclosed (.inl hp) (.inl hcl)] at hf
      cases hf
    | looping =>
      rw [H.unclosed (.inr hp) (.inl hcl)] at hf
      cases hf
    | finishing => exact (H.finishing hp).2 hf
    | returned => exact (H.returned hp).2.2 hf
    | threw => exact absurd hp (Undisturbed.reach h).point
  have ho : d.execution.state.report.outcome = .completed := by
    by_contra ho
    rw [(failed_iff hx).mpr ho] at hf
    cases hf
  exact ((played_of_completed hx ho hdone).finished i ((Core.reach hx).length ▸ hi)).2.1

end ScheduleRun

end MirrorCpp.Schedule
