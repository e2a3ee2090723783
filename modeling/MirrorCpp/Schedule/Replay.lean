import MirrorCpp.Schedule.Identity
import MirrorCpp.Schedule.Settled

/-!
# Replaying a schedule

Two runs of `run_schedule` over one deterministic program differ in how the sections of the
workers and of the controller interleave. Before the initial barrier the workers only park
(`Outset`), behind it one party can move, and a run that has failed or been closed has settled: what
it reports is written, but for the arrival of a worker that failed on its own, which the
controller logs if the worker has published it by the time it looks (`Trail`).
-/

namespace MirrorCpp.Schedule

universe u v

/-! ## The initial barrier -/

/-- An actor on its way to the barrier, from its declaration `a`. -/
inductive Approach (a : ActorState) (i : Nat) : Pc → ActorState → Prop where
  | unborn : Approach a i .unborn a
  | born : Approach a i .born a
  | waiting : Approach a i (.waiting .start) { a with thread := some (.worker i), phase := .parked }

theorem Approach.of_unborn {a b : ActorState} {i : Nat} (h : Approach a i .unborn b) : b = a := by
  cases h
  rfl

variable {L : Type u} {S : Type v}

/-- An execution before its barrier. -/
structure Outset (k₀ k : Config L S) : Prop where
  program : k = { k₀ with run := { k₀.run with execution := k.sys } }
  outset : k.sys.ctl.outset = true
  state : k.sys.state = { k₀.sys.state with actors := k.sys.state.actors }
  length : k.sys.state.actors.length = k₀.sys.state.actors.length
  pcs : k.sys.pcs.length = k₀.sys.state.actors.length
  impl : k.sys.impl =
    { k₀.sys.impl with threads := List.replicate k.sys.impl.threads.length true }
  full : k.sys.ctl = .barrier → k.sys.impl.threads.length = k₀.sys.state.actors.length
  entry : ∀ i, i < k₀.sys.state.actors.length →
    Approach (k₀.sys.state.actor i) i (k.sys.pc i) (k.sys.state.actor i)

namespace Outset

open Sys Shared

variable {app : App L S} {lib : JsonScan} {k k' k₀ : Config L S} {m : Mover} {o : Opening}

theorem actors_ext {s t : Shared} (hl : s.actors.length = t.actors.length)
    (h : ∀ i, i < s.actors.length → s.actor i = t.actor i) : s.actors = t.actors := by
  refine List.ext_getElem hl fun i hi hi' => ?_
  simpa [Shared.actor, List.getD_eq_getElem?_getD, hi, hi'] using h i hi

theorem pcs_ext {x y : Sys} (hl : x.pcs.length = y.pcs.length)
    (h : ∀ i, i < x.pcs.length → x.pc i = y.pc i) : x.pcs = y.pcs := by
  refine List.ext_getElem hl fun i hi hi' => ?_
  simpa [Sys.pc, List.getD_eq_getElem?_getD, hi, hi'] using h i hi

theorem init (h : Initial o k₀.sys) (hctl : k₀.sys.ctl = .spawning) : Outset k₀ k₀ := by
  have ht : k₀.sys.impl.threads = [] := by rw [h.impl]
  refine ⟨rfl, by rw [hctl]; rfl, rfl, rfl, by rw [h.pcs, List.length_map], ?_,
    fun hb => (by rw [hctl] at hb; cases hb), fun i hi => ?_⟩
  · have he : { k₀.sys.impl with threads := k₀.sys.impl.threads } =
        { k₀.sys.impl with threads := [] } := by rw [ht]
    rw [ht]
    exact he
  · rw [h.pc i]
    exact .unborn

/-- At the barrier every worker waits. -/
theorem waiting (h : Outset k₀ k) (hI : Initial o k₀.sys)
    (hall : k.sys.state.allParked = true) {i : Nat} (hi : i < k₀.sys.state.actors.length) :
    k.sys.pc i = .waiting .start ∧ k.sys.state.actor i =
      { k₀.sys.state.actor i with thread := some (.worker i), phase := .parked } := by
  have hp := all_actors hall (h.length ▸ hi)
  have he := h.entry i hi
  have hfresh : (k₀.sys.state.actor i).phase = .starting := by rw [hI.actor]
  generalize k.sys.pc i = pc at he ⊢
  generalize k.sys.state.actor i = a at he hp ⊢
  cases he with
  | waiting => exact ⟨rfl, rfl⟩
  | _ => rw [hfresh] at hp; cases hp

/-- There is one way to be at the barrier. -/
theorem unique (hI : Initial o k₀.sys) (h : Outset k₀ k) (h' : Outset k₀ k')
    (hctl : k.sys.ctl = .barrier) (hctl' : k'.sys.ctl = .barrier)
    (hall : k.sys.state.allParked = true) (hall' : k'.sys.state.allParked = true) : k = k' := by
  have ha : k.sys.state.actors = k'.sys.state.actors :=
    actors_ext (h.length.trans h'.length.symm) fun i hi => by
      rw [h.length] at hi
      rw [(h.waiting hI hall hi).2, (h'.waiting hI hall' hi).2]
  have hp : k.sys.pcs = k'.sys.pcs := pcs_ext (h.pcs.trans h'.pcs.symm) fun i hi => by
    rw [h.pcs] at hi
    rw [(h.waiting hI hall hi).1, (h'.waiting hI hall' hi).1]
  have hs : k.sys.state = k'.sys.state := by rw [h.state, h'.state, ha]
  have hw : k.sys.impl = k'.sys.impl := by rw [h.impl, h'.impl, h.full hctl, h'.full hctl']
  have hx : k.sys = k'.sys := by
    cases hk : k.sys
    cases hk' : k'.sys
    simp only [hk, hk'] at hs hw hp hctl hctl'
    simp only [hs, hw, hp, hctl, hctl']
  rw [h.program, h'.program, hx]

/-- A worker moves towards the barrier. -/
theorem move (h : Outset k₀ k) {i : Nat} (hi : i < k₀.sys.state.actors.length) (a : ActorState)
    (pc : Pc) (he : Approach (k₀.sys.state.actor i) i pc a) :
    Outset k₀ { k with run := { k.run with
      execution := { k.sys with state := k.sys.state.setActor i a }.setPc i pc } } where
  program := by rw [h.program]
  outset := h.outset
  state := by
    show k.sys.state.setActor i a = _
    rw [h.state]
    rfl
  length := by
    show (k.sys.state.setActor i a).actors.length = _
    simpa [Shared.setActor] using h.length
  pcs := by
    show (k.sys.pcs.set i pc).length = _
    rw [List.length_set, h.pcs]
  impl := h.impl
  full := h.full
  entry j hj := by
    by_cases hji : j = i
    · subst hji
      show Approach _ _ (({ k.sys with state := _ }.setPc j pc).pc j)
        ((k.sys.state.setActor j a).actor j)
      rw [pc_setPc_self _ _ (h.pcs.symm ▸ hj), actor_setActor_self _ _ (h.length.symm ▸ hj)]
      exact he
    · show Approach _ _ (({ k.sys with state := _ }.setPc i pc).pc j)
        ((k.sys.state.setActor i a).actor j)
      rw [pc_setPc_ne _ _ hji, actor_setActor_ne _ _ hji]
      exact h.entry j hj

theorem spawn (h : Outset k₀ k) (hu : k.sys.pc k.sys.impl.threads.length = .unborn) :
    Outset k₀ { k with run := { k.run with execution := k.sys.spawn none } } := by
  refine ⟨by rw [h.program], ?_, h.state, h.length, ?_, ?_, fun hc => ?_, fun j hj => ?_⟩
  · show (k.sys.spawn none).ctl.outset = true
    dsimp only [Sys.spawn]
    split <;> rfl
  · show (k.sys.pcs.set _ _).length = _
    rw [List.length_set, h.pcs]
  · show (k.sys.spawn none).impl =
      { k₀.sys.impl with threads := List.replicate (k.sys.spawn none).impl.threads.length true }
    have himpl := h.impl
    dsimp only [Sys.spawn]
    generalize k.sys.impl.threads.length = n at himpl
    rw [himpl]
    simp [List.replicate_succ']
  · have hc : (k.sys.spawn none).ctl = .barrier := hc
    show (k.sys.impl.threads ++ [true]).length = _
    dsimp only [Sys.spawn] at hc
    split at hc
    · rename_i hn
      rw [List.length_append, ← h.length]
      exact hn
    · cases hc
  · have hpc : (k.sys.spawn none).pc j =
        if j = k.sys.impl.threads.length ∧ k.sys.impl.threads.length < k.sys.pcs.length then .born
        else k.sys.pc j := pc_setPc k.sys _ j .born
    have he := h.entry j hj
    show Approach _ _ ((k.sys.spawn none).pc j) (k.sys.state.actor j)
    rw [hpc]
    split
    · rename_i hj'
      rw [hj'.1, hu] at he
      rw [hj'.1, he.of_unborn]
      exact .born
    · exact he

/-- Before the barrier the workers park and the controller starts them. -/
theorem step (hI : Initial o k₀.sys) (hf : k₀.sys.state.failed = false)
    (hc : k₀.sys.state.cancelled = false) (H : Core k.sys) (h : Outset k₀ k)
    (hs : app.step lib.toJsonLib k m = some k') :
    Outset k₀ k' ∨ m = .barrier ∧ k.sys.ctl = .barrier ∧ k.sys.state.allParked = true := by
  have ho := h.outset
  have hstate := h.state
  obtain ⟨a, ha, -, hplay⟩ := App.step_cases hs
  rcases App.moved_of_step hs with ⟨-, hctl, -⟩ | ⟨hrun, hm⟩
  · rw [hctl] at ho
    cases ho
  · generalize hy : k'.sys = y at hm hrun
    cases hm with
    | spawn hctl =>
      left
      rw [hplay, hrun]
      exact h.spawn (H.unborn _ le_rfl)
    | barrier hctl hw =>
      refine .inr ⟨rfl, hctl, ?_⟩
      rw [hstate] at hw ⊢
      simpa [waitOver, hf, hc] using hw
    | observed hctl | permitted hctl | joined hctl | leave hctl | enter hctl =>
      rw [hctl] at ho
      cases ho
    | sweep hctl =>
      rw [(Ctl.ending_only hctl).2] at ho
      cases ho
    | @worker i _ hi hw =>
      left
      have hi₀ : i < k₀.sys.state.actors.length := h.pcs ▸ hi
      have he := h.entry i hi₀
      have hfresh : (k₀.sys.state.actor i).phase = .starting := by rw [hI.actor]
      cases hw with
      | register hpc =>
        have hn : ∀ r, k.sys.pc i ≠ .user r := by
          intro r hr
          rw [hpc] at hr
          cases hr
        rw [hplay, App.play_hook hn, hrun]
        rw [hpc] at he
        generalize hb : k.sys.state.actor i = b at he
        cases he
        refine h.move hi₀ _ _ ?_
        rw [hb]
        exact .waiting
      | wake hpc _ _ hr =>
        rw [hpc] at he
        generalize k.sys.state.actor i = b at he hr
        cases he
        cases hr
      | stopped _ _ hst =>
        rw [hstate] at hst
        have hst : k₀.sys.state.stopping = true := hst
        rw [hI.stopping] at hst
        cases hst
      | user hpc | asked hpc | foreign hpc | refused hpc | astray hpc | park hpc | threw hpc
      | finish hpc =>
        rw [hpc] at he
        cases he

end Outset

/-! ## Where two runs settle -/

namespace App

open Sys Shared

variable {app : App L S} {lib : JsonScan} {k k' k₀ b d : Config L S} {m : Mover}

theorem path_of_reach (h : (app.lts lib k₀).Reach k) :
    (app.lts lib k₀).Path (fun _ _ => True) k₀ k := by
  induction h with
  | init h => rw [h]; exact .refl
  | step _ hc hs ih => exact ih.tail hc hs

/-- The configuration behind the barrier. -/
def Opened (app : App L S) (lib : JsonScan) (k₀ b : Config L S) : Prop :=
  ∃ k, Outset k₀ k ∧ k.sys.ctl = .barrier ∧ k.sys.state.allParked = true ∧
    app.step lib.toJsonLib k .barrier = some b

theorem Opened.unique {o : Opening} (hI : Initial o k₀.sys) (h : Opened app lib k₀ b)
    (h' : Opened app lib k₀ d) : b = d := by
  obtain ⟨k, ho, hctl, hall, hs⟩ := h
  obtain ⟨k', ho', hctl', hall', hs'⟩ := h'
  rw [ho.unique hI ho' hctl hctl' hall hall', hs'] at hs
  exact (Option.some.inj hs).symm

theorem Opened.live (hf : k₀.sys.state.failed = false) (hc : k₀.sys.state.cancelled = false)
    (hcl : k₀.sys.impl.closed = false) (h : Opened app lib k₀ b) : b.Live := by
  obtain ⟨k, ho, hctl, -, hs⟩ := h
  rcases moved_of_step hs with ⟨h, -⟩ | ⟨-, hm⟩
  · cases h
  · have hst : k.sys.state.settle false = k.sys.state :=
      settle_of_live (by rw [ho.state]; exact hc) rfl
    have hfk : k.sys.state.failed = false := by rw [ho.state]; exact hf
    have he : b.sys = { k.sys with ctl := .observer .start } := by
      generalize b.sys = y at hm
      cases hm with
      | barrier =>
        unfold passBarrier
        dsimp only
        rw [hst, if_neg (by rw [hfk]; decide)]
      | sweep hx => rw [hctl] at hx; cases hx
    refine ⟨by rw [he]; exact hfk, ?_, by rw [he]; rfl⟩
    rw [he]
    show k.sys.impl.closed = false
    rw [ho.impl]
    exact hcl

/-- A run that has returned has settled. -/
theorem not_live (hb : Begun lib k₀) (h : (app.lts lib k₀).Reach k)
    (hp : k.run.point = .returned) : ¬k.Live := by
  intro hl
  obtain ⟨-, hcl, -⟩ := (ScheduleRun.Paced.reach (reach_run hb h).reach).returned hp
  have hclosed := hl.closed
  rw [Config.sys, hcl (teardown_of_live (reach_sys hb h) hl.failed).1] at hclosed
  cases hclosed

/-- The paths of a run that starts its threads pass the barrier. -/
theorem opened_of_path {o : Opening} (hb : Begun lib k₀) (hI : Initial o k₀.sys)
    (hctl : k₀.sys.ctl = .spawning) (hf : k₀.sys.state.failed = false)
    (hc : k₀.sys.state.cancelled = false) (h : (app.lts lib k₀).Reach k)
    (hp : k.run.point = .returned) :
    ∃ b, (app.lts lib k₀).Reach b ∧ Opened app lib k₀ b ∧
      (app.lts lib k₀).Path (fun _ _ => True) b k := by
  have hstart : k₀.run.point = .starting := by
    obtain ⟨o, ho⟩ := hb
    rw [ho]
  have hout : ¬Outset k₀ k := fun ho => by
    rw [ho.program] at hp
    rw [show k₀.run.point = .returned from hp] at hstart
    cases hstart
  obtain ⟨u, a, b, hu, hou, -, hs, hnot, hrest⟩ :=
    (path_of_reach h).leaves (Outset.init hI hctl) hout
  have hr : (app.lts lib k₀).Reach u := Lts.ReachBy.path (.init rfl) (hu.mono fun _ _ _ => trivial)
  have hs : app.step lib.toJsonLib u a = some b := hs
  rcases hou.step hI hf hc (Core.reach (reach_sys hb hr)) hs with ho | ⟨rfl, hbar, hall⟩
  · exact absurd ho hnot
  · exact ⟨b, hr.step (a := .barrier) trivial hs, ⟨u, hou, hbar, hall, hs⟩, hrest⟩

theorem live_settles (hb : Begun lib k₀) (hr : (app.lts lib k₀).Reach k) (hl : k.Live)
    (hs : app.step lib.toJsonLib k m = some d) (hd : ¬d.Live) : Settles d.sys := by
  have HP := Prompt.reach hb hr
  have hrd : (app.lts lib k₀).Reach d := hr.step (a := m) trivial hs
  rcases moved_of_step hs with ⟨-, hctl, hw⟩ | ⟨-, hm⟩
  · have hp := (ScheduleRun.Undisturbed.reach (reach_run hb hrd)).point
    have ho : d.sys.ctl.outset = false := by
      show d.run.execution.ctl.outset = false
      generalize d.run = r at hw hp
      have hidle : k.run.execution.ctl = .idle := hctl
      cases hw with
      | refused | began | returned =>
        dsimp only
        rw [hidle]
        rfl
      | finish =>
        dsimp only
        rcases places_finish _ hidle with he | he <;> rw [he] <;> rfl
      | threw => exact absurd rfl hp
      | advance _ hc =>
        dsimp only
        rcases places_advance _ _ _ hc with he | ⟨i, e, he⟩ <;> rw [he] <;> rfl
    refine hw.settles hl.failed hl.closed hp ?_
    by_contra h
    rw [not_or, Bool.not_eq_true, Bool.not_eq_true] at h
    exact hd ⟨h.1, h.2, ho⟩
  · refine hm.settles (reach_sys hb hr) hl.failed hl.closed HP.gone hl.outset ?_
    by_contra h
    rw [not_or, Bool.not_eq_true, Bool.not_eq_true] at h
    exact hd ⟨h.1, h.2, hm.places.2 hl.outset⟩

/-- Two runs that have returned have settled in one configuration. -/
theorem settle (hb : Begun lib k₀) (h : (app.lts lib k₀).Reach k)
    (h' : (app.lts lib k₀).Reach k') (hp : k.run.point = .returned)
    (hp' : k'.run.point = .returned) :
    ∃ d, (app.lts lib k₀).Reach d ∧ Settles d.sys ∧
      (app.lts lib k₀).Path (fun _ _ => True) d k ∧
      (app.lts lib k₀).Path (fun _ _ => True) d k' := by
  have hbegun := hb
  obtain ⟨o, ho⟩ := hbegun
  have hI : Initial o k₀.sys := by
    show Initial o k₀.run.execution
    rw [ho]
    exact initial_start lib o
  rcases hI.start with ⟨hctl, hf, -⟩ | ⟨hctl, hf, -⟩ | ⟨hctl, hf, hc, -⟩
  · refine ⟨k₀, .init rfl, .at hf (by rw [hctl]; rfl) fun i e hx => ?_, path_of_reach h,
      path_of_reach h'⟩
    rw [hctl] at hx
    cases hx
  · refine ⟨k₀, .init rfl, .at hf (by rw [hctl]; rfl) fun i e hx => ?_, path_of_reach h,
      path_of_reach h'⟩
    rw [hctl] at hx
    cases hx
  · obtain ⟨b, hr, hob, hpath⟩ := opened_of_path hb hI hctl hf hc h hp
    obtain ⟨b', -, hob', hpath'⟩ := opened_of_path hb hI hctl hf hc h' hp'
    obtain rfl := hob.unique hI hob'
    have hcl : k₀.sys.impl.closed = false := by rw [hI.impl]
    obtain ⟨u, m, d, hu, hlive, -, hs, hd, hk, hk'⟩ := (determined hb).settle hr
      (hob.live hf hc hcl) hpath hpath' (not_live hb h hp) (not_live hb h' hp')
    exact ⟨d, hu.step (a := m) trivial hs, live_settles hb hu hlive hs hd, hk, hk'⟩

/-- A settled run stays settled, and writes what its trail allows. -/
theorem settled_step {A : Option String → Prop} (hb : Begun lib k₀)
    (hr : (app.lts lib k₀).Reach k) (H : Settled k.sys)
    (hA : ∀ i e, k.sys.ctl = .permitted i e → A (k.sys.state.actor i).arrival)
    (hs : app.step lib.toJsonLib k m = some k') : Settled k'.sys ∧ Trail A k.sys k'.sys := by
  have hr' : (app.lts lib k₀).Reach k' := hr.step (a := m) trivial hs
  rcases moved_of_step hs with ⟨-, hctl, hw⟩ | ⟨-, hm⟩
  · exact hw.trail hctl H (ScheduleRun.Undisturbed.reach (reach_run hb hr')).point
  · exact H.moved (Course.reach (reach_sys hb hr))
      (fun hf hcl i hi => ScheduleRun.closed_of_spent (reach_run hb hr) hf hcl hi) hA hm

/-- Along a run that has settled an invariant holds that its steps keep, and the arrivals it
allows are all that is written. -/
theorem trail_path {A : Option String → Prop} {I : Config L S → Prop} (hb : Begun lib k₀)
    (hkeep : ∀ k m k', (app.lts lib k₀).Reach k → Settled k.sys → I k →
      app.step lib.toJsonLib k m = some k' → I k')
    (hA : ∀ k, I k → ∀ i e, k.sys.ctl = .permitted i e → A (k.sys.state.actor i).arrival)
    (hr : (app.lts lib k₀).Reach d) (H : Settled d.sys) (hI : I d)
    (hp : (app.lts lib k₀).Path (fun _ _ => True) d k) :
    Settled k.sys ∧ I k ∧ Trail A d.sys k.sys := by
  induction hp with
  | refl => exact ⟨H, hI, .refl _⟩
  | tail hp _ hs ih =>
    obtain ⟨Hk, hIk, ht⟩ := ih
    have hrk := hr.path hp
    obtain ⟨H', ht'⟩ := settled_step hb hrk Hk (hA _ hIk) hs
    exact ⟨H', hkeep _ _ _ hrk Hk hIk hs, ht.trans ht'⟩

theorem trail_of_path (hb : Begun lib k₀) (hr : (app.lts lib k₀).Reach d) (H : Settled d.sys)
    (hp : (app.lts lib k₀).Path (fun _ _ => True) d k) : Trail (fun _ => True) d.sys k.sys :=
  (trail_path (I := fun _ => True) hb (fun _ _ _ _ _ _ _ => trivial)
    (fun _ _ _ _ _ => trivial) hr H trivial hp).2.2

/-- Where `run_schedule` has returned no permit is out. -/
theorem not_permitted (hb : Begun lib k₀) (h : (app.lts lib k₀).Reach k)
    (hp : k.run.point = .returned) : ∀ i e, k.sys.ctl ≠ .permitted i e := by
  intro i e hctl
  have hidle := ((ScheduleRun.Paced.reach (reach_run hb h).reach).returned hp).1
  rw [hctl] at hidle
  cases hidle

end App

/-! ## Runs under other identities -/

/-- The same configuration under another identity. -/
def Config.named (n : RunIdentity) (k : Config L S) : Config L S := { k with run := k.run.named n }

theorem Report.Agrees.named {r : Report} {s : Shared} {n : RunIdentity}
    (h : r.Agrees (s.named n).report) : r.Agrees s.report :=
  ⟨h.outcome, h.detail, h.completed, h.observations⟩

namespace App

variable {app : App L S} {lib : JsonScan} {k k₀ : Config L S} {o : Sys.Opening}
  {locals : Nat → L} {shared : S} {generation : Nat} {random : Fin 4 → UInt32}

theorem play_named (n : RunIdentity) (k : Config L S) (d : ScheduleRun) (m : Mover) :
    app.play (k.named n) (d.named n) m = (app.play k d m).named n := by
  cases m with
  | worker i =>
    unfold play
    dsimp only
    rw [show (k.named n).sys.pc i = k.sys.pc i from rfl]
    split <;> rfl
  | _ => rfl

theorem step_named (n : RunIdentity) (lib : JsonLib) (k : Config L S) (m : Mover) :
    app.step lib (k.named n) m = (app.step lib k m).map (Config.named n) := by
  have hchoice : app.choice (k.named n) m = app.choice k m := by cases m <;> rfl
  unfold step
  rw [hchoice]
  cases app.choice k m with
  | none => rfl
  | some a =>
    rw [Option.bind_some, Option.bind_some, show (k.named n).run = k.run.named n from rfl,
      ScheduleRun.step_named, Option.map_map, Option.map_map]
    exact congrArg (Option.map · _) (funext fun d => play_named n k d m)

theorem reach_named (n : RunIdentity) (h : (app.lts lib k₀).Reach k) :
    (app.lts lib (k₀.named n)).Reach (k.named n) := by
  induction h with
  | init h => exact .init (congrArg (Config.named n) h)
  | @step k k' m _ _ hs ih =>
    have hs : app.step lib.toJsonLib k m = some k' := hs
    refine ih.step (a := m) trivial ((step_named n lib.toJsonLib k m).trans ?_)
    rw [hs]
    rfl

theorem start_renewed (o : Sys.Opening) (locals : Nat → L) (shared : S) (generation : Nat)
    (random : Fin 4 → UInt32) :
    App.start lib (o.renewed generation random) locals shared =
      (App.start lib o locals shared).named (o.renewed generation random).identity := by
  unfold start
  rw [Sys.start_renewed]
  rfl

/-- A run of the same start at another time is one of this start, but for its identity. -/
theorem reach_renewed
    (h : (app.lts lib (App.start lib (o.renewed generation random) locals shared)).Reach k) :
    (app.lts lib (App.start lib o locals shared)).Reach (k.named o.identity) := by
  have hback : (o.renewed generation random).renewed o.generation o.random = o := rfl
  have hr := reach_named o.identity h
  rw [← congrArg (App.start lib · locals shared) hback]
  exact start_renewed (o.renewed generation random) locals shared
    o.generation o.random ▸ hr

end App

/-! ## Replays -/

/-- `events` are those of `log`, or one more: the arrival of an actor at its step. -/
def LastArrival (log : List Event) (step : Nat) (a : ActorDeclaration) (events : List Event) :
    Prop :=
  events = log ∨
    ∃ checkpoint, events = log ++
      [⟨log.length, .arrival, step, a.actor, a.operation, checkpoint⟩]

namespace App

open Sys Shared

variable {app : App L S} {lib : JsonScan} {k k' k₀ d : Config L S} {m : Mover}
  {o : Opening} {locals : Nat → L} {shared : S} {generation : Nat} {random : Fin 4 → UInt32}

theorem lastArrival_of_trail {A : Option String → Prop} (h : Trail A d.sys k.sys) {i : Nat}
    {e : String} (hctl : d.sys.ctl = .permitted i e) :
    LastArrival d.sys.state.report.events d.sys.impl.nextStep (d.sys.state.actor i).declaration
      k.sys.state.report.events := by
  rcases h.log with ⟨-, he⟩ | ⟨-, ⟨hx, -⟩ | ⟨j, e', slot, hj, -, he⟩⟩
  · exact .inl he
  · exact absurd hctl (hx i e)
  · rw [hctl] at hj
    obtain ⟨rfl, -⟩ := Ctl.permitted.inj hj
    rw [he]
    cases slot with
    | none => exact .inl (List.append_nil _)
    | some checkpoint => exact .inr ⟨checkpoint, rfl⟩

/-- **Replays agree.** Two runs of `run_schedule` over one deterministic program that have returned
report the same outcome, detail and observations, whatever the interleavings, the generations and
the ids. They report the same events, unless a worker failed on its own; then one list may end in
an arrival of that worker, the last one to be granted a permit, that the other lacks. -/
theorem replays_agree (h : (app.lts lib (App.start lib o locals shared)).Reach k)
    (h' : (app.lts lib (App.start lib (o.renewed generation random) locals shared)).Reach k')
    (hp : k.run.point = .returned) (hp' : k'.run.point = .returned) :
    k.sys.state.report.Agrees k'.sys.state.report ∧
      (k.sys.state.report.events = k'.sys.state.report.events ∨
        (k.sys.state.report.outcome = .applicationFailed ∨
          k.sys.state.report.outcome = .unexpectedCheckpoint) ∧
        ∃ log step a, LastPermit log step a ∧ LastArrival log step a k.sys.state.report.events ∧
          LastArrival log step a k'.sys.state.report.events) := by
  have hb : Begun lib (App.start lib o locals shared) := begun_start o locals shared
  obtain ⟨d, hr, H, hpath, hpath'⟩ := settle hb h (reach_renewed h') hp hp'
  have ht := trail_of_path hb hr H.settled hpath
  have ht' := trail_of_path hb hr H.settled hpath'
  refine ⟨ht.agrees.symm.trans ht'.agrees.named, ?_⟩
  by_cases hctl : ∃ i e, d.sys.ctl = .permitted i e
  · right
    obtain ⟨i, e, hctl⟩ := hctl
    refine ⟨?_, _, _, _, Granting.reach (reach_sys hb hr) i e hctl, lastArrival_of_trail ht hctl,
      lastArrival_of_trail ht' hctl⟩
    cases H.faulted i e hctl with
    | threw ho => exact .inl (ht.agrees.outcome.trans ho)
    | astray ho => exact .inr (ht.agrees.outcome.trans ho)
  · left
    have hx : ∀ i e, d.sys.ctl ≠ .permitted i e := fun i e h => hctl ⟨i, e, h⟩
    exact (ht.events hx).trans (ht'.events hx).symm

/-- Worker `0` throws when it first leaves its hook. -/
def sample : App Nat Nat where
  next i r step shared :=
    match i, r, step with
    | 0, .returned, 0 => (.throw_ (some "broken"), 1, shared + 1)
    | _, _, _ => (.return_, step, shared)
  observe shared := (.ok (.obj [("shared", .int shared)]), shared)

def sampleConfig : Config Nat Nat := ⟨{ execution := sampleStart }, fun _ => 0, 0⟩

theorem start_sampleConfig : App.start sampleLib sampleOpening (fun _ => 0) 0 = sampleConfig := by
  unfold start
  rw [start_sample]
  rfl

/-- Two starts of the sample. -/
def sampleTime (early : Bool) : Opening :=
  if early then sampleOpening else sampleOpening.renewed 2 fun _ => 0

/-- To the permit of the worker that throws. -/
def sampleBegin : List Mover :=
  [.spawn, .spawn, .worker 1, .worker 0, .barrier, .observed, .client, .client, .worker 0,
    .worker 0, .worker 0]

/-- The controller looks for its checkpoint before or after it ends. -/
def sampleRace (early : Bool) : List Mover :=
  if early then [.permitted, .leave, .enter, .worker 0] else [.worker 0, .permitted, .leave, .enter]

def sampleEnd : List Mover :=
  [.worker 1, .worker 1, .cleanupWake false, .cleanupJoined, .cleanupJoined, .cleanupTorn none,
    .client, .client]

def sampleMovers (early : Bool) : List Mover := sampleBegin ++ sampleRace early ++ sampleEnd

def sampleReplay (early : Bool) : Option (Config Nat Nat) :=
  (sample.lts sampleLib sampleConfig).exec (fun _ _ => true) (sampleMovers early) sampleConfig

theorem sampleReplay_returned (early : Bool) : (sampleReplay early).map (fun k =>
    (k.run.point, k.sys.state.report.outcome, k.sys.state.report.events.length)) =
      some (.returned, .applicationFailed, if early then 1 else 2) := by
  cases early <;> decide +kernel

/-- A replay of the sample has failed, and reports as many events as the controller has found. -/
structure Sampled (early : Bool) (k : Config Nat Nat) : Prop where
  reach : (sample.lts sampleLib (App.start sampleLib (sampleTime early) (fun _ => 0) 0)).Reach k
  returned : k.run.point = .returned
  outcome : k.sys.state.report.outcome = .applicationFailed
  events : k.sys.state.report.events.length = if early then 1 else 2

theorem exists_sampled (early : Bool) : ∃ k, Sampled early k := by
  obtain ⟨k, hk, e⟩ := Option.map_eq_some_iff.mp (sampleReplay_returned early)
  simp only [Prod.mk.injEq] at e
  obtain ⟨hp, ho, he⟩ := e
  have hr : (sample.lts sampleLib sampleConfig).Reach k :=
    .exec (fun _ _ _ => trivial) (.init rfl) hk
  rw [← start_sampleConfig] at hr
  cases early with
  | true => exact ⟨k, hr, hp, ho, he⟩
  | false =>
    refine ⟨k.named (sampleTime false).identity, ?_, hp, ho, he⟩
    rw [show sampleTime false = sampleOpening.renewed 2 fun _ => 0 from rfl, start_renewed]
    exact reach_named _ hr

/-- The two lists of events differ. -/
theorem Sampled.differ {k k' : Config Nat Nat} (h : Sampled true k) (h' : Sampled false k') :
    k.sys.state.report.events ≠ k'.sys.state.report.events := by
  intro he
  have hl := h.events
  rw [he, h'.events] at hl
  cases hl

theorem replays_agree_sample : ∃ k k' : Config Nat Nat, Sampled true k ∧ Sampled false k' ∧
    k.sys.state.report.Agrees k'.sys.state.report ∧
      ∃ log step a, LastPermit log step a ∧ LastArrival log step a k.sys.state.report.events ∧
        LastArrival log step a k'.sys.state.report.events := by
  obtain ⟨k, h⟩ := exists_sampled true
  obtain ⟨k', h'⟩ := exists_sampled false
  obtain ⟨hagree, he | ⟨-, hlast⟩⟩ := replays_agree h.reach h'.reach h.returned h'.returned
  · exact absurd he (h.differ h')
  · exact ⟨k, k', h, h', hagree, hlast⟩

/-! ## Programs that let the hook's exception through -/

/-- A call of the hook that throws ends the worker's function. -/
def LetsThrough (app : App L S) : Prop := ∀ i l s, (app.next i .threw l s).1 = .return_

/-- Worker `i` ends with `slot` published, or with its completion where that is nothing. -/
inductive Unwinds (slot : Option String) (i : Nat) (x : Sys) : Prop where
  | thrown (hpc : x.pc i = .user .threw) (ha : (x.state.actor i).arrival = slot) :
      Unwinds slot i x
  | closing (hpc : x.pc i = .closing) (ha : (x.state.actor i).arrival = slot) :
      Unwinds slot i x
  | closed (hpc : x.pc i = .closed)
      (ha : (x.state.actor i).arrival = some (slot.getD completion)) : Unwinds slot i x

theorem Unwinds.same {x y : Sys} {slot : Option String} {i : Nat} (h : Unwinds slot i x)
    (hpc : y.pc i = x.pc i) (ha : y.state.actor i = x.state.actor i) : Unwinds slot i y := by
  cases h with
  | thrown h h' => exact .thrown (hpc.trans h) (ha ▸ h')
  | closing h h' => exact .closing (hpc.trans h) (ha ▸ h')
  | closed h h' => exact .closed (hpc.trans h) (ha ▸ h')

theorem Unwinds.worker {lib : JsonLib} {slot : Option String} {i j : Nat} (hy : LetsThrough app)
    (HK : Core k.sys) (H : Unwinds slot i k.sys) (hs : app.step lib k (.worker j) = some k') :
    Unwinds slot i k'.sys := by
  obtain ⟨a, ha, -⟩ := step_cases hs
  obtain ⟨c, hc, rfl⟩ := Option.map_eq_some_iff.mp ha
  obtain ⟨hx, -⟩ := around_step ha hs
  obtain ⟨hj, hw⟩ := workerChoice_cases hc hx
  by_cases hij : i = j
  · subst hij
    cases H with
    | thrown hpc ha =>
      have he : k'.sys = k.sys.setPc i .closing := by
        unfold workerChoice at hc
        rw [hpc] at hc
        cases hc
        rw [hy] at hx
        simp only [Sys.step, workerStep, hpc, Call.pc, hj, if_true, Option.some.injEq] at hx
        exact hx.symm
      rw [he]
      exact .closing (pc_setPc_self _ _ hj) ha
    | closing hpc ha =>
      generalize k'.sys = y at hw
      cases hw with
      | finish =>
        refine .closed (pc_setPc_self _ _ hj) ?_
        show ((k.sys.state.finishWorker i).actor i).arrival = _
        unfold Shared.finishWorker
        dsimp only
        rw [actor_setActor_self _ _ (HK.length ▸ hj), ha]
      | register h | wake h | stopped h | user h | asked h | foreign h | refused h | astray h
      | park h | threw h =>
        rw [hpc] at h
        cases h
    | closed hpc =>
      generalize k'.sys = y at hw
      cases hw with
      | register h | wake h | stopped h | user h | asked h | foreign h | refused h | astray h
      | park h | threw h | finish h =>
        rw [hpc] at h
        cases h
  · obtain ⟨hpc, ha⟩ := hw.other hij
    exact H.same hpc ha

/-- What the controller finds of a worker that unwinds. -/
theorem unwinds_arrived {slot : Option String} {i : Nat} {e : String} (hb : Begun lib k₀)
    (hy : LetsThrough app) (hr : (app.lts lib k₀).Reach d) (H : Settled d.sys)
    (hctl : d.sys.ctl = .permitted i e) (hu : Unwinds slot i d.sys)
    (hp : (app.lts lib k₀).Path (fun _ _ => True) d k)
    (hk : ∀ i e, k.sys.ctl ≠ .permitted i e) :
    ∃ s, (s = slot ∨ s = some (slot.getD completion)) ∧
      k.sys.state.report.events = d.sys.state.report.events ++ d.sys.arrivals i s := by
  have hA : ∀ k : Config L S, (∀ j e, k.sys.ctl = .permitted j e → j = i ∧ Unwinds slot i k.sys) →
      ∀ j e, k.sys.ctl = .permitted j e → (k.sys.state.actor j).arrival = slot ∨
        (k.sys.state.actor j).arrival = some (slot.getD completion) := by
    intro k hI j e hj
    obtain ⟨rfl, hu⟩ := hI j e hj
    cases hu with
    | thrown _ ha | closing _ ha => exact .inl ha
    | closed _ ha => exact .inr ha
  refine Trail.arrived (trail_path hb ?_ hA hr H (fun j e' hj => ?_) hp).2.2 hctl hk
  · -- only a worker moves while the controller waits behind the permit
    intro k m k' hr H hI hs j e hj
    have ht := (settled_step (A := fun s => s = slot ∨ s = some (slot.getD completion)) hb hr H
      (hA k hI) hs).2
    have hjk : k.sys.ctl = .permitted j e := by
      rcases ht.log with ⟨he, -⟩ | ⟨hno, -⟩
      · rw [← he]
        exact hj
      · exact absurd hj (hno j e)
    obtain ⟨rfl, hu⟩ := hI j e hjk
    refine ⟨rfl, ?_⟩
    rcases moved_of_step hs with ⟨-, hidle, -⟩ | ⟨-, hm⟩
    · rw [hidle] at hjk
      cases hjk
    · have hm' := hm
      generalize hyk : k'.sys = y at hm' hj
      cases hm' with
      | spawn h | barrier h | observed h | joined h | leave h | enter h =>
        rw [h] at hjk
        cases hjk
      | permitted =>
        have hf := H.failed (Course.reach (reach_sys hb hr)) (.inl (by rw [hjk]; rfl))
        rw [permitWake_failed hf] at hj
        cases hj
      | sweep h =>
        rw [hjk] at h
        cases h
      | worker =>
        rw [← hyk]
        exact hu.worker hy (Core.reach (reach_sys hb hr)) hs
  · rw [hctl] at hj
    obtain ⟨rfl, -⟩ := Ctl.permitted.inj hj
    exact ⟨rfl, hu⟩

/-- `events` are those of `log`, or one more: an actor's arrival at the end of its function. -/
def DoneArrival (log : List Event) (step : Nat) (a : ActorDeclaration) (events : List Event) :
    Prop :=
  events = log ∨
    events = log ++ [⟨log.length, .arrival, step, a.actor, a.operation, completion⟩]

/-- **Replays of a program that lets the hook's exception through** report the same events, but
for the `$done` arrival of a worker that has thrown an exception of its own. -/
theorem replays_agree_of_letsThrough (hy : LetsThrough app)
    (h : (app.lts lib (App.start lib o locals shared)).Reach k)
    (h' : (app.lts lib (App.start lib (o.renewed generation random) locals shared)).Reach k')
    (hp : k.run.point = .returned) (hp' : k'.run.point = .returned) :
    k.sys.state.report.events = k'.sys.state.report.events ∨
      k.sys.state.report.outcome = .applicationFailed ∧
        ∃ log step a, LastPermit log step a ∧ DoneArrival log step a k.sys.state.report.events ∧
          DoneArrival log step a k'.sys.state.report.events := by
  have hb : Begun lib (App.start lib o locals shared) := begun_start o locals shared
  obtain ⟨d, hr, H, hpath, hpath'⟩ := settle hb h (reach_renewed h') hp hp'
  have ht := trail_of_path hb hr H.settled hpath
  have ht' := trail_of_path hb hr H.settled hpath'
  by_cases hctl : ∃ i e, d.sys.ctl = .permitted i e
  · obtain ⟨i, e, hctl⟩ := hctl
    have found : ∀ {slot : Option String}, Unwinds slot i d.sys → _ := fun hu =>
      And.intro (unwinds_arrived hb hy hr H.settled hctl hu hpath (not_permitted hb h hp))
        (unwinds_arrived hb hy hr H.settled hctl hu hpath'
          (not_permitted hb (reach_renewed h') hp'))
    cases H.faulted i e hctl with
    | threw ho hpc ha =>
      obtain ⟨⟨s, hs, he⟩, ⟨s', hs', he'⟩⟩ := found (.closing hpc ha)
      have done : ∀ {s : Option String} {events : List Event},
          s = none ∨ s = some completion →
          events = d.sys.state.report.events ++ d.sys.arrivals i s →
          DoneArrival d.sys.state.report.events d.sys.impl.nextStep
            (d.sys.state.actor i).declaration events := by
        rintro s events (rfl | rfl) he
        · exact .inl (he.trans (List.append_nil _))
        · exact .inr he
      exact .inr ⟨ht.agrees.outcome.trans ho, _, _, _, Granting.reach (reach_sys hb hr) i e hctl,
        done hs he, done hs' he'⟩
    | astray ho hpc ha =>
      obtain ⟨⟨s, hs, he⟩, ⟨s', hs', he'⟩⟩ := found (.thrown hpc ha)
      left
      refine he.trans (.trans ?_ he'.symm)
      rcases hs with rfl | rfl <;> rcases hs' with rfl | rfl <;> rfl
  · left
    have hx : ∀ i e, d.sys.ctl ≠ .permitted i e := fun i e h => hctl ⟨i, e, h⟩
    exact (ht.events hx).trans (ht'.events hx).symm

theorem letsThrough_sample : LetsThrough sample := by
  intro i l s
  cases i <;> rfl

theorem replays_agree_of_letsThrough_sample : ∃ k k' : Config Nat Nat,
    Sampled true k ∧ Sampled false k' ∧
      ∃ log step a, LastPermit log step a ∧ DoneArrival log step a k.sys.state.report.events ∧
        DoneArrival log step a k'.sys.state.report.events := by
  obtain ⟨k, h⟩ := exists_sampled true
  obtain ⟨k', h'⟩ := exists_sampled false
  rcases replays_agree_of_letsThrough letsThrough_sample h.reach h'.reach h.returned
    h'.returned with he | ⟨-, hdone⟩
  · exact absurd he (h.differ h')
  · exact ⟨k, k', h, h', hdone⟩

end App

end MirrorCpp.Schedule
