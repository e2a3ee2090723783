import MirrorCpp.Schedule.Quiescence

/-!
# The lifecycle of an execution

`Blame` is what no step takes back of a failure, `Torn` where the teardown stands, and `Closing`
what `cleanup` may report: an attempt that left threads behind was none of a completed schedule.
All three hold across any sequence of calls and any interleaving.
-/

namespace MirrorCpp.Schedule

/-- The report names a failure: of the run, of a join in time, or of the teardown. -/
def Report.faulty (r : Report) : Bool :=
  r.outcome != .completed || r.cleanup == .incomplete || r.cleanup == .teardownFailed

/-- What is recorded of a failure is as before, or the first failure has been recorded. -/
def Blame (s t : Shared) : Prop :=
  (t.failed = s.failed ∧ t.report.outcome = s.report.outcome ∧
    t.report.detail = s.report.detail) ∨
  (s.failed = false ∧ t.failed = true ∧ t.report.outcome ≠ .completed)

namespace Blame

open Shared

variable {s t u : Shared}

theorem trans (h : Blame s t) (h' : Blame t u) : Blame s u := by
  rcases h with ⟨hf, ho, hd⟩ | ⟨hs, ht, ho⟩
  · rcases h' with ⟨hf', ho', hd'⟩ | ⟨ht, hu, ho'⟩
    · exact .inl ⟨hf'.trans hf, ho'.trans ho, hd'.trans hd⟩
    · exact .inr ⟨hf.symm.trans ht, hu, ho'⟩
  · rcases h' with ⟨hf', ho', -⟩ | ⟨ht', -⟩
    · exact .inr ⟨hs, hf'.trans ht, fun h => ho (ho'.symm.trans h)⟩
    · rw [ht] at ht'; cases ht'

/-- The actors do not matter here. -/
theorem judged {as : List ActorState} (h : Judged s { t with actors := as }) : Blame s t := by
  rcases h.first with he | h
  · subst he
    exact .inl ⟨rfl, rfl, rfl⟩
  · exact .inr h

theorem recordArrival (s : Shared) (n i : Nat) : Blame s (Sys.recordArrival s n i) := by
  unfold Sys.recordArrival
  dsimp only
  split <;> exact .inl ⟨rfl, rfl, rfl⟩

end Blame

namespace Sys

open Shared

variable {x y : Sys} {lib : JsonScan} {i j : Nat}

/-! ## Failures -/

theorem Retained.blame (h : Retained x y) : Blame x.state y.state := by
  cases h with
  | failed => exact .judged (judged_fail _ (by decide) _)
  | kept => exact .inl ⟨rfl, rfl, rfl⟩

theorem state_callTeardown (x : Sys) : x.callTeardown.state = x.state := by
  unfold callTeardown
  split <;> rfl

theorem Scan.blame (h : Scan x y) : Blame x.state y.state := by
  cases h with
  | tear => rw [state_callTeardown]; exact .inl ⟨rfl, rfl, rfl⟩
  | _ => exact .inl ⟨rfl, rfl, rfl⟩

theorem Wind.blame (h : Wind x y) : Blame x.state y.state := by
  cases h with
  | wake _ h => exact h.blame
  | @joined i _ _ _ h =>
    have hj : Blame x.state (markJoined x.state i) := .inl ⟨rfl, rfl, rfl⟩
    exact hj.trans h.blame
  | destroyTear => rw [state_callTeardown]; exact .inl ⟨rfl, rfl, rfl⟩
  | _ => exact .inl ⟨rfl, rfl, rfl⟩

theorem Move.blame (h : Move x y) : Blame x.state y.state := by
  cases h with
  | work _ h =>
    obtain ⟨s, ps, rfl, hj⟩ := h.judged
    exact .judged hj
  | foreign => exact .judged (judged_arrive _ _ _ _)
  | refuse _ _ ho => exact .judged (judged_fail _ ho _)
  | finish _ _ _ hj | barrierFailed _ hj => exact .judged hj
  | spawnRefused => exact .judged (judged_fail _ (by decide) _)
  | startObserved _ h => exact h.blame.trans (.judged (judged_settle _ _))
  | @advanceObserved z late _ h =>
    have hs : Blame x.state (z.state.settle late) :=
      h.blame.trans (.judged (judged_settle z.state late))
    unfold Sys.advanceObserved
    generalize z.state.settle late = s at hs
    dsimp only
    split
    · exact hs.trans (.inl ⟨rfl, rfl, rfl⟩)
    · exact hs
  | wokenFailed _ hj => exact (Blame.judged hj).trans (.recordArrival _ _ _)
  | wokenAstray =>
    exact (Blame.recordArrival _ _ _).trans (.judged (judged_fail _ (by decide) _))
  | wokenFinished | wokenParked => exact .recordArrival _ _ _
  | wind h => exact h.blame
  | _ => exact .inl ⟨rfl, rfl, rfl⟩

theorem blame_path (h : (lts lib).Path (fun _ _ => True) x y) : Blame x.state y.state := by
  induction h with
  | refl => exact .inl ⟨rfl, rfl, rfl⟩
  | tail _ _ hs ih => exact ih.trans (move_of_step hs).blame

/-- The outcome names a failure exactly when one is recorded. -/
theorem failed_iff (h : (lts lib).Reach x) :
    x.state.failed = true ↔ x.state.report.outcome ≠ .completed := by
  refine h.inv (P := fun x => x.state.failed = true ↔ x.state.report.outcome ≠ .completed) ?_ ?_
  · rintro _ ⟨o, rfl⟩
    exact (initial_start lib o).outcome
  · intro x c y H _ hs
    rcases (move_of_step hs).blame with ⟨hf, ho, -⟩ | ⟨-, hf, ho⟩
    · rw [hf, ho]
      exact H
    · exact ⟨fun _ => ho, fun _ => hf⟩

/-! ## The steps that do not clean up -/

end Sys

/-- In the thread loop of `start`, or in or behind the destructor's teardown. -/
def Ctl.marked : Ctl → Bool
  | .spawning | .destroyTearing | .destroyed => true
  | _ => false

/-- `advance` has granted a permit and not come to its end. -/
def Ctl.stepping : Ctl → Bool
  | .permitted _ _ | .joining _ | .observer .advance => true
  | _ => false

/-- Nothing has been cleaned up or completed between these reports. -/
structure Report.Alike (r q : Report) : Prop where
  cleanup : q.cleanup = r.cleanup
  remaining : q.remainingActors = r.remainingActors
  completed : q.scheduleCompleted = r.scheduleCompleted

theorem Report.Alike.trans {r q p : Report} (h : r.Alike q) (h' : q.Alike p) : r.Alike p :=
  ⟨h'.cleanup.trans h.cleanup, h'.remaining.trans h.remaining, h'.completed.trans h.completed⟩

namespace Sys

open Shared

variable {x y : Sys} {lib : JsonScan} {i j : Nat}

theorem alike_judged {s t : Shared} {as : List ActorState}
    (h : Judged s { t with actors := as }) : s.report.Alike t.report :=
  ⟨h.cleanup, h.remainingActors, h.scheduleCompleted⟩

theorem alike_recordArrival (s : Shared) (n i : Nat) :
    s.report.Alike (recordArrival s n i).report := by
  unfold recordArrival
  dsimp only
  split <;> exact ⟨rfl, rfl, rfl⟩

/-- Nothing has been torn down between these records, and no thread created. -/
structure Held (p q : Impl) : Prop where
  attempted : q.teardownAttempted = p.teardownAttempted
  teardowns : q.teardowns = p.teardowns
  closed : p.closed = true → q.closed = true
  threads : q.threads = p.threads ∨ ∃ i, q.threads = p.threads.set i false

theorem Held.refl (p : Impl) : Held p p := ⟨rfl, rfl, id, .inl rfl⟩

/-- The step is none of `cleanup` behind its wait, nor of the destructor. -/
structure Plain (x y : Sys) : Prop where
  held : Held x.impl y.impl
  torn : y.impl.teardownFailed = x.impl.teardownFailed
  cleanup : y.state.report.cleanup = x.state.report.cleanup
  remaining : y.state.report.remainingActors = x.state.report.remainingActors
  ctl : y.ctl = x.ctl ∨ y.ctl.marked = false ∧ x.ctl ≠ .destroyTearing ∧ x.ctl ≠ .destroyed
  completed : y.state.report.scheduleCompleted = x.state.report.scheduleCompleted ∨
    x.ctl = .observer .advance ∧ y.ctl = .returning ∧
      y.impl.nextStep = y.impl.schedule.steps.length
  nextStep : y.impl.nextStep = x.impl.nextStep ∨ x.ctl.stepping = true
  stepping : y.ctl.stepping = true →
    x.ctl.stepping = true ∨ x.state.report.scheduleCompleted = false

namespace Plain

/-- The controller stays where it is. -/
theorem same (hi : y.impl = x.impl) (hr : x.state.report.Alike y.state.report)
    (hc : y.ctl = x.ctl) : Plain x y where
  held := hi ▸ .refl _
  torn := by rw [hi]
  cleanup := hr.cleanup
  remaining := hr.remaining
  ctl := .inl hc
  completed := .inl hr.completed
  nextStep := .inl (by rw [hi])
  stepping h := .inl (hc ▸ h)

/-- The controller goes on, the report as before. -/
theorem go {c : Ctl} (hctl : x.ctl = c) (hi : Held x.impl y.impl)
    (ht : y.impl.teardownFailed = x.impl.teardownFailed) (hr : x.state.report.Alike y.state.report)
    (hn : y.impl.nextStep = x.impl.nextStep ∨ c.stepping = true)
    (hc : c.gone = false ∧ y.ctl.marked = false)
    (hs : y.ctl.stepping = true → c.stepping = true ∨ x.state.report.scheduleCompleted = false) :
    Plain x y where
  held := hi
  torn := ht
  cleanup := hr.cleanup
  remaining := hr.remaining
  ctl := by
    refine .inr ⟨hc.2, fun h => ?_, fun h => ?_⟩ <;>
    · rw [← hctl, h] at hc
      exact absurd hc.1 (by decide)
  completed := .inl hr.completed
  nextStep := hctl ▸ hn
  stepping := hctl ▸ hs

end Plain

theorem Retained.held (h : Retained x y) : Held x.impl y.impl ∧
    y.impl.teardownFailed = x.impl.teardownFailed ∧ x.state.report.Alike y.state.report ∧
    y.impl.nextStep = x.impl.nextStep := by
  cases h with
  | failed =>
    exact ⟨.refl _, rfl, alike_judged (judged_actors (judged_fail _ (by decide) _)), rfl⟩
  | kept => exact ⟨⟨rfl, rfl, id, .inl rfl⟩, rfl, ⟨rfl, rfl, rfl⟩, rfl⟩

/-- `advance` behind its observation: the schedule is completed, or the report is as before. -/
theorem Plain.advanceObserved {z : Sys} (hctl : x.ctl = .observer .advance) (h : Retained x z)
    (late : Bool) : Plain x (z.advanceObserved late) := by
  obtain ⟨hi, ht, hr, hn⟩ := h.held
  have hr : x.state.report.Alike (z.state.settle late).report :=
    hr.trans (alike_judged (judged_actors (judged_settle z.state late)))
  unfold Sys.advanceObserved
  generalize z.state.settle late = s at hr
  dsimp only
  split
  · rename_i he
    simp only [Bool.and_eq_true, beq_iff_eq] at he
    exact {
      held := hi
      torn := ht
      cleanup := hr.cleanup
      remaining := hr.remaining
      ctl := .inr ⟨rfl, by simp [hctl], by simp [hctl]⟩
      completed := .inr ⟨hctl, rfl, he.2⟩
      nextStep := .inl hn
      stepping := nofun }
  · exact .go hctl hi ht hr (.inl hn) ⟨rfl, rfl⟩ nofun

theorem Move.plain (h : Move x y) :
    Plain x y ∨ Wind x y ∨ x.ctl = .spawning ∧ y = x.spawn none := by
  cases h with
  | wind h => exact .inr (.inl h)
  | spawn hctl => exact .inr (.inr ⟨hctl, rfl⟩)
  | work _ h =>
    obtain ⟨-, hi, hc⟩ := h.frame
    obtain ⟨s, ps, rfl, hj⟩ := h.judged
    exact .inl (.same hi (alike_judged hj) hc)
  | cancel | stay => exact .inl (.same rfl ⟨rfl, rfl, rfl⟩ rfl)
  | foreign => exact .inl (.same rfl (alike_judged (judged_arrive _ _ _ _)) rfl)
  | refuse hctl hc ho =>
    exact .inl (.go hctl (.refl _) rfl (alike_judged (judged_actors (judged_fail _ ho _)))
      (.inl rfl) ⟨rfl, rfl⟩ nofun)
  | permit hctl hc =>
    exact .inl (.go hctl (.refl _) rfl ⟨rfl, rfl, rfl⟩ (.inl rfl) ⟨rfl, rfl⟩
      fun _ => .inr (cannotAdvance_false hc).2.2.2)
  | finish hctl _ _ hj =>
    exact .inl (.go hctl (.refl _) rfl (alike_judged (judged_actors hj)) (.inl rfl) ⟨rfl, rfl⟩
      nofun)
  | badBudget hctl | destroy hctl | barrier hctl =>
    exact .inl (.go hctl (.refl _) rfl ⟨rfl, rfl, rfl⟩ (.inl rfl) ⟨rfl, rfl⟩ nofun)
  | close hctl | clean hctl =>
    rcases hctl with hctl | hctl <;>
      exact .inl (.go hctl ⟨rfl, rfl, fun _ => rfl, .inl rfl⟩ rfl ⟨rfl, rfl, rfl⟩ (.inl rfl)
        ⟨rfl, rfl⟩ nofun)
  | spawnRefused hctl =>
    exact .inl (.go hctl (.refl _) rfl (alike_judged (judged_actors (judged_fail _ (by decide) _)))
      (.inl rfl) ⟨rfl, rfl⟩ nofun)
  | barrierFailed hctl hj =>
    exact .inl (.go hctl (.refl _) rfl (alike_judged (judged_actors hj)) (.inl rfl) ⟨rfl, rfl⟩
      nofun)
  | @startObserved z late hctl h =>
    obtain ⟨hi, ht, hr, hn⟩ := h.held
    have hr := hr.trans (alike_judged (judged_actors (judged_settle z.state late)))
    refine .inl (.go hctl ⟨hi.attempted, hi.teardowns, hi.closed, hi.threads⟩ ht hr (.inl hn)
      ⟨rfl, ?_⟩ ?_) <;>
    · dsimp only [Sys.startObserved]
      split <;> simp [Ctl.marked, Ctl.stepping]
  | advanceObserved hctl h => exact .inl (.advanceObserved hctl h _)
  | wokenFailed hctl hj =>
    exact .inl (.go hctl (.refl _) rfl
      ((alike_judged (judged_actors hj)).trans (alike_recordArrival _ _ _)) (.inl rfl)
      ⟨rfl, rfl⟩ nofun)
  | wokenAstray hctl =>
    exact .inl (.go hctl (.refl _) rfl ((alike_recordArrival _ _ _).trans
      (alike_judged (judged_actors (judged_fail _ (by decide) _)))) (.inl rfl) ⟨rfl, rfl⟩ nofun)
  | wokenFinished hctl =>
    exact .inl (.go hctl (.refl _) rfl (alike_recordArrival _ _ _) (.inl rfl) ⟨rfl, rfl⟩
      fun _ => .inl rfl)
  | wokenParked hctl =>
    exact .inl (.go hctl ⟨rfl, rfl, id, .inl rfl⟩ rfl (alike_recordArrival _ _ _) (.inr rfl)
      ⟨rfl, rfl⟩ fun _ => .inl rfl)
  | joined hctl =>
    exact .inl (.go hctl ⟨rfl, rfl, id, .inr ⟨_, rfl⟩⟩ rfl ⟨rfl, rfl, rfl⟩ (.inr rfl)
      ⟨rfl, rfl⟩ fun _ => .inl rfl)
  | leave hctl =>
    refine .inl (.go hctl (.refl _) rfl ⟨rfl, rfl, rfl⟩ (.inl rfl) ⟨rfl, ?_⟩ ?_) <;>
    · dsimp only
      split <;> simp [Ctl.marked, Ctl.stepping]

/-! ## The teardown -/

structure Torn (x : Sys) : Prop where
  spawning : x.ctl = .spawning → x.impl.teardownAttempted = false
  fresh : x.impl.teardownAttempted = false → x.ctl ≠ .destroyTearing → x.ctl ≠ .destroyed →
    x.impl.teardowns = 0
  once : x.impl.teardowns ≤ 1
  joined : x.impl.teardownAttempted = true ∨ x.impl.teardowns ≠ 0 →
    x.impl.threads.all (!·) = true
  ran : x.impl.teardownAttempted = true → x.impl.program.teardown = true → x.impl.teardowns = 1
  destroyed : x.ctl = .destroyTearing ∨ x.ctl = .destroyed → x.impl.constructed = true →
    x.impl.program.teardown = true → x.impl.teardowns = 1

theorem all_set {l : List Bool} (h : l.all (!·) = true) (i : Nat) :
    (l.set i false).all (!·) = true := by
  simp only [List.all_eq_true, Bool.not_eq_eq_eq_not, Bool.not_true] at h ⊢
  intro b hb
  rcases List.mem_or_eq_of_mem_set hb with hb | hb
  · exact h b hb
  · exact hb

theorem Held.all {p q : Impl} (h : Held p q) (hp : p.threads.all (!·) = true) :
    q.threads.all (!·) = true := by
  rcases h.threads with e | ⟨i, e⟩ <;> rw [e]
  · exact hp
  · exact all_set hp i

/-- No thread remains exactly when all have been joined. -/
theorem remaining_eq_nil : x.remaining = [] ↔ x.impl.threads.all (!·) = true := by
  simp only [remaining, List.map_eq_nil_iff, List.filter_eq_nil_iff, List.mem_range,
    List.all_eq_true, Bool.not_eq_eq_eq_not, Bool.not_true, Bool.not_eq_true]
  constructor
  · intro h b hb
    obtain ⟨i, hi, rfl⟩ := List.getElem_of_mem hb
    simpa [joinable, List.getD_eq_getElem?_getD, hi] using h i hi
  · intro h i hi
    simpa [joinable, List.getD_eq_getElem?_getD, hi] using h _ (List.getElem_mem hi)

namespace Torn

theorem init {o : Opening} (h : Initial o x) : Torn x := by
  have ha : x.impl.teardownAttempted = false := by rw [h.impl]
  have ht : x.impl.teardowns = 0 := by rw [h.impl]
  have hctl : ¬(x.ctl = .destroyTearing ∨ x.ctl = .destroyed) := by
    rcases h.start with ⟨hc, -⟩ | ⟨hc, -⟩ | ⟨hc, -⟩ <;> simp [hc]
  exact {
    spawning := fun _ => ha
    fresh := fun _ _ _ => ht
    once := by omega
    joined := fun h => by
      rcases h with h | h
      · rw [ha] at h; cases h
      · exact absurd ht h
    ran := fun h => by rw [ha] at h; cases h
    destroyed := fun h => absurd h hctl }

/-- A step that calls no teardown and stays out of the marked places. -/
theorem keep (H : Torn x) (hf : Fixed x y) (hi : Held x.impl y.impl)
    (hc : y.ctl = x.ctl ∨
      y.ctl.marked = false ∧ x.ctl ≠ .destroyTearing ∧ x.ctl ≠ .destroyed) : Torn y where
  spawning hs := by
    rcases hc with hc | ⟨hc, -⟩
    · exact hi.attempted.trans (H.spawning (hc ▸ hs))
    · rw [hs] at hc; cases hc
  fresh ha h₁ h₂ := by
    rw [hi.teardowns]
    rcases hc with hc | ⟨-, h₁, h₂⟩
    · exact H.fresh (hi.attempted ▸ ha) (hc ▸ h₁) (hc ▸ h₂)
    · exact H.fresh (hi.attempted ▸ ha) h₁ h₂
  once := hi.teardowns ▸ H.once
  joined h := by
    rw [hi.attempted, hi.teardowns] at h
    exact hi.all (H.joined h)
  ran ha hp := by
    rw [hi.teardowns]
    exact H.ran (hi.attempted ▸ ha) (hf.program ▸ hp)
  destroyed hd hk hp := by
    rw [hi.teardowns]
    rcases hc with hc | ⟨hc, -⟩
    · exact H.destroyed (hc ▸ hd) (hf.constructed ▸ hk) (hf.program ▸ hp)
    · rcases hd with hd | hd <;> rw [hd] at hc <;> cases hc

theorem spawn (H : Torn x) (hctl : x.ctl = .spawning) : Torn (x.spawn none) := by
  have ha : (x.spawn none).impl.teardownAttempted = false := H.spawning hctl
  have ht := H.fresh ha (by simp [hctl]) (by simp [hctl])
  have hc : (x.spawn none).ctl = .barrier ∨ (x.spawn none).ctl = .spawning := by
    simp only [Sys.spawn]
    split <;> simp
  exact {
    spawning := fun _ => ha
    fresh := fun _ _ _ => ht
    once := H.once
    joined := fun h => by
      rcases h with h | h
      · rw [ha] at h; cases h
      · exact absurd ht h
    ran := fun h => by rw [ha] at h; cases h
    destroyed := fun h => by rcases hc with hc | hc <;> rw [hc] at h <;> simp at h }

/-- `cleanup` behind the joins it makes; it may enter the teardown. -/
theorem scan (H : Torn x) (hctl : x.ctl.marked = false) (h : Scan x y) : Torn y := by
  have hd : x.ctl ≠ .destroyTearing ∧ x.ctl ≠ .destroyed := by
    constructor <;> intro he <;> rw [he] at hctl <;> cases hctl
  cases h with
  | join | rest => exact H.keep ⟨rfl, rfl, rfl, rfl⟩ (.refl _) (.inr ⟨rfl, hd⟩)
  | tear hr ha =>
    have ht := H.fresh ha hd.1 hd.2
    have hall := remaining_eq_nil.mp hr
    unfold callTeardown
    dsimp only
    split
    · exact {
        spawning := nofun
        fresh := nofun
        once := by simp [ht]
        joined := fun _ => hall
        ran := fun _ _ => by simp [ht]
        destroyed := nofun }
    · rename_i hp
      exact {
        spawning := nofun
        fresh := nofun
        once := H.once
        joined := fun _ => hall
        ran := fun _ hp' => absurd hp' hp
        destroyed := nofun }

theorem wind (H : Torn x) (h : Wind x y) : Torn y := by
  cases h with
  | wake hctl h => exact H.scan (by rw [hctl]; rfl) h
  | @joined i _ hctl _ h =>
    have hj : Torn { x.joined i with state := markJoined x.state i } :=
      H.keep ⟨rfl, rfl, rfl, rfl⟩ ⟨rfl, rfl, id, .inr ⟨i, rfl⟩⟩ (.inl rfl)
    have hm : x.ctl.marked = false := by rw [hctl]; rfl
    exact hj.scan hm h
  | torn hctl =>
    exact H.keep ⟨rfl, rfl, rfl, rfl⟩ ⟨rfl, rfl, id, .inl rfl⟩
      (.inr ⟨rfl, by simp [hctl], by simp [hctl]⟩)
  | @destroyJoin i =>
    exact H.keep ⟨rfl, rfl, rfl, rfl⟩ ⟨rfl, rfl, id, .inr ⟨i, rfl⟩⟩ (.inl rfl)
  | destroyTear hctl hj _ ha hp =>
    have ht := H.fresh ha (by simp [hctl]) (by simp [hctl])
    unfold callTeardown
    rw [if_pos hp]
    exact {
      spawning := nofun
      fresh := fun _ h => absurd rfl h
      once := by simp [ht]
      joined := fun _ => hj
      ran := fun _ _ => by simp [ht]
      destroyed := fun _ _ _ => by simp [ht] }
  | destroyEnd _ hj h =>
    exact {
      spawning := nofun
      fresh := fun _ _ h => absurd rfl h
      once := H.once
      joined := fun _ => hj
      ran := H.ran
      destroyed := fun _ hk hp => H.ran (h hk hp) hp }
  | destroyTorn hctl =>
    exact {
      spawning := nofun
      fresh := fun _ _ h => absurd rfl h
      once := H.once
      joined := H.joined
      ran := H.ran
      destroyed := fun _ => H.destroyed (.inl hctl) }

theorem step (H : Torn x) (h : Move x y) : Torn y := by
  rcases h.plain with hp | hw | ⟨hctl, rfl⟩
  · exact H.keep h.fixed hp.held hp.ctl
  · exact H.wind hw
  · exact H.spawn hctl

theorem reach (h : (lts lib).Reach x) : Torn x :=
  h.inv (by rintro _ ⟨o, rfl⟩; exact .init (initial_start lib o))
    fun _ _ _ H _ hs => H.step (move_of_step hs)

end Torn

/-! ## What `cleanup` reports -/

/-- When the schedule counts as completed. -/
structure Completed (x : Sys) : Prop where
  steps : x.state.report.scheduleCompleted = true →
    x.impl.nextStep = x.impl.schedule.steps.length
  stepping : x.ctl.stepping = true → x.state.report.scheduleCompleted = false

/-- `cleanup` behind its wait and the destructor complete nothing. -/
theorem Wind.completed (h : Wind x y) :
    y.state.report.scheduleCompleted = x.state.report.scheduleCompleted ∧
      y.impl.nextStep = x.impl.nextStep ∧ y.ctl.stepping = false := by
  obtain ⟨hs, hctl⟩ := h.steady
  refine ⟨hs.completed, h.wound.nextStep, ?_⟩
  have hy : y.ctl.ending = true ∨ y.ctl = .idle ∨ y.ctl.gone = true := by
    rcases hctl with ⟨-, h | h⟩ | ⟨-, h⟩
    · exact .inl h
    · exact .inr (.inl h)
    · exact .inr (.inr h)
  cases hc : y.ctl with
  | permitted | joining | observer => rw [hc] at hy; rcases hy with h | h | h <;> cases h
  | _ => rfl

theorem Completed.step (H : Completed x) (h : Move x y) : Completed y := by
  have hf := h.fixed
  rcases h.plain with hp | hw | ⟨hctl, rfl⟩
  · refine ⟨fun hc => ?_, fun hs => ?_⟩
    · rcases hp.completed with he | ⟨-, -, he⟩
      · rw [he] at hc
        rcases hp.nextStep with hn | hn
        · rw [hn, hf.schedule]
          exact H.steps hc
        · rw [H.stepping hn] at hc; cases hc
      · exact he
    · rcases hp.completed with he | ⟨-, he, -⟩
      · rw [he]
        rcases hp.stepping hs with hx | hx
        · exact H.stepping hx
        · exact hx
      · rw [he] at hs; cases hs
  · obtain ⟨hc, hn, hs⟩ := hw.completed
    refine ⟨fun h => ?_, fun h => ?_⟩
    · rw [hn, hf.schedule]
      exact H.steps (hc ▸ h)
    · rw [hs] at h; cases h
  · refine ⟨H.steps, fun hs => absurd hs ?_⟩
    simp only [Sys.spawn]
    split <;> simp [Ctl.stepping]

theorem Completed.reach (h : (lts lib).Reach x) : Completed x := by
  refine h.inv ?_ fun _ _ _ H _ hs => H.step (move_of_step hs)
  rintro _ ⟨o, rfl⟩
  have hr : (start lib o).state.report.scheduleCompleted = false := by
    rw [(initial_start lib o).report]
  refine ⟨fun h => ?_, fun _ => hr⟩
  rw [hr] at h; cases h

/-- Behind the last step of the schedule every thread has been joined. -/
theorem Completed.remaining (H : Completed x) (HC : Course x) (HK : Core x) (HN : Named x)
    (HR : Rest x) (hk : x.impl.constructed = true)
    (hc : x.state.report.scheduleCompleted = true) : x.remaining = [] := by
  simp only [Sys.remaining, List.map_eq_nil_iff, List.filter_eq_nil_iff, List.mem_range,
    Bool.not_eq_true]
  intro i hi
  have hlt : i < x.state.actors.length := HK.length ▸ lt_of_lt_of_le hi HK.threads
  have hd : x.Done i := by
    have hmem : (x.state.actor i).declaration ∈ x.impl.adapter.actors := by
      rw [← HN hk]
      exact List.mem_map_of_mem (actor_mem hlt)
    unfold Done
    rw [H.steps hc, List.take_length]
    exact (HC.admitted hk).completes _ hmem
  exact (HK.marked i (HR.behind i hlt hd).2).2

structure Closing (x : Sys) : Prop where
  torn : x.impl.teardownFailed = true → x.state.report.cleanup ≠ .confirmed
  failed : x.state.report.cleanup = .teardownFailed → x.impl.teardownFailed = true
  left : x.state.report.remainingActors ≠ [] ∨ x.state.report.cleanup = .incomplete →
    x.impl.closed = true ∧ x.state.report.scheduleCompleted = false

namespace Closing

/-- The end of `cleanup`. -/
theorem conclude (h : x.state.report.remainingActors ≠ [] →
    x.impl.closed = true ∧ x.state.report.scheduleCompleted = false) : Closing x.cleanupEnd := by
  by_cases hr : x.state.report.remainingActors = []
  · cases ht : x.impl.teardownFailed <;>
      constructor <;> simp [cleanupEnd, hr, ht]
  · obtain ⟨hc, hs⟩ := h hr
    constructor <;> simp [cleanupEnd, hr, hc, hs]

theorem same (H : Closing x) (ht : y.impl.teardownFailed = x.impl.teardownFailed)
    (hc : x.impl.closed = true → y.impl.closed = true)
    (hr : x.state.report.Alike y.state.report) : Closing y where
  torn h := hr.cleanup ▸ H.torn (ht ▸ h)
  failed h := ht.trans (H.failed (hr.cleanup ▸ h))
  left h := by
    rw [hr.remaining, hr.cleanup] at h
    exact ⟨hc (H.left h).1, hr.completed.trans (H.left h).2⟩

theorem scan (H : Closing x) (hr : x.remaining ≠ [] →
    x.impl.closed = true ∧ x.state.report.scheduleCompleted = false) (h : Scan x y) :
    Closing y := by
  cases h with
  | join => exact H.same rfl id ⟨rfl, rfl, rfl⟩
  | tear =>
    unfold callTeardown
    split <;>
      exact ⟨H.torn, H.failed, fun h => H.left (.inr (h.resolve_left fun h => h rfl))⟩
  | rest => exact conclude hr

theorem wind (H : Closing x) (hr : x.ctl.ending = true → x.remaining ≠ [] →
    x.impl.closed = true ∧ x.state.report.scheduleCompleted = false) (h : Wind x y) :
    Closing y := by
  cases h with
  | wake hctl h => exact H.scan (hr (by rw [hctl]; rfl)) h
  | @joined i _ hctl _ h =>
    have hj : Closing { x.joined i with state := markJoined x.state i } :=
      H.same rfl id ⟨rfl, rfl, rfl⟩
    refine hj.scan (fun hne => hr (by rw [hctl]; rfl) ?_) h
    exact fun he => hne (remaining_eq_nil.mpr (all_set (remaining_eq_nil.mp he) i))
  | torn => exact conclude fun h => H.left (.inl h)
  | destroyTear =>
    unfold callTeardown
    split <;> exact H.same rfl id ⟨rfl, rfl, rfl⟩
  | destroyJoin | destroyEnd | destroyTorn => exact H.same rfl id ⟨rfl, rfl, rfl⟩

theorem step (HC : Course x) (HK : Core x) (HN : Named x) (HR : Rest x) (HP : Completed x)
    (H : Closing x) (h : Move x y) : Closing y := by
  rcases h.plain with hp | hw | ⟨hctl, rfl⟩
  · refine ⟨fun ht => hp.cleanup ▸ H.torn (hp.torn ▸ ht),
      fun hc => hp.torn.trans (H.failed (hp.cleanup ▸ hc)), fun hl => ?_⟩
    rw [hp.remaining, hp.cleanup] at hl
    obtain ⟨hc, hs⟩ := H.left hl
    refine ⟨hp.held.closed hc, ?_⟩
    rcases hp.completed with he | ⟨hctl, -, -⟩
    · exact he.trans hs
    · -- a closed execution is not in `advance`
      rw [(HC.unclosed (.inr (.inl (by rw [hctl]; rfl)))).1] at hc
      cases hc
  · refine H.wind (fun he hr => ?_) hw
    obtain ⟨hc, hk⟩ := HC.ending he
    refine ⟨hc, ?_⟩
    cases hs : x.state.report.scheduleCompleted with
    | false => rfl
    | true => exact absurd (HP.remaining HC HK HN HR hk hs) hr
  · exact H.same rfl id ⟨rfl, rfl, rfl⟩

theorem reach (h : (lts lib).Reach x) : Closing x := by
  refine h.inv_of (Q := fun x => Course x ∧ Core x ∧ Named x ∧ Rest x ∧ Completed x)
    (fun _ h => ⟨.reach h, .reach h, .reach h, .reach h, .reach h⟩) ?_ ?_
  · rintro _ ⟨o, rfl⟩
    have hi := initial_start lib o
    have hr : (start lib o).state.report.cleanup = .notStarted ∧
        (start lib o).state.report.remainingActors = [] := by rw [hi.report]; exact ⟨rfl, rfl⟩
    exact ⟨by simp [hr.1], by simp [hr.1], by simp [hr.1, hr.2]⟩
  · rintro x c y ⟨HC, HK, HN, HR, HP⟩ H - hs
    exact H.step HC HK HN HR HP (move_of_step hs)

end Closing

/-! ## The whole lifecycle -/

/-- The report cannot pass any more. -/
def Spoilt (x : Sys) : Prop :=
  x.state.failed = true ∨ x.impl.teardownFailed = true ∨
    (x.impl.closed = true ∧ x.state.report.scheduleCompleted = false)

theorem teardownFailed_callTeardown (x : Sys) :
    x.callTeardown.impl.teardownFailed = x.impl.teardownFailed := by
  unfold callTeardown
  split <;> rfl

theorem Scan.torn (h : Scan x y) : y.impl.teardownFailed = x.impl.teardownFailed := by
  cases h with
  | tear => exact teardownFailed_callTeardown _
  | _ => rfl

/-- A teardown that failed is not forgotten. -/
theorem Wind.torn_of (h : Wind x y) (ht : x.impl.teardownFailed = true) :
    y.impl.teardownFailed = true := by
  cases h with
  | wake _ h => exact h.torn.trans ht
  | joined _ _ h => exact h.torn.trans ht
  | torn _ hf => exact hf ht
  | destroyTear => exact (teardownFailed_callTeardown _).trans ht
  | _ => exact ht

theorem Spoilt.step (HC : Course x) (H : Spoilt x) (h : Move x y) : Spoilt y := by
  rcases H with hf | ht | ⟨hc, hs⟩
  · rcases h.blame with ⟨he, -⟩ | ⟨-, he, -⟩
    · exact .inl (he.trans hf)
    · exact .inl he
  · refine .inr (.inl ?_)
    rcases h.plain with hp | hw | ⟨-, rfl⟩
    · exact hp.torn.trans ht
    · exact hw.torn_of ht
    · exact ht
  · refine .inr (.inr ?_)
    rcases h.plain with hp | hw | ⟨-, rfl⟩
    · refine ⟨hp.held.closed hc, ?_⟩
      rcases hp.completed with he | ⟨hctl, -, -⟩
      · exact he.trans hs
      · rw [(HC.unclosed (.inr (.inl (by rw [hctl]; rfl)))).1] at hc
        cases hc
    · exact ⟨hw.steady.1.closed.trans hc, hw.steady.1.completed.trans hs⟩
    · exact ⟨hc, hs⟩

theorem Spoilt.path (h : (lts lib).Reach x) (hp : (lts lib).Path (fun _ _ => True) x y)
    (H : Spoilt x) : Spoilt y := by
  induction hp with
  | refl => exact H
  | tail hp _ hs ih => exact ih.step (.reach (h.path hp)) (move_of_step hs)

theorem Spoilt.not_passed (h : (lts lib).Reach x) (H : Spoilt x) :
    x.state.report.passed = false := by
  rcases H with hf | ht | ⟨-, hs⟩
  · have ho := (failed_iff h).mp hf
    simp [Report.passed, ho]
  · have hc := (Closing.reach h).torn ht
    simp [Report.passed, hc]
  · simp [Report.passed, hs]

theorem Spoilt.of_faulty (h : (lts lib).Reach x) (hf : x.state.report.faulty = true) :
    Spoilt x := by
  simp only [Report.faulty, Bool.or_eq_true, bne_iff_ne, beq_iff_eq] at hf
  rcases hf with (ho | hc) | hc
  · exact .inl ((failed_iff h).mpr ho)
  · exact .inr (.inr ((Closing.reach h).left (.inr hc)))
  · exact .inr (.inl ((Closing.reach h).failed hc))

/-- A closed execution stays closed. -/
theorem closed_path (hp : (lts lib).Path (fun _ _ => True) x y) (hc : x.impl.closed = true) :
    y.impl.closed = true := by
  refine hp.inv (P := fun x => x.impl.closed = true) hc fun s a t hs _ hst => ?_
  rcases (move_of_step hst).plain with hp | hw | ⟨-, rfl⟩
  · exact hp.held.closed hs
  · exact hw.steady.1.closed.trans hs
  · exact hs

/-- **Lifecycle.** The teardown is called at most once, while every started thread has ended and
been joined, and it has been called once an execution whose program has one is destroyed. The first
failure keeps its outcome and detail; a report that names a failure never passes; and `finish` does
nothing to a closed execution but return its report. -/
theorem lifecycle (h : (lts lib).Reach x) (hp : (lts lib).Path (fun _ _ => True) x y) :
    y.impl.teardowns ≤ 1 ∧
    (y.impl.teardowns ≠ 0 → ∀ i, i < y.impl.threads.length →
      y.joinable i = false ∧ y.pc i = .closed) ∧
    (y.ctl = .destroyed → y.impl.constructed = true → y.impl.program.teardown = true →
      y.impl.teardowns = 1) ∧
    (x.state.report.outcome ≠ .completed →
      y.state.report.outcome = x.state.report.outcome ∧
        y.state.report.detail = x.state.report.detail) ∧
    (x.state.report.faulty = true → y.state.report.passed = false) ∧
    (x.impl.closed = true → y.ctl = .idle → y.step lib.toJsonLib .finish = some y) := by
  have hy := h.path hp
  have HT := Torn.reach hy
  refine ⟨HT.once, fun ht i hi => ?_, fun hd => HT.destroyed (.inr hd), fun ho => ?_, fun hf => ?_,
    fun hc hctl => ?_⟩
  · have hall := HT.joined (.inr ht)
    have hj : y.joinable i = false := by
      simp only [List.all_eq_true, Bool.not_eq_eq_eq_not, Bool.not_true] at hall
      simpa [joinable, List.getD_eq_getElem?_getD, hi] using hall _ (List.getElem_mem hi)
    exact ⟨hj, (Core.reach hy).joined i hi hj⟩
  · rcases blame_path hp with ⟨-, ho', hd⟩ | ⟨hf, -⟩
    · exact ⟨ho', hd⟩
    · rw [(failed_iff h).mpr ho] at hf; cases hf
  · exact (Spoilt.path h hp (.of_faulty h hf)).not_passed hy
  · simp [step, hctl, finish, closed_path hp hc]

/-- The client asks for a step of the schedule that is not the next one. -/
def failing : List Choice := openingSteps ++ [.advance ⟨"b", "c"⟩ false]

/-- `cleanup` gives up on the workers; the destructor joins them and calls the teardown. -/
def winding : List Choice :=
  [.leave, .enter, .cleanupWake true, .destroy, .wake 0, .wake 1, .close 0, .close 1, .destroyJoin,
    .destroyJoin, .destroyEnd, .destroyTorn]

theorem failing_winding : (sampleRun failing).bind (fun x =>
      ((lts sampleLib).exec (fun _ _ => true) winding x).map fun y =>
        (x.state.report.outcome, y.ctl, y.state.report.cleanup, y.impl.constructed,
          y.impl.program.teardown)) =
    some (.invalidSchedule, .destroyed, .incomplete, true, true) := by decide +kernel

theorem lifecycle_failing : ∃ x y : Sys, x.state.report.outcome = .invalidSchedule ∧
    (lts sampleLib).Path (fun _ _ => True) x y ∧ y.ctl = .destroyed ∧
    y.state.report.cleanup = .incomplete ∧ y.state.report.outcome = .invalidSchedule ∧
    y.impl.teardowns = 1 := by
  obtain ⟨x, hx, e⟩ := Option.bind_eq_some_iff.mp failing_winding
  obtain ⟨y, hy, e⟩ := Option.map_eq_some_iff.mp e
  simp only [Prod.mk.injEq] at e
  obtain ⟨ho, hctl, hcleanup, hk, hprog⟩ := e
  have hp : (lts sampleLib).Path (fun _ _ => True) x y := .exec (fun _ _ _ => trivial) hy
  obtain ⟨-, -, hone, hfail, -, -⟩ := lifecycle (sampleRun_reach hx) hp
  exact ⟨x, y, ho, hp, hctl, hcleanup, (hfail (by rw [ho]; simp)).1.trans ho, hone hctl hk hprog⟩

end Sys

end MirrorCpp.Schedule
