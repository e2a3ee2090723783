import MirrorCpp.Schedule.Frame

/-!
# What admission promises

`Admitted` is what the checks before the factory say of a schedule: every step is one of a
declared actor, none follows the `$done` step of its actor, and every actor has such a step.
`Initial` describes the state in which the sequential part of `start` leaves an execution.
-/

namespace MirrorCpp.Schedule

open Fallible

/-- The step on which an actor's function returns. -/
def doneStep (actor : String) : Step := ⟨actor, completion⟩

/-- What an execution may rely on behind `admission`. -/
structure Admitted (schedule : Schedule) (adapter : Adapter) (policy : Policy) : Prop where
  actors : adapter.actors ≠ []
  names : (adapter.actors.map ActorDeclaration.actor).Nodup
  declared : ∀ st ∈ schedule.steps, st.actor ∈ adapter.actors.map ActorDeclaration.actor
  ended : ∀ k st, schedule.steps[k]? = some st → doneStep st.actor ∉ schedule.steps.take k
  completes : ∀ a ∈ adapter.actors, doneStep a.actor ∈ schedule.steps
  factory : adapter.factory.isSome = true
  budget : validBudget policy.cleanupTimeout = true

section
variable {lib : JsonScan} {schedule : Schedule} {adapter : Adapter} {policy : Policy}

theorem invalid_ok {c : Bool} {why : String} {u : Unit} (h : invalid c why = .ok u) : c =
    false := by
  cases c with
  | false => rfl
  | true => cases h

theorem admitActors_ok : ∀ {as : List ActorDeclaration} {seen : List String} {u : Unit},
    admitActors seen as = .ok u →
      (as.map ActorDeclaration.actor).Nodup ∧ ∀ a ∈ as, a.actor ∉ seen
  | [], _, _, _ => by simp
  | a :: as, seen, u, h => by
    simp only [admitActors, bind_eq_ok] at h
    obtain ⟨_, hc, h⟩ := h
    have hc := invalid_ok hc
    simp only [Bool.or_eq_false_iff, List.contains_eq_mem, decide_eq_false_iff_not] at hc
    obtain ⟨hn, hs⟩ := admitActors_ok h
    refine ⟨?_, ?_⟩
    · simp only [List.map_cons, List.nodup_cons, List.mem_map, not_exists, not_and]
      exact ⟨fun b hb he => hs b hb (by simp [he]), hn⟩
    · simp only [List.mem_cons, forall_eq_or_imp]
      exact ⟨hc.2, fun b hb hm => hs b hb (by simp [hm])⟩

/-- The walk over the steps, behind the actors `done`. -/
theorem admitSteps_ok {actors checkpoints : List String} :
    ∀ {sts : List Step} {done result : List String},
    admitSteps actors checkpoints done sts = .ok result →
      (∀ st ∈ sts, st.actor ∈ actors) ∧
      (∀ k st, sts[k]? = some st → st.actor ∉ done ∧ doneStep st.actor ∉ sts.take k) ∧
      ∀ a, a ∈ result ↔ a ∈ done ∨ doneStep a ∈ sts
  | [], done, result, h => by cases h; simp
  | st :: sts, done, result, h => by
    simp only [admitSteps, bind_eq_ok] at h
    obtain ⟨_, hc, h⟩ := h
    have hc := invalid_ok hc
    simp only [Bool.or_eq_false_iff, List.contains_eq_mem, Bool.not_eq_false',
      decide_eq_true_eq, decide_eq_false_iff_not] at hc
    split at h
    · rename_i hd
      have hst : st = doneStep st.actor := by rw [doneStep, ← hd]
      obtain ⟨h1, h2, h3⟩ := admitSteps_ok h
      refine ⟨by simpa using ⟨hc.1, h1⟩, fun k s hk => ?_, fun a => ?_⟩
      · cases k with
        | zero => cases hk; simp [hc.2]
        | succ k =>
          obtain ⟨ha, hb⟩ := h2 k s hk
          simp only [List.mem_cons, not_or] at ha
          refine ⟨ha.2, ?_⟩
          simp only [List.take_succ_cons, List.mem_cons, not_or]
          refine ⟨fun he => ha.1 ?_, hb⟩
          rw [hst] at he
          exact (Step.mk.inj he).1
      · rw [h3 a, List.mem_cons, List.mem_cons, or_comm (a := a = st.actor), or_assoc]
        have : a = st.actor ↔ doneStep a = st := by
          constructor
          · rintro rfl; exact hst.symm
          · intro he; rw [← he]; rfl
        rw [this]
    · rename_i hd
      simp only [bind_eq_ok] at h
      obtain ⟨_, -, h⟩ := h
      have hst : ∀ a, doneStep a ≠ st := by rintro a rfl; exact hd rfl
      obtain ⟨h1, h2, h3⟩ := admitSteps_ok h
      refine ⟨by simpa using ⟨hc.1, h1⟩, fun k s hk => ?_, fun a => ?_⟩
      · cases k with
        | zero => cases hk; simp [hc.2]
        | succ k =>
          obtain ⟨ha, hb⟩ := h2 k s hk
          simp only [List.take_succ_cons, List.mem_cons, not_or]
          exact ⟨ha, hst _, hb⟩
      · rw [h3 a, List.mem_cons]
        simp [hst a]

theorem admission_ok {reentrant : Bool}
    (h : admission lib schedule adapter policy reentrant = .ok ()) :
    Admitted schedule adapter policy := by
  simp only [admission, bind_eq_ok] at h
  obtain ⟨_, -, _, hp, _, -, h⟩ := h
  have hp := invalid_ok hp
  simp only [Bool.not_eq_false', Policy.valid, Bool.and_eq_true] at hp
  split at h
  · cases h
  · simp only [bind_eq_ok] at h
    obtain ⟨_, hf, h⟩ := h
    have hf := invalid_ok hf
    simp only [Bool.or_eq_false_iff, Option.isNone_eq_false_iff] at hf
    split at h
    · cases h
    · simp only [bind_eq_ok] at h
      obtain ⟨_, -, _, ha, _, -, done, hs, hd⟩ := h
      have hd := invalid_ok hd
      simp only [Bool.not_eq_false', sameSet, Bool.and_eq_true, List.all_eq_true,
        List.contains_eq_mem, decide_eq_true_eq] at hd
      obtain ⟨h1, h2, h3⟩ := admitSteps_ok hs
      refine ⟨by simpa using hf.1.2, (admitActors_ok ha).1, h1, fun k st hk => (h2 k st hk).2,
        fun a hm => ?_, hf.1.1,
        hp.2⟩
      have := (h3 a.actor).mp (hd.2 a.actor (List.mem_map_of_mem hm))
      simpa using this

/-! ### Refusals -/

theorem invalid_error {c : Bool} {why : String} {r : Refusal} (h : invalid c why = .error r) :
    r.1 ≠ .completed := by
  cases c with
  | false => cases h
  | true => cases h; exact nofun

theorem admitActors_error {r : Refusal} : ∀ {as : List ActorDeclaration} {seen : List String},
    admitActors seen as = .error r → r.1 ≠ .completed
  | [], _, h => by cases h
  | _ :: _, _, h => by
    simp only [admitActors, bind_eq_error] at h
    rcases h with h | ⟨_, -, h⟩
    · exact invalid_error h
    · exact admitActors_error h

theorem admitCheckpoints_error {r : Refusal} : ∀ {cs seen : List String},
    admitCheckpoints seen cs = .error r → r.1 ≠ .completed
  | [], _, h => by cases h
  | _ :: _, _, h => by
    simp only [admitCheckpoints, bind_eq_error] at h
    rcases h with h | ⟨_, -, h⟩
    · exact invalid_error h
    · exact admitCheckpoints_error h

theorem admitSteps_error {actors checkpoints : List String} {r : Refusal} :
    ∀ {sts : List Step} {done : List String},
    admitSteps actors checkpoints done sts = .error r → r.1 ≠ .completed
  | [], _, h => by cases h
  | _ :: _, _, h => by
    simp only [admitSteps, bind_eq_error] at h
    rcases h with h | ⟨_, -, h⟩
    · exact invalid_error h
    · split at h
      · exact admitSteps_error h
      · rcases bind_eq_error.mp h with h | ⟨_, -, h⟩
        · exact invalid_error h
        · exact admitSteps_error h

/-- A refusal is a failure. -/
theorem admission_error {reentrant : Bool} {r : Refusal}
    (h : admission lib schedule adapter policy reentrant = .error r) : r.1 ≠ .completed := by
  simp only [admission, bind_eq_error] at h
  rcases h with h | ⟨_, -, h | ⟨_, -, h | ⟨_, -, h⟩⟩⟩
  · exact invalid_error h
  · exact invalid_error h
  · exact invalid_error h
  split at h
  · cases h; exact nofun
  rcases bind_eq_error.mp h with h | ⟨_, -, h⟩
  · exact invalid_error h
  split at h
  · cases h; exact nofun
  simp only [bind_eq_error] at h
  rcases h with h | ⟨_, -, h | ⟨_, -, h | ⟨_, -, h | ⟨_, -, h⟩⟩⟩⟩
  · exact invalid_error h
  · exact admitActors_error h
  · exact admitCheckpoints_error h
  · exact admitSteps_error h
  · exact invalid_error h

end

/-! ## The beginning of an execution -/

namespace Sys

open Shared

/-- The actors as `start` declares them. -/
def declaredActors (adapter : Adapter) : List ActorState :=
  adapter.actors.map fun d => { declaration := d }

/-- An execution before its first thread. -/
structure Initial (o : Opening) (x : Sys) : Prop where
  stopping : x.state.stopping = false
  report : x.state.report = {
    outcome := x.state.report.outcome
    detail := x.state.report.detail
    generation := o.generation
    executionId := o.executionId }
  outcome : x.state.failed = true ↔ x.state.report.outcome ≠ .completed
  impl : x.impl = {
    schedule := o.schedule
    policy := o.policy
    adapter := o.adapter
    program := x.impl.program
    constructed := x.impl.constructed
    registered := x.impl.registered }
  pcs : x.pcs = x.state.actors.map fun _ => .unborn
  actors : x.state.actors = [] ∧ x.impl.constructed = false ∨
    x.state.actors = declaredActors o.adapter
  start : (x.ctl = .idle ∧ x.state.failed = true ∧ x.impl.constructed = false) ∨
    (x.ctl = .entering ∧ x.state.failed = true ∧ x.impl.constructed = true ∧
      Admitted o.schedule o.adapter o.policy) ∨
    (x.ctl = .spawning ∧ x.state.failed = false ∧ x.state.cancelled = false ∧
      x.impl.constructed = true ∧ x.impl.program.teardown = true ∧
      x.state.actors = declaredActors o.adapter ∧ Admitted o.schedule o.adapter o.policy)

theorem judged_checkProgram (s : Shared) (p : Program) : Judged s (checkProgram s p) := by
  have h : ∀ {s : Shared} {c : Bool} (d : String),
      Judged s (if c then s else s.fail .applicationFailed d) := by
    intro s c d
    split
    · exact .refl s
    · exact judged_fail s (by decide) d
  have h' : ∀ {s : Shared} {c : Bool} (d : String),
      Judged s (if c then s.fail .applicationFailed d else s) := by
    intro s c d
    split
    · exact judged_fail s (by decide) d
    · exact .refl s
  unfold checkProgram
  exact ((h _).trans (h' _)).trans (h _)

/-- A program that passes its checks can be torn down. -/
theorem checkProgram_live {s : Shared} {p : Program} (h : (checkProgram s p).failed = false) :
    p.teardown = true := by
  unfold checkProgram at h
  cases ht : p.teardown with
  | true => rfl
  | false =>
    simp only [ht, Bool.not_false, Bool.or_true, if_true] at h
    split at h <;> split at h <;> simp only [failed_fail, Bool.true_eq_false] at h

theorem initial_unstarted {o : Opening} {s t : Shared} {impl : Impl} {c : Ctl}
    (hj : Judged s t) (hs : s.stopping = false) (hf : s.failed = false)
    (hr : s.report = { generation := o.generation, executionId := o.executionId })
    (hi : impl = {
      schedule := o.schedule
      policy := o.policy
      adapter := o.adapter
      program := impl.program
      constructed := impl.constructed
      registered := impl.registered })
    (ha : s.actors = [] ∧ impl.constructed = false ∨ s.actors = declaredActors o.adapter)
    (hstart : (c = .idle ∧ t.failed = true ∧ impl.constructed = false) ∨
      (c = .entering ∧ t.failed = true ∧ impl.constructed = true ∧
        Admitted o.schedule o.adapter o.policy) ∨
      (c = .spawning ∧ t.failed = false ∧ s.cancelled = false ∧ impl.constructed = true ∧
        impl.program.teardown = true ∧ s.actors = declaredActors o.adapter ∧
        Admitted o.schedule o.adapter o.policy)) :
    Initial o (unstarted t impl c) where
  stopping := hj.stopping.trans hs
  report := by
    have h := hj.report
    rw [hr] at h
    exact h
  outcome := by
    change t.failed = true ↔ t.report.outcome ≠ .completed
    rcases hj.first with rfl | ⟨-, ht, ho⟩
    · rw [hf, hr]; simp
    · exact ⟨fun _ => ho, fun _ => ht⟩
  impl := hi
  pcs := rfl
  actors := by
    change t.actors = [] ∧ _ ∨ t.actors = _
    rw [hj.actors]; exact ha
  start := by
    rcases hstart with h | h | ⟨h1, h2, h3, h4, h5, h6, h7⟩
    · exact .inl h
    · exact .inr (.inl h)
    · exact .inr (.inr ⟨h1, h2, hj.cancelled.trans h3, h4, h5, hj.actors.trans h6, h7⟩)

theorem initial_admitted {o : Opening} {s : Shared} {impl : Impl} (hs : s.stopping = false)
    (hf : s.failed = false)
    (hr : s.report = { generation := o.generation, executionId := o.executionId })
    (hi : impl = { schedule := o.schedule, policy := o.policy, adapter := o.adapter })
    (hA : Admitted o.schedule o.adapter o.policy) : Initial o (admitted o s impl) := by
  subst hi
  unfold admitted
  dsimp only
  split
  · exact initial_unstarted (judged_fail _ (by decide) _) hs hf hr rfl (.inr rfl)
      (.inl ⟨rfl, failed_fail _ _ _, rfl⟩)
  · split
    · rename_i hn
      have := hA.factory
      rw [hn] at this; cases this
    · exact initial_unstarted (judged_fail _ (by decide) _) hs hf hr rfl (.inr rfl)
        (.inl ⟨rfl, failed_fail _ _ _, rfl⟩)
    · rename_i program _
      generalize hsb : ({ s with
        actors := o.adapter.actors.map fun d => { declaration := d }
        checkpoints := o.adapter.checkpoints
        cancelled := o.stoppedDuring } : Shared) = b
      have hbs : b.stopping = false := by rw [← hsb]; exact hs
      have hbf : b.failed = false := by rw [← hsb]; exact hf
      have hbr : b.report = { generation := o.generation, executionId := o.executionId } := by
        rw [← hsb]; exact hr
      have hba : b.actors = declaredActors o.adapter := by rw [← hsb]; rfl
      have hc := judged_checkProgram b program
      have h2 : Judged (checkProgram b program) (if (checkProgram b program).cancelled = true then
          (checkProgram b program).fail .cancelled "cancelled during construction"
          else checkProgram b program) := by
        split
        · exact judged_fail _ (by decide) _
        · exact .refl _
      generalize ht : (if (checkProgram b program).cancelled = true then
          (checkProgram b program).fail .cancelled "cancelled during construction"
          else checkProgram b program) = t at h2
      have h3 : Judged t (if o.late = true then
          t.fail .timedOut "construction exceeded execution deadline" else t) := by
        split
        · exact judged_fail _ (by decide) _
        · exact .refl _
      generalize (if o.late = true then
          t.fail .timedOut "construction exceeded execution deadline" else t) = u at h3
      have hj := (hc.trans h2).trans h3
      refine initial_unstarted hj hbs hbf hbr rfl (.inr hba) ?_
      cases hu : u.failed with
      | true => exact .inr (.inl ⟨rfl, rfl, rfl, hA⟩)
      | false =>
        have htf := h3.live hu
        have hpf := h2.live htf
        refine .inr (.inr ⟨rfl, rfl, ?_, rfl, checkProgram_live hpf, hba, hA⟩)
        cases hbc : b.cancelled with
        | false => rfl
        | true =>
          rw [← ht, hc.cancelled, hbc] at htf
          simp at htf

theorem initial_start (lib : JsonScan) (o : Opening) : Initial o (start lib o) := by
  unfold start
  dsimp only
  split
  · rename_i outcome detail h
    refine initial_unstarted (judged_fail _ ?_ _) rfl rfl rfl rfl (.inl ⟨rfl, rfl⟩)
      (.inl ⟨rfl, failed_fail _ _ _, rfl⟩)
    exact admission_error h
  · rename_i h
    exact initial_admitted rfl rfl rfl rfl (admission_ok h)

end Sys

end MirrorCpp.Schedule
