import MirrorCpp.Schedule.Admission
import MirrorCpp.Schedule.Codec

/-!
# The schedules that are admitted

`Interleaved` says what a list of steps must be: of declared actors and checkpoints, and for each
actor a sequence that ends in its only `$done`. Behind the checks that do not concern the steps
(`Presented`) this is exactly what `admission` accepts. A refused execution stays empty: no
program, no thread, no callback, whatever is called.
-/

namespace MirrorCpp.Schedule

open Fallible

/-- The steps of an actor. -/
def ownSteps (actor : String) (steps : List Step) : List Step :=
  steps.filter fun st => st.actor == actor

/-- Exactly one `$done`, in last position. -/
structure Completes (own : List Step) : Prop where
  once : own.countP (fun st => st.checkpoint == completion) = 1
  last : own.getLast?.map Step.checkpoint = some completion

structure Interleaved (schedule : Schedule) (adapter : Adapter) : Prop where
  declared : ∀ st ∈ schedule.steps, st.actor ∈ adapter.actors.map ActorDeclaration.actor
  checkpoints : ∀ st ∈ schedule.steps, st.checkpoint ≠ completion →
    st.checkpoint ∈ adapter.checkpoints
  completes : ∀ a ∈ adapter.actors, Completes (ownSteps a.actor schedule.steps)

/-- Valid in all but the steps. `wf` is what the type of a value guarantees. -/
structure Presented (lib : JsonScan) (schedule : Schedule) (adapter : Adapter) (policy : Policy) :
    Prop where
  bounds : policy.valid = true
  ofProfile : schedule.schedulingProfile = profile
  identity : schedule.identity.valid = true
  same : schedule.identity = adapter.identity
  factory : adapter.factory.isSome = true
  actors : (adapter.actors.map ActorDeclaration.actor).Nodup ∧
    ∀ a ∈ adapter.actors, identifier a.actor = true ∧ identifier a.operation = true
  checkpoints : adapter.checkpoints.Nodup ∧ ∀ c ∈ adapter.checkpoints, identifier c = true
  inputs : schedule.inputs.wf = true ∧ schedule.inputs.utf8 = true ∧
    plainJson schedule.inputs = true
  inputsSize : lib.len schedule.inputs ≤ maxObservationBytes
  textSize : lib.len (scheduleJson schedule) ≤ maxArtifactBytes
  some : adapter.actors ≠ []
  sizes : adapter.actors.length ≤ policy.maxActors ∧
    adapter.checkpoints.length ≤ policy.maxSteps ∧ schedule.steps.length ≤ policy.maxSteps

/-! ## The walk over the steps -/

theorem completes_done {st : Step} {own : List Step} (h : st.checkpoint = completion) :
    Completes (st :: own) ↔ own = [] := by
  constructor
  · rintro ⟨honce, hlast⟩
    rw [List.countP_cons_of_pos (by simp [h])] at honce
    cases own with
    | nil => rfl
    | cons s own =>
      -- another step comes last, a second `$done`
      rw [List.getLast?_cons_cons, Option.map_eq_some_iff] at hlast
      obtain ⟨l, hl, hc⟩ := hlast
      have hpos : 0 < (s :: own).countP fun st => st.checkpoint == completion :=
        List.countP_pos_iff.mpr ⟨l, List.mem_of_getLast? hl, by simp [hc]⟩
      omega
  · rintro rfl
    exact ⟨by simp [h], by simp [h]⟩

theorem completes_point {st : Step} {own : List Step} (h : st.checkpoint ≠ completion) :
    Completes (st :: own) ↔ Completes own := by
  have hcount : (st :: own).countP (fun st => st.checkpoint == completion) =
      own.countP fun st => st.checkpoint == completion := List.countP_cons_of_neg (by simpa using h)
  cases own with
  | nil =>
    constructor <;> rintro ⟨honce, -⟩
    · rw [hcount] at honce; cases honce
    · cases honce
  | cons s own =>
    have hlast : (st :: s :: own).getLast? = (s :: own).getLast? := List.getLast?_cons_cons
    constructor <;> rintro ⟨h₁, h₂⟩
    · exact ⟨hcount ▸ h₁, hlast ▸ h₂⟩
    · exact ⟨hcount.trans h₁, hlast.symm ▸ h₂⟩

theorem not_completes_nil : ¬Completes [] := fun h => by cases h.once

theorem invalid_pass {c : Bool} {why : String} : invalid c why = .ok () ↔ c = false := by
  cases c <;> simp [invalid]

/-- What is left for the walk: nothing for the actors that are done, the others complete. -/
def Left (actors done : List String) (sts : List Step) : Prop :=
  ∀ a ∈ actors, if a ∈ done then ownSteps a sts = [] else Completes (ownSteps a sts)

theorem left_cons {actors done done' : List String} {st : Step} {sts : List Step}
    (hnew : st.actor ∉ done) (hdone : ∀ a, a ≠ st.actor → (a ∈ done' ↔ a ∈ done))
    (hown : Completes (ownSteps st.actor (st :: sts)) ↔
      if st.actor ∈ done' then ownSteps st.actor sts = [] else
        Completes (ownSteps st.actor sts)) :
    Left actors done (st :: sts) ↔ Left actors done' sts := by
  refine forall_congr' fun a => forall_congr' fun _ => ?_
  by_cases ha : a = st.actor
  · subst ha
    rw [if_neg hnew, hown]
  · have hsame : ownSteps a (st :: sts) = ownSteps a sts :=
      List.filter_cons_of_neg (by simpa using Ne.symm ha)
    rw [hsame]
    exact iff_of_eq (if_congr (hdone a ha).symm rfl rfl)

theorem ownSteps_cons (st : Step) (sts : List Step) :
    ownSteps st.actor (st :: sts) = st :: ownSteps st.actor sts :=
  List.filter_cons_of_pos (by simp)

/-- The walk succeeds, with every actor done, exactly on what is left for it. -/
theorem admitSteps_iff {actors checkpoints : List String} : ∀ {sts : List Step}
    {done : List String}, (∃ result, admitSteps actors checkpoints done sts = .ok result ∧
      ∀ a ∈ actors, a ∈ result) ↔
      (∀ st ∈ sts, st.actor ∈ actors) ∧
      (∀ st ∈ sts, st.checkpoint ≠ completion → st.checkpoint ∈ checkpoints) ∧
      Left actors done sts
  | [], done => by
    have hleft : Left actors done [] ↔ ∀ a ∈ actors, a ∈ done := by
      refine forall_congr' fun a => forall_congr' fun _ => ?_
      split <;> simp [ownSteps, not_completes_nil, *]
    simp [admitSteps, hleft]
  | st :: sts, done => by
    have hown := ownSteps_cons st sts
    by_cases hnew : st.actor ∈ done
    · -- a step behind the completion of its actor
      constructor
      · rintro ⟨result, h, -⟩
        simp [admitSteps, invalid, hnew] at h
      · rintro ⟨hd, -, hl⟩
        have h := hl st.actor (hd st List.mem_cons_self)
        rw [if_pos hnew, hown] at h
        cases h
    by_cases hactor : st.actor ∈ actors
    swap
    · constructor
      · rintro ⟨result, h, -⟩
        simp [admitSteps, invalid, hactor] at h
      · rintro ⟨hd, -, -⟩
        exact absurd (hd st List.mem_cons_self) hactor
    have hinv : invalid (!actors.contains st.actor || done.contains st.actor)
        "unknown actor or step after completion" = .ok () := by
      simp [invalid_pass, hactor, hnew]
    simp only [admitSteps, hinv, ok_bind, List.forall_mem_cons, hactor, true_and]
    by_cases hc : st.checkpoint = completion
    · have hl : Left actors done (st :: sts) ↔ Left actors (st.actor :: done) sts :=
        left_cons hnew (fun a ha => by simp [ha]) (by rw [hown, completes_done hc]; simp)
      rw [if_pos hc, admitSteps_iff, hl]
      simp [hc]
    · have hl : Left actors done (st :: sts) ↔ Left actors done sts :=
        left_cons hnew (fun _ _ => Iff.rfl) (by rw [hown, completes_point hc, if_neg hnew])
      rw [if_neg hc, hl]
      by_cases hp : st.checkpoint ∈ checkpoints
      · have hdecl : invalid (!checkpoints.contains st.checkpoint)
            "undeclared schedule checkpoint" = .ok () := by simp [invalid_pass, hp]
        simp only [hdecl, ok_bind, admitSteps_iff, hp, implies_true, true_and]
      · constructor
        · rintro ⟨result, h, -⟩
          simp [invalid, hp] at h
        · rintro ⟨-, ⟨h, -⟩, -⟩
          exact absurd (h hc) hp

/-! ## Admission -/

section
variable {lib : JsonScan} {schedule : Schedule} {adapter : Adapter} {policy : Policy}

theorem admitActors_pass : ∀ {as : List ActorDeclaration} {seen : List String},
    (as.map ActorDeclaration.actor).Nodup → (∀ a ∈ as, a.actor ∉ seen) →
    (∀ a ∈ as, identifier a.actor = true ∧ identifier a.operation = true) →
    admitActors seen as = .ok ()
  | [], _, _, _, _ => rfl
  | a :: as, seen, hn, hs, hi => by
    rw [List.map_cons, List.nodup_cons] at hn
    have ha := hi a List.mem_cons_self
    have hnew : invalid (!identifier a.actor || !identifier a.operation || seen.contains a.actor)
        "invalid or duplicate logical actor" = .ok () := by
      simp [invalid_pass, ha, hs a List.mem_cons_self]
    rw [admitActors, hnew, ok_bind]
    refine admitActors_pass hn.2 (fun b hb => ?_) fun b hb => hi b (List.mem_cons_of_mem _ hb)
    rw [List.mem_cons, not_or]
    refine ⟨fun he => hn.1 ?_, hs b (List.mem_cons_of_mem _ hb)⟩
    exact he ▸ List.mem_map_of_mem hb

theorem admitCheckpoints_pass : ∀ {cs seen : List String}, cs.Nodup → (∀ c ∈ cs, c ∉ seen) →
    (∀ c ∈ cs, identifier c = true) → admitCheckpoints seen cs = .ok ()
  | [], _, _, _, _ => rfl
  | c :: cs, seen, hn, hs, hi => by
    rw [List.nodup_cons] at hn
    have hnew : invalid (!identifier c || seen.contains c)
        "invalid or duplicate checkpoint declaration" = .ok () := by
      simp [invalid_pass, hi c List.mem_cons_self, hs c List.mem_cons_self]
    rw [admitCheckpoints, hnew, ok_bind]
    refine admitCheckpoints_pass hn.2 (fun d hd => ?_) fun d hd => hi d (List.mem_cons_of_mem _ hd)
    rw [List.mem_cons, not_or]
    exact ⟨fun he => hn.1 (he ▸ hd), hs d (List.mem_cons_of_mem _ hd)⟩

/-- Admission behind its checks of the bounds and of the text. -/
theorem admission_pass {schedule : Schedule} {adapter : Adapter} {policy : Policy} {t : String}
    {done : List String} (hp : policy.valid = true) (hs : Legible schedule)
    (hid : schedule.identity = adapter.identity) (hf : adapter.factory.isSome = true)
    (hne : adapter.actors ≠ []) (ha : adapter.actors.length ≤ policy.maxActors)
    (hc : adapter.checkpoints.length ≤ policy.maxSteps)
    (hl : schedule.steps.length ≤ policy.maxSteps) (he : encodeSchedule lib schedule = .ok t)
    (hi : (lib.dumpSize schedule.inputs).getD 0 ≤ maxObservationBytes)
    (hactors : admitActors [] adapter.actors = .ok ())
    (hcheckpoints : admitCheckpoints [] adapter.checkpoints = .ok ())
    (hsteps : admitSteps (adapter.actors.map ActorDeclaration.actor) adapter.checkpoints []
      schedule.steps = .ok done)
    (hdone : sameSet done (adapter.actors.map ActorDeclaration.actor) = true) :
    admission lib schedule adapter policy false = .ok () := by
  have hvalid : adapter.identity.valid = true := hid ▸ hs.identity
  have hbound : invalid (adapter.factory.isNone || adapter.actors.isEmpty ||
      decide (policy.maxActors < adapter.actors.length ∨
        policy.maxSteps < adapter.checkpoints.length ∨
        policy.maxSteps < schedule.steps.length))
      "missing factory or actor/step bounds exceeded" = .ok () := by
    rw [invalid_pass]
    simp only [Bool.or_eq_false_iff, Option.isNone_eq_false_iff, List.isEmpty_eq_false_iff,
      decide_eq_false_iff_not, not_or, Nat.not_lt]
    exact ⟨⟨hf, hne⟩, ha, hc, hl⟩
  have hinputs : invalid (decide (maxObservationBytes < (lib.dumpSize schedule.inputs).getD 0))
      "inputs exceed byte bound" = .ok () := by
    rw [invalid_pass, decide_eq_false_iff_not]
    omega
  simp only [admission, hp, hs.ofProfile, hvalid, hid, hbound, he, hinputs, hactors,
    hcheckpoints, hsteps, hdone, ok_bind, bne_self_eq_false, Bool.not_true, Bool.or_self,
    Bool.false_eq_true, if_false]
  rfl

theorem admitSteps_members {actors checkpoints result : List String} {sts : List Step}
    (h : admitSteps actors checkpoints [] sts = .ok result) : ∀ a ∈ result, a ∈ actors := by
  obtain ⟨h1, -, h3⟩ := admitSteps_ok h
  intro a ha
  rcases (h3 a).mp ha with ha | ha
  · cases ha
  · exact h1 _ ha

/-- The walk over all steps, from the start. -/
theorem interleaved_iff : Interleaved schedule adapter ↔
    ∃ done, admitSteps (adapter.actors.map ActorDeclaration.actor) adapter.checkpoints []
        schedule.steps = .ok done ∧
      sameSet done (adapter.actors.map ActorDeclaration.actor) = true := by
  have hsame : ∀ done, admitSteps (adapter.actors.map ActorDeclaration.actor) adapter.checkpoints
      [] schedule.steps = .ok done →
      (sameSet done (adapter.actors.map ActorDeclaration.actor) = true ↔
        ∀ a ∈ adapter.actors.map ActorDeclaration.actor, a ∈ done) := by
    intro done hd
    have hm := admitSteps_members hd
    simp only [sameSet, Bool.and_eq_true, List.all_eq_true, List.contains_eq_mem,
      decide_eq_true_eq]
    exact ⟨fun h => h.2, fun h => ⟨hm, h⟩⟩
  have hleft : Left (adapter.actors.map ActorDeclaration.actor) [] schedule.steps ↔
      ∀ a ∈ adapter.actors, Completes (ownSteps a.actor schedule.steps) := by
    simp [Left]
  constructor
  · rintro ⟨h1, h2, h3⟩
    obtain ⟨done, hd, hall⟩ := admitSteps_iff.mpr ⟨h1, h2, hleft.mpr h3⟩
    exact ⟨done, hd, (hsame done hd).mpr hall⟩
  · rintro ⟨done, hd, hs⟩
    obtain ⟨h1, h2, h3⟩ := admitSteps_iff.mp ⟨done, hd, (hsame done hd).mp hs⟩
    exact ⟨h1, h2, hleft.mp h3⟩

theorem interleaved_of_admission {reentrant : Bool}
    (h : admission lib schedule adapter policy reentrant = .ok ()) :
    Interleaved schedule adapter := by
  simp only [admission, bind_eq_ok] at h
  obtain ⟨_, -, _, -, _, -, h⟩ := h
  split at h
  · cases h
  · simp only [bind_eq_ok] at h
    obtain ⟨_, -, h⟩ := h
    split at h
    · cases h
    · simp only [bind_eq_ok] at h
      obtain ⟨_, -, _, -, _, -, done, hs, hd⟩ := h
      exact interleaved_iff.mpr ⟨done, hs, by simpa using invalid_ok hd⟩

/-- An interleaving of declared names reads back from its text. -/
theorem Presented.legible (hp : Presented lib schedule adapter policy)
    (hi : Interleaved schedule adapter) : Legible schedule where
  steps := by
    have h := hp.bounds
    simp only [Policy.valid, Bool.and_eq_true, decide_eq_true_eq] at h
    have := hp.sizes.2.2
    omega
  ofProfile := hp.ofProfile
  identity := hp.identity
  named := by
    refine List.all_eq_true.mpr fun st hst => ?_
    obtain ⟨a, ha, he⟩ := List.mem_map.mp (hi.declared st hst)
    have hactor : identifier st.actor = true := he ▸ (hp.actors.2 a ha).1
    simp only [Step.named, hactor, Bool.true_and, Bool.or_eq_true, beq_iff_eq]
    by_cases hc : st.checkpoint = completion
    · exact .inr hc
    · exact .inl (hp.checkpoints.2 _ (hi.checkpoints st hst hc))

theorem admission_iff (hp : Presented lib schedule adapter policy) :
    admission lib schedule adapter policy false = .ok () ↔ Interleaved schedule adapter := by
  refine ⟨interleaved_of_admission, fun hi => ?_⟩
  have hl := hp.legible hi
  obtain ⟨t, ht⟩ := lib.dump_eq_some (utf8_scheduleJson hl hp.inputs.2.1)
  have hlen : t.length ≤ maxArtifactBytes := by
    have h := hp.textSize
    rwa [JsonLib.len, ht] at h
  have he : encodeSchedule lib schedule = .ok t :=
    (encodeSchedule_eq_ok hp.inputs.1).mpr ⟨hp.inputs.2.2, ht, hlen, hl⟩
  obtain ⟨done, hsteps, hdone⟩ := interleaved_iff.mp hi
  refine admission_pass hp.bounds hl hp.same hp.factory hp.some hp.sizes.1 hp.sizes.2.1
    hp.sizes.2.2 he ?_ (admitActors_pass hp.actors.1 (by simp) hp.actors.2)
    (admitCheckpoints_pass hp.checkpoints.1 (by simp) hp.checkpoints.2) hsteps hdone
  rw [lib.dumpSize_eq_some hp.inputs.2.1]
  exact hp.inputsSize

end

/-! ## A schedule of two actors -/

def sampleAdapter : Adapter where
  identity := sampleIdentity
  actors := [⟨"a", "run"⟩, ⟨"b", "run"⟩]
  checkpoints := ["c"]
  factory := some (.ok { workers := [{ actor := "a" }, { actor := "b" }] })

def sampleOpening : Sys.Opening where
  schedule := sampleSchedule
  adapter := sampleAdapter
  policy := {}
  generation := 1
  random i := if i.val % 2 = 0 then 0x01234567 else 0x89abcdef

theorem presented_sample : Presented sampleLib sampleSchedule sampleAdapter {} := by
  obtain ⟨t, ht⟩ := encodeSchedule_sample
  obtain ⟨hp, hd, hl, hs⟩ := (encodeSchedule_eq_ok (by decide)).mp ht
  have htext : sampleLib.len (scheduleJson sampleSchedule) ≤ maxArtifactBytes := by
    rw [JsonLib.len, hd]
    exact hl
  exact ⟨by decide, hs.ofProfile, hs.identity, rfl, rfl, by decide, by decide, by decide,
    by decide, htext, by decide, by decide⟩

instance (own : List Step) : Decidable (Completes own) :=
  decidable_of_iff (own.countP (fun st => st.checkpoint == completion) = 1 ∧
      own.getLast?.map Step.checkpoint = some completion)
    ⟨fun h => ⟨h.1, h.2⟩, fun h => ⟨h.1, h.2⟩⟩

theorem admission_sample : admission sampleLib sampleSchedule sampleAdapter {} false = .ok () :=
  (admission_iff presented_sample).mpr ⟨by decide, by decide, by decide⟩

/-! ## Behind a refusal -/

namespace Sys

open Shared

/-- The same with another factory. -/
def Opening.withFactory (o : Opening) (f : Except Thrown Program) : Opening :=
  { o with adapter := { o.adapter with factory := some f } }

/-- An execution that has no program and no thread, and calls nothing. -/
structure Empty (x : Sys) : Prop where
  failed : x.state.failed = true
  pcs : x.pcs = []
  constructed : x.impl.constructed = false
  registered : x.impl.registered = false
  threads : x.impl.threads = []
  teardowns : x.impl.teardowns = 0
  ctl : x.ctl = .idle ∨ x.ctl = .destroying ∨ x.ctl = .destroyed

variable {lib : JsonScan} {o : Opening} {r : Refusal} {x y : Sys}

theorem start_refused
    (h : admission lib o.schedule o.adapter o.policy o.reentrant = .error r) :
    start lib o = unstarted
      (Shared.fail { report := { generation := o.generation, executionId := o.executionId } }
        r.1 r.2)
      { schedule := o.schedule, policy := o.policy, adapter := o.adapter } := by
  unfold start
  rw [h]

theorem admission_withFactory (hf : o.adapter.factory.isSome = true) (f : Except Thrown Program) :
    admission lib o.schedule (o.withFactory f).adapter o.policy o.reentrant =
      admission lib o.schedule o.adapter o.policy o.reentrant := by
  have hnone : o.adapter.factory.isNone = false := by simpa using hf
  simp only [admission, Opening.withFactory, hnone, Option.isNone_some]
  rfl

theorem Empty.start (h : admission lib o.schedule o.adapter o.policy o.reentrant = .error r) :
    Empty (start lib o) := by
  rw [start_refused h]
  exact ⟨failed_fail _ _ _, rfl, rfl, rfl, rfl, rfl, .inl rfl⟩

theorem Empty.cleanup (h : Empty x) (timeout : Int) :
    Empty (x.cleanup timeout) ∧ (x.cleanup timeout).state = x.state := by
  unfold Sys.cleanup
  split
  · exact ⟨⟨h.failed, h.pcs, h.constructed, h.registered, h.threads, h.teardowns, .inl rfl⟩, rfl⟩
  · dsimp only
    rw [if_pos (by simp [h.constructed])]
    exact ⟨⟨h.failed, h.pcs, h.constructed, h.registered, h.threads, h.teardowns, .inl rfl⟩, rfl⟩

/-- Only `cleanup` and the destructor leave a trace, and neither calls anything. -/
theorem Empty.step {c : Choice} (h : Empty x) (hs : x.step lib.toJsonLib c = some y) :
    Empty y ∧ y.state.report = x.state.report := by
  have hctl : ∀ {d : Ctl}, d ≠ .idle → d ≠ .destroying → d ≠ .destroyed → x.ctl ≠ d := by
    intro d h₁ h₂ h₃ e
    rcases h.ctl with hc | hc | hc <;> rw [hc] at e <;> subst e <;> contradiction
  cases c with
  | advance st late =>
    simp only [Sys.step, Option.ite_none_right_eq_some, Option.some.injEq] at hs
    obtain ⟨-, rfl⟩ := hs
    have hno : x.cannotAdvance = true := by simp [cannotAdvance, h.failed]
    rw [Sys.advance, if_pos hno]
    exact ⟨h, rfl⟩
  | finish =>
    simp only [Sys.step, Option.ite_none_right_eq_some, Option.some.injEq] at hs
    obtain ⟨-, rfl⟩ := hs
    rw [Sys.finish, if_pos (by simp [h.constructed])]
    exact ⟨h, rfl⟩
  | cleanup timeout =>
    simp only [Sys.step, Option.ite_none_right_eq_some, Option.some.injEq] at hs
    obtain ⟨-, rfl⟩ := hs
    exact ⟨(h.cleanup timeout).1, congrArg Shared.report (h.cleanup timeout).2⟩
  | destroy =>
    simp only [Sys.step, Option.ite_none_right_eq_some, Option.some.injEq] at hs
    obtain ⟨-, rfl⟩ := hs
    exact ⟨⟨h.failed, h.pcs, h.constructed, h.registered, h.threads, h.teardowns,
      .inr (.inl rfl)⟩, rfl⟩
  | destroyEnd =>
    simp only [Sys.step, Option.ite_none_right_eq_some, Option.some.injEq] at hs
    obtain ⟨-, rfl⟩ := hs
    rw [Sys.destroyEnd, if_neg (by simp [h.constructed])]
    exact ⟨⟨h.failed, h.pcs, h.constructed, h.registered, h.threads, h.teardowns,
      .inr (.inr rfl)⟩, rfl⟩
  | destroyJoin => simp [Sys.step, h.threads] at hs
  | cancel => simp [Sys.step, h.registered] at hs
  | foreign i k checkpoint => simp [Sys.step, h.pcs] at hs
  | register i | wake i | user i _ | stop i | arrive i | caught i | close i =>
    simp [Sys.step, h.pcs] at hs
  | observed value late =>
    simp only [Sys.step] at hs
    split at hs
    · rename_i hc
      exact absurd hc (hctl (by simp) (by simp) (by simp))
    · cases hs
  | permitted late =>
    simp only [Sys.step] at hs
    split at hs
    · rename_i hc
      exact absurd hc (hctl (by simp) (by simp) (by simp))
    · cases hs
  | joined =>
    simp only [Sys.step] at hs
    split at hs
    · rename_i hc
      exact absurd hc (hctl (by simp) (by simp) (by simp))
    · cases hs
  | cleanupJoined =>
    simp only [Sys.step] at hs
    split at hs
    · rename_i hc
      exact absurd hc (hctl (by simp) (by simp) (by simp))
    · cases hs
  | _ =>
    simp only [Sys.step, Option.ite_none_right_eq_some] at hs
    first
      | exact absurd hs.1 (hctl (by simp) (by simp) (by simp))
      | exact absurd hs.1.1 (hctl (by simp) (by simp) (by simp))

theorem Empty.path {C : Sys → Choice → Prop} (h : Empty x) (hp : (lts lib).Path C x y) :
    Empty y ∧ y.state.report = x.state.report := by
  induction hp with
  | refl => exact ⟨h, rfl⟩
  | tail _ _ hs ih =>
    obtain ⟨he, hr⟩ := ih.1.step hs
    exact ⟨he, hr.trans ih.2⟩

/-- **Admission is exact.** It accepts the well-formed interleavings and no others; behind a
refusal the factory has no say, and no run of the execution starts a thread or makes a call. -/
theorem admission_exact (lib : JsonScan) (o : Opening) :
    (o.reentrant = false → Presented lib o.schedule o.adapter o.policy →
      (admission lib o.schedule o.adapter o.policy o.reentrant = .ok () ↔
        Interleaved o.schedule o.adapter)) ∧
    ∀ r, admission lib o.schedule o.adapter o.policy o.reentrant = .error r →
      (o.adapter.factory.isSome = true → ∀ f, Sys.start lib (o.withFactory f) =
        { Sys.start lib o with impl := { (Sys.start lib o).impl with
          adapter := (o.withFactory f).adapter } }) ∧
      ∀ x, (lts lib).Path (fun _ _ => True) (Sys.start lib o) x →
        Empty x ∧ x.state.report = (Sys.start lib o).state.report := by
  refine ⟨fun hr hp => by rw [hr]; exact admission_iff hp, fun r h => ⟨fun hf f => ?_, ?_⟩⟩
  · have h' : admission lib (o.withFactory f).schedule (o.withFactory f).adapter
        (o.withFactory f).policy (o.withFactory f).reentrant = .error r :=
      (admission_withFactory hf f).trans h
    rw [start_refused h, start_refused h']
    rfl
  · exact fun x hx => (Empty.start h).path hx

/-- The sample without its last step: `a` does not complete. -/
def openEnded : Opening :=
  { sampleOpening with schedule := { sampleSchedule with steps := sampleSchedule.steps.dropLast } }

theorem presented_openEnded :
    Presented sampleLib openEnded.schedule openEnded.adapter openEnded.policy := by
  have hp := presented_sample
  have hl : Legible openEnded.schedule := ⟨by decide, rfl, hp.identity, by decide +kernel⟩
  have htext : sampleLib.len (scheduleJson openEnded.schedule) ≤ maxArtifactBytes := by
    have hn : Compact.dumpSize (scheduleJson openEnded.schedule) = some 455 := by decide +kernel
    have hd := sampleLib.dumpSize_eq_some (utf8_scheduleJson hl (by decide))
    rw [Option.some.inj (hd.symm.trans hn)]
    decide
  exact ⟨hp.bounds, rfl, hp.identity, rfl, rfl, hp.actors, hp.checkpoints, hp.inputs,
    hp.inputsSize, htext, hp.some, by decide⟩

theorem admission_exact_sample :
    admission sampleLib sampleSchedule sampleAdapter {} false = .ok () ∧
      ∃ r, admission sampleLib openEnded.schedule sampleAdapter {} false = .error r ∧
        ∃ x, (lts sampleLib).Path (fun _ _ => True) (Sys.start sampleLib openEnded) x ∧
          x.impl.closed = true ∧ Empty x := by
  refine ⟨((admission_exact sampleLib sampleOpening).1 rfl presented_sample).mpr
    ⟨by decide, by decide, by decide⟩, ?_⟩
  have hopen := admission_exact sampleLib openEnded
  cases h : admission sampleLib openEnded.schedule sampleAdapter {} false with
  | ok u =>
    have hi := (hopen.1 rfl presented_openEnded).mp h
    exact absurd hi.completes (by decide)
  | error r =>
    obtain ⟨-, hruns⟩ := hopen.2 r h
    have hx := start_refused h
    generalize Sys.start sampleLib openEnded = x at hx hruns ⊢
    have hstep : (lts sampleLib).step x (.cleanup 1000) = some (x.cleanup 1000) := by
      rw [hx]
      rfl
    have hpath : (lts sampleLib).Path (fun _ _ => True) x (x.cleanup 1000) :=
      .single trivial hstep
    refine ⟨r, rfl, _, hpath, ?_, (hruns _ hpath).1⟩
    rw [hx]
    rfl

end Sys

end MirrorCpp.Schedule
