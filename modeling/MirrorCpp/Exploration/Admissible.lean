import MirrorCpp.Exploration.Space
import MirrorCpp.Schedule.WellFormed

/-!
# Enumerated schedules are admissible

A schedule of the enumeration is a merge of the declared chains, so it has the steps of the
schedule the declaration was checked with, in another order: it prints to a text of the same
length. Each actor runs its own chain, so its `$done` step is its last one.
-/

namespace MirrorCpp.Schedule

open Fallible

/-! ## The enumeration -/

section
variable {actors : List ActorChain} {maxPreemptions cap : Nat} {clock : Nat → Option String}

/-- What the actors have left. -/
def remaining (actors : List ActorChain) (positions : List Nat) : List (List Step) :=
  List.zipWith (fun a k => a.steps.drop k) actors positions

/-- An actor that is not at its end has its next step before the rest of its chain. -/
theorem remaining_get {positions : List Nat} {i k : Nat} {a : ActorChain} {point : String}
    (ha : actors[i]? = some a) (hk : positions[i]? = some k)
    (hp : a.checkpoints[k]? = some point) :
    (remaining actors positions)[i]? = some (⟨a.actor.actor, point⟩ :: a.steps.drop (k + 1)) := by
  have hs : a.steps[k]? = some ⟨a.actor.actor, point⟩ := by simp [ActorChain.steps, hp]
  obtain ⟨hlt, he⟩ := List.getElem?_eq_some_iff.mp hs
  rw [remaining, List.getElem?_zipWith, ha, hk]
  simp only [List.drop_eq_getElem_cons hlt, he]

theorem remaining_set {positions : List Nat} {i k : Nat} {a : ActorChain}
    (ha : actors[i]? = some a) (hk : positions[i]? = some k) :
    remaining actors (positions.set i (k + 1)) =
      (remaining actors positions).set i (a.steps.drop (k + 1)) := by
  have hi : i < positions.length := (List.getElem?_eq_some_iff.mp hk).1
  obtain ⟨hia, rfl⟩ := List.getElem?_eq_some_iff.mp ha
  refine List.ext_getElem? fun j => ?_
  by_cases hj : i = j
  · subst hj
    simp [remaining, hi, hia]
  · simp [remaining, List.getElem?_zipWith, hj]

/-- `r'` has the schedules of `r`, then some that continue `current` by a merge of `chains`. -/
def Continues (chains : List (List Step)) (current : List Step) (r r' : Enumeration) : Prop :=
  ∃ new, r'.schedules = r.schedules ++ new ∧
    ∀ s ∈ new, ∃ xs, s = current ++ xs ∧ Merge chains xs

theorem Continues.refl {chains : List (List Step)} {current : List Step} {r r' : Enumeration}
    (h : r'.schedules = r.schedules) : Continues chains current r r' :=
  ⟨[], by simp [h], by simp⟩

theorem Continues.trans {chains : List (List Step)} {current : List Step}
    {r r' r'' : Enumeration} (h : Continues chains current r r')
    (h' : Continues chains current r' r'') : Continues chains current r r'' := by
  obtain ⟨n, h1, h2⟩ := h
  obtain ⟨n', h1', h2'⟩ := h'
  refine ⟨n ++ n', by rw [h1', h1, List.append_assoc], fun s hs => ?_⟩
  rcases List.mem_append.mp hs with hs | hs
  · exact h2 s hs
  · exact h2' s hs

theorem continues_foldl {chains : List (List Step)} {current : List Step}
    {f : Enumeration → Nat → Enumeration} (hf : ∀ r i, Continues chains current r (f r i)) :
    ∀ (is : List Nat) (r : Enumeration), Continues chains current r (is.foldl f r)
  | [], _ => .refl rfl
  | i :: is, r => (hf r i).trans (continues_foldl hf is (f r i))

theorem schedules_poll (r : Enumeration) : (r.poll clock).schedules = r.schedules := by
  unfold Enumeration.poll
  split
  · rfl
  · split <;> rfl

/-- A visit adds merges of what is left, behind the steps chosen so far. -/
theorem visit_continues : ∀ (left : Nat) {positions : List Nat} {current : List Step}
    {prior : Option Nat} {preemptions : Nat} {r : Enumeration},
    (remaining actors positions).flatten.length = left →
    Continues (remaining actors positions) current r
      (visit actors maxPreemptions cap clock left positions current prior preemptions r)
  | 0, positions, current, prior, preemptions, r, hl => by
    have hdone : Merge (remaining actors positions) [] :=
      .done (List.flatten_eq_nil_iff.mp (List.length_eq_zero_iff.mp hl))
    unfold visit
    dsimp only
    split
    · exact .refl (schedules_poll r)
    · split
      · exact .refl (schedules_poll r)
      · refine ⟨[current], by rw [schedules_poll], fun s hs => ⟨[], ?_, hdone⟩⟩
        rw [List.mem_singleton.mp hs, List.append_nil]
  | left + 1, positions, current, prior, preemptions, r, hl => by
    rw [visit]
    refine Continues.trans (.refl (schedules_poll r)) (continues_foldl (fun r i => ?_) _ _)
    split
    · exact .refl rfl
    · split
      · rename_i a k ha hk
        split
        · exact .refl rfl
        · rename_i point hp
          dsimp only
          generalize preemptions + (if preempts actors positions prior i = true then 1 else 0) = n
          split
          · exact .refl rfl
          · have hg := remaining_get ha hk hp
            have hset := remaining_set ha hk
            have hlen : (remaining actors (positions.set i (k + 1))).flatten.length = left := by
              have := (perm_flatten_set hg).length_eq
              rw [hset]
              simp only [List.length_cons] at this
              omega
            have ih : Continues (remaining actors (positions.set i (k + 1)))
                (current ++ [⟨a.actor.actor, point⟩]) r
                (visit actors maxPreemptions cap clock left (positions.set i (k + 1))
                  (current ++ [⟨a.actor.actor, point⟩]) (some i) n r) := visit_continues left hlen
            obtain ⟨new, hn, hm⟩ := ih
            refine ⟨new, hn, fun s hs => ?_⟩
            obtain ⟨xs, rfl, hx⟩ := hm s hs
            rw [hset] at hx
            exact ⟨_, List.append_assoc _ _ _, .take hg hx⟩
      · exact .refl rfl

/-- Every schedule of the enumeration is a merge of the chains. -/
theorem enumerate_merge {steps : List Step}
    (h : steps ∈ (enumerate actors maxPreemptions cap clock).schedules) :
    Merge (actors.map ActorChain.steps) steps := by
  have hstart : remaining actors (actors.map fun _ => 0) = actors.map ActorChain.steps := by
    rw [remaining, List.zipWith_map_right]
    exact List.zipWith_self
  have hv : Continues (remaining actors (actors.map fun _ => 0)) [] {}
      (enumerate actors maxPreemptions cap clock) := visit_continues _ (by rw [hstart])
  obtain ⟨new, hn, hm⟩ := hv
  rw [hn, List.nil_append] at h
  obtain ⟨xs, rfl, hx⟩ := hm steps h
  rwa [hstart] at hx

end

/-! ## The text of a reordered schedule -/

section
variable {lib : JsonScan}

theorem legible_perm {s : Schedule} {steps : List Step} (hp : steps.Perm s.steps)
    (h : Legible s) : Legible { s with steps := steps } :=
  ⟨hp.length_eq ▸ h.steps, h.ofProfile, h.identity,
    List.all_eq_true.mpr fun st hst => List.all_eq_true.mp h.named st (hp.mem_iff.mp hst)⟩

/-- Reordering the steps does not change the length of the text. -/
theorem len_perm {s : Schedule} {steps : List Step} (hp : steps.Perm s.steps)
    (h : Legible s) (hi : s.inputs.utf8 = true) :
    lib.len (scheduleJson { s with steps := steps }) = lib.len (scheduleJson s) := by
  have hu := utf8_scheduleJson h hi
  have hu' := utf8_scheduleJson (legible_perm hp h) hi
  have hs : lib.len (.arr (steps.map Step.toJson)) = lib.len (.arr (s.steps.map Step.toJson)) := by
    rw [lib.len_arr (utf8_steps h.named), lib.len_arr (utf8_steps (legible_perm hp h).named),
      ((hp.map Step.toJson).map lib.len).sum_nat, (hp.map Step.toJson).length_eq]
  rw [scheduleJson, Json.utf8_obj] at hu hu'
  rw [scheduleJson, scheduleJson, lib.len_obj hu, lib.len_obj hu']
  simp only [List.map_cons, List.map_nil, List.length_cons, hs]

/-- Nor does it keep the schedule from being printed. -/
theorem encodeSchedule_perm {s : Schedule} {steps : List Step} {t : String}
    (hw : s.inputs.wf = true) (hp : steps.Perm s.steps) (h : encodeSchedule lib s = .ok t) :
    ∃ t', encodeSchedule lib { s with steps := steps } = .ok t' := by
  obtain ⟨hplain, hd, hl, hs⟩ := (encodeSchedule_eq_ok hw).mp h
  have hu : (scheduleJson s).utf8 = true := by rw [← lib.dump_isSome, hd]; rfl
  have hi : s.inputs.utf8 = true := by
    rw [scheduleJson, Json.utf8_obj, Json.utf8Members_iff] at hu
    exact (hu ("inputs", s.inputs) (by simp)).2
  have hs' := legible_perm hp hs
  obtain ⟨t', ht'⟩ := lib.dump_eq_some (utf8_scheduleJson hs' hi)
  have hlen := @len_perm lib _ _ hp hs hi
  rw [JsonLib.len, JsonLib.len, ht', hd, Option.getD_some, Option.getD_some] at hlen
  exact ⟨t', (encodeSchedule_eq_ok (s := { s with steps := steps }) hw).mpr
    ⟨hplain, ht', hlen ▸ hl, hs'⟩⟩

end

/-! ## The walk over the steps -/

/-- The steps an actor may still take: declared points, then `$done`. -/
inductive Chain (checkpoints : List String) (actor : String) : List Step → Prop
  | done : Chain checkpoints actor [doneStep actor]
  | point {c rest} (hc : c ∈ checkpoints) (hne : c ≠ completion)
    (h : Chain checkpoints actor rest) : Chain checkpoints actor (⟨actor, c⟩ :: rest)

/-- The actors that are not done have a chain left, the others nothing. -/
def Chained (checkpoints names done : List String) (chains : List (List Step)) : Prop :=
  chains.length = names.length ∧
    ∀ (i : Nat) (name : String) (c : List Step), names[i]? = some name → chains[i]? = some c →
      (name ∈ done ∧ c = []) ∨ (name ∉ done ∧ Chain checkpoints name c)

/-- A merge of such chains is admitted, and every actor is done behind it. -/
theorem admitSteps_merge {actors checkpoints names : List String} (hn : names.Nodup)
    (hactors : ∀ a ∈ names, a ∈ actors) {chains : List (List Step)} {sts : List Step}
      (hm : Merge chains sts) :
    ∀ {done : List String}, Chained checkpoints names done chains → (∀ a ∈ done, a ∈ names) →
      ∃ result, admitSteps actors checkpoints done sts = .ok result ∧
        (∀ a ∈ result, a ∈ names) ∧ ∀ a ∈ names, a ∈ result := by
  induction hm with
  | done hempty =>
    intro done hc hd
    refine ⟨done, rfl, hd, fun a ha => ?_⟩
    obtain ⟨i, hi⟩ := List.getElem?_of_mem ha
    have hlt : i < _ := hc.1 ▸ (List.getElem?_eq_some_iff.mp hi).1
    have hci := List.getElem?_eq_getElem hlt
    rcases hc.2 i a _ hi hci with ⟨h, -⟩ | ⟨-, h⟩
    · exact h
    · rw [hempty _ (List.mem_of_getElem? hci)] at h
      cases h
  | @take chains i x c xs hi hm ih =>
    intro done hc hd
    have hlt : i < names.length := hc.1 ▸ (List.getElem?_eq_some_iff.mp hi).1
    have hname := List.getElem?_eq_getElem hlt
    generalize names[i] = name at hname
    have hmem := List.mem_of_getElem? hname
    rcases hc.2 i name _ hname hi with ⟨-, h⟩ | ⟨hnd, hch⟩
    · cases h
    -- the other actors keep their chains
    have hrest : ∀ (done' : List String), (∀ a, a ≠ name → (a ∈ done' ↔ a ∈ done)) →
        ((name ∈ done' ∧ c = []) ∨ (name ∉ done' ∧ Chain checkpoints name c)) →
        Chained checkpoints names done' (chains.set i c) := by
      intro done' hsame hown
      refine ⟨by rw [List.length_set, hc.1], fun j a d ha hdj => ?_⟩
      rw [List.getElem?_set] at hdj
      split at hdj
      · rename_i hij
        subst hij
        rw [hname] at ha
        cases ha
        split at hdj
        · cases hdj
          exact hown
        · cases hdj
      · rename_i hij
        have hne : a ≠ name := by
          rintro rfl
          exact hij ((List.getElem?_inj hlt hn).mp (hname.trans ha.symm))
        rw [hsame a hne]
        exact hc.2 j a d ha hdj
    have hx : x.actor = name := by cases hch <;> rfl
    have hinv : invalid (!actors.contains x.actor || done.contains x.actor)
        "unknown actor or step after completion" = .ok () := by
      simp [invalid, hx, hactors name hmem, hnd]
    rw [admitSteps, hinv, ok_bind]
    cases hch with
    | done =>
      rw [if_pos (show (doneStep name).checkpoint = completion from rfl)]
      refine ih (hrest _ (fun a ha => ?_) (.inl ⟨by simp [doneStep], rfl⟩)) (fun a ha => ?_)
      · simp [doneStep, ha]
      · rcases List.mem_cons.mp ha with rfl | ha
        · exact hmem
        · exact hd a ha
    | @point point rest hp hne hch =>
      have hdecl : invalid (!checkpoints.contains point) "undeclared schedule checkpoint" =
          .ok () := by simp [invalid, hp]
      rw [if_neg hne]
      simp only [hdecl, ok_bind]
      exact ih (hrest done (fun a _ => .rfl) (.inr ⟨hnd, hch⟩)) hd

/-! ## The declaration -/

section
variable {lib : JsonScan}

/-- What the checks say of the actors. -/
theorem declareActors_ok : ∀ {as : List ActorChain} {seen : List String} {u : Unit},
    declareActors seen as = .ok u →
      (as.map fun a => a.actor.actor).Nodup ∧
      (∀ a ∈ as, a.actor.actor ∉ seen) ∧
      ∀ a ∈ as, identifier a.actor.actor = true ∧ identifier a.actor.operation = true ∧
        a.checkpoints ≠ [] ∧ chainPoints a.checkpoints = true
  | [], _, _, _ => by simp
  | a :: as, seen, u, h => by
    simp only [declareActors, bind_eq_ok, check_ok, Bool.and_eq_true, Bool.not_eq_true',
      List.contains_eq_mem, decide_eq_false_iff_not, List.isEmpty_eq_false_iff] at h
    obtain ⟨_, ⟨⟨ha, ho⟩, hs⟩, _, ⟨hne, -⟩, _, hc, h⟩ := h
    obtain ⟨hn, hseen, hall⟩ := declareActors_ok h
    refine ⟨?_, ?_, ?_⟩
    · simp only [List.map_cons, List.nodup_cons, List.mem_map, not_exists, not_and]
      exact ⟨fun b hb he => hseen b hb (by simp [he]), hn⟩
    · simp only [List.mem_cons, forall_eq_or_imp]
      exact ⟨hs, fun b hb hm => hseen b hb (by simp [hm])⟩
    · simp only [List.mem_cons, forall_eq_or_imp]
      exact ⟨⟨ha, ho, hne, hc⟩, hall⟩

/-- A declared chain, under any declaration of its points. -/
theorem chain_of_points {checkpoints : List String} {actor : String} :
    ∀ {points : List String}, points ≠ [] → chainPoints points = true →
      (∀ c ∈ points, c ≠ completion → c ∈ checkpoints) →
      Chain checkpoints actor (points.map (⟨actor, ·⟩))
  | [], h, _, _ => absurd rfl h
  | [p], _, hc, _ => by
    rw [chainPoints, beq_iff_eq] at hc
    subst hc
    exact .done
  | p :: q :: ps, _, hc, hd => by
    rw [chainPoints, Bool.and_eq_true] at hc
    have hne : p ≠ completion := by
      rintro rfl
      exact absurd hc.1 (by decide)
    · exact .point (hd p List.mem_cons_self hne) hne
        (chain_of_points (List.cons_ne_nil q ps) hc.2
          fun c hm => hd c (List.mem_cons_of_mem _ hm))
    · simp

theorem declareInputs_ok {s : Schedule} : ∀ {inputs : List Json} {keys : List String} {u : Unit},
    declareInputs lib s keys inputs = .ok u → ∀ input ∈ inputs,
      (∃ t, encodeSchedule lib { s with inputs := input } = .ok t) ∧
      (lib.dumpSize input).getD 0 ≤ maxObservationBytes
  | [], _, _, _ => by simp
  | input :: inputs, keys, u, h => by
    simp only [declareInputs, bind_eq_ok, check_ok, decide_eq_true_eq] at h
    obtain ⟨t, ht, key, hk, _, hl, _, -, h⟩ := h
    simp only [List.mem_cons, forall_eq_or_imp]
    refine ⟨⟨⟨t, ht⟩, ?_⟩, declareInputs_ok h⟩
    unfold printed at hk
    split at hk
    · rename_i d hd
      cases hk
      rw [lib.dumpSize_eq, hd]
      exact hl
    · cases hk

theorem perm_sortActors (actors : List ActorChain) : (sortActors actors).Perm actors :=
  List.perm_insertionSort _ _

/-- What passing the checks says of a space. -/
structure Declared (lib : JsonScan) (space : FiniteSpace) : Prop where
  some : space.actors ≠ []
  few : space.actors.length ≤ 8
  names : (space.actors.map fun a => a.actor.actor).Nodup
  identifiers : ∀ a ∈ space.actors, identifier a.actor.actor = true ∧
    identifier a.actor.operation = true
  chains : ∀ a ∈ space.actors, a.checkpoints ≠ [] ∧ chainPoints a.checkpoints = true
  steps : (space.actors.map ActorChain.steps).flatten.length ≤ 64
  inputs : ∀ input ∈ space.inputs,
    (∃ t, encodeSchedule lib
      (space.candidate ((sortActors space.actors).map ActorChain.steps).flatten input) = .ok t) ∧
    (lib.dumpSize input).getD 0 ≤ maxObservationBytes

theorem declared_ok {space : FiniteSpace} {limits : ExplorationLimits} {runner : Bool}
    {actors : List ActorChain} (h : declared lib space limits runner = .ok actors) :
    actors = sortActors space.actors ∧ Declared lib space := by
  simp only [declared, bind_eq_ok, check_ok, Bool.and_eq_true, Bool.not_eq_true',
    decide_eq_true_eq, List.isEmpty_eq_false_iff, pure_eq, Except.ok.injEq] at h
  obtain ⟨_, -, _, ⟨⟨⟨hne, hfew⟩, -⟩, -⟩, _, -, _, ha, _, hsteps, _, hi, _, -, _, -, _, -, rfl⟩ := h
  obtain ⟨hn, -, hall⟩ := declareActors_ok ha
  have hp := perm_sortActors space.actors
  refine ⟨rfl, hne, hfew, (hp.map _).nodup_iff.mp hn, fun a hm => ?_, fun a hm => ?_, ?_,
    declareInputs_ok hi⟩
  · have := hall a (hp.mem_iff.mpr hm)
    exact ⟨this.1, this.2.1⟩
  · exact (hall a (hp.mem_iff.mpr hm)).2.2
  · rwa [((hp.map ActorChain.steps).flatten).length_eq] at hsteps

theorem declareNames_ok {message : String} : ∀ {keys seen : List String} {u : Unit},
    declareNames message seen keys = .ok u → keys.Nodup ∧ ∀ k ∈ keys, k ∉ seen
  | [], _, _, _ => by simp
  | key :: keys, seen, u, h => by
    simp only [declareNames, bind_eq_ok, check_ok, Bool.and_eq_true, Bool.not_eq_true',
      List.contains_eq_mem, decide_eq_false_iff_not] at h
    obtain ⟨_, ⟨-, hnew⟩, h⟩ := h
    obtain ⟨hn, hseen⟩ := declareNames_ok h
    refine ⟨List.nodup_cons.mpr ⟨fun hm => hseen key hm List.mem_cons_self, hn⟩, ?_⟩
    simp only [List.mem_cons, forall_eq_or_imp]
    exact ⟨hnew, fun k hk hm => hseen k hk (List.mem_cons_of_mem _ hm)⟩

/-- The variables of a space have distinct names. -/
theorem declared_variables {space : FiniteSpace} {limits : ExplorationLimits} {runner : Bool}
    {actors : List ActorChain} (h : declared lib space limits runner = .ok actors) :
    (space.stateVariables ++ space.instrumentationVariables).Nodup := by
  simp only [declared, bind_eq_ok, pure_eq] at h
  obtain ⟨_, -, _, -, _, -, _, -, _, -, _, -, _, -, _, hbase, _, hinstr, -⟩ := h
  obtain ⟨hb, -⟩ := declareNames_ok hbase
  obtain ⟨hi, hnew⟩ := declareNames_ok hinstr
  exact List.nodup_append.mpr ⟨hb, hi, fun a ha b hb he => hnew b hb (he ▸ ha)⟩

/-- Every schedule of the enumeration prints with every declared input. -/
theorem enumerate_encodes {space : FiniteSpace} {cap : Nat} {clock : Nat → Option String}
    {steps : List Step} {input : Json} (hw : input.wf = true) (hd : Declared lib space)
    (hs : steps ∈ (enumerate (sortActors space.actors) space.maxPreemptions cap clock).schedules)
    (hi : input ∈ space.inputs) :
    ∃ t, encodeSchedule lib (space.candidate steps input) = .ok t := by
  obtain ⟨⟨t, ht⟩, -⟩ := hd.inputs input hi
  exact encodeSchedule_perm hw (enumerate_merge hs).perm ht

/-! ## Admission of a candidate -/

/-- An adapter and a policy a space can be explored with. -/
structure Serves (space : FiniteSpace) (adapter : Adapter) (policy : Policy) : Prop where
  identity : adapter.identity = space.identity
  actors : adapter.actors.Perm (space.actors.map ActorChain.actor)
  factory : adapter.factory.isSome = true
  valid : adapter.checkpoints.all identifier = true ∧ adapter.checkpoints.Nodup
  points : ∀ a ∈ space.actors, ∀ c ∈ a.checkpoints, c ≠ completion → c ∈ adapter.checkpoints
  bounds : policy.valid = true
  maxActors : space.actors.length ≤ policy.maxActors
  maxSteps : (space.actors.map ActorChain.steps).flatten.length ≤ policy.maxSteps ∧
    adapter.checkpoints.length ≤ policy.maxSteps

/-- The chains of a declared space, before the first step. -/
theorem chained_start {space : FiniteSpace} {adapter : Adapter} {policy : Policy}
    (hd : Declared lib space) (hs : Serves space adapter policy) :
    Chained adapter.checkpoints ((sortActors space.actors).map fun a => a.actor.actor) []
      ((sortActors space.actors).map ActorChain.steps) := by
  refine ⟨by simp, fun i name c hi hc => .inr ⟨by simp, ?_⟩⟩
  rw [List.getElem?_map, Option.map_eq_some_iff] at hi hc
  obtain ⟨a, ha, rfl⟩ := hi
  obtain ⟨b, hb, rfl⟩ := hc
  cases ha.symm.trans hb
  have hm := (perm_sortActors _).mem_iff.mp (List.mem_of_getElem? ha)
  exact chain_of_points (hd.chains a hm).1 (hd.chains a hm).2 (hs.points a hm)

/-- Every schedule of the enumeration prints with every declared input, and is admitted by
every execution that serves the space. -/
theorem enumerate_admissible {space : FiniteSpace} {limits : ExplorationLimits} {runner : Bool}
    {actors : List ActorChain} {clock : Nat → Option String} {steps : List Step} {input : Json}
    (hw : input.wf = true) (h : declared lib space limits runner = .ok actors)
    (hs : steps ∈ (enumerate actors space.maxPreemptions limits.maxEnumeratedSchedules
      clock).schedules) (hi : input ∈ space.inputs) :
    (∃ t, encodeSchedule lib (space.candidate steps input) = .ok t) ∧
      ∀ (adapter : Adapter) (policy : Policy), Serves space adapter policy →
        admission lib (space.candidate steps input) adapter policy false = .ok () := by
  obtain ⟨rfl, hd⟩ := declared_ok h
  have hm := enumerate_merge hs
  obtain ⟨-, hsize⟩ := hd.inputs input hi
  obtain ⟨t', ht'⟩ := enumerate_encodes hw hd hs hi
  refine ⟨⟨t', ht'⟩, fun adapter policy hv => ?_⟩
  obtain ⟨-, -, -, hlegible⟩ := (encodeSchedule_eq_ok hw).mp ht'
  have hsort := perm_sortActors space.actors
  have hnames : ((sortActors space.actors).map fun a => a.actor.actor).Perm
      (adapter.actors.map ActorDeclaration.actor) := by
    have := (hv.actors.map ActorDeclaration.actor).symm
    rw [List.map_map] at this
    exact (hsort.map _).trans this
  have hnodup := (hsort.map fun a => a.actor.actor).nodup_iff.mpr hd.names
  have hlen : adapter.actors.length = space.actors.length := by
    rw [hv.actors.length_eq, List.length_map]
  have hidentifiers : ∀ a ∈ adapter.actors,
      identifier a.actor = true ∧ identifier a.operation = true := by
    intro a ha
    obtain ⟨c, hc, rfl⟩ := List.mem_map.mp (hv.actors.mem_iff.mp ha)
    exact hd.identifiers c hc
  have hsteps : steps.length ≤ policy.maxSteps := by
    rw [hm.perm.length_eq, ((hsort.map ActorChain.steps).flatten).length_eq]
    exact hv.maxSteps.1
  obtain ⟨done, hdone, hsub, hall⟩ := admitSteps_merge hnodup
    (fun a ha => hnames.mem_iff.mp ha) hm (chained_start hd hv) (by simp)
  refine admission_pass hv.bounds hlegible hv.identity.symm hv.factory ?_ (hlen ▸ hv.maxActors)
    hv.maxSteps.2 hsteps ht' hsize
    (admitActors_pass (hnames.nodup_iff.mp hnodup) (by simp) hidentifiers)
    (admitCheckpoints_pass hv.valid.2 (by simp) (List.all_eq_true.mp hv.valid.1)) hdone ?_
  · rw [← List.length_pos_iff, hlen, List.length_pos_iff]
    exact hd.some
  · simp only [sameSet, Bool.and_eq_true, List.all_eq_true, List.contains_eq_mem,
      decide_eq_true_eq]
    exact ⟨fun a ha => hnames.mem_iff.mp (hsub a ha), fun a ha => hall a (hnames.mem_iff.mpr ha)⟩

end

/-! ## A space of two actors -/

/-- `a` stops at `c`; `b` has no point but its end. -/
def sampleSpace : FiniteSpace where
  identity := sampleIdentity
  actors := [⟨⟨"b", "run"⟩, ["$done"]⟩, ⟨⟨"a", "run"⟩, ["c", "$done"]⟩]
  inputs := [.obj []]
  stateVariables := ["x"]

def spaceAdapter : Adapter where
  identity := sampleIdentity
  actors := [⟨"a", "run"⟩, ⟨"b", "run"⟩]
  checkpoints := ["c", "d"]
  factory := some (.ok { workers := [{ actor := "a" }, { actor := "b" }] })

theorem declared_sample : declared sampleLib sampleSpace {} true =
    .ok (sortActors sampleSpace.actors) := by
  have hs : ∃ t, encodeSchedule sampleLib
      (sampleSpace.candidate [⟨"a", "c"⟩, ⟨"a", "$done"⟩, ⟨"b", "$done"⟩] (.obj [])) = .ok t :=
    encodeSchedule_of_size (n := 490) rfl (by decide) (by decide)
      ⟨by decide, rfl, by decide +kernel, by decide +kernel⟩ (by decide +kernel) (by decide)
  obtain ⟨t, ht⟩ := hs
  have hi : declareInputs sampleLib { identity := sampleSpace.identity, steps :=
      ((sortActors sampleSpace.actors).map ActorChain.steps).flatten } [] sampleSpace.inputs =
        .ok () := by
    change (do
      let _ ← encodeSchedule sampleLib (sampleSpace.candidate
        [⟨"a", "c"⟩, ⟨"a", "$done"⟩, ⟨"b", "$done"⟩] (.obj []))
      _) = _
    rw [ht]
    rfl
  simp only [declared, hi]
  rfl

theorem enumerate_admissible_sample :
    (∃ t, encodeSchedule sampleLib
      (sampleSpace.candidate [⟨"a", "c"⟩, ⟨"b", "$done"⟩, ⟨"a", "$done"⟩] (.obj [])) = .ok t) ∧
    admission sampleLib
      (sampleSpace.candidate [⟨"a", "c"⟩, ⟨"b", "$done"⟩, ⟨"a", "$done"⟩] (.obj []))
      spaceAdapter {} false = .ok () := by
  have h := @enumerate_admissible _ _ _ _ _ (fun _ => none)
    [⟨"a", "c"⟩, ⟨"b", "$done"⟩, ⟨"a", "$done"⟩] _ (by decide) declared_sample
    (by decide +kernel) (List.mem_singleton.mpr rfl)
  refine ⟨h.1, h.2 spaceAdapter {} ⟨rfl, ?_, rfl, by decide +kernel, by decide, by decide,
    by decide, by decide⟩⟩
  exact List.Perm.swap _ _ _

end MirrorCpp.Schedule
