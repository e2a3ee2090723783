import MirrorCpp.Exploration.Covering
import MirrorCpp.Exploration.Enumeration

/-!
# A complete exploration

A campaign that goes on keeps its rows in the order of the candidates; while every run has been
completed, each row is evidence of its candidate. A complete result is the campaign through an
exhausted enumeration in which that never stopped being so.
-/

namespace MirrorCpp.Exploration

open Schedule Itf Fallible Interleaving

variable {lib : Libraries} {space : FiniteSpace}

/-! ## Evidence of a candidate -/

/-- The evidence of an execution that ran the schedule: bound to it, clean and passed, one permit
and one arrival a step, the declared variables observed before the first step and behind each. -/
structure Qualified (lib : Libraries) (space : FiniteSpace) (schedule : Schedule)
    (execution : Json) : Prop where
  bound : Bound lib space (scheduleJson schedule) execution
  cleanup : execution.field? "cleanup" = some (.str "confirmed")
  remaining : ∃ x, execution.field? "remainingActors" = some x ∧ x.isEmpty = true
  passed : execution.field? "passed" = some (.bool true)
  completed : execution.field? "scheduleCompleted" = some (.bool true) ∧
    execution.field? "outcome" = some (.str "completed")
  events : ∃ events, execution.field? "events" = some (.arr events) ∧
    Accepted lib.toJsonLib events schedule.steps
  observations : ∃ observations, execution.field? "observations" = some (.arr observations) ∧
    observations.length = schedule.steps.length + 1 ∧
    ∀ i observation, observations[i]? = some observation → Projects lib space observation i

def Run.executionId : Run → Option Json
  | full row => row.execution.bind (·.field? "executionId")
  | omitted _ _ => none

/-- A full row of a passed run, with the evidence for a schedule and an input. -/
def Evidenced (lib : Libraries) (space : FiniteSpace) (schedule : Schedule) (inputIndex : Nat)
    (run : Run) : Prop :=
  ∃ row execution id, run = .full row ∧ row.schedule = scheduleJson schedule ∧
    row.inputIndex = inputIndex ∧ row.category = .passed ∧ row.execution = some execution ∧
    run.executionId = some (.str id) ∧ Qualified lib space schedule execution

/-- Covering reads every observation. -/
theorem observed_of_cover {observations : Json} : ∀ {left i : Nat} {prior : Option Nat}
    {c c' : Coverage}, c.cover lib space observations left i prior = (c', .ok ()) →
      ∀ k < left, ∃ text, observed lib space observations (i + k) = .ok text
  | 0, _, _, _, _, _ => fun k hk => absurd hk (Nat.not_lt_zero k)
  | left + 1, i, prior, c, c', h => by
    intro k hk
    unfold Coverage.cover at h
    split at h
    · cases h
    · rename_i text htext
      split at h
      · cases h
      · split at h
        · cases h
        · cases k with
          | zero => exact ⟨text, htext⟩
          | succ k =>
            have := observed_of_cover h k (Nat.lt_of_succ_lt_succ hk)
            rwa [Nat.add_right_comm] at this

/-- A credited run has the evidence. -/
theorem qualified_of_credited {schedule : Schedule} {sample : ExplorationSample} {c c' : Campaign}
    (hn : (space.stateVariables ++ space.instrumentationVariables).Nodup)
    (h : Credited lib space schedule (scheduleJson schedule) sample c c') :
    Qualified lib space schedule sample.execution := by
  obtain ⟨id, hid, -⟩ := h.bound
  obtain ⟨hclean, hremaining⟩ := cleanupKnown_ok.mp h.cleanup
  obtain ⟨hcompleted, houtcome, hevents, observations, hobs, hsize⟩ :=
    validateSuccess_ok.mp h.valid
  obtain ⟨observations', hobs', hcover⟩ := h.covered
  obtain rfl : observations = observations' :=
    Option.some.inj (hobs.symm.trans (field_eq_ok.mp hobs'))
  have hread := observed_of_cover hcover
  simp only [Nat.zero_add] at hread
  -- the first observation is read by its position
  obtain ⟨xs, rfl⟩ : ∃ xs, observations = .arr xs := by
    obtain ⟨text, htext⟩ := hread 0 (by omega)
    obtain ⟨observation, hi, -⟩ := bind_eq_ok.mp htext
    obtain ⟨xs, hxs, -⟩ := Json.index_ok (read_ok.mp hi)
    exact ⟨xs, hxs⟩
  refine ⟨(bound_ok hid).1, hclean, hremaining, ?_, ⟨hcompleted, houtcome⟩, hevents, xs, hobs,
    hsize, fun i observation hi => ?_⟩
  · exact holds_bool.mp (agrees_one.mp (category_passed.mp h.category).2.2)
  · obtain ⟨text, htext⟩ := hread i (List.getElem?_eq_some_iff.mp hi).1
    obtain ⟨observation', hi', hproj⟩ := observed_ok hn htext
    cases hi.symm.trans hi'
    exact hproj

/-! ## While every run is completed -/

section
variable {limits : ExplorationLimits} {runner : Nat → Schedule → Answer}
  {readings : Nat → Readings} {all rest : List Candidate} {start c c' : Campaign}
  {candidate : Candidate}

/-- The rows are those of the candidates behind; while all runs are completed, with their
evidence. -/
structure Sound (lib : Libraries) (space : FiniteSpace) (all rest : List Candidate)
    (c : Campaign) : Prop where
  behind : ∃ done, all = done ++ rest ∧ done.length = c.attempted ∧
    (c.completed = c.attempted → List.Forall₂
      (fun candidate run => Evidenced lib space candidate.schedule candidate.inputIndex run)
      done c.runs)
  completed : c.completed ≤ c.attempted
  identities : c.completed = c.attempted →
    c.runs.map Run.executionId = c.executions.reverse.map fun id => some (.str id)
  nodup : c.completed = c.attempted → c.executions.Nodup

theorem sound_start {reason : String} : Sound lib space all all { stopReason := reason } where
  behind := ⟨[], rfl, rfl, fun _ => .nil⟩
  completed := Nat.le_refl 0
  identities _ := rfl
  nodup _ := .nil

/-- One more run. -/
theorem Sound.step (hn : (space.stateVariables ++ space.instrumentationVariables).Nodup)
    (he : Encodes lib candidate.schedule) (h : Sound lib space all (candidate :: rest) c)
    (hran : runCandidate lib space limits runner readings c candidate = (c', none))
    (hgoes : c'.halt = false) : Sound lib space all rest c' := by
  obtain ⟨done, hall, hdone, hevidence⟩ := h.behind
  have hcon := (concluded_of_ran he hran).2
  have hkeeps : Keeps { c with attempted := c.attempted + 1 }
      (ran lib space runner c candidate).campaign := keeps_attempt _ _
  have hattempted : c'.attempted = c.attempted + 1 := hcon.attempted.trans hkeeps.attempted
  have hall' : all = (done ++ [candidate]) ++ rest := by
    rw [hall, List.append_assoc, List.singleton_append]
  have hlen : (done ++ [candidate]).length = c'.attempted := by
    rw [hattempted, List.length_append, List.length_singleton, hdone]
  have hle := h.completed
  rcases @attempt_cases lib space candidate.schedule (scheduleJson candidate.schedule)
    { c with attempted := c.attempted + 1 } (runner c.attempted candidate.schedule) with
    ⟨-, hcompleted⟩ | ⟨sample, -, hverdict, hexecution, hcredited⟩
  · -- not counted: there are fewer completed runs than runs from here on
    have hlt : c'.completed < c'.attempted := by
      rw [hattempted, hcon.completed]
      exact Nat.lt_succ_of_le (Nat.le_trans (Nat.le_of_eq hcompleted) hle)
    have hne := Nat.ne_of_lt hlt
    exact ⟨⟨_, hall', hlen, fun h => absurd h hne⟩, Nat.le_of_lt hlt, fun h => absurd h hne,
      fun h => absurd h hne⟩
  · have hcompleted : c'.completed = c.completed + 1 := hcon.completed.trans hcredited.completed
    have hback : c'.completed = c'.attempted → c.completed = c.attempted := by omega
    obtain ⟨id, hid, hids⟩ := hcredited.bound
    have hexecutions : c'.executions = id :: c.executions := hcon.executions.trans hids
    obtain ⟨hbound, hexecId, hnew⟩ := bound_ok hid
    have hruns : c'.runs = c.runs ++
        [.full ((ran lib space runner c candidate).row candidate.inputIndex
          (scheduleJson candidate.schedule))] := by
      cases hcon.recorded with
      | whole hr => rw [hr, hkeeps.runs]
      | cut _ _ hhalt => exact absurd (hhalt.symm.trans hgoes) (by simp)
    have hidentity : Run.executionId (.full ((ran lib space runner c candidate).row
        candidate.inputIndex (scheduleJson candidate.schedule))) = some (.str id) := by
      show Option.bind (ran lib space runner c candidate).execution _ = _
      rw [show (ran lib space runner c candidate).execution = some sample.execution from hexecution]
      exact hexecId
    have hrow : Evidenced lib space candidate.schedule candidate.inputIndex
        (.full ((ran lib space runner c candidate).row candidate.inputIndex
          (scheduleJson candidate.schedule))) :=
      ⟨_, sample.execution, id, rfl, rfl, rfl, congrArg disposition hverdict, hexecution,
        hidentity, qualified_of_credited hn hcredited⟩
    refine ⟨⟨_, hall', hlen, fun heq => ?_⟩, ?_, fun heq => ?_, fun heq => ?_⟩
    · rw [hruns]
      exact List.rel_append (hevidence (hback heq)) (.cons hrow .nil)
    · omega
    · rw [hruns, hexecutions, List.map_append, h.identities (hback heq), List.reverse_cons,
        List.map_append, List.map_singleton, hidentity, List.map_singleton]
    · rw [hexecutions]
      exact List.nodup_cons.mpr ⟨hnew, h.nodup (hback heq)⟩

theorem Sound.before (hn : (space.stateVariables ++ space.instrumentationVariables).Nodup)
    (he : ∀ candidate ∈ all, Encodes lib candidate.schedule) {reason : String}
    (h : Before lib space limits runner readings all { stopReason := reason } rest c) :
    Sound lib space all rest c := by
  induction h with
  | start => exact sound_start
  | @next candidate rest c c' hbefore _ hran hgoes ih =>
    obtain ⟨done, hall, -⟩ := ih.behind
    refine ih.step hn (he candidate ?_) hran hgoes
    rw [hall]
    exact List.mem_append_right _ List.mem_cons_self

end

/-! ## The candidates -/

theorem mem_candidates {schedules : List (List Step)} {candidate : Candidate} :
    candidate ∈ candidates space schedules ↔ ∃ steps input, steps ∈ schedules ∧
      space.inputs[candidate.inputIndex]? = some input ∧
      candidate.schedule = space.candidate steps input := by
  obtain ⟨schedule, k⟩ := candidate
  simp only [candidates, List.mem_flatMap, List.mem_map, Candidate.mk.injEq, Prod.exists,
    List.mem_zipIdx_iff_getElem?]
  constructor
  · rintro ⟨steps, hs, input, k', hk, rfl, rfl⟩
    exact ⟨steps, input, hs, hk, rfl⟩
  · rintro ⟨steps, input, hs, hk, rfl⟩
    exact ⟨steps, hs, input, k, hk, rfl, rfl⟩

/-- What tells the candidates of a space apart. -/
def Candidate.key (c : Candidate) : List Step × Nat := (c.schedule.steps, c.inputIndex)

/-- Each schedule with each input once. -/
theorem nodup_candidates {schedules : List (List Step)} (h : schedules.Nodup) :
    ((candidates space schedules).map Candidate.key).Nodup := by
  have hkeys : (candidates space schedules).map Candidate.key =
      schedules ×ˢ List.range space.inputs.length := by
    show _ = schedules.flatMap fun steps => (List.range space.inputs.length).map (steps, ·)
    rw [List.range_eq_range', ← List.zipIdx_map_snd 0 space.inputs]
    simp only [candidates, List.map_flatMap, List.map_map]
    rfl
  rw [hkeys]
  exact h.product List.nodup_range

theorem toJson_injective {st st' : Step} (h : st.toJson = st'.toJson) : st = st' := by
  obtain ⟨a, c⟩ := st
  obtain ⟨a', c'⟩ := st'
  simp only [Step.toJson, Json.obj.injEq, List.cons.injEq, Prod.mk.injEq, Json.str.injEq,
    true_and, and_true] at h
  rw [h.1, h.2]

/-- The steps are read off the printed schedule. -/
theorem steps_of_scheduleJson {s s' : Schedule} (h : scheduleJson s = scheduleJson s') :
    s.steps = s'.steps := by
  simp only [scheduleJson, Json.obj.injEq, List.cons.injEq, Prod.mk.injEq, true_and, and_true,
    Json.arr.injEq] at h
  exact List.map_injective_iff.mpr (fun _ _ => toJson_injective) h.2.2.2

/-! ## The theorem -/

/-- A complete result has evidence for its candidates, one row each. -/
theorem evidence_of_complete {limits : ExplorationLimits} {s : Surroundings}
    (hw : ∀ input ∈ space.inputs, input.wf = true)
    (h : (exploreFinite lib space limits s).complete = true) :
    (enumerated space limits s).exhausted = true ∧
    List.Forall₂
      (fun candidate run => Evidenced lib space candidate.schedule candidate.inputIndex run)
      (eligible space limits s) (exploreFinite lib space limits s).runs ∧
    ((exploreFinite lib space limits s).runs.map Run.executionId).Nodup := by
  obtain ⟨runner, actors, hr, hd⟩ := complete_cases h
  have he := encodes_eligible (s := s) hw hd
  rw [exploreFinite_eq hr hd] at h ⊢
  have hends := campaign_ends lib space limits runner s.readings (eligible space limits s)
    (opening space limits s)
  generalize campaign lib space limits runner s.readings (eligible space limits s)
    (opening space limits s) = r at h hends ⊢
  rw [runs_report]
  obtain ⟨hthrown, hexhausted, hattempted, hcompleted, hhalt⟩ := report_complete h
  refine ⟨hexhausted, ?_⟩
  cases hends with
  | interrupted => cases hhalt
  | halted _ _ _ hh => cases hh.symm.trans hhalt
  | thrown => cases hthrown
  | through hbefore =>
    have hsound := Sound.before (declared_variables hd) he hbefore
    have heq := hcompleted.trans hattempted.symm
    obtain ⟨done, hall, -, hevidence⟩ := hsound.behind
    rw [List.append_nil] at hall
    refine ⟨hall ▸ hevidence heq, ?_⟩
    rw [hsound.identities heq]
    refine List.Nodup.map (fun id id' hid => ?_) (List.nodup_reverse.mpr (hsound.nodup heq))
    exact Json.str.inj (Option.some.inj hid)

/-- **A complete exploration is sound and complete over its finite space.** The merges of the
declared chains are the schedules of the complete words. Each row is the evidence of such a word
within the preemption bound with a declared input; each word within the bound has with each input
exactly one row; and the execution ids of the rows are distinct. -/
theorem complete_exploration {limits : ExplorationLimits} {s : Surroundings}
    (hw : ∀ input ∈ space.inputs, input.wf = true)
    (h : (exploreFinite lib space limits s).complete = true) :
    (∀ steps, Merge ((sortActors space.actors).map ActorChain.steps) steps ↔
      ∃ u, Complete (chainLength (sortActors space.actors)) u ∧
        play (sortActors space.actors) u = steps) ∧
    (∀ run ∈ (exploreFinite lib space limits s).runs, ∃ u k input,
      Complete (chainLength (sortActors space.actors)) u ∧
      switches (chainLength (sortActors space.actors)) u ≤ space.maxPreemptions ∧
      space.inputs[k]? = some input ∧
      Evidenced lib space (space.candidate (play (sortActors space.actors) u) input) k run) ∧
    (∀ u k input, Complete (chainLength (sortActors space.actors)) u →
      switches (chainLength (sortActors space.actors)) u ≤ space.maxPreemptions →
      space.inputs[k]? = some input →
      ∃ i run, (exploreFinite lib space limits s).runs[i]? = some run ∧
        Evidenced lib space (space.candidate (play (sortActors space.actors) u) input) k run ∧
        ∀ (j : Nat) (row : Row), (exploreFinite lib space limits s).runs[j]? = some (.full row) →
          row.schedule =
            scheduleJson (space.candidate (play (sortActors space.actors) u) input) →
          row.inputIndex = k → j = i) ∧
    ((exploreFinite lib space limits s).runs.map Run.executionId).Nodup := by
  obtain ⟨runner, actors, hr, hd⟩ := complete_cases h
  obtain ⟨hexhausted, hrows, hids⟩ := evidence_of_complete hw h
  generalize (exploreFinite lib space limits s).runs = runs at hrows hids ⊢
  have hschedules : (enumerated space limits s).schedules =
      (words (sortActors space.actors) space.maxPreemptions).map (play (sortActors space.actors)) :=
    schedules_of_exhausted hexhausted
  have hnames : ((sortActors space.actors).map fun a => a.actor.actor).Nodup :=
    (((perm_sortActors space.actors).map _).nodup_iff).mpr (declared_ok hd).2.names
  have hkeys : ((eligible space limits s).map Candidate.key).Nodup := by
    apply nodup_candidates
    rw [hschedules]
    exact nodup_play_words hnames
  -- row by row
  have hrow : ∀ (i : Nat) (run : Run), runs[i]? = some run →
      ∃ c : Candidate, (eligible space limits s)[i]? = some c ∧
        Evidenced lib space c.schedule c.inputIndex run := by
    intro i run hrun
    obtain ⟨hlt, rfl⟩ := List.getElem?_eq_some_iff.mp hrun
    have hlt' : i < (eligible space limits s).length := hrows.length_eq ▸ hlt
    exact ⟨_, List.getElem?_eq_getElem hlt', hrows.get hlt' hlt⟩
  refine ⟨fun steps => merge_iff, fun run hrun => ?_, fun u k input hu hsw hk => ?_, hids⟩
  · obtain ⟨i, hi⟩ := List.getElem?_of_mem hrun
    obtain ⟨c, hc, hevidence⟩ := hrow i run hi
    obtain ⟨steps, input, hs, hinput, hschedule⟩ := mem_candidates.mp (List.mem_of_getElem? hc)
    rw [hschedules] at hs
    obtain ⟨u, hu, rfl⟩ := List.mem_map.mp hs
    obtain ⟨hcomplete, hsw⟩ := mem_words.mp hu
    exact ⟨u, c.inputIndex, input, hcomplete, hsw, hinput, hschedule ▸ hevidence⟩
  · have hmem : (⟨space.candidate (play (sortActors space.actors) u) input, k⟩ : Candidate) ∈
        eligible space limits s := by
      refine mem_candidates.mpr ⟨_, input, ?_, hk, rfl⟩
      rw [hschedules]
      exact List.mem_map_of_mem (mem_words.mpr ⟨hu, hsw⟩)
    obtain ⟨i, hi⟩ := List.getElem?_of_mem hmem
    have hlt := (List.getElem?_eq_some_iff.mp hi).1
    have hlt' : i < runs.length := hrows.length_eq ▸ hlt
    obtain ⟨c, hc, hevidence⟩ := hrow i _ (List.getElem?_eq_getElem hlt')
    cases hi.symm.trans hc
    refine ⟨i, _, List.getElem?_eq_getElem hlt', hevidence, fun j row hj hschedule hindex => ?_⟩
    obtain ⟨c', hc', row', _, _, hfull, hschedule', hindex', -⟩ := hrow j _ hj
    cases hfull
    have hsteps : c'.schedule.steps = play (sortActors space.actors) u :=
      steps_of_scheduleJson (hschedule'.symm.trans hschedule)
    have hkey : c'.key = (⟨space.candidate (play (sortActors space.actors) u) input, k⟩ :
        Candidate).key := Prod.ext hsteps (hindex'.symm.trans hindex)
    have hsame : ((eligible space limits s).map Candidate.key)[j]? =
        ((eligible space limits s).map Candidate.key)[i]? := by
      rw [List.getElem?_map, List.getElem?_map, hc', hi, Option.map_some, Option.map_some, hkey]
    have hj' : j < ((eligible space limits s).map Candidate.key).length := by
      rw [List.length_map]
      exact (List.getElem?_eq_some_iff.mp hc').1
    exact (List.getElem?_inj hj' hkeys).mp hsame

/-! ## Two runs that pass -/

/-- The observations of both runs are covered as a whole, those of the second behind the first. -/
theorem whole_pair :
    Whole sampleLibraries pairSpace (.arr (pairObservations "a")) 3 0 none {} ∧
    Whole sampleLibraries pairSpace (.arr (pairObservations "b")) 3 0 none
      (Coverage.cover sampleLibraries pairSpace (.arr (pairObservations "a")) 3 0 none {}).1 := by
  unfold Whole
  constructor <;> decide +kernel

theorem covered_pair : ∃ coverage₁ coverage₂,
    Coverage.cover sampleLibraries pairSpace (.arr (pairObservations "a")) 3 0 none {} =
      (coverage₁, .ok ()) ∧
    Coverage.cover sampleLibraries pairSpace (.arr (pairObservations "b")) 3 0 none coverage₁ =
      (coverage₂, .ok ()) := by
  have hempty : ({} : Coverage).bytes ≤ maxCoverageBytes := Nat.zero_le _
  have hfirst := (cover_ok_iff hempty).mpr whole_pair.1
  have hbytes := (cover_grows sampleLibraries pairSpace (.arr (pairObservations "a")) 3 0 none {}
    hempty).1
  have hsecond := (cover_ok_iff hbytes).mpr whole_pair.2
  generalize Coverage.cover sampleLibraries pairSpace (.arr (pairObservations "a")) 3 0 none {} =
    r at hfirst hsecond ⊢
  exact ⟨r.1, _, Prod.ext rfl hfirst, Prod.ext rfl hsecond⟩

/-- The campaign behind the first run. -/
def pairCampaign (execution : Json) (id : String) (coverage : Coverage) (size : Nat) :
    Campaign where
  runs := [.full (passedRow 0 ⟨pairSchedule "a" "b", 0⟩ execution)]
  categories := [("passed", 1)]
  coverage := coverage
  executions := [id]
  attempted := 1
  completed := 1
  bytes := 0 + size
  stopReason := ""

section
variable {runner : Nat → Schedule → Answer} {execution₁ execution₂ : Json} {id₁ id₂ : String}
  {size₁ size₂ : Nat}

/-- The exploration is complete where both runs pass. -/
theorem complete_pair
    (hanswer₁ : runner 0 (pairSchedule "a" "b") = .returns { execution := execution₁ })
    (hanswer₂ : runner 1 (pairSchedule "b" "a") = .returns { execution := execution₂ })
    (h₁ : Passing sampleLibraries pairSpace [] (pairSchedule "a" "b") execution₁
      (.arr (pairObservations "a")) id₁)
    (h₂ : Passing sampleLibraries pairSpace [id₁] (pairSchedule "b" "a") execution₂
      (.arr (pairObservations "b")) id₂)
    (hsize₁ : Compact.dumpSize (passedRow 0 ⟨pairSchedule "a" "b", 0⟩ execution₁).toJson =
      some size₁)
    (hsize₂ : Compact.dumpSize (passedRow 1 ⟨pairSchedule "b" "a", 0⟩ execution₂).toJson =
      some size₂)
    (hfit : size₁ + size₂ ≤ 16 * 1048576) :
    (exploreFinite sampleLibraries pairSpace {} (pairRun runner)).complete = true := by
  obtain ⟨coverage₁, coverage₂, hcover₁, hcover₂⟩ := covered_pair
  have hfit₁ : 0 + size₁ ≤ ({} : ExplorationLimits).maxEvidenceBytes := by
    show 0 + size₁ ≤ 16 * 1048576
    omega
  have hfit₂ : 0 + size₁ + size₂ ≤ ({} : ExplorationLimits).maxEvidenceBytes := by
    show 0 + size₁ + size₂ ≤ 16 * 1048576
    omega
  have hran₁ : runCandidate sampleLibraries pairSpace {} runner (fun _ => {}) { stopReason := "" }
      ⟨pairSchedule "a" "b", 0⟩ = (pairCampaign execution₁ id₁ coverage₁ size₁, none) :=
    runCandidate_passed encodes_pair.1 rfl hanswer₁ h₁ hcover₁ hsize₁ hfit₁ rfl rfl
  have hran₂ := @runCandidate_passed sampleLibraries pairSpace
    (pairCampaign execution₁ id₁ coverage₁ size₁) {} runner (fun _ => {})
    ⟨pairSchedule "b" "a", 0⟩ _ _ _ _ _ encodes_pair.2 rfl hanswer₂ h₂ hcover₂ hsize₂ hfit₂ rfl rfl
  have hcampaign : campaign sampleLibraries pairSpace {} runner (fun _ => {})
      [⟨pairSchedule "a" "b", 0⟩, ⟨pairSchedule "b" "a", 0⟩] { stopReason := "" } = _ :=
    (campaign_cons rfl hran₁ rfl).trans (campaign_cons rfl hran₂ rfl)
  -- `rw` would try to evaluate the whole exploration
  rewrite [exploreFinite_eq rfl declared_pair, eligible_pair, opening_pair, enumerated_pair]
  change (report _ _ (campaign sampleLibraries pairSpace {} runner (fun _ => {}) _ _).1
    (campaign sampleLibraries pairSpace {} runner (fun _ => {}) _ _).2).complete = true
  rewrite [hcampaign]
  rfl

end

def pairPassing : Nat → Schedule → Answer
  | 0, _ => .returns { execution := pairExecution "a" "b" firstId }
  | _ + 1, _ => .returns { execution := pairExecution "b" "a" secondId }

theorem observations_pair (first second id : String) :
    (pairExecution first second id).field "observations" = .ok (.arr (pairObservations first)) := by
  rw [field_eq_ok]
  simp [pairExecution, Json.field?, List.lookup_cons]

theorem passing_pair :
    Passing sampleLibraries pairSpace [] (pairSchedule "a" "b")
      (pairExecution "a" "b" firstId) (.arr (pairObservations "a"))
      firstId where
  bound := by decide +kernel
  cleanup := by decide +kernel
  category := by decide +kernel
  valid := by decide +kernel
  observations := observations_pair _ _ _

theorem passing_pair_second :
    Passing sampleLibraries pairSpace [firstId] (pairSchedule "b" "a")
      (pairExecution "b" "a" secondId) (.arr (pairObservations "b"))
      secondId where
  bound := by decide +kernel
  cleanup := by decide +kernel
  category := by decide +kernel
  valid := by decide +kernel
  observations := observations_pair _ _ _

/-- It has the evidence of both schedules. -/
theorem complete_exploration_pair :
    (∃ (i : Nat) (run : Run),
      (exploreFinite sampleLibraries pairSpace {} (pairRun pairPassing)).runs[i]? = some run ∧
        Evidenced sampleLibraries pairSpace (pairSchedule "a" "b") 0 run) ∧
    ∃ (i : Nat) (run : Run),
      (exploreFinite sampleLibraries pairSpace {} (pairRun pairPassing)).runs[i]? = some run ∧
        Evidenced sampleLibraries pairSpace (pairSchedule "b" "a") 0 run := by
  have hsorted : sortActors pairSpace.actors = pairSpace.actors := rfl
  have hcomplete : Complete (chainLength (sortActors pairSpace.actors)) [0, 1] ∧
      Complete (chainLength (sortActors pairSpace.actors)) [1, 0] := by
    rw [hsorted]
    constructor <;> rintro (_ | _ | i) <;> rfl
  have hsize₁ : Compact.dumpSize (passedRow 0 ⟨pairSchedule "a" "b", 0⟩
      (pairExecution "a" "b" firstId)).toJson = some 1647 := by decide +kernel
  have hsize₂ : Compact.dumpSize (passedRow 1 ⟨pairSchedule "b" "a", 0⟩
      (pairExecution "b" "a" secondId)).toJson = some 1647 := by decide +kernel
  have hexplored : (exploreFinite sampleLibraries pairSpace {} (pairRun pairPassing)).complete =
      true :=
    complete_pair rfl rfl passing_pair passing_pair_second hsize₁ hsize₂ (by decide)
  have h := (complete_exploration (by decide) hexplored).2.2.1
  obtain ⟨i, run, hrun, hevidence, -⟩ := h [0, 1] 0 (.obj []) hcomplete.1 (by decide) rfl
  obtain ⟨j, run', hrun', hevidence', -⟩ := h [1, 0] 0 (.obj []) hcomplete.2 (by decide) rfl
  exact ⟨⟨i, run, hrun, hevidence⟩, j, run', hrun', hevidence'⟩

end MirrorCpp.Exploration
