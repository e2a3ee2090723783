import MirrorCpp.Exploration.Accounting

/-!
# What an exploration has visited

A run whose evidence is accepted has its observations covered one by one; the coverage keeps what
it has read of a run that then fails. Where no run is torn so, the states and transitions of the
result are those of the completed runs.
-/

namespace MirrorCpp.Exploration

open Schedule Itf Fallible SortedMap

variable {lib : Libraries} {space : FiniteSpace} {limits : ExplorationLimits} {s : Surroundings}
  {runner : Nat → Schedule → Answer} {readings : Nat → Readings} {all rest : List Candidate}
  {start c c' : Campaign} {candidate : Candidate} {schedule : Schedule} {printed : Json}
  {sample : ExplorationSample} {d : Disposition}

/-! ## The runs whose observations are read -/

/-- Everything but the observations of a run is accepted. -/
structure Shown (lib : Libraries) (space : FiniteSpace) (executions : List String)
    (schedule : Schedule) (printed : Json) (sample : ExplorationSample) (observations : Json) :
    Prop where
  bound : ∃ id, bound lib space executions printed sample.execution = .ok id
  category : category lib.toJsonLib sample.execution sample.comparison = .ok .passed
  compared : space.requireModelComparison = true → sample.comparison.isNull = false
  valid : validateSuccess lib.toJsonLib sample.execution schedule = .ok ()
  observations : sample.execution.field "observations" = .ok observations

theorem error_ne_passed (f : Failure) : disposition (.error f) ≠ .passed := by
  cases f <;> simp [disposition]

theorem credit_coverage {e : Json} (c : Campaign) :
    ((credit lib space schedule e c).1.coverage = c.coverage ∧
      disposition (credit lib space schedule e c).2 ≠ .passed ∧
      ∀ observations, validateSuccess lib.toJsonLib e schedule = .ok () →
        e.field "observations" ≠ .ok observations) ∨
    ∃ observations, validateSuccess lib.toJsonLib e schedule = .ok () ∧
      e.field "observations" = .ok observations ∧
      (credit lib space schedule e c).1.coverage =
        (c.coverage.cover lib space observations observations.size 0 none).1 ∧
      (disposition (credit lib space schedule e c).2 = .passed ↔
        (c.coverage.cover lib space observations observations.size 0 none).2 = .ok ()) := by
  unfold credit
  dsimp only
  split
  · rename_i e' hacc
    refine .inl ⟨rfl, error_ne_passed _, fun observations hvalid hobs => ?_⟩
    rw [hvalid, hobs] at hacc
    cases hacc
  · rename_i observations hacc
    obtain ⟨_, hvalid, hobs⟩ := bind_eq_ok.mp hacc
    refine .inr ⟨observations, hvalid, read_ok.mp hobs, ?_⟩
    split
    · rename_i hcover
      rw [hcover]
      exact ⟨rfl, iff_of_false (error_ne_passed _) (by rintro ⟨⟩)⟩
    · rename_i hcover
      rw [hcover]
      exact ⟨rfl, iff_of_true rfl rfl⟩

theorem judge_coverage (c : Campaign) :
    ((judge lib space schedule printed sample d c).1.coverage = c.coverage ∧
      disposition (judge lib space schedule printed sample d c).2 ≠ .passed ∧
      ∀ observations, d = .passed →
        (space.requireModelComparison = true → sample.comparison.isNull = false) →
        validateSuccess lib.toJsonLib sample.execution schedule = .ok () →
        sample.execution.field "observations" ≠ .ok observations) ∨
    ∃ observations, d = .passed ∧
      (space.requireModelComparison = true → sample.comparison.isNull = false) ∧
      validateSuccess lib.toJsonLib sample.execution schedule = .ok () ∧
      sample.execution.field "observations" = .ok observations ∧
      (judge lib space schedule printed sample d c).1.coverage =
        (c.coverage.cover lib space observations observations.size 0 none).1 ∧
      (disposition (judge lib space schedule printed sample d c).2 = .passed ↔
        (c.coverage.cover lib space observations observations.size 0 none).2 = .ok ()) := by
  have hcompare : (c.compare sample.comparison).coverage = c.coverage := by
    unfold Campaign.compare
    split <;> rfl
  unfold judge
  dsimp only
  by_cases hd : demand space sample.comparison d = .passed
  · rw [if_pos hd]
    obtain ⟨hd, hthere⟩ := demand_passed.mp hd
    have hcases := @credit_coverage lib space schedule sample.execution
      (c.compare sample.comparison)
    rw [hcompare] at hcases
    rcases hcases with ⟨hc, hne, hnot⟩ | ⟨observations, hvalid, hobs, hc, hiff⟩
    · exact .inl ⟨hc, hne, fun observations _ _ => hnot observations⟩
    · exact .inr ⟨observations, hd, hthere, hvalid, hobs, hc, hiff⟩
  · rw [if_neg hd]
    have hnot : ∀ observations, d = .passed →
        (space.requireModelComparison = true → sample.comparison.isNull = false) →
        validateSuccess lib.toJsonLib sample.execution schedule = .ok () →
        sample.execution.field "observations" ≠ .ok observations :=
      fun _ h h' => absurd (demand_passed.mpr ⟨h, h'⟩) hd
    split
    · exact .inl ⟨hcompare, hd, hnot⟩
    · exact .inl ⟨hcompare, hd, hnot⟩

/-- **A run touches the coverage** where its observations are read, and has passed where all of
them were covered. -/
theorem attempt_coverage (c : Campaign) (answer : Answer) :
    ((attempt lib space schedule printed c answer).campaign.coverage = c.coverage ∧
      disposition (attempt lib space schedule printed c answer).verdict ≠ .passed ∧
      ∀ sample observations, answer = .returns sample →
        ¬Shown lib space c.executions schedule printed sample observations) ∨
    ∃ sample observations, answer = .returns sample ∧
      Shown lib space c.executions schedule printed sample observations ∧
      (attempt lib space schedule printed c answer).campaign.coverage =
        (c.coverage.cover lib space observations observations.size 0 none).1 ∧
      (disposition (attempt lib space schedule printed c answer).verdict = .passed ↔
        (c.coverage.cover lib space observations observations.size 0 none).2 = .ok ()) := by
  cases answer with
  | throws f => exact .inl ⟨rfl, error_ne_passed f, by rintro _ _ ⟨⟩⟩
  | returns sample =>
    unfold attempt examine
    dsimp only
    split
    · rename_i e hbound
      refine .inl ⟨rfl, error_ne_passed _, ?_⟩
      rintro _ observations ⟨⟩ h
      obtain ⟨id, hid⟩ := h.bound
      cases hid.symm.trans hbound
    · rename_i id hbound
      split
      · rename_i e hknown
        refine .inl ⟨rfl, error_ne_passed _, ?_⟩
        rintro _ observations ⟨⟩ h
        cases (category_passed.mp h.category).1.symm.trans hknown
      · rename_i known hknown
        split
        · rename_i e hcategory
          refine .inl ⟨rfl, error_ne_passed _, ?_⟩
          rintro _ observations ⟨⟩ h
          cases h.category.symm.trans hcategory
        · rename_i d hcategory
          have hcases := @judge_coverage lib space schedule printed sample d
            { c with executions := id :: c.executions }
          rcases hcases with ⟨hc, hne, hnot⟩ | ⟨observations, rfl, hthere, hvalid, hobs, hc, hiff⟩
          · refine .inl ⟨hc, hne, ?_⟩
            rintro _ observations ⟨⟩ h
            have hd : d = .passed := Except.ok.inj (hcategory.symm.trans h.category)
            exact hnot observations hd h.compared h.valid h.observations
          · exact .inr ⟨sample, observations, rfl,
              ⟨⟨id, hbound⟩, hcategory, hthere, hvalid, hobs⟩, hc, hiff⟩

/-- The run of a candidate, the same way. -/
theorem ran_coverage (lib : Libraries) (space : FiniteSpace) (runner : Nat → Schedule → Answer)
    (c : Campaign) (candidate : Candidate) :
    ((ran lib space runner c candidate).campaign.coverage = c.coverage ∧
      disposition (ran lib space runner c candidate).verdict ≠ .passed ∧
      ∀ sample observations, runner c.attempted candidate.schedule = .returns sample →
        ¬Shown lib space c.executions candidate.schedule (scheduleJson candidate.schedule) sample
          observations) ∨
    ∃ sample observations, runner c.attempted candidate.schedule = .returns sample ∧
      Shown lib space c.executions candidate.schedule (scheduleJson candidate.schedule) sample
        observations ∧
      (ran lib space runner c candidate).campaign.coverage =
        (c.coverage.cover lib space observations observations.size 0 none).1 ∧
      (disposition (ran lib space runner c candidate).verdict = .passed ↔
        (c.coverage.cover lib space observations observations.size 0 none).2 = .ok ()) :=
  attempt_coverage { c with attempted := c.attempted + 1 } _

/-! ## Traces -/

theorem observed_of_trace {observations : Json} : ∀ {left i k : Nat} {text : String},
    (trace lib space observations left i)[k]? = some text →
      observed lib space observations (i + k) = .ok text
  | 0, _, _, _ => by
    intro h
    cases h
  | left + 1, i, k, text => by
    intro h
    cases hobs : observed lib space observations i with
    | error e =>
      rw [trace_unread left hobs] at h
      cases h
    | ok t =>
      rw [trace_succ left hobs] at h
      cases k with
      | zero => exact hobs.trans (congrArg Except.ok (Option.some.inj h))
      | succ k =>
        rw [Nat.add_comm k 1, ← Nat.add_assoc]
        exact observed_of_trace h

/-- The states the `k`-th run has shown, one before its first step and one behind each. -/
def TraceOf (lib : Libraries) (space : FiniteSpace) (runner : Nat → Schedule → Answer)
    (all : List Candidate) (k : Nat) (texts : List String) : Prop :=
  ∃ candidate sample observations, all[k]? = some candidate ∧
    runner k candidate.schedule = .returns sample ∧
    sample.execution.field "observations" = .ok observations ∧
    observations.size = candidate.schedule.steps.length + 1 ∧ texts.length = observations.size ∧
    ∀ i text, texts[i]? = some text → observed lib space observations i = .ok text

theorem traceOf_whole {observations : Json} {coverage : Coverage} {k : Nat}
    (hat : all[k]? = some candidate) (hreturns : runner k candidate.schedule = .returns sample)
    (hshown : Shown lib space c.executions candidate.schedule printed sample observations)
    (hwhole : Whole lib space observations observations.size 0 none coverage) :
    TraceOf lib space runner all k (trace lib space observations observations.size 0) := by
  obtain ⟨-, -, -, observations', hobs', hsize⟩ := validateSuccess_ok.mp hshown.valid
  have hobs := hshown.observations
  obtain rfl : observations = observations' :=
    Option.some.inj ((field_eq_ok.mp hobs).symm.trans hobs')
  refine ⟨candidate, sample, observations, hat, hreturns, hobs, hsize, hwhole.1,
    fun i text hi => ?_⟩
  have := observed_of_trace hi
  rwa [Nat.zero_add] at this

/-! ## Runs that are not torn -/

/-- The observations of a run are all covered, or none of them is. -/
def Untorn (lib : Libraries) (space : FiniteSpace) (runner : Nat → Schedule → Answer)
    (c : Campaign) (candidate : Candidate) : Prop :=
  ∀ sample observations, runner c.attempted candidate.schedule = .returns sample →
    Shown lib space c.executions candidate.schedule (scheduleJson candidate.schedule) sample
      observations →
    Whole lib space observations observations.size 0 none c.coverage ∨
      Silent c.coverage (trace lib space observations observations.size 0)

/-- The numbers of the completed runs. -/
def passedOrdinals (runs : List Run) : List Nat :=
  (runs.filter fun run => run.category = .passed).map Run.ordinal

/-- The coverage is that of the completed runs. -/
def Visits (lib : Libraries) (space : FiniteSpace) (runner : Nat → Schedule → Answer)
    (all : List Candidate) (c : Campaign) : Prop :=
  ∃ traces, List.Forall₂ (TraceOf lib space runner all) (passedOrdinals c.runs) traces ∧
    Covers lib c.coverage traces

/-- The coverage is within its bound behind every run. -/
theorem ran_bytes (hb : c.coverage.bytes ≤ maxCoverageBytes) :
    (ran lib space runner c candidate).campaign.coverage.bytes ≤ maxCoverageBytes := by
  rcases ran_coverage lib space runner c candidate with ⟨hsame, -⟩ | ⟨_, observations, -, -, hc, -⟩
  · rw [hsame]
    exact hb
  · rw [hc]
    exact (cover_grows lib space observations observations.size 0 none c.coverage hb).1

/-- **A run is untorn** exactly when it has passed or adds nothing. -/
theorem untorn_iff (hb : c.coverage.bytes ≤ maxCoverageBytes) :
    Untorn lib space runner c candidate ↔
      (disposition (ran lib space runner c candidate).verdict ≠ .passed →
        (ran lib space runner c candidate).campaign.coverage.states = c.coverage.states ∧
        (ran lib space runner c candidate).campaign.coverage.transitions =
          c.coverage.transitions) := by
  rcases ran_coverage lib space runner c candidate with
    ⟨hsame, -, hnot⟩ | ⟨sample, observations, hreturns, hshown, hcover, hiff⟩
  · refine iff_of_true (fun sample observations hr hs => absurd hs (hnot _ _ hr)) fun _ => ?_
    rw [hsame]
    exact ⟨rfl, rfl⟩
  · have hne : disposition (ran lib space runner c candidate).verdict ≠ .passed ↔
        (c.coverage.cover lib space observations observations.size 0 none).2 ≠ .ok () :=
      not_congr hiff
    rw [hcover, hne]
    constructor
    · intro huntorn hok
      rcases huntorn sample observations hreturns hshown with hwhole | hsilent
      · exact absurd ((cover_ok_iff hb).mpr hwhole) hok
      · exact (cover_silent_iff hb hok).mpr hsilent
    · intro hnothing sample' observations' hreturns' hshown'
      obtain rfl : sample = sample' := Answer.returns.inj (hreturns.symm.trans hreturns')
      obtain rfl : observations = observations' :=
        Except.ok.inj (hshown.observations.symm.trans hshown'.observations)
      by_cases hok : (c.coverage.cover lib space observations observations.size 0 none).2 = .ok ()
      · exact .inl ((cover_ok_iff hb).mp hok)
      · exact .inr ((cover_silent_iff hb hok).mp (hnothing hok))

theorem Covers.of_silent {c c' : Coverage} {traces : List (List String)} (h : Covers lib c traces)
    (hs : c'.states = c.states) (ht : c'.transitions = c.transitions)
    (hl : c'.listed = stateRows lib c'.states) : Covers lib c' traces where
  nodup := hs ▸ h.nodup
  listed := hl
  states := hs ▸ h.states
  sorted := ht ▸ h.sorted
  counts := hs ▸ ht ▸ h.counts
  total := hs ▸ ht ▸ h.total
  known := hs ▸ ht ▸ h.known

/-- One more run. -/
theorem Visits.step (he : Encodes lib candidate.schedule) (h : Visits lib space runner all c)
    (hb : c.coverage.bytes ≤ maxCoverageBytes) (hat : all[c.attempted]? = some candidate)
    (huntorn : Untorn lib space runner c candidate)
    (hran : runCandidate lib space limits runner readings c candidate = (c', none)) :
    Visits lib space runner all c' := by
  obtain ⟨traces, htraces, hcovers⟩ := h
  have hcon := (concluded_of_ran he hran).2
  have hkeeps : Keeps { c with attempted := c.attempted + 1 }
      (ran lib space runner c candidate).campaign := keeps_attempt _ _
  obtain ⟨run, hruns, hordinal, hcategory, -⟩ := hcon.recorded.run
  rw [hkeeps.runs] at hruns
  have hordinal : run.ordinal = c.attempted := by
    rw [hordinal]
    show (ran lib space runner c candidate).campaign.attempted - 1 = _
    rw [hkeeps.attempted]
    rfl
  have hcategory : run.category = disposition (ran lib space runner c candidate).verdict :=
    hcategory
  have hpassed : passedOrdinals c'.runs = passedOrdinals c.runs ++
      if disposition (ran lib space runner c candidate).verdict = .passed then [c.attempted]
      else [] := by
    rw [hruns, passedOrdinals, List.filter_append, List.map_append]
    show passedOrdinals c.runs ++ _ = _
    congr 1
    by_cases hp : disposition (ran lib space runner c candidate).verdict = .passed
    · simp [hcategory, hp, hordinal]
    · simp [hcategory, hp]
  have hcoverage := hcon.coverage
  rcases ran_coverage lib space runner c candidate with
    ⟨hsame, hne, -⟩ | ⟨sample, observations, hreturns, hshown, hcover, hiff⟩
  · have hsame : c'.coverage = c.coverage := hcoverage.trans hsame
    rw [if_neg hne, List.append_nil] at hpassed
    exact ⟨traces, hpassed ▸ htraces, hsame ▸ hcovers⟩
  · have hcover : c'.coverage = (c.coverage.cover lib space observations observations.size 0
      none).1 := hcoverage.trans hcover
    by_cases hok : (c.coverage.cover lib space observations observations.size 0 none).2 = .ok ()
    · -- a completed run adds its trace
      rw [if_pos (hiff.mpr hok)] at hpassed
      have hwhole := (cover_ok_iff hb).mp hok
      refine ⟨traces ++ [trace lib space observations observations.size 0], ?_, ?_⟩
      · rw [hpassed]
        exact List.rel_append htraces (.cons (traceOf_whole hat hreturns hshown hwhole) .nil)
      · exact hcovers.begin.cover rfl (Prod.ext hcover.symm hok)
    · have hne : disposition (ran lib space runner c candidate).verdict ≠ .passed :=
        fun hp => hok (hiff.mp hp)
      rw [if_neg hne, List.append_nil] at hpassed
      obtain ⟨hs, ht⟩ := (untorn_iff hb).mp huntorn hne
      rw [← hcoverage] at hs ht
      refine ⟨traces, hpassed ▸ htraces, hcovers.of_silent hs ht ?_⟩
      rw [hcover]
      exact cover_listed hcovers.listed

/-! ## From the first run on -/

theorem bytes_before (he : ∀ candidate ∈ all, Encodes lib candidate.schedule) {reason : String}
    (h : Before lib space limits runner readings all { stopReason := reason } rest c) :
    c.coverage.bytes ≤ maxCoverageBytes := by
  induction h with
  | start => exact Nat.zero_le _
  | next hbefore _ hran _ ih =>
    obtain ⟨-, hencodes⟩ := hbefore.head he rfl
    rw [(concluded_of_ran hencodes hran).2.coverage]
    exact ran_bytes ih

theorem visits_before (he : ∀ candidate ∈ eligible space limits s, Encodes lib candidate.schedule)
    (hu : ∀ c candidate, Reached lib space limits s runner c candidate →
      Untorn lib space runner c candidate)
    (h : Before lib space limits runner s.readings (eligible space limits s)
      (opening space limits s) rest c) :
    Visits lib space runner (eligible space limits s) c := by
  induction h with
  | start => exact ⟨[], .nil, covers_empty⟩
  | next hbefore hopen hran _ ih =>
    obtain ⟨hat, hencodes⟩ := hbefore.head he rfl
    exact ih.step hencodes (bytes_before he hbefore) hat (hu _ _ ⟨_, hbefore, hopen⟩) hran

/-! ## What is reported -/

/-- The states and transitions of a result are those of its completed runs. -/
def CoverageOfCompleted (lib : Libraries) (space : FiniteSpace) (runner : Nat → Schedule → Answer)
    (all : List Candidate) (r : FiniteExploration) : Prop :=
  (passedOrdinals r.runs).length = r.completedRuns ∧
  ∃ traces texts, List.Forall₂ (TraceOf lib space runner all) (passedOrdinals r.runs) traces ∧
    texts.Nodup ∧ r.states = stateRows lib texts ∧
    (∀ t, t ∈ texts ↔ ∃ trace ∈ traces, t ∈ trace) ∧
    (∀ e, counter e r.transitions = (traces.flatMap (edges texts)).count e) ∧
    SortedMap.total r.transitions =
      r.completedRuns * ((sortActors space.actors).map ActorChain.steps).flatten.length

theorem length_edges {n : Nat} {states : List String} {traces : List (List String)}
    (h : ∀ trace ∈ traces, trace.length = n + 1) :
    (traces.flatMap (edges states)).length = traces.length * n := by
  induction traces with
  | nil => simp
  | cons trace traces ih =>
    rw [List.flatMap_cons, List.length_append, List.length_cons,
      ih fun t ht => h t (List.mem_cons_of_mem _ ht), edges, List.length_map, List.length_zip,
      List.length_tail, h trace List.mem_cons_self, Nat.succ_mul]
    omega

/-- All candidates have the steps of the declared chains. -/
theorem length_eligible (h : candidate ∈ eligible space limits s) :
    candidate.schedule.steps.length =
      ((sortActors space.actors).map ActorChain.steps).flatten.length := by
  obtain ⟨steps, input, hs, -, hschedule⟩ := mem_candidates.mp h
  rw [hschedule]
  exact (enumerate_merge hs).perm.length_eq

theorem length_passedOrdinals (runs : List Run) :
    (passedOrdinals runs).length = (runs.map Run.category).count .passed := by
  rw [passedOrdinals, List.length_map, List.count, List.countP_map, List.countP_eq_length_filter]
  rfl

theorem Visits.report {r : Enumeration} {n : Nat}
    (h : Visits lib space runner (eligible space limits s) c)
    (hcompleted : c.completed = (c.runs.map Run.category).count .passed) :
    CoverageOfCompleted lib space runner (eligible space limits s) (report r n c none) := by
  obtain ⟨traces, htraces, hcovers⟩ := h
  have hlength : (passedOrdinals c.runs).length = c.completed :=
    (length_passedOrdinals _).trans hcompleted.symm
  refine ⟨hlength, traces, c.coverage.states, htraces, hcovers.nodup, hcovers.listed,
    hcovers.states, hcovers.counts, hcovers.total.trans ?_⟩
  show _ = c.completed * _
  rw [← hlength, htraces.length_eq]
  refine length_edges fun trace ht => ?_
  obtain ⟨i, hi, rfl⟩ := List.getElem_of_mem ht
  obtain ⟨candidate, _, observations, hat, -, -, hsize, hlen, -⟩ :=
    htraces.get (htraces.length_eq ▸ hi) hi
  rw [List.get_eq_getElem] at hlen
  rw [hlen, hsize, length_eligible (List.mem_of_getElem? hat)]

/-- **Where no run is torn, coverage comes from the completed runs alone.** The reported states are
those of the runs counted as completed, each once; each transition is counted as often as they take
it, and all of them together as often as they take a step. -/
theorem coverage_of_completed {actors : List ActorChain}
    (hw : ∀ input ∈ space.inputs, input.wf = true) (hr : s.runner = some runner)
    (hd : declared lib.toJsonScan space limits true = .ok actors)
    (hprint : ∀ c candidate, Reached lib space limits s runner c candidate →
      (rowOf lib space runner c candidate).Printable)
    (hu : ∀ c candidate, Reached lib space limits s runner c candidate →
      Untorn lib space runner c candidate) :
    CoverageOfCompleted lib space runner (eligible space limits s)
      (exploreFinite lib space limits s) := by
  have he := encodes_eligible (s := s) hw hd
  rw [exploreFinite_eq hr hd]
  have hends := campaign_ends lib space limits runner s.readings (eligible space limits s)
    (opening space limits s)
  generalize campaign lib space limits runner s.readings (eligible space limits s)
    (opening space limits s) = r at hends ⊢
  cases hends with
  | through hbefore =>
    exact (visits_before he hu hbefore).report (Tallied.before he hbefore).completed
  | interrupted hbefore =>
    have hvisits := visits_before he hu hbefore
    exact Visits.report hvisits (Tallied.before he hbefore).completed
  | halted hbefore hopen hran _ =>
    obtain ⟨hat, hencodes⟩ := hbefore.head he rfl
    have hvisits := (visits_before he hu hbefore).step hencodes (bytes_before he hbefore) hat
      (hu _ _ ⟨_, hbefore, hopen⟩) hran
    exact hvisits.report
      ((Tallied.before he hbefore).step hencodes (hbefore.going rfl) hat hran).completed
  | @thrown candidate rest c c' what hbefore hopen hran =>
    obtain ⟨-, hencodes⟩ := hbefore.head he rfl
    have hprints := (utf8_rowOf hencodes).mpr (hprint c candidate ⟨rest, hbefore, hopen⟩)
    rcases @runCandidate_cases lib space c limits runner s.readings candidate hencodes with
      ⟨hnot, -⟩ | ⟨-, c'', hran', -⟩
    · rw [hnot] at hprints
      cases hprints
    · cases hran'.symm.trans hran

/-- No run that is made adds to what has been visited unless it passes. -/
def FailuresAddNothing (lib : Libraries) (space : FiniteSpace) (limits : ExplorationLimits)
    (s : Surroundings) (runner : Nat → Schedule → Answer) : Prop :=
  ∀ c candidate, Reached lib space limits s runner c candidate →
    disposition (ran lib space runner c candidate).verdict ≠ .passed →
      (ran lib space runner c candidate).campaign.coverage.states = c.coverage.states ∧
      (ran lib space runner c candidate).campaign.coverage.transitions = c.coverage.transitions

/-- **A run that fails adds nothing to what has been visited**, in every run that is made, exactly
where none is torn. -/
theorem failures_add_nothing_iff {actors : List ActorChain}
    (hw : ∀ input ∈ space.inputs, input.wf = true)
    (hd : declared lib.toJsonScan space limits true = .ok actors) :
    FailuresAddNothing lib space limits s runner ↔
      ∀ c candidate, Reached lib space limits s runner c candidate →
        Untorn lib space runner c candidate := by
  have he := encodes_eligible (s := s) hw hd
  refine forall_congr' fun c => forall_congr' fun candidate => forall_congr' fun hreached => ?_
  obtain ⟨rest, hbefore, -⟩ := hreached
  exact (untorn_iff (bytes_before he hbefore)).symm

/-- Of two runs, one that is covered as a whole and one that throws, none is torn. -/
theorem untorn_pair (h : Reached sampleLibraries pairSpace {} (pairRun pairFailing) pairFailing
    c candidate) : Untorn sampleLibraries pairSpace pairFailing c candidate := by
  intro sample observations hreturns hshown
  rcases reached_pair h with ⟨rfl, rfl⟩ | ⟨rfl, hc⟩
  · obtain rfl := Answer.returns.inj hreturns
    obtain rfl := Except.ok.inj ((observations_pair _ _ _).symm.trans hshown.observations)
    exact .inl whole_pair.1
  · rw [hc] at hreturns
    cases hreturns

theorem failures_add_nothing_pair :
    FailuresAddNothing sampleLibraries pairSpace {} (pairRun pairFailing) pairFailing :=
  (failures_add_nothing_iff (by decide) declared_pair).mpr fun _ _ => untorn_pair

/-- The states of the run that passes have been visited. -/
theorem coverage_of_completed_pair : CoverageOfCompleted sampleLibraries pairSpace pairFailing
    (eligible pairSpace {} (pairRun pairFailing))
    (exploreFinite sampleLibraries pairSpace {} (pairRun pairFailing)) :=
  coverage_of_completed (by decide) rfl declared_pair (fun _ _ => printable_pair)
    fun _ _ => untorn_pair

end MirrorCpp.Exploration
