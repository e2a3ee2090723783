import MirrorCpp.Schedule.Identity
import MirrorCpp.Schedule.Texts
import MirrorCpp.Exploration.Verdict
import MirrorCpp.Exploration.Visited

/-!
# The local runner (`local_exploration_runner`)

Each run is `run_schedule` on the selected schedule, and its receipt is the sample. Where the
adapter serves the space and the identities of the executions are new, the explorer finds every
receipt bound, and its category is what the report of the execution says.
-/

namespace MirrorCpp.Exploration

open Schedule Itf Fallible SortedMap

variable {lib : Libraries} {space : FiniteSpace} {limits : ExplorationLimits} {s : Surroundings}
  {runner : Nat → Schedule → Answer} {readings : Nat → Readings} {all rest : List Candidate}
  {start c c' : Campaign} {candidate : Candidate} {schedule : Schedule} {d : ScheduleRun}

/-! ## The actors of a receipt -/

theorem mem_emplace_iff {k v : String} {ms : List (String × String)} (h : ms.lookup k = none)
    {m : String × String} : m ∈ emplace k v ms ↔ m = (k, v) ∨ m ∈ ms := by
  refine ⟨of_mem_emplace, ?_⟩
  rintro (rfl | hm)
  · obtain ⟨w, hw⟩ := exists_mem_emplace k v ms
    rcases of_mem_emplace hw with he | hm
    · rw [← he]
      exact hw
    · rw [List.lookup_eq_none_iff] at h
      exact absurd (h (k, w) hm) (by simp)
  · exact mem_emplace_of_mem hm

/-- The entries of distinct declarations are read as a map. -/
theorem collectActors_declared : ∀ {as : List ActorDeclaration} {ms : List (String × String)},
    Sorted ms → (as.map ActorDeclaration.actor).Nodup →
    (∀ a ∈ as, ms.lookup a.actor = none) →
    ∃ ns, collectActors ms (as.map ActorDeclaration.toJson) = .ok ns ∧ Sorted ns ∧
      ∀ m, m ∈ ns ↔ m ∈ ms ∨ m ∈ as.map fun a => (a.actor, a.operation)
  | [], ms, hs, _, _ => ⟨ms, rfl, hs, by simp⟩
  | a :: as, ms, hs, hn, hnew => by
    rw [List.map_cons, List.nodup_cons] at hn
    have ha := hnew a List.mem_cons_self
    have hnext : ∀ b ∈ as, (emplace a.actor a.operation ms).lookup b.actor = none := by
      intro b hb
      rw [List.lookup_eq_none_iff]
      intro m hm
      rcases (mem_emplace_iff ha).mp hm with rfl | hm
      · exact bne_iff_ne.mpr fun he => hn.1 (List.mem_map.mpr ⟨b, hb, he⟩)
      · exact List.lookup_eq_none_iff.mp (hnew b (List.mem_cons_of_mem _ hb)) m hm
    obtain ⟨ns, hns, hsorted, hmem⟩ := collectActors_declared (hs.emplace _ _) hn.2 hnext
    refine ⟨ns, ?_, hsorted, fun m => ?_⟩
    · have hshape : (a.toJson.isObj && a.toJson.size == 2 && a.toJson.contains "actor" &&
          a.toJson.contains "operation") = true := rfl
      have hname : read (a.toJson.field "actor" >>= Json.getStr) = .ok a.actor := rfl
      have hoperation : read (a.toJson.field "operation" >>= Json.getStr) = .ok a.operation := rfl
      rw [List.map_cons, collectActors, hshape, hname, hoperation, ok_bind, ok_bind, ha]
      exact hns
    · rw [hmem, mem_emplace_iff ha, List.map_cons, List.mem_cons]
      tauto

theorem sorted_declarations (hn : (space.actors.map fun a => a.actor.actor).Nodup) :
    Sorted (declarations space) := by
  have hsorted : ((sortActors space.actors).map fun a => a.actor.actor).Pairwise (· ≤ ·) := by
    rw [List.pairwise_map]
    exact List.pairwise_insertionSort _ _
  have hnodup : ((sortActors space.actors).map fun a => a.actor.actor).Nodup :=
    (((perm_sortActors space.actors).map _).nodup_iff).mpr hn
  rw [Sorted, declarations, List.map_map]
  exact (hsorted.and hnodup).imp fun h => Std.lt_of_le_of_ne h.1 h.2

/-- The actors of an adapter that serves the space are the declared ones. -/
theorem actorMap_serves {adapter : Adapter} {policy : Policy}
    (hn : (space.actors.map fun a => a.actor.actor).Nodup) (hs : Serves space adapter policy) :
    actorMap (.arr (adapter.actors.map ActorDeclaration.toJson)) = .ok (declarations space) := by
  have hperm := hs.actors.map ActorDeclaration.actor
  rw [List.map_map] at hperm
  have hnames : (adapter.actors.map ActorDeclaration.actor).Nodup := hperm.nodup_iff.mpr hn
  obtain ⟨ns, hns, hsorted, hmem⟩ := collectActors_declared sorted_nil hnames fun _ _ => rfl
  have heq : ns = declarations space := by
    refine hsorted.eq_of_mem_iff (sorted_declarations hn) fun m => ?_
    rw [hmem]
    have hpairs : (adapter.actors.map fun a => (a.actor, a.operation)).Perm
        (declarations space) := by
      have h := hs.actors.map fun a => (a.actor, a.operation)
      rw [List.map_map] at h
      exact h.trans ((perm_sortActors space.actors).map _).symm
    rw [hpairs.mem_iff]
    simp
  rw [← heq]
  exact hns

/-! ## The rows of a result -/

/-- The row of a run that was made, by what its `try` block came to. -/
def OfRun (lib : Libraries) (space : FiniteSpace) (limits : ExplorationLimits) (s : Surroundings)
    (runner : Nat → Schedule → Answer) (run : Run) : Prop :=
  ∃ c candidate, Reached lib space limits s runner c candidate ∧ run.ordinal = c.attempted ∧
    run.category = disposition (ran lib space runner c candidate).verdict

/-- A row that does not print leaves the rows as they are. -/
theorem conclude_thrown {late : Bool} {inputIndex : Nat} {printed : Json} {e : Examined}
    {what : String} (h : conclude lib limits late inputIndex printed e = (c', some what)) :
    c'.runs = e.campaign.runs := by
  obtain ⟨-, -, -, -, -, -, hruns, -⟩ := concluded_of_caught (caught_cases e.campaign e.verdict)
  unfold conclude at h
  dsimp only at h
  split at h
  · cases h
    exact hruns
  · split at h
    · cases h
    · split at h
      · cases h
      · split at h
        · cases h
        · split at h <;> cases h

section
variable (he : ∀ candidate ∈ eligible space limits s, Encodes lib candidate.schedule)
include he

theorem rows_step (hreached : Reached lib space limits s runner c candidate)
    (hrows : ∀ run ∈ c.runs, OfRun lib space limits s runner run)
    (hran : runCandidate lib space limits runner s.readings c candidate = (c', none)) :
    ∀ run ∈ c'.runs, OfRun lib space limits s runner run := by
  obtain ⟨rest, hbefore, -⟩ := id hreached
  have hcon := (concluded_of_ran (hbefore.head he rfl).2 hran).2
  have hkeeps : Keeps { c with attempted := c.attempted + 1 }
      (ran lib space runner c candidate).campaign := keeps_attempt _ _
  obtain ⟨run, hruns, hordinal, hcategory, -⟩ := hcon.recorded.run
  rw [hkeeps.runs] at hruns
  intro run' hm
  rw [hruns] at hm
  rcases List.mem_append.mp hm with hm | hm
  · exact hrows run' hm
  · obtain rfl := List.mem_singleton.mp hm
    refine ⟨c, candidate, hreached, ?_, hcategory⟩
    rw [hordinal]
    show (ran lib space runner c candidate).campaign.attempted - 1 = _
    rw [hkeeps.attempted]
    rfl

theorem rows_before (h : Before lib space limits runner s.readings (eligible space limits s)
      (opening space limits s) rest c) :
    ∀ run ∈ c.runs, OfRun lib space limits s runner run := by
  induction h with
  | start => exact fun run hm => absurd hm List.not_mem_nil
  | next hbefore hopen hran _ ih => exact rows_step he ⟨_, hbefore, hopen⟩ ih hran

end

/-- The rows a campaign leaves are those before a run, or those behind it. -/
theorem Ends.rows {r : Campaign × Option String}
    (he : ∀ candidate ∈ eligible space limits s, Encodes lib candidate.schedule)
    (h : Ends lib space limits runner s.readings (eligible space limits s) (opening space limits s)
      r) :
    (∃ rest c, Before lib space limits runner s.readings (eligible space limits s)
      (opening space limits s) rest c ∧ r.1.runs = c.runs) ∨
    ∃ candidate c c', Reached lib space limits s runner c candidate ∧
      runCandidate lib space limits runner s.readings c candidate = (c', none) ∧
      r.1.runs = c'.runs := by
  cases h with
  | through hbefore => exact .inl ⟨_, _, hbefore, rfl⟩
  | interrupted hbefore => exact .inl ⟨_, _, hbefore, rfl⟩
  | halted hbefore hopen hran => exact .inr ⟨_, _, _, ⟨_, hbefore, hopen⟩, hran, rfl⟩
  | thrown hbefore hopen hran =>
    rw [runCandidate_eq (hbefore.head he rfl).2] at hran
    refine .inl ⟨_, _, hbefore, (conclude_thrown hran).trans ?_⟩
    exact (keeps_attempt _ _).runs

section
variable {actors : List ActorChain} (hw : ∀ input ∈ space.inputs, input.wf = true)
  (hr : s.runner = some runner) (hd : declared lib.toJsonScan space limits true = .ok actors)
include hw hr hd

/-- Every row of a result is that of a run, however the campaign ends. -/
theorem rows_of_runs :
    ∀ run ∈ (exploreFinite lib space limits s).runs, OfRun lib space limits s runner run := by
  have he := encodes_eligible (s := s) hw hd
  rw [exploreFinite_eq hr hd, runs_report]
  rcases (campaign_ends lib space limits runner s.readings (eligible space limits s)
    (opening space limits s)).rows he with ⟨rest, c, hbefore, hruns⟩ |
      ⟨_, c, c', hreached, hran, hruns⟩
  · rw [hruns]
    exact rows_before he hbefore
  · rw [hruns]
    obtain ⟨rest, hbefore, -⟩ := id hreached
    exact rows_step he hreached (rows_before he hbefore) hran

/-- The rows are in the order of the runs. -/
theorem rows_shown {k : Nat} {run : Run}
    (h : (exploreFinite lib space limits s).runs[k]? = some run) : run.ordinal = k := by
  have he := encodes_eligible (s := s) hw hd
  have htallied : ∃ c, Tallied lib limits runner (eligible space limits s) c ∧
      (exploreFinite lib space limits s).runs = c.runs := by
    rw [exploreFinite_eq hr hd, runs_report]
    rcases (campaign_ends lib space limits runner s.readings (eligible space limits s)
      (opening space limits s)).rows he with ⟨rest, c, hbefore, hruns⟩ |
        ⟨_, c, c', ⟨rest, hbefore, -⟩, hran, hruns⟩
    · exact ⟨c, .before he hbefore, hruns⟩
    · obtain ⟨hat, hencodes⟩ := hbefore.head he rfl
      exact ⟨c', (Tallied.before he hbefore).step hencodes (hbefore.going rfl) hat hran, hruns⟩
  obtain ⟨c, hc, hruns⟩ := htallied
  rw [hruns] at h
  obtain ⟨_, -, hordinal, -⟩ := hc.shows_ k run h
  exact hordinal

end

/-! ## The executions known -/

theorem executions_judge {printed : Json} {sample : ExplorationSample} {d : Disposition} :
    (judge lib space schedule printed sample d c).1.executions = c.executions := by
  have hcompare : (c.compare sample.comparison).executions = c.executions := by
    unfold Campaign.compare
    split <;> rfl
  unfold judge
  dsimp only
  split
  · unfold credit
    dsimp only
    split
    · exact hcompare
    · split <;> exact hcompare
  · split <;> exact hcompare

/-- A run makes known the identity its evidence names, or none. -/
theorem executions_attempt (c : Campaign) (printed : Json) (answer : Answer) :
    (attempt lib space schedule printed c answer).campaign.executions = c.executions ∨
    ∃ sample id, answer = .returns sample ∧ sample.execution.field? "executionId" = some (.str id) ∧
      (attempt lib space schedule printed c answer).campaign.executions = id :: c.executions := by
  cases answer with
  | throws f => exact .inl rfl
  | returns sample =>
    unfold attempt examine
    dsimp only
    split
    · exact .inl rfl
    · rename_i id hbound
      refine .inr ⟨sample, id, rfl, (bound_ok hbound).2.1, ?_⟩
      split
      · rfl
      · split
        · rfl
        · exact executions_judge

/-! ## The receipt of a run -/

/-- A run of `run_schedule` on this schedule, to its end, with an adapter that serves the space. -/
structure Local (lib : Libraries) (space : FiniteSpace) (schedule : Schedule) (d : ScheduleRun) :
    Prop where
  reach : (runSchedule lib.toJsonScan).Reach d
  exited : d.exited = true
  schedule : d.execution.impl.schedule = schedule
  serves : Serves space d.execution.impl.adapter d.execution.impl.policy

/-- What the local runner makes of it: its receipt, without a comparison. -/
def answer (d : ScheduleRun) : Answer :=
  if d.point = .threw then
    .throws (.exception "execution cannot advance in its current lifecycle")
  else .returns { execution := d.execution.receipt }

/-- `local_exploration_runner`, by the runs its calls make. -/
def localRunner (runs : Nat → ScheduleRun) (k : Nat) (_ : Schedule) : Answer := answer (runs k)

theorem answer_returned (h : Local lib space schedule d) (hp : d.point ≠ .threw) :
    d.point = .returned ∧ answer d = .returns { execution := d.execution.receipt } := by
  have hexited := h.exited
  rw [ScheduleRun.exited, Bool.or_eq_true, beq_iff_eq, beq_iff_eq] at hexited
  exact ⟨hexited.resolve_right hp, if_neg hp⟩

/-- A receipt is bound to its schedule and to the declared actors. -/
theorem bound_receipt {executions : List String}
    (hn : (space.actors.map fun a => a.actor.actor).Nodup) (h : Local lib space schedule d)
    (heq : lib.eq (scheduleJson schedule) (scheduleJson schedule) = true)
    (hnew : d.execution.state.report.executionId ∉ executions) :
    bound lib space executions (scheduleJson schedule) d.execution.receipt =
      .ok d.execution.state.report.executionId := by
  have hagrees : agrees lib.toJsonLib d.execution.receipt
      [("schema", .str receiptSchema), ("schedule", scheduleJson schedule)] = .ok true := by
    rw [agrees_ok]
    simp only [List.forall_mem_cons, List.not_mem_nil, false_implies, implies_true, and_true]
    refine ⟨holds_str.mpr rfl, scheduleJson d.execution.impl.schedule, rfl, ?_⟩
    rw [h.schedule]
    exact heq
  have hactors : read (d.execution.receipt.field "actors") >>= actorMap =
      .ok (declarations space) := actorMap_serves hn h.serves
  have hid : read (d.execution.receipt.field "executionId" >>= Json.getStr) =
      .ok d.execution.state.report.executionId := rfl
  have hcheck : (d.execution.state.report.executionId.length == 32 &&
      d.execution.state.report.executionId.toList.all lowerHex &&
      !executions.contains d.execution.state.report.executionId) = true := by
    obtain ⟨o, ho⟩ := ScheduleRun.identity_reach h.reach
    have ho : d.execution.state.report.executionId = o.executionId :=
      congrArg RunIdentity.executionId ho
    have hnonce : (o.executionId.length == 32 && o.executionId.toList.all lowerHex) = true :=
      Sys.nonce_executionId o
    rw [ho] at hnew ⊢
    rw [hnonce]
    simpa using hnew
  have hsame : (declarations space == declarations space) = true := beq_self_eq_true _
  unfold bound
  rw [hagrees, ok_bind, hactors, hid]
  simp only [require, if_true, ok_bind, hsame, hcheck, pure_eq]

/-! ## What the explorer calls it -/

/-- The loop over the observations ends for want of room, or at an observation it cannot read. -/
theorem cover_cases {observations : Json} : ∀ {left i : Nat} {prior : Option Nat} {c : Coverage},
    c.bytes ≤ maxCoverageBytes →
      (c.cover lib space observations left i prior).2 = .ok () ∨
      (c.cover lib space observations left i prior).2 = .error coverageExceeded ∨
      ∃ j e, j < i + left ∧ observed lib space observations j = .error e ∧
        (c.cover lib space observations left i prior).2 = .error (.exception (lib.said e))
  | 0, _, _, _ => fun _ => .inl rfl
  | left + 1, i, prior, c => by
    intro hb
    cases hobs : observed lib space observations i with
    | error e =>
      rw [cover_unread left hobs]
      exact .inr (.inr ⟨i, e, by omega, hobs, rfl⟩)
    | ok text =>
      by_cases hroom : c.bytes + (stateSize c.states text + edgeSize c.transitions
          ((withState c.states text).idxOf text) prior) ≤ maxCoverageBytes
      · obtain ⟨c', hc, -, -, hbytes⟩ := cover_fits left hobs hroom
        rw [hc]
        rcases @cover_cases observations left (i + 1) (some ((withState c.states text).idxOf text))
          c' (by omega) with
          hok | hfull | ⟨j, e, hj, hread, he⟩
        · exact .inl hok
        · exact .inr (.inl hfull)
        · exact .inr (.inr ⟨j, e, by omega, hread, he⟩)
      · obtain ⟨c', hc, -⟩ := cover_full left hb hobs (Nat.not_le.mp hroom)
        rw [hc]
        exact .inr (.inl rfl)

/-- The observations of a run, as its receipt lists them. -/
def observedBy (d : ScheduleRun) : List Json :=
  d.execution.state.report.observations.map Observation.toJson

/-- The category of a local run: what its report says, where no comparison is asked for; and where
the report passes, what its observations come to. -/
def Called (lib : Libraries) (space : FiniteSpace) (d : ScheduleRun) (category : Disposition) :
    Prop :=
  if d.point = .threw then category = .runnerOrEvidenceFailed
  else if space.requireModelComparison = true then category = .comparisonMissing
  else if verdict d.execution.state.report ≠ .passed then
    category = verdict d.execution.state.report
  else category = .passed ∨ category = .coverageFailed ∨
    category = .runnerOrEvidenceFailed ∧ ∃ (j : Nat) (e : Itf.Thrown), j < (observedBy d).length ∧
      observed lib space (.arr (observedBy d)) j = .error e

theorem passed_of_called (h : Called lib space d .passed) :
    verdict d.execution.state.report = .passed := by
  unfold Called at h
  split at h
  · cases h
  · split at h
    · cases h
    · split at h
      · exact h.symm
      · rename_i hp
        exact not_not.mp hp

theorem failed_ne {o : Outcome} : failed o ≠ .passed ∧ failed o ≠ .modelMismatch := by
  cases o <;> decide

theorem verdict_ne (r : Report) : verdict r ≠ .modelMismatch := by
  unfold verdict
  split
  · decide
  · split
    · decide
    · exact failed_ne.2

theorem verdict_passed {r : Report} : verdict r = .passed ↔
    r.cleanup = .confirmed ∧ r.passed = true := by
  unfold verdict
  split
  · rename_i hc
    exact iff_of_false (by decide) fun h => hc h.1
  · rename_i hc
    split
    · rename_i hp
      exact iff_of_true rfl ⟨not_not.mp hc, hp⟩
    · rename_i hp
      exact iff_of_false failed_ne.1 fun h => hp h.2

/-- The category of a bound receipt that is not credited. -/
theorem attempt_refused (h : Local lib space schedule d) (hp : d.point ≠ .threw)
    (hbound : bound lib space c.executions (scheduleJson schedule) d.execution.receipt =
      .ok d.execution.state.report.executionId)
    (hne : demand space .null (verdict d.execution.state.report) ≠ .passed) :
    (attempt lib space schedule (scheduleJson schedule) c (answer d)).verdict =
      .ok (demand space .null (verdict d.execution.state.report)) := by
  have hreach := ScheduleRun.reach_execution h.reach
  have hmismatch : demand space .null (verdict d.execution.state.report) ≠ .modelMismatch := by
    unfold demand
    split
    · decide
    · exact verdict_ne _
  rw [(answer_returned h hp).2]
  unfold attempt examine
  dsimp only
  rw [hbound]
  dsimp only
  rw [cleanupKnown_receipt hreach]
  dsimp only
  rw [category_receipt hreach]
  dsimp only
  unfold judge
  dsimp only
  rw [if_neg hne, if_neg fun hm => hmismatch hm.1]

/-- The receipt of a run that passes is accepted. -/
theorem passing_local {executions : List String}
    (hn : (space.actors.map fun a => a.actor.actor).Nodup) (h : Local lib space schedule d)
    (heq : lib.eq (scheduleJson schedule) (scheduleJson schedule) = true)
    (hnew : d.execution.state.report.executionId ∉ executions)
    (hpassed : verdict d.execution.state.report = .passed) :
    Passing lib space executions schedule d.execution.receipt (.arr (observedBy d))
      d.execution.state.report.executionId where
  bound := bound_receipt hn h heq hnew
  cleanup := by
    rw [cleanupKnown_receipt (ScheduleRun.reach_execution h.reach),
      decide_eq_true (verdict_passed.mp hpassed).1]
  category := by
    rw [category_receipt (ScheduleRun.reach_execution h.reach), hpassed]
  valid := by
    have hreport := (verdict_passed.mp hpassed).2
    simp only [Report.passed, Bool.and_eq_true, beq_iff_eq] at hreport
    exact h.schedule ▸
      (validateSuccess_receipt (ScheduleRun.reach_execution h.reach)).mpr hreport.1
  observations := rfl

/-- **What the explorer calls a local run.** -/
theorem called_attempt (hn : (space.actors.map fun a => a.actor.actor).Nodup)
    (h : Local lib space schedule d)
    (heq : lib.eq (scheduleJson schedule) (scheduleJson schedule) = true)
    (hnew : d.execution.state.report.executionId ∉ c.executions)
    (hb : c.coverage.bytes ≤ maxCoverageBytes) :
    Called lib space d
      (disposition (attempt lib space schedule (scheduleJson schedule) c (answer d)).verdict) := by
  unfold Called
  by_cases hp : d.point = .threw
  · rw [if_pos hp, answer, if_pos hp]
    rfl
  have hbound := bound_receipt hn h heq hnew
  rw [if_neg hp]
  by_cases hrequired : space.requireModelComparison = true
  · have hdemand : demand space .null (verdict d.execution.state.report) = .comparisonMissing := by
      unfold demand
      rw [hrequired]
      rfl
    rw [if_pos hrequired, attempt_refused h hp hbound (by rw [hdemand]; decide), hdemand]
    rfl
  have hdemand : demand space .null (verdict d.execution.state.report) =
      verdict d.execution.state.report := by
    unfold demand
    rw [Bool.not_eq_true] at hrequired
    rw [hrequired]
    rfl
  rw [if_neg hrequired]
  by_cases hpassed : verdict d.execution.state.report = .passed
  · rw [if_neg (not_not.mpr hpassed)]
    -- everything but the observations is accepted
    have hcovered := attempt_covered (Bool.not_eq_true _ ▸ hrequired)
      (passing_local hn h heq hnew hpassed) (Prod.ext rfl rfl)
    rw [(answer_returned h hp).2, hcovered]
    generalize hresult : (c.coverage.cover lib space (.arr (observedBy d))
      (Json.arr (observedBy d)).size 0 none).2 = result
    rcases @cover_cases lib space (.arr (observedBy d)) (Json.arr (observedBy d)).size 0 none
      c.coverage hb with
      hok | hfull | ⟨j, e, hj, hread, he⟩
    · cases hresult.symm.trans hok
      exact .inl rfl
    · cases hresult.symm.trans hfull
      exact .inr (.inl rfl)
    · cases hresult.symm.trans he
      rw [Nat.zero_add] at hj
      exact .inr (.inr ⟨rfl, j, e, hj, hread⟩)
  · rw [if_pos hpassed, attempt_refused h hp hbound (hdemand.symm ▸ hpassed), hdemand]
    rfl

/-! ## An exploration with the local runner -/

section
variable {runs : Nat → ScheduleRun} {actors : List ActorChain}

/-- The runs of an exploration: each call of the runner makes one, and no two have one identity. -/
structure Locally (lib : Libraries) (space : FiniteSpace) (all : List Candidate)
    (runs : Nat → ScheduleRun) : Prop where
  each : ∀ k candidate, all[k]? = some candidate → Local lib space candidate.schedule (runs k)
  distinct : ∀ i j, i < j → j < all.length →
    (runs i).execution.state.report.executionId ≠ (runs j).execution.state.report.executionId
  /-- A schedule is equal to itself: it holds no NaN. -/
  equal : ∀ candidate ∈ all,
    lib.eq (scheduleJson candidate.schedule) (scheduleJson candidate.schedule) = true

/-- The identities known before a run are those of the runs before. -/
theorem executions_before (he : ∀ candidate ∈ all, Encodes lib candidate.schedule)
    {reason : String} (h : Before lib space limits (localRunner runs) readings all
      { stopReason := reason } rest c) :
    ∀ id ∈ c.executions, ∃ k < c.attempted,
      id = (runs k).execution.state.report.executionId := by
  induction h with
  | start => exact fun id hm => absurd hm List.not_mem_nil
  | @next candidate rest c c' hbefore _ hran _ ih =>
    obtain ⟨-, hencodes⟩ := hbefore.head he rfl
    have hcon := (concluded_of_ran hencodes hran).2
    have hattempted : c'.attempted = c.attempted + 1 :=
      hcon.attempted.trans (keeps_attempt _ _).attempted
    have hold : ∀ id ∈ c.executions, ∃ k < c'.attempted,
        id = (runs k).execution.state.report.executionId := fun id hm => by
      obtain ⟨k, hk, hid⟩ := ih id hm
      exact ⟨k, by omega, hid⟩
    rw [hcon.executions]
    rcases @executions_attempt lib space candidate.schedule
      { c with attempted := c.attempted + 1 } (scheduleJson candidate.schedule)
      (localRunner runs c.attempted candidate.schedule) with
      hsame | ⟨sample, id, hanswer, hid, hmore⟩
    · intro id hm
      exact hold id (hsame ▸ hm)
    · intro id' hm
      have hm : id' ∈ id :: c.executions := hmore ▸ hm
      rcases List.mem_cons.mp hm with rfl | hm
      · refine ⟨c.attempted, by omega, ?_⟩
        unfold localRunner answer at hanswer
        split at hanswer
        · cases hanswer
        · cases hanswer
          exact (Json.str.inj (Option.some.inj hid)).symm
      · exact hold id' hm

/-- What is known before a run of it: the identity of the run is new, and all runs before were
cleaned up. -/
theorem reached_locally (he : ∀ candidate ∈ eligible space limits s, Encodes lib candidate.schedule)
    (hl : Locally lib space (eligible space limits s) runs)
    (h : Reached lib space limits s (localRunner runs) c candidate) :
    (eligible space limits s)[c.attempted]? = some candidate ∧
    Local lib space candidate.schedule (runs c.attempted) ∧
    (runs c.attempted).execution.state.report.executionId ∉ c.executions ∧
    c.coverage.bytes ≤ maxCoverageBytes ∧
    ∀ j < c.attempted, (runs j).execution.state.report.cleanup = .confirmed := by
  obtain ⟨rest, hbefore, -⟩ := h
  obtain ⟨hat, hencodes⟩ := hbefore.head he rfl
  refine ⟨hat, hl.each _ _ hat, fun hm => ?_, bytes_before he hbefore, fun j hj => ?_⟩
  · obtain ⟨k, hk, hid⟩ := executions_before he hbefore _ hm
    exact hl.distinct k c.attempted hk (List.getElem?_eq_some_iff.mp hat).1 hid.symm
  · have htallied := Tallied.before he hbefore
    have hconfirmed : Confirmed lib (localRunner runs) (eligible space limits s) j := by
      by_cases hj' : j + 1 = c.attempted
      · exact htallied.last (hbefore.going rfl) j hj'
      · exact htallied.known j (by omega)
    obtain ⟨candidate', sample, hat', hanswer, hknown⟩ := hconfirmed
    have hlocal := hl.each _ _ hat'
    unfold localRunner answer at hanswer
    split at hanswer
    · cases hanswer
    · cases hanswer
      dsimp only at hknown
      rw [cleanupKnown_receipt (ScheduleRun.reach_execution hlocal.reach)] at hknown
      exact of_decide_eq_true (Except.ok.inj hknown)

/-- **An exploration with the local runner says what its executions say.** Each row bears the
category of its own execution's report, and no run is made before all cleanups of the runs before
are confirmed. A complete result is one whose every candidate has been executed as a whole, with all
its actors joined and one teardown. -/
theorem local_exploration (hw : ∀ input ∈ space.inputs, input.wf = true)
    (hr : s.runner = some (localRunner runs))
    (hd : declared lib.toJsonScan space limits true = .ok actors)
    (hl : Locally lib space (eligible space limits s) runs) :
    (∀ k run, (exploreFinite lib space limits s).runs[k]? = some run →
      Called lib space (runs k) run.category ∧
        ∀ j < k, (runs j).execution.state.report.cleanup = .confirmed) ∧
    ((exploreFinite lib space limits s).complete = true →
      ∀ k candidate, (eligible space limits s)[k]? = some candidate →
        (runs k).execution.impl.schedule = candidate.schedule ∧ (runs k).execution.Played ∧
          (runs k).execution.impl.threads.all (!·) = true ∧
          (runs k).execution.impl.teardowns = 1) := by
  have he := encodes_eligible (s := s) hw hd
  have hn := (declared_ok hd).2.names
  have hrows : ∀ k run, (exploreFinite lib space limits s).runs[k]? = some run →
      Called lib space (runs k) run.category ∧
        ∀ j < k, (runs j).execution.state.report.cleanup = .confirmed := by
    intro k run hk
    obtain ⟨c, candidate, hreached, hordinal, hcategory⟩ :=
      rows_of_runs hw hr hd run (List.mem_of_getElem? hk)
    obtain rfl : c.attempted = k := hordinal.symm.trans (rows_shown hw hr hd hk)
    obtain ⟨hat, hlocal, hnew, hb, hconfirmed⟩ := reached_locally he hl hreached
    refine ⟨?_, hconfirmed⟩
    rw [hcategory]
    exact called_attempt (c := { c with attempted := c.attempted + 1 }) hn hlocal
      (hl.equal candidate (List.mem_of_getElem? hat)) hnew hb
  refine ⟨hrows, fun hcomplete k candidate hat => ?_⟩
  obtain ⟨-, hevidence, -⟩ := evidence_of_complete hw hcomplete
  have hlt := (List.getElem?_eq_some_iff.mp hat).1
  have hlt' : k < (exploreFinite lib space limits s).runs.length := hevidence.length_eq ▸ hlt
  obtain ⟨row, _, _, hfull, -, -, hpassed, -⟩ := hevidence.get hlt hlt'
  have hcalled := (hrows k _ (List.getElem?_eq_getElem hlt')).1
  rw [List.get_eq_getElem] at hfull
  rw [hfull, Run.category, hpassed] at hcalled
  have hlocal := hl.each _ _ hat
  have hreceipt := receipts_agree (ScheduleRun.reach_execution hlocal.reach)
  exact ⟨hlocal.schedule, hreceipt.2.2 (verdict_passed.mp (passed_of_called hcalled)).2⟩

end

/-! ## A local exploration of two actors -/

def pairAdapter : Adapter where
  identity := sampleIdentity
  actors := [⟨"a", "run"⟩, ⟨"b", "run"⟩]
  checkpoints := []
  factory := some (.ok { workers := [{ actor := "a" }, { actor := "b" }] })

/-- The `n`-th call. -/
def pairOpening (first second : String) (n : Nat) : Sys.Opening where
  schedule := pairSchedule first second
  adapter := pairAdapter
  policy := {}
  generation := n + 1
  random i := .ofNat (n + i)

/-- The observer reads `x`. -/
def reads (x : Int) : Choice := .observed (.ok (.obj [("x", .int x)])) false

/-- Worker `i` is permitted, and returns. -/
def turn (i : Nat) (x : Int) : List ScheduleRun.Act :=
  ScheduleRun.between
    [.wake i, .user i .return_, .close i, .permitted false, .joined, reads x, .leave]

/-- `run_schedule` on the schedule of worker `i`, then worker `j`. -/
def pairActs (i j : Nat) (x : Int) : List ScheduleRun.Act :=
  ScheduleRun.between [.spawn none, .spawn none, .register 0, .register 1, .barrier false,
      reads 0] ++ [.go false, .go false] ++ turn i x ++ [.go false] ++ turn j 3 ++ [.go false] ++
    ScheduleRun.between [.enter, .cleanupWake false, .cleanupTorn none] ++ [.go false]

def pairExec (o : Sys.Opening) (acts : List ScheduleRun.Act) : Option ScheduleRun :=
  (runSchedule sampleLibraries.toJsonScan).exec (fun _ _ => true) acts
    { execution := Sys.admitted o
        { report := { generation := o.generation, executionId := o.executionId } }
        { schedule := o.schedule, policy := {}, adapter := o.adapter } }

/-- The `n`-th call has run the schedule, and its report passes. -/
structure PairRan (first second : String) (n : Nat) (d : ScheduleRun) : Prop where
  isLocal : Local sampleLibraries pairSpace (pairSchedule first second) d
  returned : d.point = .returned
  passed : verdict d.execution.state.report = .passed
  observed : observedBy d = pairObservations first
  id : d.execution.state.report.executionId = (pairOpening first second n).executionId
  size : Compact.dumpSize (passedRow n ⟨pairSchedule first second, 0⟩ d.execution.receipt).toJson =
    some 2011

theorem serves_pair : Serves pairSpace pairAdapter {} :=
  ⟨rfl, .refl _, rfl, by decide, by decide, by decide, by decide, by decide⟩

section
variable {first second : String} {n : Nat} {acts : List ScheduleRun.Act}

theorem pairExec_reach (hs : [⟨first, "$done"⟩, ⟨second, "$done"⟩] ∈
      (enumerate (sortActors pairSpace.actors) pairSpace.maxPreemptions
        ({} : ExplorationLimits).maxEnumeratedSchedules fun _ => none).schedules)
    (h : pairExec (pairOpening first second n) acts = some d) :
    (runSchedule sampleLibraries.toJsonScan).Reach d := by
  refine .exec (fun _ _ _ => trivial) (.init ⟨pairOpening first second n, ?_⟩) h
  have hadmission := (@enumerate_admissible _ _ _ _ _ (fun _ => none)
    [⟨first, "$done"⟩, ⟨second, "$done"⟩] (.obj []) (by decide) declared_pair hs
    (List.mem_singleton.mpr rfl)).2 pairAdapter {} serves_pair
  rw [Sys.start_of_admission (o := pairOpening first second n) hadmission]
  rfl

theorem exists_pairRan (hs : [⟨first, "$done"⟩, ⟨second, "$done"⟩] ∈
      (enumerate (sortActors pairSpace.actors) pairSpace.maxPreemptions
        ({} : ExplorationLimits).maxEnumeratedSchedules fun _ => none).schedules)
    (hran : (pairExec (pairOpening first second n) acts).map (fun d =>
      (d.point, d.execution.state.report.outcome, d.execution.state.report.cleanup,
        Compact.dumpSize (passedRow n ⟨pairSchedule first second, 0⟩ d.execution.receipt).toJson)) =
      some (.returned, .completed, .confirmed, some 2011))
    (hdata : (pairExec (pairOpening first second n) acts).map (fun d => (d.execution.impl.schedule,
      d.execution.impl.adapter, d.execution.impl.policy, observedBy d,
      d.execution.state.report.executionId)) =
      some (pairSchedule first second, pairAdapter, {}, pairObservations first,
        (pairOpening first second n).executionId)) : ∃ d, PairRan first second n d := by
  obtain ⟨d, hd, e⟩ := Option.map_eq_some_iff.mp hran
  obtain ⟨d', hd', e'⟩ := Option.map_eq_some_iff.mp hdata
  obtain rfl : d = d' := Option.some.inj (hd.symm.trans hd')
  simp only [Prod.mk.injEq] at e e'
  obtain ⟨hp, ho, hc, hsize⟩ := e
  obtain ⟨hschedule, hadapter, hpolicy, hobserved, hid⟩ := e'
  have hreach := pairExec_reach hs hd
  have hpassed := (ScheduleRun.runSchedule_returns hreach hp).2.2.2.mpr ⟨ho, hc⟩
  refine ⟨d, ⟨hreach, ?_, hschedule, ?_⟩, hp, verdict_passed.mpr ⟨hc, hpassed⟩, hobserved, hid,
    hsize⟩
  · rw [ScheduleRun.exited, hp]
    rfl
  · rw [hadapter, hpolicy]
    exact serves_pair

end

theorem exists_first : ∃ d, PairRan "a" "b" 0 d :=
  @exists_pairRan "a" "b" 0 (pairActs 0 1 1) (by decide +kernel) (by decide +kernel) rfl

theorem exists_second : ∃ d, PairRan "b" "a" 1 d :=
  @exists_pairRan "b" "a" 1 (pairActs 1 0 2) (by decide +kernel) (by decide +kernel) rfl

theorem eq_pair :
    sampleLibraries.eq (scheduleJson (pairSchedule "a" "b"))
      (scheduleJson (pairSchedule "a" "b")) = true ∧
    sampleLibraries.eq (scheduleJson (pairSchedule "b" "a"))
      (scheduleJson (pairSchedule "b" "a")) = true := by
  constructor <;> decide +kernel

def pairRuns (d₁ d₂ : ScheduleRun) : Nat → ScheduleRun
  | 0 => d₁
  | _ + 1 => d₂

theorem locally_pair {d₁ d₂ : ScheduleRun} (h₁ : PairRan "a" "b" 0 d₁) (h₂ : PairRan "b" "a" 1 d₂) :
    Locally sampleLibraries pairSpace
      (eligible pairSpace {} (pairRun (localRunner (pairRuns d₁ d₂)))) (pairRuns d₁ d₂) := by
  rw [eligible_pair]
  refine ⟨fun k candidate hk => ?_, fun i j hij hj => ?_, fun candidate hm => ?_⟩
  · match k with
    | 0 => cases hk; exact h₁.isLocal
    | 1 => cases hk; exact h₂.isLocal
  · obtain rfl : j = 1 := by
      rw [List.length_cons, List.length_cons, List.length_nil] at hj
      omega
    obtain rfl : i = 0 := by omega
    show d₁.execution.state.report.executionId ≠ d₂.execution.state.report.executionId
    rw [h₁.id, h₂.id]
    decide
  · rcases List.mem_cons.mp hm with rfl | hm
    · exact eq_pair.1
    · rw [List.mem_singleton.mp hm]
      exact eq_pair.2

theorem complete_local_pair {d₁ d₂ : ScheduleRun} (h₁ : PairRan "a" "b" 0 d₁)
    (h₂ : PairRan "b" "a" 1 d₂) : (exploreFinite sampleLibraries pairSpace {}
      (pairRun (localRunner (pairRuns d₁ d₂)))).complete = true := by
  have hpassing₁ : Passing sampleLibraries pairSpace [] (pairSchedule "a" "b") d₁.execution.receipt
      (.arr (observedBy d₁)) d₁.execution.state.report.executionId :=
    passing_local (by decide) h₁.isLocal eq_pair.1 List.not_mem_nil h₁.passed
  have hnew : d₂.execution.state.report.executionId ∉ [d₁.execution.state.report.executionId] := by
    rw [h₁.id, h₂.id]
    decide
  have hpassing₂ := passing_local (by decide) h₂.isLocal eq_pair.2 hnew h₂.passed
  rw [h₁.observed] at hpassing₁
  rw [h₂.observed] at hpassing₂
  exact complete_pair (answer_returned h₁.isLocal (by rw [h₁.returned]; decide)).2
    (answer_returned h₂.isLocal (by rw [h₂.returned]; decide)).2 hpassing₁ hpassing₂ h₁.size h₂.size
    (by decide)

/-- The exploration of two actors, run locally: it is complete, and both schedules were executed. -/
theorem local_exploration_pair : ∃ d₁ d₂ : ScheduleRun,
    (exploreFinite sampleLibraries pairSpace {}
      (pairRun (localRunner (pairRuns d₁ d₂)))).complete = true ∧
    d₁.execution.impl.schedule = pairSchedule "a" "b" ∧ d₁.execution.Played ∧
    d₁.execution.impl.teardowns = 1 ∧ d₂.execution.impl.schedule = pairSchedule "b" "a" ∧
    d₂.execution.Played ∧ d₂.execution.impl.teardowns = 1 := by
  obtain ⟨d₁, h₁⟩ := exists_first
  obtain ⟨d₂, h₂⟩ := exists_second
  have hcomplete := complete_local_pair h₁ h₂
  have hall := eligible_pair (localRunner (pairRuns d₁ d₂))
  have h := @local_exploration sampleLibraries pairSpace {}
    (pairRun (localRunner (pairRuns d₁ d₂))) (pairRuns d₁ d₂) _ (by decide) rfl declared_pair
    (locally_pair h₁ h₂)
  obtain ⟨hschedule₁, hplayed₁, -, htorn₁⟩ := h.2 hcomplete 0 ⟨pairSchedule "a" "b", 0⟩
    (by rewrite [hall]; rfl)
  obtain ⟨hschedule₂, hplayed₂, -, htorn₂⟩ := h.2 hcomplete 1 ⟨pairSchedule "b" "a", 0⟩
    (by rewrite [hall]; rfl)
  exact ⟨d₁, d₂, hcomplete, hschedule₁, hplayed₁, htorn₁, hschedule₂, hplayed₂, htorn₂⟩

end MirrorCpp.Exploration
