import MirrorCpp.Exploration.Qualified
import MirrorCpp.Schedule.RunSchedule
import MirrorCpp.Schedule.Receipt

/-!
# The verdict on a receipt

`schedule_exploration.cpp` reads again, from the JSON, what `schedule.cpp` has written into a
receipt. The two agree on every execution: `category` never throws on a receipt and says what the
report says, and the receipt of a report that passes is accepted.
-/

namespace MirrorCpp.Exploration

open Schedule Itf Fallible

variable {lib : JsonScan} {x : Sys}

/-- The events of a played schedule are the ones of its steps. -/
theorem accepted_of_played (h : x.Played) :
    Accepted lib.toJsonLib (x.state.report.events.map Event.toJson) x.impl.schedule.steps := by
  refine ⟨by rw [List.length_map, h.length, Nat.mul_comm], fun i step hi => ?_⟩
  have hlt := (List.getElem?_eq_some_iff.mp hi).1
  have hlen := h.length
  obtain ⟨permit, hp⟩ : ∃ e, x.state.report.events[i * 2]? = some e :=
    ⟨_, List.getElem?_eq_getElem (by omega)⟩
  obtain ⟨arrival, ha⟩ : ∃ e, x.state.report.events[i * 2 + 1]? = some e :=
    ⟨_, List.getElem?_eq_getElem (by omega)⟩
  have hpe := h.events _ _ hp
  have hae := h.events _ _ ha
  refine ⟨permit.toJson, arrival.toJson, by rw [List.getElem?_map, hp]; rfl,
    by rw [List.getElem?_map, ha]; rfl, ?_, ?_⟩
  · obtain ⟨st, hst, hactor, hkind⟩ := hpe.granted
    have hdiv : i * 2 / 2 = i := Nat.mul_div_cancel _ (by decide)
    rw [hdiv] at hst
    obtain rfl : step = st := Option.some.inj (hi.symm.trans hst)
    have hkind : permit.kind = .permit := by
      rcases hkind with ⟨-, h⟩ | ⟨h, -⟩
      · exact h
      · omega
    refine ⟨?_, ?_, ?_, ?_⟩
    · rw [← hpe.ordinal]
      exact holds_int rfl
    · have := hpe.step
      rw [hdiv] at this
      rw [← this]
      exact holds_int rfl
    · rw [← hactor]
      rfl
    · show some (Json.str permit.kind.name) = _
      rw [hkind]
      rfl
  · obtain ⟨st, hst, hactor, hkind⟩ := hae.granted
    have hdiv : (i * 2 + 1) / 2 = i := by omega
    rw [hdiv] at hst
    obtain rfl : step = st := Option.some.inj (hi.symm.trans hst)
    obtain ⟨hkind, hcheckpoint⟩ : arrival.kind = .arrival ∧
        arrival.checkpoint = step.checkpoint := by
      rcases hkind with ⟨h, -⟩ | ⟨-, h⟩
      · omega
      · exact h
    refine ⟨?_, ?_, ?_, ?_, ?_⟩
    · rw [← hae.ordinal]
      exact holds_int rfl
    · have := hae.step
      rw [hdiv] at this
      rw [← this]
      exact holds_int rfl
    · rw [← hactor]
      rfl
    · show some (Json.str arrival.kind.name) = _
      rw [hkind]
      rfl
    · rw [← hcheckpoint]
      rfl

/-! ## The verdict -/

/-- What an outcome is called in an exploration. -/
def failed : Outcome → Disposition
  | .timedOut => .timedOut
  | .cancelled => .cancelled
  | .unexpectedCheckpoint | .invalidSchedule | .incompatibleIdentity => .scheduleFailed
  | _ => .executionFailed

/-- What a report says of its run. -/
def verdict (r : Report) : Disposition :=
  if r.cleanup ≠ .confirmed then .cleanupFailed
  else if r.passed then .passed
  else failed r.outcome

theorem failure_name (o : Outcome) : failure o.name = failed o := by
  cases o <;> rfl

theorem cleanup_name (c : Cleanup) : c.name = "confirmed" ↔ c = .confirmed := by
  cases c <;> simp [Cleanup.name]

theorem outcome_name (o : Outcome) : o.name = "completed" ↔ o = .completed := by
  cases o <;> simp [Outcome.name]

/-- A comparison with a member that is there. -/
theorem agrees_field {j v x : Json} {key : String} (h : j.field? key = some x) :
    agrees lib.toJsonLib j [(key, v)] = .ok (lib.eq x v) := by
  unfold agrees
  rw [field_eq_ok.mpr h]
  cases he : lib.eq x v with
  | true =>
    show (if lib.eq x v = true then agrees lib.toJsonLib j [] else _) = _
    rw [if_pos he]
    rfl
  | false =>
    show (if lib.eq x v = true then _ else _) = _
    rw [if_neg (by rw [he]; decide)]
    rfl

theorem eq_str {s t : String} : lib.eq (.str s) (.str t) = decide (s = t) := by
  by_cases h : s = t
  · rw [decide_eq_true h, h]
    exact (lib.eq_str _ t).mpr rfl
  · rw [decide_eq_false h]
    cases he : lib.eq (.str s) (.str t) with
    | false => rfl
    | true => exact absurd (Json.str.inj ((lib.eq_str _ t).mp he)) h

theorem eq_bool {b c : Bool} : lib.eq (.bool b) (.bool c) = (b == c) := by
  cases he : lib.eq (.bool b) (.bool c) with
  | true =>
    obtain rfl := Json.bool.inj ((lib.eq_bool _ c).mp he)
    exact (beq_self_eq_true b).symm
  | false =>
    refine (beq_eq_false_iff_ne.mpr fun h => ?_).symm
    rw [h, (lib.eq_bool _ c).mpr rfl] at he
    cases he

theorem cleanupKnown_receipt (h : (lts lib).Reach x) :
    cleanupKnown lib.toJsonLib x.receipt = .ok (decide (x.state.report.cleanup = .confirmed)) := by
  have hclean : agrees lib.toJsonLib x.receipt [("cleanup", .str "confirmed")] =
      .ok (decide (x.state.report.cleanup = .confirmed)) := by
    have hfield : x.receipt.field? "cleanup" = some (.str x.state.report.cleanup.name) := rfl
    rw [agrees_field hfield, eq_str]
    simp only [cleanup_name]
  unfold cleanupKnown
  rw [hclean]
  by_cases hc : x.state.report.cleanup = .confirmed
  · have hfield : x.receipt.field "remainingActors" = .ok (strings []) := by
      rw [← Sys.Cleared.reach h hc]
      rfl
    rw [decide_eq_true hc, hfield]
    rfl
  · rw [decide_eq_false hc]
    rfl

/-- `category` never throws on a receipt. -/
theorem category_receipt (h : (lts lib).Reach x) :
    category lib.toJsonLib x.receipt .null = .ok (verdict x.state.report) := by
  have hpassed : agrees lib.toJsonLib x.receipt [("passed", .bool true)] =
      .ok x.state.report.passed := by
    rw [agrees_field (Sys.receipt_passed x), eq_bool, beq_true]
  have houtcome : x.receipt.field "outcome" = .ok (.str x.state.report.outcome.name) := rfl
  unfold category verdict
  rw [cleanupKnown_receipt h, hpassed, houtcome, ← failure_name]
  by_cases hc : x.state.report.cleanup = .confirmed
  · rw [decide_eq_true hc, if_neg (not_not.mpr hc)]
    cases x.state.report.passed <;> rfl
  · rw [decide_eq_false hc, if_pos hc]
    rfl

/-- `validate_success` accepts the receipts of completed schedules, and no other. -/
theorem validateSuccess_receipt (h : (lts lib).Reach x) :
    validateSuccess lib.toJsonLib x.receipt x.impl.schedule = .ok () ↔
      x.state.report.outcome = .completed ∧ x.state.report.scheduleCompleted = true := by
  rw [validateSuccess_ok]
  have hcompleted : x.receipt.field? "scheduleCompleted" =
      some (.bool x.state.report.scheduleCompleted) := rfl
  have houtcome : x.receipt.field? "outcome" = some (.str x.state.report.outcome.name) := rfl
  rw [hcompleted, houtcome]
  constructor
  · rintro ⟨hc, ho, -⟩
    exact ⟨(outcome_name _).mp (Json.str.inj (Option.some.inj ho)),
      Json.bool.inj (Option.some.inj hc)⟩
  · rintro ⟨ho, hc⟩
    have hplayed := Sys.played_of_completed h ho hc
    refine ⟨by rw [hc], by rw [ho]; rfl, ⟨_, rfl, accepted_of_played hplayed⟩, _, rfl, ?_⟩
    have hlen := congrArg List.length hplayed.observations
    rw [List.length_map, List.length_range] at hlen
    show (x.state.report.observations.map Observation.toJson).length = _
    rw [List.length_map, hlen]

/-- **The explorer reads a receipt as the executor wrote it.** Whatever the workers and the client
do, `category` says of the receipt what the report says; `validate_success` accepts it where the
schedule was completed without a failure; and a report that passes is that of a schedule logged and
observed as a whole, all of whose actors have ended and been joined before the one teardown. -/
theorem receipts_agree (h : (lts lib).Reach x) :
    category lib.toJsonLib x.receipt .null = .ok (verdict x.state.report) ∧
    (validateSuccess lib.toJsonLib x.receipt x.impl.schedule = .ok () ↔
      x.state.report.outcome = .completed ∧ x.state.report.scheduleCompleted = true) ∧
    (x.state.report.passed = true → x.Played ∧ x.impl.threads.all (!·) = true ∧
      x.impl.teardowns = 1) := by
  refine ⟨category_receipt h, validateSuccess_receipt h, fun hp => ?_⟩
  simp only [Report.passed, Bool.and_eq_true, beq_iff_eq] at hp
  obtain ⟨⟨ho, hc⟩, hcleanup⟩ := hp
  exact ⟨Sys.played_of_completed h ho hc,
    Sys.confirmed_clean h (Sys.live_of_completed h ho) hcleanup⟩

/-- The receipt of the sample run is accepted. -/
theorem receipts_agree_sample : ∃ x : Sys, x.state.report.passed = true ∧
    category sampleLib.toJsonLib x.receipt .null = .ok .passed ∧
    validateSuccess sampleLib.toJsonLib x.receipt x.impl.schedule = .ok () := by
  obtain ⟨d, hd, e⟩ := Option.map_eq_some_iff.mp ScheduleRun.sampleActs_returned
  simp only [Prod.mk.injEq] at e
  obtain ⟨hp, ho, hc⟩ := e
  have hrun := ScheduleRun.sampleExec_reach hd
  obtain ⟨hcategory, hvalid, -⟩ := receipts_agree (ScheduleRun.reach_execution hrun)
  obtain ⟨-, -, hplayed, hpassed⟩ := ScheduleRun.runSchedule_returns hrun hp
  have hpassed := hpassed.mpr ⟨ho, hc⟩
  refine ⟨d.execution, hpassed, hcategory.trans ?_, hvalid.mpr ⟨ho, (hplayed ho).1⟩⟩
  rw [verdict, if_neg (not_not.mpr hc), if_pos hpassed]

end MirrorCpp.Exploration
