import MirrorCpp.Sync.Sticky

/-!
# The budget of the receipt

The two arrays of a receipt are its `Logs`; `offered` is the row a step brings before
`evidence_fits`. The check adds up three sizes, and this is the size of the arrays with the
row (`evidenceFits_eq`). So a row stays out exactly where the arrays would outgrow the budget,
or where an observation is late, and the arrays never outgrow it.
-/

namespace MirrorCpp.Sync

open State

/-- The arrays `events` and `observations`. -/
structure Logs where
  events : List Event
  observations : List Observation

/-- A row of one of the arrays. -/
inductive Row where
  | event (e : Event)
  | observation (o : Observation)

def Row.toJson : Row → Json
  | .event e => e.toJson
  | .observation o => o.toJson

def State.logs (s : State) : Logs := ⟨s.events, s.observations⟩

namespace Logs

/-- Append a row to its array. -/
def add (l : Logs) : Row → Logs
  | .event e => { l with events := l.events ++ [e] }
  | .observation o => { l with observations := l.observations ++ [o] }

/-- The array of the row is empty. -/
def vacant (l : Logs) : Row → Bool
  | .event _ => l.events.isEmpty
  | .observation _ => l.observations.isEmpty

/-- `events.dump().size() + observations.dump().size()`, where both print. -/
def size (lib : JsonLib) (l : Logs) : Option Nat := do
  let e ← lib.dumpSize (.arr (l.events.map Event.toJson))
  let o ← lib.dumpSize (.arr (l.observations.map Observation.toJson))
  return e + o

/-- The arrays print within so many bytes. -/
def fits (lib : JsonLib) (bytes : Nat) (l : Logs) : Bool :=
  (l.size lib).any fun n => decide (n ≤ bytes)

variable {lib : JsonLib} {l : Logs} {row : Row} {n : Nat}

theorem size_empty : size lib ⟨[], []⟩ = some 4 := by
  have h : lib.dumpSize (.arr []) = some 2 := by
    rw [lib.dumpSize_eq_some (by simp [Json.utf8Elems]), lib.len_arr (by simp [Json.utf8Elems])]
    rfl
  simp [size, h]

theorem add_ne : l.add row ≠ l := by
  intro h
  cases row with
  | event e => simpa [add] using congrArg (fun l => l.events.length) h
  | observation o => simpa [add] using congrArg (fun l => l.observations.length) h

/-- What an array costs with one more row. -/
theorem dumpSize_append {α : Type} (f : α → Json) (xs : List α) (x : α) {n : Nat}
    (h : lib.dumpSize (.arr (xs.map f)) = some n) :
    lib.dumpSize (.arr ((xs ++ [x]).map f)) =
      (lib.dumpSize (f x)).map fun r => n + r + if xs.isEmpty then 0 else 1 := by
  have hxs : Json.utf8Elems (xs.map f) = true := by
    by_contra hn
    rw [lib.dumpSize_eq_none.mpr (by simpa using hn)] at h
    cases h
  rw [lib.dumpSize_eq_some (by simpa using hxs)] at h
  obtain rfl := Option.some.inj h
  have hall : Json.utf8Elems (xs.map f ++ [f x]) = (f x).utf8 := by
    simp [Json.utf8Elems_append, hxs, Json.utf8Elems]
  rw [List.map_append, List.map_singleton]
  cases hx : (f x).utf8 with
  | false =>
    rw [lib.dumpSize_eq_none.mpr hx, Option.map_none, lib.dumpSize_eq_none, Json.utf8_arr, hall, hx]
  | true =>
    rw [hx] at hall
    rw [lib.dumpSize_eq_some (by simpa using hall), lib.len_append hall, lib.dumpSize_eq_some hx]
    simp

/-- The three sizes of `evidence_fits` add up to the size with the row. -/
theorem size_add (h : l.size lib = some n) :
    (l.add row).size lib =
      (lib.dumpSize row.toJson).map fun r => n + r + if l.vacant row then 0 else 1 := by
  simp only [size, Option.bind_eq_bind, Option.bind_eq_some_iff, Option.pure_def,
    Option.some.injEq] at h
  obtain ⟨e, he, o, ho, rfl⟩ := h
  cases row with
  | event v =>
    simp only [size, add, Row.toJson, vacant, dumpSize_append Event.toJson _ v he, ho]
    cases lib.dumpSize v.toJson with
    | none => rfl
    | some r => simp; omega
  | observation v =>
    simp only [size, add, Row.toJson, vacant, dumpSize_append Observation.toJson _ v ho, he]
    cases lib.dumpSize v.toJson with
    | none => rfl
    | some r => simp; omega

end Logs

namespace State

variable {s t : State} {lib : JsonLib} {row : Row} {n : Nat}

/-- The check answers whether the arrays would fit with the row. -/
theorem evidenceFits_eq (h : s.logs.size lib = some n) :
    s.evidenceFits lib (s.logs.vacant row) row.toJson =
      ((s.logs.add row).size lib).map fun n => decide (n ≤ s.policy.maxEvidenceBytes) := by
  rw [Logs.size_add h]
  simp only [Logs.size, logs, Option.bind_eq_bind, Option.bind_eq_some_iff, Option.pure_def,
    Option.some.injEq] at h
  obtain ⟨e, he, o, ho, rfl⟩ := h
  simp only [evidenceFits, he, ho]
  cases lib.dumpSize row.toJson <;> rfl

/-- Cancelled, or the execution is late: a call of the client and `observe` return early. -/
def stops (s : State) (late : Bool) : Bool := s.cancelled || (late && !s.executionEnded)

theorem executionExpired_of_stops (w : String) {late : Bool} (h : s.stops late = true) :
    ((s.executionExpired late w).1 || (s.executionExpired late w).2.cancelled) = true := by
  rcases executionExpired_cases s late w with e | ⟨t, e, -, -⟩
  · rw [e]
    by_contra hc
    simp only [Bool.false_or, Bool.not_eq_true] at hc
    simp only [stops, hc, Bool.false_or, Bool.and_eq_true, Bool.not_eq_true'] at h
    simp [executionExpired, h.1, h.2] at e
  · rw [e]; rfl

theorem executionExpired_inTime (w : String) {late : Bool}
    (h : (late && !s.executionEnded) = false) : s.executionExpired late w = (false, s) := by
  unfold executionExpired
  cases late <;> simp_all

theorem executionExpired_of_not_stops (w : String) {late : Bool} (h : s.stops late = false) :
    s.executionExpired late w = (false, s) ∧ s.cancelled = false := by
  simp only [stops, Bool.or_eq_false_iff] at h
  exact ⟨executionExpired_inTime w h.2, h.1⟩

/-! ## What leaves the arrays alone -/

@[simp] theorem logs_fail (s : State) (o : Outcome) (w : String) : (s.fail o w).logs = s.logs := by
  unfold fail; split <;> rfl

@[simp] theorem logs_executionExpired (s : State) (late : Bool) (w : String) :
    (s.executionExpired late w).2.logs = s.logs := by
  unfold executionExpired
  split
  · rfl
  · exact logs_fail _ _ _

@[simp] theorem logs_cleanupExpired (s : State) : s.cleanupExpired.logs = s.logs := logs_fail _ _ _

theorem executionExpired_late (w : String) {late : Bool}
    (h : (late && !s.executionEnded) = true) (ho : s.report.outcome = .completed) :
    ∃ t, s.executionExpired late w = (true, t) ∧ t.logs = s.logs ∧
      t.report.outcome = .timedOut := by
  refine ⟨(s.executionExpired late w).2, ?_, logs_executionExpired s late w, ?_⟩ <;>
    simp only [Bool.and_eq_true, Bool.not_eq_true'] at h
  · simp [executionExpired, h]
  · simp [executionExpired, h, fail, ho]

theorem logs_takeEffect (s : State) (i : Nat) (p : Pending) :
    ((Sys.woken s i).takeEffect i p).2.logs = s.logs :=
  congrArg₂ Logs.mk (Sys.events_takeEffect s i p).1 (Sys.events_takeEffect s i p).2

@[simp] theorem logs_unwind (s : State) (i : Nat) (r : String) :
    (s.unwindRelease i r).logs = s.logs :=
  congrArg₂ Logs.mk (Sys.logs_unwindRelease s i r).1 (Sys.logs_unwindRelease s i r).2

@[simp] theorem logs_requestEnter (s : State) (τ : ThreadId) (i : Nat) (p : Pending) :
    (s.requestEnter τ i p).2.logs = s.logs := by
  unfold requestEnter
  split
  · exact logs_fail _ _ _
  split
  · rfl
  split
  · split
    · exact logs_fail _ _ _
    · split
      · exact logs_fail _ _ _
      · rfl
  · rfl

@[simp] theorem logs_workerThrew (s : State) : s.workerThrew.logs = s.logs := by
  unfold workerThrew
  split
  · rfl
  · exact logs_fail _ _ _

@[simp] theorem logs_finishWorker (s : State) (i : Nat) : (s.finishWorker i).logs = s.logs := by
  have h : (s.releaseAll i).logs = s.logs := by
    unfold releaseAll
    split
    · split
      · rfl
      · exact logs_fail s _ _
    · rfl
  exact h

end State

namespace Sys

variable {lib : JsonLib} {x y : Sys} {c : Choice} {row : Row}

/-- The row a step brings before `evidence_fits`. -/
def offered (x : Sys) : Choice → Option Row
  | .advance actor late =>
    let i := find x.state actor
    if x.state.stops late || i = x.state.actors.length || !x.state.enabled i ||
        decide (x.state.policy.maxDecisions ≤ x.state.report.decisions) then none
    else some (.event (x.state.grantRow i))
  | .wake i =>
    match x.pc i with
    | .waiting _ p =>
      if x.state.cancelled then none
      else some (.event (x.state.resultRow i p ((woken x.state i).takeEffect i p).1))
    | _ => none
  | .observed (some v) late _ _ =>
    if x.state.stops late || !v.isObj || !inertJson v then none
    else some (.observation ⟨x.state.report.decisions, v⟩)
  | _ => none

/-- The execution gets late while the row is retained. -/
def tooLate (x : Sys) : Choice → Bool
  | .observed _ _ late₂ late₃ => (late₂ || late₃) && !x.state.executionEnded
  | _ => false

/-- What becomes of an offered row. -/
inductive Filed (lib : JsonLib) (x : Sys) (c : Choice) (row : Row) (t : State) : Prop where
  /-- `evidence_fits` threw. -/
  | unprinted (hfit : x.state.evidenceFits lib (x.state.logs.vacant row) row.toJson = none)
      (hlogs : t.logs = x.state.logs)
  | refused (hfit : x.state.evidenceFits lib (x.state.logs.vacant row) row.toJson = some false)
      (hlogs : t.logs = x.state.logs) (ho : t.report.outcome = .evidenceExhausted)
  | late (hfit : x.state.evidenceFits lib (x.state.logs.vacant row) row.toJson = some true)
      (hlate : x.tooLate c = true) (hlogs : t.logs = x.state.logs)
      (ho : t.report.outcome = .timedOut)
  | retained (hfit : x.state.evidenceFits lib (x.state.logs.vacant row) row.toJson = some true)
      (hlate : x.tooLate c = false) (hlogs : t.logs = x.state.logs.add row)

/-- An offered row is filed; a step without one leaves the arrays alone. -/
def Files (lib : JsonLib) (x : Sys) (c : Choice) (t : State) : Prop :=
  match x.offered c with
  | none => t.logs = x.state.logs
  | some row => Filed lib x c row t

theorem fail_outcome {s : State} (h : s.report.outcome = .completed) (o : Outcome) (w : String) :
    (s.fail o w).report.outcome = o := by simp [State.fail, h]

theorem files_advance {actor : String} {late : Bool}
    (ho : x.state.cancelled = false → x.state.report.outcome = .completed) :
    Files lib x (.advance actor late) (x.advance lib actor late).state := by
  simp only [Files, offered, advance]
  cases hstops : x.state.stops late with
  | true =>
    rw [if_pos (executionExpired_of_stops _ hstops), if_pos (by simp)]
    exact logs_executionExpired _ _ _
  | false =>
    obtain ⟨e, hc⟩ := executionExpired_of_not_stops "execution deadline before decision" hstops
    simp only [e, hc, Bool.or_self, Bool.false_eq_true, if_false, Bool.false_or]
    by_cases hfind : (decide (find x.state actor = x.state.actors.length) ||
        !x.state.enabled (find x.state actor)) = true
    · rw [if_pos hfind, if_pos (by simp_all)]
      exact logs_fail _ _ _
    rw [if_neg hfind]
    by_cases hd : x.state.policy.maxDecisions ≤ x.state.report.decisions
    · rw [if_pos hd, if_pos (by simp [hd])]
      exact logs_fail _ _ _
    rw [if_neg hd, if_neg (by simp_all)]
    simp only [event]
    split
    · rename_i hev
      split at hev
      · rename_i hfit; exact .unprinted hfit rfl
      · cases hev
      · cases hev
    · rename_i hev
      split at hev
      · cases hev
      · rename_i hfit
        cases hev
        exact .refused hfit (logs_fail _ _ _) (fail_outcome (ho hc) _ _)
      · cases hev
    · rename_i hev
      split at hev
      · cases hev
      · cases hev
      · rename_i hfit
        cases hev
        exact .retained hfit rfl rfl

theorem files_wake {i : Nat} {f : Frame} {p : Pending} (hpc : x.pc i = .waiting f p)
    (ho : x.state.cancelled = false → x.state.report.outcome = .completed) :
    Files lib x (.wake i) (x.state.requestWake lib i p).2 := by
  simp only [Files, offered, hpc]
  cases hc : x.state.cancelled with
  | true => simp [requestWake, hc]
  | false =>
    have hlogs := logs_takeEffect x.state i p
    rw [requestWake_eq p hc]
    simp only [Bool.false_eq_true, if_false]
    split
    · rename_i hfit; exact .unprinted hfit hlogs
    · rename_i hfit
      refine .refused hfit ((logs_fail _ _ _).trans hlogs) (fail_outcome ?_ _ _)
      rw [report_takeEffect]
      exact ho hc
    · rename_i hfit
      refine .retained hfit rfl ?_
      obtain ⟨he, hob⟩ := Logs.mk.inj hlogs
      simp [resultOf, logs, Logs.add, he, hob]

/-- The controller's section behind the callback of `observe`. -/
theorem files_retain {value : Option Json} {l₁ l₂ l₃ : Bool}
    (ho : x.state.cancelled = false → x.state.report.outcome = .completed) :
    Files lib x (.observed value l₁ l₂ l₃)
      ((retain lib x.state value l₁ l₂ l₃).getD x.state) := by
  cases value with
  | none =>
    have hstops : (x.state.fail .observationFailed "observer threw").stops l₁ = true := rfl
    simp only [Files, offered, retain, Option.isNone_none, if_true]
    rw [if_pos (executionExpired_of_stops _ hstops)]
    simp
  | some v =>
    simp only [Files, offered, retain, Option.isNone_some, Bool.false_eq_true, if_false,
      Option.getD_some]
    cases hstops : x.state.stops l₁ with
    | true =>
      rw [if_pos (executionExpired_of_stops _ hstops)]
      simp
    | false =>
      obtain ⟨e, hc⟩ := executionExpired_of_not_stops "execution deadline during observer" hstops
      simp only [e, hc, Bool.or_self, Bool.false_eq_true, if_false, Bool.false_or]
      by_cases hshape : (!v.isObj || !inertJson v) = true
      · rw [if_pos hshape, if_pos hshape]
        exact logs_fail _ _ _
      rw [if_neg hshape, if_neg hshape]
      dsimp only
      split
      · rename_i hfit
        exact .unprinted hfit rfl
      · rename_i hfit
        exact .refused hfit (logs_fail _ _ _) (fail_outcome (ho hc) _ _)
      · rename_i hfit
        cases h₂ : l₂ && !x.state.executionEnded with
        | true =>
          obtain ⟨t, he, hlogs, hout⟩ :=
            executionExpired_late "execution deadline retaining observation" h₂ (ho hc)
          rw [he]
          exact .late hfit (by simp_all [tooLate]) hlogs hout
        | false =>
          rw [executionExpired_inTime "execution deadline retaining observation" h₂]
          simp only [Bool.false_eq_true, if_false]
          generalize ht : ({ x.state with
            observations := x.state.observations ++ [⟨x.state.report.decisions, v⟩] } : State) = t
          have hend : t.executionEnded = x.state.executionEnded := by rw [← ht]
          have hout : t.report.outcome = .completed := by rw [← ht]; exact ho hc
          have hadd : t.logs = x.state.logs.add (.observation ⟨x.state.report.decisions, v⟩) := by
            rw [← ht]; rfl
          cases h₃ : l₃ && !t.executionEnded with
          | true =>
            obtain ⟨u, he, hlogs, hout⟩ :=
              executionExpired_late "execution deadline after observation retention" h₃ hout
            obtain ⟨hev, hob⟩ := Logs.mk.inj (hlogs.trans hadd)
            rw [he]
            refine .late hfit (by simp_all [tooLate]) ?_ hout
            exact congrArg₂ Logs.mk hev (by rw [hob]; exact List.dropLast_concat)
          | false =>
            rw [executionExpired_inTime "execution deadline after observation retention" h₃]
            rw [hend] at h₃
            have hlate : x.tooLate (.observed (some v) l₁ l₂ l₃) = false := by
              simp only [tooLate, Bool.and_or_distrib_right, h₂, h₃, Bool.or_self]
            simp only [Bool.false_eq_true, if_false]
            split <;> exact .retained hfit hlate hadd

/-! ## The other sections -/

theorem logs_queryEnabled (s : State) (late : Bool) : (queryEnabled s late).2.logs = s.logs := by
  have h := logs_executionExpired s late "execution deadline before enabled query"
  simp only [queryEnabled]
  split
  · exact h
  split
  · exact (logs_fail _ _ _).trans h
  · exact h

theorem logs_passBarrier (x : Sys) (timeout late : Bool) :
    (x.passBarrier timeout late).state.logs = x.state.logs := by
  simp only [passBarrier, logs_executionExpired]
  split
  · exact logs_fail _ _ _
  · rfl

theorem logs_observeEnter (x : Sys) (k : Caller) (late : Bool) :
    (x.observeEnter k late).state.logs = x.state.logs := by
  simp only [observeEnter]
  split <;> exact logs_executionExpired _ _ _

theorem logs_advanceWake (x : Sys) (i : Nat) (timeout l₁ l₂ : Bool) :
    (x.advanceWake i timeout l₁ l₂).state.logs = x.state.logs := by
  simp only [advanceWake]
  have h₀ : (if timeout then x.state.fail .timedOut "actor did not reach resource boundary"
      else x.state).logs = x.state.logs := by split <;> simp
  generalize (if timeout then x.state.fail .timedOut "actor did not reach resource boundary"
    else x.state) = s at h₀ ⊢
  have h₁ := (logs_executionExpired s l₁ "execution deadline after actor boundary").trans h₀
  split
  · exact h₁
  split
  · exact (logs_executionExpired _ _ _).trans h₁
  · exact h₁

theorem logs_cleanup (x : Sys) (late : Bool) : (x.cleanup late).state.logs = x.state.logs := by
  have h := logs_executionExpired x.state late "execution deadline before cleanup"
  simp only [cleanup]
  split
  · rfl
  split
  · split
    · exact (logs_fail _ _ _).trans h
    · exact h
  · rfl

theorem logs_cleanupNext (x : Sys) (late : Bool) :
    (x.cleanupNext late).state.logs = x.state.logs := by
  unfold cleanupNext
  split
  · split
    · exact logs_cleanupExpired _
    · rfl
  split
  · split
    · exact logs_cleanupExpired _
    · rfl
  · rfl

theorem logs_cleanupJoined (x : Sys) (i : Nat) (l₁ l₂ : Bool) :
    (x.cleanupJoined i l₁ l₂).state.logs = x.state.logs := by
  refine (logs_cleanupNext _ l₂).trans ?_
  cases l₁ with
  | false => rfl
  | true => exact logs_cleanupExpired _

theorem logs_cleanupTorn (x : Sys) (threw late : Bool) :
    (x.cleanupTorn threw late).state.logs = x.state.logs := by
  have hs : (if x.impl.program.teardown then x.tornDown threw else x).state.logs =
      x.state.logs := by split <;> rfl
  simp only [cleanupTorn]
  cases late with
  | false => exact hs
  | true => exact (logs_cleanupExpired _).trans hs

theorem logs_workerStep {i : Nat} (h : x.workerStep lib i c = some y)
    (hwake : ∀ i, c ≠ .wake i) : y.state.logs = x.state.logs := by
  unfold workerStep at h
  split at h
  case h_3 => exact absurd rfl (hwake _)
  all_goals try (split at h)
  all_goals cases h
  all_goals first
    | rfl
    | exact logs_requestEnter _ _ _ _
    | exact logs_unwind _ _ _
    | exact logs_workerThrew _
    | exact logs_finishWorker _ _

/-- A failed run is cancelled, so a row is brought before anything failed. -/
theorem completed_of_live (hr : (lts lib).Reach x) (hc : x.state.cancelled = false) :
    x.state.report.outcome = .completed := by
  by_contra ho
  rw [cancelled_of_failed hr ho] at hc
  cases hc

theorem step_files (hr : (lts lib).Reach x) (h : x.step lib c = some y) :
    Files lib x c y.state := by
  have ho := completed_of_live hr
  cases c with
  | advance actor late =>
    simp only [step, Option.ite_none_right_eq_some, Option.some.injEq] at h
    obtain ⟨-, rfl⟩ := h
    exact files_advance ho
  | wake i =>
    simp only [step, Option.ite_none_right_eq_some, workerStep] at h
    obtain ⟨-, h⟩ := h
    split at h
    · rename_i f p hpc
      simp only [Option.ite_none_right_eq_some, Option.some.injEq] at h
      obtain ⟨-, rfl⟩ := h
      exact files_wake hpc ho
    · cases h
  | observed value l₁ l₂ l₃ =>
    simp only [step] at h
    split at h
    · cases h
      have hf : Files lib x (.observed value l₁ l₂ l₃) _ := files_retain ho
      simp only [observeLeave]
      cases hs : retain lib x.state value l₁ l₂ l₃ <;> rw [hs] at hf <;> exact hf
    · cases h
  | register i | request i | user i _ | stop i | release i | caught i | close i =>
    simp only [step, Option.ite_none_right_eq_some] at h
    exact logs_workerStep h.2 (by simp)
  | observe late =>
    simp only [step] at h
    split at h <;> cases h
    exact logs_observeEnter _ _ _
  | granted timeout l₁ l₂ =>
    simp only [step] at h
    split at h
    · simp only [Option.ite_none_right_eq_some, Option.some.injEq] at h
      obtain ⟨-, rfl⟩ := h
      exact logs_advanceWake _ _ _ _ _
    · cases h
  | joined late =>
    simp only [step] at h
    split at h
    · simp only [Option.ite_none_right_eq_some, Option.some.injEq] at h
      obtain ⟨-, rfl⟩ := h
      exact logs_executionExpired _ _ _
    · cases h
  | cleanupJoined l₁ l₂ =>
    simp only [step] at h
    split at h
    · simp only [Option.ite_none_right_eq_some, Option.some.injEq] at h
      obtain ⟨-, rfl⟩ := h
      exact logs_cleanupJoined _ _ _ _
    · cases h
  | spawn created =>
    simp only [step, Option.ite_none_right_eq_some, Option.some.injEq] at h
    obtain ⟨-, rfl⟩ := h
    cases created with
    | true => rfl
    | false => exact logs_fail x.state _ _
  | cleanupWake timeout late =>
    simp only [step, Option.ite_none_right_eq_some, Option.some.injEq] at h
    obtain ⟨-, rfl⟩ := h
    cases timeout with
    | true => exact logs_cleanupExpired _
    | false => exact logs_cleanupNext _ _
  | destroyEnd =>
    simp only [step, Option.ite_none_right_eq_some, Option.some.injEq] at h
    obtain ⟨-, rfl⟩ := h
    simp only [Files, offered, destroyEnd]
    split <;> rfl
  | _ =>
    simp only [step, Option.ite_none_right_eq_some, Option.some.injEq] at h
    obtain ⟨-, rfl⟩ := h
    first
      | rfl
      | exact logs_queryEnabled _ _
      | exact logs_passBarrier _ _ _
      | exact logs_cleanup _ _
      | exact logs_cleanupTorn _ _ _
      | exact logs_requestEnter _ _ _ _
      | exact logs_unwind _ _ _

/-! ## Runs -/

theorem policy_unwind (s : State) (i : Nat) (r : String) :
    (s.unwindRelease i r).policy = s.policy := by
  unfold unwindRelease
  split
  · rfl
  · split <;> rfl

theorem policy_finishWorker (s : State) (i : Nat) : (s.finishWorker i).policy = s.policy := by
  have h : (s.releaseAll i).policy = s.policy := by
    unfold releaseAll
    split
    · split
      · rfl
      · exact (quiet_fail s _ _).policy
    · rfl
  exact h

theorem policy_step (h : x.step lib c = some y) : y.state.policy = x.state.policy := by
  cases step_moves h with
  | control hr _ _ => exact hr.quiet.policy
  | grant i hctl hi he hq hc => exact hq.policy
  | request i f p hi hpc =>
    rcases requestEnter_cases x.state (.worker i) i p with ⟨e, -, -, -⟩ | ⟨t, e, hq, -⟩ <;> rw [e]
    · rfl
    · exact hq.policy
  | wake i f p hi hpc hw =>
    rcases requestWake_cases lib x.state i p with ⟨-, e⟩ | ⟨-, v, t, e, hq⟩ <;> rw [e]
    · rfl
    · refine hq.policy.trans ?_
      unfold takeEffect
      split <;> rfl
  | release i r hi hpc => exact policy_unwind _ _ _
  | caught i hi hpc => exact (quiet_workerThrew _).policy
  | close i hi hpc => exact policy_finishWorker _ _
  | foreignRequest i k p hi =>
    rcases requestEnter_cases x.state (.other k) i p with ⟨e, -, -, -⟩ | ⟨t, e, hq, -⟩ <;> rw [e]
    · rfl
    · exact hq.policy
  | foreignRelease i r hi => exact policy_unwind _ _ _
  | _ => rfl

theorem grantRow_utf8 {i : Nat} (hS : Static x) (hi : i < x.state.actors.length)
    (hp : Text.ascii (x.state.actor i).pending.resource = true) :
    (x.state.grantRow i).toJson.utf8 = true := by
  have hname : ∀ j, j < x.state.actors.length → Text.utf8 (x.state.actor j).id = true :=
    fun j hj => Text.utf8_of_ascii (identifier_ascii (hS.actors _ (id_actor_mem hj)))
  have hids : Json.utf8Elems (x.state.enabledIds.map .str) = true := by
    rw [Json.utf8Elems_iff]
    intro v hv
    obtain ⟨id, hid, rfl⟩ := List.mem_map.mp hv
    obtain ⟨j, hj, rfl⟩ := List.mem_map.mp hid
    rw [Json.utf8_str]
    exact hname j (List.mem_range.mp (List.mem_filter.mp hj).1)
  have hop := Text.utf8_of_ascii (opName_ascii (x.state.actor i).pending.op)
  have hr := Text.utf8_of_ascii hp
  have hkeys : Text.utf8 "actor" ∧ Text.utf8 "enabled" ∧ Text.utf8 "kind" ∧ Text.utf8 "grant" ∧
      Text.utf8 "operation" ∧ Text.utf8 "ordinal" ∧ Text.utf8 "resource" := by decide
  simp [grantRow, Event.toJson, Json.utf8Members, hname i hi, hids, hop, hr, hkeys]

/-- An event always prints. -/
theorem offered_prints (hr : (lts lib).Reach x) (hs : x.step lib c = some y) {e : Event}
    (h : x.offered c = some (.event e)) : e.toJson.utf8 = true := by
  have H := Handshake.reach hr
  have hS := Static.reach hr
  cases c with
  | advance actor late =>
    simp only [offered, Option.ite_none_left_eq_some, Bool.or_eq_true, decide_eq_true_eq,
      Bool.not_eq_true', not_or, Bool.not_eq_true, Bool.not_eq_false, Option.some.injEq,
      Row.event.injEq] at h
    obtain ⟨⟨⟨⟨hstops, hne⟩, hen⟩, -⟩, rfl⟩ := h
    simp only [stops, Bool.or_eq_false_iff] at hstops
    have hle : find x.state actor ≤ x.state.actors.length := List.findIdx_le_length
    have hpark : (x.state.actor (find x.state actor)).parked = true := by
      by_contra hn
      simp [enabled, hn] at hen
    -- an enabled actor waits in the request it published
    obtain ⟨f, p, hpc⟩ := H.parked hstops.1 _ hpark
    refine grantRow_utf8 hS (lt_of_le_of_ne hle hne) ?_
    rw [H.pending _ f p hpc]
    exact (Texts.reach hr hstops.1).waiting _ f p hpc
  | wake i =>
    simp only [step, Option.ite_none_right_eq_some] at hs
    simp only [offered] at h
    split at h
    · rename_i f p hpc
      simp only [Option.ite_none_left_eq_some, Bool.not_eq_true, Option.some.injEq,
        Row.event.injEq] at h
      obtain ⟨hc, rfl⟩ := h
      exact resultRow_utf8 hS (lt_of_lt_of_le hs.1 H.pcs_le)
        ((Texts.reach hr hc).waiting _ f p hpc) _
    · cases h
  | observed value l₁ l₂ l₃ =>
    cases value with
    | none => cases h
    | some v =>
      simp only [offered, Option.ite_none_left_eq_some, Option.some.injEq] at h
      obtain ⟨-, h⟩ := h
      cases h
  | _ => cases h

/-- The arrays print, within the budget of a policy the constructor accepts. -/
theorem size_reach (h : (lts lib).Reach x) : ∃ n, x.state.logs.size lib = some n ∧
    (x.state.policy.valid = true → n ≤ x.state.policy.maxEvidenceBytes) := by
  induction h with
  | init hi =>
    have hf := (initial_of_init hi).fresh
    refine ⟨4, ?_, fun hv => ?_⟩
    · simp only [logs, hf.events, hf.observations, Logs.size_empty]
    · simp only [Policy.valid, decide_eq_true_eq] at hv
      omega
  | @step x y c hr _ hs ih =>
    obtain ⟨n, hn, hle⟩ := ih
    have hp := policy_step hs
    have hf := step_files hr hs
    have keep : y.state.logs = x.state.logs → ∃ n, y.state.logs.size lib = some n ∧
        (y.state.policy.valid = true → n ≤ y.state.policy.maxEvidenceBytes) := fun hl =>
      ⟨n, by rw [hl, hn], by rw [hp]; exact hle⟩
    unfold Files at hf
    split at hf
    · exact keep hf
    · cases hf with
      | unprinted _ hl => exact keep hl
      | refused _ hl _ => exact keep hl
      | late _ _ hl _ => exact keep hl
      | retained hfit _ hl =>
        rw [evidenceFits_eq hn, Option.map_eq_some_iff] at hfit
        obtain ⟨m, hm, hle⟩ := hfit
        exact ⟨m, by rw [hl, hm], fun _ => by rw [hp]; exact of_decide_eq_true hle⟩

/-- What the budget does with an offered row. -/
structure Budgeted (lib : JsonLib) (x : Sys) (c : Choice) (y : Sys) (row : Row) : Prop where
  retained : y.state.logs = x.state.logs.add row ↔
    (x.state.logs.add row).fits lib x.state.policy.maxEvidenceBytes = true ∧ x.tooLate c = false
  refused : (x.state.logs.add row).fits lib x.state.policy.maxEvidenceBytes = false →
    y.state.logs = x.state.logs ∧
      (row.toJson.utf8 = true → y.state.report.outcome = .evidenceExhausted)
  late : (x.state.logs.add row).fits lib x.state.policy.maxEvidenceBytes = true →
    x.tooLate c = true → y.state.logs = x.state.logs ∧ y.state.report.outcome = .timedOut
  event : ∀ e, row = .event e → e.toJson.utf8 = true ∧ x.tooLate c = false

theorem Filed.budgeted {n : Nat} (hn : x.state.logs.size lib = some n)
    (hf : Filed lib x c row y.state)
    (hev : ∀ e, row = .event e → e.toJson.utf8 = true ∧ x.tooLate c = false) :
    Budgeted lib x c y row := by
  have hfits : (x.state.logs.add row).fits lib x.state.policy.maxEvidenceBytes =
      (x.state.evidenceFits lib (x.state.logs.vacant row) row.toJson).any id := by
    rw [evidenceFits_eq hn, Logs.fits, Option.any_map]
    rfl
  have hne : x.state.logs ≠ x.state.logs.add row := fun h => Logs.add_ne h.symm
  cases hf with
  | unprinted hfit hl =>
    rw [hfit] at hfits
    refine ⟨?_, fun _ => ⟨hl, fun hu => ?_⟩, fun h => ?_, hev⟩
    · simp [hl, hne, hfits]
    · rw [evidenceFits_eq hn, Logs.size_add hn, lib.dumpSize_eq_some hu] at hfit
      cases hfit
    · rw [hfits] at h; cases h
  | refused hfit hl ho =>
    rw [hfit] at hfits
    refine ⟨?_, fun _ => ⟨hl, fun _ => ho⟩, fun h => ?_, hev⟩
    · simp [hl, hne, hfits]
    · rw [hfits] at h; cases h
  | late hfit hlate hl ho =>
    rw [hfit] at hfits
    refine ⟨?_, fun h => ?_, fun _ _ => ⟨hl, ho⟩, hev⟩
    · simp [hl, hne, hlate]
    · rw [hfits] at h; cases h
  | retained hfit hlate hl =>
    rw [hfit] at hfits
    refine ⟨?_, fun h => ?_, fun _ h => ?_, hev⟩
    · simp [hl, hfits, hlate]
    · rw [hfits] at h; cases h
    · rw [hlate] at h; cases h

/-- **The budget of the receipt is exact.** The two arrays never outgrow it; a row that would
outgrow it leaves them alone and ends the run with `evidence_exhausted`; any other row is
appended, unless it is an observation the execution got late for. -/
theorem receipt_budget (hr : (lts lib).Reach x) :
    (x.state.policy.valid = true →
      x.state.logs.fits lib x.state.policy.maxEvidenceBytes = true) ∧
    ∀ c y, x.step lib c = some y →
      (x.offered c = none → y.state.logs = x.state.logs) ∧
        ∀ row, x.offered c = some row → Budgeted lib x c y row := by
  obtain ⟨n, hn, hle⟩ := size_reach hr
  refine ⟨fun hv => by simp [Logs.fits, hn, hle hv], fun c y hs => ?_⟩
  have hf := step_files hr hs
  unfold Files at hf
  refine ⟨fun ho => by rw [ho] at hf; exact hf, fun row ho => ?_⟩
  rw [ho] at hf
  refine hf.budgeted hn fun e he => ?_
  subst he
  refine ⟨offered_prints hr hs ho, ?_⟩
  cases c with
  | observed value l₁ l₂ l₃ =>
    cases value with
    | none => cases ho
    | some v =>
      simp only [offered, Option.ite_none_left_eq_some, Option.some.injEq] at ho
      obtain ⟨-, ho⟩ := ho
      cases ho
  | _ => rfl

/-! ## The first observation, in time and late -/

/-- The sample before the observer returns, and the next state. -/
def firstReturn (late : Bool) : Option (Sys × Sys) := do
  let x ← sampleRun opening.dropLast
  let y ← x.step Compact.lib (.observed (some (.obj [])) false late false)
  return (x, y)

theorem reach_firstReturn {late : Bool} (h : firstReturn late = some (x, y)) :
    (lts Compact.lib).Reach x ∧
      x.step Compact.lib (.observed (some (.obj [])) false late false) = some y := by
  simp only [firstReturn, Option.bind_eq_bind, Option.bind_eq_some_iff, Option.pure_def,
    Option.some.injEq, Prod.mk.injEq] at h
  obtain ⟨z, hz, w, hw, rfl, rfl⟩ := h
  exact ⟨reach_sampleRun hz, hw⟩

theorem firstReturn_inTime : (firstReturn false).map (fun (x, y) =>
      ((x.offered (.observed (some (.obj [])) false false false)).isSome, x.state.policy.valid,
        y.state.logs.observations.length)) = some (true, true, 1) := by decide +kernel

theorem receipt_budget_inTime : ∃ x y : Sys,
    x.state.logs.fits Compact.lib x.state.policy.maxEvidenceBytes = true ∧
      ∃ row, Budgeted Compact.lib x (.observed (some (.obj [])) false false false) y row := by
  obtain ⟨⟨x, y⟩, hxy, e⟩ := Option.map_eq_some_iff.mp firstReturn_inTime
  simp only [Prod.mk.injEq] at e
  obtain ⟨hoff, hvalid, -⟩ := e
  obtain ⟨hr, hs⟩ := reach_firstReturn hxy
  obtain ⟨row, hrow⟩ := Option.isSome_iff_exists.mp hoff
  have h := receipt_budget hr
  exact ⟨x, y, h.1 hvalid, row, (h.2 _ y hs).2 row hrow⟩

theorem firstReturn_late : (firstReturn true).map (fun (x, y) =>
      ((x.offered (.observed (some (.obj [])) false true false)).map fun row =>
        ((x.state.logs.add row).fits Compact.lib x.state.policy.maxEvidenceBytes,
          (x.state.logs.add row).observations.length),
      y.state.logs.observations.length, y.state.report.outcome)) =
    some (some (true, 1), 0, .timedOut) := by decide +kernel

/-- An execution refused for its policy has no bytes for two empty arrays, and a late observation
stays out although it would fit. -/
theorem receipt_budget_exceptions :
    (¬∀ x, (lts Compact.lib).Reach x →
      x.state.logs.fits Compact.lib x.state.policy.maxEvidenceBytes = true) ∧
    ¬∀ x c y row, (lts Compact.lib).Reach x → x.step Compact.lib c = some y →
      x.offered c = some row → (y.state.logs = x.state.logs.add row ↔
        (x.state.logs.add row).fits Compact.lib x.state.policy.maxEvidenceBytes = true) := by
  constructor
  · intro h
    have := h (construct sampleAdapter { maxEvidenceBytes := 0 } false false)
      (.init ⟨sampleAdapter, { maxEvidenceBytes := 0 }, false, false, rfl⟩)
    revert this
    decide +kernel
  · intro h
    obtain ⟨⟨x, y⟩, hxy, e⟩ := Option.map_eq_some_iff.mp firstReturn_late
    simp only [Prod.mk.injEq] at e
    obtain ⟨hrow, hnone, -⟩ := e
    obtain ⟨hr, hs⟩ := reach_firstReturn hxy
    obtain ⟨row, ho, hrow⟩ := Option.map_eq_some_iff.mp hrow
    obtain ⟨hfits, hone⟩ := Prod.mk.inj hrow
    rw [(h x _ y row hr hs ho).mpr hfits, hone] at hnone
    cases hnone

end Sys

end MirrorCpp.Sync
