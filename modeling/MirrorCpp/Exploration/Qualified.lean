import MirrorCpp.Exploration.Evidence
import MirrorCpp.Exploration.CanonicalKey
import Mathlib.Data.List.Perm.Subperm

/-!
# Evidence that qualifies

What the checks of a sample accept, without the order in which they look: the members an
execution must have, the events of its steps, and the variables of the states it observed.
-/

namespace MirrorCpp.Exploration

open Schedule Itf Fallible

theorem read_ok {α : Type} {a : Except JsonFault α} {x : α} : read a = .ok x ↔ a = .ok x := by
  cases a <;> simp [read]

section
variable (lib : JsonLib)

/-- The member of that name equals the value. -/
def Holds (j : Json) (key : String) (value : Json) : Prop :=
  ∃ x, j.field? key = some x ∧ lib.eq x value = true

/-- The permit of the `i`-th step. -/
structure IsPermit (event : Json) (i : Nat) (step : Step) : Prop where
  ordinal : Holds lib event "ordinal" (.int (i * 2 : Nat))
  index : Holds lib event "step" (.int i)
  actor : event.field? "actor" = some (.str step.actor)
  kind : event.field? "kind" = some (.str "permit")

/-- The arrival that ends it. -/
structure IsArrival (event : Json) (i : Nat) (step : Step) : Prop where
  ordinal : Holds lib event "ordinal" (.int (i * 2 + 1 : Nat))
  index : Holds lib event "step" (.int i)
  actor : event.field? "actor" = some (.str step.actor)
  kind : event.field? "kind" = some (.str "arrival")
  checkpoint : event.field? "checkpoint" = some (.str step.checkpoint)

/-- One permit and one arrival for each step, in order, and no other event. -/
def Accepted (events : List Json) (steps : List Step) : Prop :=
  events.length = steps.length * 2 ∧ ∀ i step, steps[i]? = some step →
    ∃ permit arrival, events[i * 2]? = some permit ∧ events[i * 2 + 1]? = some arrival ∧
      IsPermit lib permit i step ∧ IsArrival lib arrival i step

end

variable {lib : JsonLib} {j : Json} {key : String}

theorem field_eq_ok {v : Json} : j.field key = .ok v ↔ j.field? key = some v := by
  refine ⟨Json.field_ok, fun h => ?_⟩
  cases j with
  | obj ms =>
    unfold Json.field
    dsimp only
    rw [show ms.lookup key = some v from h]
  | _ => cases h

theorem holds_str {s : String} : Holds lib j key (.str s) ↔ j.field? key = some (.str s) := by
  constructor
  · rintro ⟨x, hx, he⟩
    rw [hx, (lib.eq_str x s).mp he]
  · exact fun h => ⟨_, h, (lib.eq_str _ s).mpr rfl⟩

theorem holds_bool {b : Bool} : Holds lib j key (.bool b) ↔ j.field? key = some (.bool b) := by
  constructor
  · rintro ⟨x, hx, he⟩
    rw [hx, (lib.eq_bool x b).mp he]
  · exact fun h => ⟨_, h, (lib.eq_bool _ b).mpr rfl⟩

theorem holds_int {n : Int} (h : j.field? key = some (.int n)) : Holds lib j key (.int n) :=
  ⟨_, h, lib.eq_int_self n⟩

/-- A comparison of members holds when each of them does. -/
theorem agrees_ok {ms : List (String × Json)} :
    agrees lib j ms = .ok true ↔ ∀ m ∈ ms, Holds lib j m.1 m.2 := by
  induction ms with
  | nil => simp [agrees]
  | cons m ms ih =>
    obtain ⟨k, v⟩ := m
    rw [List.forall_mem_cons, ← ih, agrees]
    simp only [bind_eq_ok, read_ok, field_eq_ok, Holds]
    constructor
    · rintro ⟨x, hx, h⟩
      split at h
      · rename_i he
        exact ⟨⟨x, hx, he⟩, h⟩
      · cases h
    · rintro ⟨⟨x, hx, he⟩, h⟩
      exact ⟨x, hx, by rw [if_pos he, h]⟩

theorem agrees_one {v : Json} : agrees lib j [(key, v)] = .ok true ↔ Holds lib j key v := by
  rw [agrees_ok, List.forall_mem_singleton]

/-- A required comparison. -/
theorem require_agrees {ms : List (String × Json)} {w : String} {u : Unit} :
    (do require (← agrees lib j ms) w) = .ok u ↔ ∀ m ∈ ms, Holds lib j m.1 m.2 := by
  rw [← agrees_ok, bind_eq_ok]
  constructor
  · rintro ⟨b, hb, h⟩
    rw [require_ok] at h
    rw [hb, h]
  · exact fun h => ⟨true, h, rfl⟩

theorem cleanupKnown_ok : cleanupKnown lib j = .ok true ↔
    j.field? "cleanup" = some (.str "confirmed") ∧
      ∃ x, j.field? "remainingActors" = some x ∧ x.isEmpty = true := by
  rw [← @holds_str lib, ← agrees_one]
  unfold cleanupKnown
  rw [bind_eq_ok]
  constructor
  · rintro ⟨b, hb, h⟩
    cases b with
    | false => cases h
    | true =>
      obtain ⟨x, hx, he⟩ := map_eq_ok.mp h
      exact ⟨hb, x, field_eq_ok.mp (read_ok.mp hx), he⟩
  · rintro ⟨hb, x, hx, he⟩
    exact ⟨true, hb, map_eq_ok.mpr ⟨x, read_ok.mpr (field_eq_ok.mpr hx), he⟩⟩

/-! ## The events of the steps -/

theorem index_eq_ok {events : List Json} {i : Nat} {v : Json} :
    (Json.arr events).index i = .ok v ↔ events[i]? = some v := by
  dsimp only [Json.index]
  cases events[i]? <;> simp

theorem validatePermit_ok {events : List Json} {i : Nat} {step : Step} :
    validateEvent lib (.arr events) i step 0 = .ok () ↔
      ∃ permit, events[i * 2]? = some permit ∧ IsPermit lib permit i step := by
  unfold validateEvent
  simp only [bind_eq_ok, read_ok, index_eq_ok, Nat.add_zero]
  refine exists_congr fun permit => and_congr_right fun _ => ?_
  constructor
  · rintro ⟨b, hb, u, hu, b', hb', u', hu', -⟩
    have h := require_agrees.mp (bind_eq_ok.mpr ⟨b, hb, hu⟩)
    have h' := require_agrees.mp (bind_eq_ok.mpr ⟨b', hb', hu'⟩)
    simp only [List.forall_mem_cons, if_true, List.not_mem_nil, false_implies, implies_true,
      and_true] at h h'
    exact ⟨h.1, h.2.1, holds_str.mp h.2.2, holds_str.mp h'⟩
  · rintro ⟨h1, h2, h3, h4⟩
    have h : agrees lib permit [("ordinal", .int (i * 2 : Nat)), ("step", .int i),
        ("actor", .str step.actor)] = .ok true := by
      rw [agrees_ok]
      simp only [List.forall_mem_cons, List.not_mem_nil, false_implies, implies_true, and_true]
      exact ⟨h1, h2, holds_str.mpr h3⟩
    exact ⟨true, h, (), rfl, true, agrees_one.mpr (holds_str.mpr h4), (), rfl, rfl⟩

theorem validateArrival_ok {events : List Json} {i : Nat} {step : Step} :
    validateEvent lib (.arr events) i step 1 = .ok () ↔
      ∃ arrival, events[i * 2 + 1]? = some arrival ∧ IsArrival lib arrival i step := by
  unfold validateEvent
  simp only [bind_eq_ok, read_ok, index_eq_ok]
  refine exists_congr fun arrival => and_congr_right fun _ => ?_
  constructor
  · rintro ⟨b, hb, u, hu, b', hb', u', hu', hlast⟩
    have h := require_agrees.mp (bind_eq_ok.mpr ⟨b, hb, hu⟩)
    have h' := require_agrees.mp (bind_eq_ok.mpr ⟨b', hb', hu'⟩)
    have h'' := require_agrees.mp hlast
    simp only [List.forall_mem_cons, List.not_mem_nil, false_implies, implies_true,
      and_true, Nat.one_ne_zero, if_false] at h h' h''
    exact ⟨h.1, h.2.1, holds_str.mp h.2.2, holds_str.mp h', holds_str.mp h''⟩
  · rintro ⟨h1, h2, h3, h4, h5⟩
    have h : agrees lib arrival [("ordinal", .int (i * 2 + 1 : Nat)), ("step", .int i),
        ("actor", .str step.actor)] = .ok true := by
      rw [agrees_ok]
      simp only [List.forall_mem_cons, List.not_mem_nil, false_implies, implies_true, and_true]
      exact ⟨h1, h2, holds_str.mpr h3⟩
    refine ⟨true, h, (), rfl, true, agrees_one.mpr (holds_str.mpr h4), (), rfl, ?_⟩
    rw [if_pos trivial]
    exact bind_eq_ok.mpr ⟨true, agrees_one.mpr (holds_str.mpr h5), rfl⟩

theorem validateSteps_ok {events : List Json} {steps : List Step} : ∀ {i : Nat},
    validateSteps lib (.arr events) i steps = .ok () ↔ ∀ k step, steps[k]? = some step →
      ∃ permit arrival, events[(i + k) * 2]? = some permit ∧
        events[(i + k) * 2 + 1]? = some arrival ∧
        IsPermit lib permit (i + k) step ∧ IsArrival lib arrival (i + k) step := by
  induction steps with
  | nil => simp [validateSteps]
  | cons step steps ih =>
    intro i
    rw [validateSteps, then_eq_ok, then_eq_ok, validatePermit_ok, validateArrival_ok, ih]
    constructor
    · rintro ⟨⟨permit, hp, hpermit⟩, ⟨arrival, ha, harrival⟩, h⟩ k st hk
      cases k with
      | zero =>
        obtain rfl : step = st := Option.some.inj hk
        exact ⟨permit, arrival, hp, ha, hpermit, harrival⟩
      | succ k =>
        have := h k st hk
        rwa [Nat.add_right_comm] at this
    · intro h
      obtain ⟨permit, arrival, hp, ha, hpermit, harrival⟩ := h 0 step rfl
      refine ⟨⟨permit, hp, hpermit⟩, ⟨arrival, ha, harrival⟩, fun k st hk => ?_⟩
      have := h (k + 1) st hk
      rwa [show i + (k + 1) = i + 1 + k by omega] at this

/-- **What `validateSuccess` accepts**: a completed execution with the events of the schedule and
one observation more than it has steps. -/
theorem validateSuccess_ok {schedule : Schedule} : validateSuccess lib j schedule = .ok () ↔
    j.field? "scheduleCompleted" = some (.bool true) ∧
    j.field? "outcome" = some (.str "completed") ∧
    (∃ events, j.field? "events" = some (.arr events) ∧ Accepted lib events schedule.steps) ∧
    ∃ observations, j.field? "observations" = some observations ∧
      observations.size = schedule.steps.length + 1 := by
  unfold validateSuccess
  simp only [bind_eq_ok, read_ok, field_eq_ok, require_ok, Bool.and_eq_true, beq_iff_eq]
  constructor
  · rintro ⟨b, hb, _, rfl, events, hev, _, ⟨harr, hsize⟩, _, hsteps, observations, hobs, hlen⟩
    rw [agrees_ok] at hb
    simp only [List.forall_mem_cons, List.not_mem_nil, false_implies, implies_true, and_true,
      holds_str, holds_bool] at hb
    cases events with
    | arr events =>
      have h := validateSteps_ok.mp hsteps
      simp only [Nat.zero_add] at h
      exact ⟨hb.1, hb.2, ⟨events, hev, hsize, h⟩, observations, hobs, hlen⟩
    | _ => cases harr
  · rintro ⟨hc, ho, ⟨events, hev, hsize, h⟩, observations, hobs, hlen⟩
    refine ⟨true, agrees_ok.mpr ?_, (), rfl, _, hev, (), ⟨rfl, hsize⟩, (),
      validateSteps_ok.mpr ?_, observations, hobs, hlen⟩
    · simp only [List.forall_mem_cons, List.not_mem_nil, false_implies, implies_true, and_true]
      exact ⟨holds_bool.mpr hc, holds_str.mpr ho⟩
    · simpa only [Nat.zero_add] using h

/-! ## Identities and observations -/

section
variable {lib : Libraries} {space : FiniteSpace} {executions : List String} {printed : Json}

/-- What binds an execution to a schedule. -/
structure Bound (lib : Libraries) (space : FiniteSpace) (printed execution : Json) : Prop where
  schema : execution.field? "schema" = some (.str receiptSchema)
  schedule : Holds lib.toJsonLib execution "schedule" printed
  actors : ∃ actors, execution.field? "actors" = some actors ∧
    actorMap actors = .ok (declarations space)

theorem bound_ok {id : String} (h : bound lib space executions printed j = .ok id) :
    Bound lib space printed j ∧ j.field? "executionId" = some (.str id) ∧ id ∉ executions := by
  unfold bound at h
  simp only [bind_eq_ok, read_ok, field_eq_ok, require_ok, Bool.and_eq_true,
    beq_iff_eq, Bool.not_eq_true', List.contains_eq_mem, decide_eq_false_iff_not, pure_eq] at h
  obtain ⟨b, hb, _, rfl, m, ⟨actors, hactors, hm⟩, _, rfl, id', ⟨x, hx, hid⟩, _, ⟨-, hnew⟩, he⟩ :=
    h
  cases he
  rw [agrees_ok] at hb
  simp only [List.forall_mem_cons, List.not_mem_nil, false_implies, implies_true, and_true,
    holds_str] at hb
  exact ⟨⟨hb.1, hb.2, actors, hactors, hm⟩, (Json.getStr_ok hid) ▸ hx, hnew⟩

/-- An observation of exactly the declared variables, behind the given number of steps. -/
structure Projects (lib : Libraries) (space : FiniteSpace) (observation : Json) (i : Nat) :
    Prop where
  after : Holds lib.toJsonLib observation "afterSteps" (.int i)
  state : ∃ x state, observation.field? "state" = some x ∧ decodeState lib.late x = .ok state ∧
    (state.map Prod.fst).Perm (space.stateVariables ++ space.instrumentationVariables)

theorem lookup_isSome_mem {s : State} {key : String} (h : (s.lookup key).isSome = true) :
    key ∈ s.map Prod.fst := by
  rw [List.lookup_isSome_iff] at h
  obtain ⟨m, hm, he⟩ := h
  exact List.mem_map.mpr ⟨m, hm, (beq_iff_eq.mp he).symm⟩

theorem observed_ok (hn : (space.stateVariables ++ space.instrumentationVariables).Nodup)
    {observations : List Json} {i : Nat} {text : String}
    (h : observed lib space (.arr observations) i = .ok text) :
    ∃ observation, observations[i]? = some observation ∧ Projects lib space observation i := by
  unfold observed at h
  simp only [bind_eq_ok, read_ok, index_eq_ok, field_eq_ok, require_ok, beq_iff_eq,
    List.all_eq_true] at h
  obtain ⟨observation, hobs, b, hb, _, rfl, state, ⟨x, hx, hdecode⟩, _, hlen, _, hinstr, _, hbase,
    -⟩ := h
  refine ⟨observation, hobs, agrees_one.mp hb, x, state, hx, hdecode, ?_⟩
  have hsub : space.stateVariables ++ space.instrumentationVariables ⊆ state.map Prod.fst := by
    intro key hkey
    rcases List.mem_append.mp hkey with hkey | hkey
    · have := lookup_isSome_mem (hbase key hkey)
      exact List.map_subset _ (List.filter_subset_self state) this
    · exact lookup_isSome_mem (hinstr key hkey)
  refine ((List.subperm_of_subset hn hsub).perm_of_length_le ?_).symm
  rw [List.length_map, hlen, List.length_append]

end

end MirrorCpp.Exploration
