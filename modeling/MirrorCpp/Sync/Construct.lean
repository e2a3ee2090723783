import MirrorCpp.Sync.Frame

/-!
# The constructor

`Fresh` is what the sequential part of the constructor leaves: distinct declared names, no
owner, nothing queued, nothing logged. Where a check refused, the execution is cancelled before
its first thread.
-/

namespace MirrorCpp.Sync

open State

structure Fresh (s : State) : Prop where
  actors : ∀ a ∈ s.actors, a = { id := a.id } ∧ identifier a.id = true
  actorIds : (s.actors.map (·.id)).Nodup
  resources : ∀ o ∈ s.resources, o.owner = none ∧ o.queue = [] ∧ o.declaration.valid = true
  resourceIds : (s.resources.map (·.declaration.id)).Nodup
  hist : s.hist = []
  events : s.events = []
  observations : s.observations = []
  report : s.report.finished = false ∧ s.report.decisions = 0 ∧ s.report.cleanup = .notStarted
  ended : s.executionEnded = false

namespace Fresh

variable {s t : State}

theorem empty (p : Policy) : Fresh { actors := [], resources := [], policy := p } where
  actors _ h := absurd h List.not_mem_nil
  actorIds := .nil
  resources _ h := absurd h List.not_mem_nil
  resourceIds := .nil
  hist := rfl
  events := rfl
  observations := rfl
  report := ⟨rfl, rfl, rfl⟩
  ended := rfl

/-- A failure leaves everything else fresh. -/
theorem fail (h : Fresh s) (o : Outcome) (d : String) : Fresh (s.fail o d) := by
  have hq := quiet_fail s o d
  refine ⟨by simpa [hq.actors] using h.actors, by simpa [hq.actors] using h.actorIds,
    by simpa [hq.resources] using h.resources, by simpa [hq.resources] using h.resourceIds,
    by simpa [hq.hist] using h.hist, ?_, ?_, ?_, ?_⟩ <;> unfold State.fail <;> split
  · exact h.events
  · exact h.events
  · exact h.observations
  · exact h.observations
  · exact h.report
  · exact h.report
  · exact h.ended
  · exact h.ended

theorem budget (h : Fresh s) (b : Bool) :
    Fresh { s with report := { s.report with executionBudgetExceeded := b } } :=
  ⟨h.actors, h.actorIds, h.resources, h.resourceIds, h.hist, h.events, h.observations, h.report,
    h.ended⟩

theorem executionExpired (h : Fresh s) (late : Bool) (w : String) :
    Fresh (s.executionExpired late w).2 := by
  unfold State.executionExpired
  split
  · exact h
  · exact (h.budget true).fail _ _

theorem actor (h : Fresh s) (i : Nat) : s.actor i = { id := (s.actor i).id } := by
  by_cases hi : i < s.actors.length
  · exact (h.actors _ (actor_mem hi)).1
  · rw [actor_of_ge (by omega)]

theorem addActor (h : Fresh s) {id : String} (hid : identifier id = true)
    (hnew : ∀ a ∈ s.actors, a.id ≠ id) : Fresh { s with actors := s.actors ++ [{ id := id }] } := by
  refine ⟨?_, ?_, h.resources, h.resourceIds, h.hist, h.events, h.observations, h.report, h.ended⟩
  · intro a ha
    rcases List.mem_append.mp ha with ha | ha
    · exact h.actors a ha
    · obtain rfl := List.mem_singleton.mp ha
      exact ⟨rfl, hid⟩
  · simp only [List.map_append, List.map_cons, List.map_nil]
    refine List.Nodup.append h.actorIds (by simp) ?_
    simpa using hnew

theorem addResource (h : Fresh s) {r : Resource} (hr : r.valid = true)
    (hnew : s.resource? r.id = none) :
    Fresh { s with
      resources := s.resources.orderedInsert (·.declaration.id ≤ ·.declaration.id)
        ⟨r, none, []⟩ } := by
  have hp := List.perm_orderedInsert (fun o o' : Owned => o.declaration.id ≤ o'.declaration.id)
    ⟨r, none, []⟩ s.resources
  refine ⟨h.actors, h.actorIds, ?_, ?_, h.hist, h.events, h.observations, h.report, h.ended⟩
  · intro o ho
    rcases List.mem_cons.mp (hp.mem_iff.mp ho) with rfl | ho
    · exact ⟨rfl, rfl, hr⟩
    · exact h.resources o ho
  · rw [(hp.map _).nodup_iff, List.map_cons, List.nodup_cons]
    refine ⟨?_, h.resourceIds⟩
    intro hmem
    obtain ⟨o, ho, hid⟩ := List.mem_map.mp hmem
    have := List.find?_eq_none.mp hnew o ho
    simp only at hid
    simp [hid] at this

theorem admitActors (h : Fresh s) (ids : List String) : Fresh (Sys.admitActors s ids).2 := by
  induction ids generalizing s with
  | nil => exact h
  | cons id ids ih =>
    unfold Sys.admitActors
    split
    · exact h
    · rename_i hid
      simp only [Bool.or_eq_true, Bool.not_eq_true', not_or, Bool.not_eq_false,
        List.any_eq_true, beq_iff_eq, not_exists, not_and] at hid
      exact ih (h.addActor hid.1 hid.2)

theorem admitResources (h : Fresh s) (rs : List Resource) : Fresh (Sys.admitResources s rs).2 := by
  induction rs generalizing s with
  | nil => exact h
  | cons r rs ih =>
    unfold Sys.admitResources
    split
    · exact h
    · rename_i hr
      simp only [Bool.or_eq_true, Bool.not_eq_true', not_or, Bool.not_eq_false,
        Option.not_isSome_iff_eq_none] at hr
      exact ih (h.addResource hr.1 hr.2)

theorem declared (a : Adapter) (p : Policy) : Fresh (Sys.declared a p).2 := by
  have hA := (empty p).admitActors (a.actors.insertionSort (· ≤ ·))
  have hR := hA.admitResources a.resources
  simp only [Sys.declared]
  split
  · exact empty p
  split
  · exact hA
  split <;> exact hR

end Fresh

namespace Sys

/-- A fresh execution has no thread yet; it was cancelled, or is about to start them. -/
structure Initial (x : Sys) : Prop where
  fresh : Fresh x.state
  workers : x.impl.workers = []
  untorn : x.impl.teardownAttempted = false ∧ x.impl.teardowns = [] ∧ x.impl.observing = false
  start : (x.state.cancelled = true ∧ x.state.report.outcome ≠ .completed ∧ x.pcs = [] ∧
      x.ctl = .idle) ∨
    (x.state.cancelled = false ∧ x.state.report.outcome = .completed ∧ x.impl.acquired = true ∧
      x.impl.program.teardown = true ∧
      x.pcs = x.state.actors.map (fun _ => .unborn) ∧ x.ctl = .spawning)
  nonempty : x.state.cancelled = false → 0 < x.state.actors.length

theorem initial_unstarted {s : State} {impl : Impl} (h : Fresh s) (hc : s.cancelled = true)
    (ho : s.report.outcome ≠ .completed) (hi : impl.workers = [] ∧
      impl.teardownAttempted = false ∧ impl.teardowns = [] ∧ impl.observing = false) :
    Initial (unstarted s impl) :=
  ⟨h, hi.1, hi.2, .inl ⟨hc, ho, rfl, rfl⟩, fun hn => absurd (hc.symm.trans hn) (by simp)⟩

theorem outcome_fail (s : State) {o : Outcome} (d : String) (ho : o ≠ .completed) :
    (s.fail o d).report.outcome ≠ .completed := by
  unfold State.fail
  split
  · exact ho
  · assumption

theorem admitActors_report (s : State) (ids : List String) :
    (admitActors s ids).2.report = s.report ∧ (admitActors s ids).2.cancelled = s.cancelled := by
  induction ids generalizing s with
  | nil => exact ⟨rfl, rfl⟩
  | cons id ids ih =>
    unfold admitActors
    split
    · exact ⟨rfl, rfl⟩
    · exact ih _

theorem admitResources_report (s : State) (rs : List Resource) :
    (admitResources s rs).2.report = s.report ∧
      (admitResources s rs).2.cancelled = s.cancelled := by
  induction rs generalizing s with
  | nil => exact ⟨rfl, rfl⟩
  | cons r rs ih =>
    unfold admitResources
    split
    · exact ⟨rfl, rfl⟩
    · exact ih _

/-- Admission itself fails nothing. -/
theorem declared_live (a : Adapter) (p : Policy) :
    (declared a p).2.report = {} ∧ (declared a p).2.cancelled = false := by
  simp only [declared]
  split
  · exact ⟨rfl, rfl⟩
  have hA := admitActors_report { actors := [], resources := [], policy := p }
    (a.actors.insertionSort (· ≤ ·))
  split
  · exact hA
  have hR := admitResources_report (admitActors { actors := [], resources := [], policy := p }
    (a.actors.insertionSort (· ≤ ·))).2 a.resources
  split <;> exact ⟨hR.1.trans hA.1, hR.2.trans hA.2⟩

theorem admitActors_length (s : State) (ids : List String) (h : (admitActors s ids).1 = true) :
    (admitActors s ids).2.actors.length = s.actors.length + ids.length := by
  induction ids generalizing s with
  | nil => rfl
  | cons id ids ih =>
    unfold admitActors at h ⊢
    split
    · rename_i hid; rw [if_pos hid] at h; cases h
    · rename_i hid
      rw [if_neg hid] at h
      rw [ih _ h]
      simp only [List.length_append, List.length_cons, List.length_nil]
      omega

theorem admitResources_actors (s : State) (rs : List Resource) :
    (admitResources s rs).2.actors = s.actors := by
  induction rs generalizing s with
  | nil => rfl
  | cons r rs ih =>
    unfold admitResources
    split
    · rfl
    · exact ih _

/-- A declaration that is accepted has an actor. -/
theorem declared_nonempty (a : Adapter) (p : Policy) (h : (declared a p).1 = none) :
    0 < (declared a p).2.actors.length := by
  simp only [declared] at h ⊢
  split
  · rename_i hb; rw [if_pos hb] at h; cases h
  rename_i hb
  rw [if_neg hb] at h
  split
  · rename_i hA; rw [if_pos hA] at h; cases h
  rename_i hA
  have hlen := admitActors_length { actors := [], resources := [], policy := p }
    (a.actors.insertionSort (· ≤ ·)) (by simpa using hA)
  have hne : a.actors ≠ [] := by
    have : boundsOk a p = true := by simpa using hb
    simp only [boundsOk, Bool.and_eq_true, Bool.not_eq_true', List.isEmpty_eq_false_iff] at this
    exact this.1.2
  have hpos : 0 < a.actors.length := List.length_pos_iff.mpr hne
  split <;>
  · rw [admitResources_actors, hlen, List.length_insertionSort]
    simpa using hpos

theorem outcome_executionExpired {s t : State} {late : Bool} {w : String}
    (h : s.executionExpired late w = (true, t)) :
    t.cancelled = true ∧ t.report.outcome ≠ .completed := by
  unfold executionExpired at h
  split at h
  · cases h
  · cases h; exact ⟨rfl, outcome_fail _ _ (by simp)⟩

theorem programFault_none {s : State} {p : Program} (h : programFault s p = none) :
    p.teardown = true := by
  simp only [programFault] at h
  split at h
  · cases h
  · rename_i hn
    simp only [Bool.or_eq_true, Bool.not_eq_true', not_or, Bool.not_eq_false] at hn
    exact hn.1.2

theorem initial_construct (a : Adapter) (p : Policy) (l₁ l₂ : Bool) :
    Initial (construct a p l₁ l₂) := by
  have hf := Fresh.declared a p
  have hne := declared_nonempty a p
  obtain ⟨hrep, hc⟩ := declared_live a p
  have himpl : ({} : Impl).workers = [] ∧ ({} : Impl).teardownAttempted = false ∧
      ({} : Impl).teardowns = [] ∧ ({} : Impl).observing = false := ⟨rfl, rfl, rfl, rfl⟩
  simp only [construct]
  generalize declared a p = ad at hf hne hrep hc
  obtain ⟨_ | detail, s⟩ := ad
  · dsimp only at hf hrep hc ⊢
    replace hne := hne rfl
    have hrec : s.report.outcome = .completed := by rw [hrep]
    rcases executionExpired_cases s l₁ "execution deadline before factory" with e | ⟨t, e, -, -⟩
    · rw [e]
      simp only [Bool.false_eq_true, if_false]
      cases hfac : a.factory with
      | returns prog =>
        dsimp only
        rcases executionExpired_cases s l₂ "execution deadline during factory" with
          e' | ⟨t, e', -, -⟩
        · rw [e']
          simp only [hc, Bool.or_self, Bool.false_eq_true, if_false]
          split
          · exact initial_unstarted (hf.fail _ _) rfl (outcome_fail _ _ (by simp))
              ⟨rfl, rfl, rfl, rfl⟩
          · rename_i hpf
            exact ⟨hf, rfl, ⟨rfl, rfl, rfl⟩, .inr ⟨hc, hrec, rfl, programFault_none hpf, rfl, rfl⟩,
              fun _ => hne⟩
        · have ht := hf.executionExpired l₂ "execution deadline during factory"
          rw [e'] at ht ⊢
          obtain ⟨hct, hot⟩ := outcome_executionExpired e'
          simp only [Bool.true_or, if_true]
          exact initial_unstarted ht hct hot ⟨rfl, rfl, rfl, rfl⟩
      | _ =>
        dsimp only
        have hf' := hf.fail .applicationFailed "factory threw"
        have ho' : (s.fail .applicationFailed "factory threw").report.outcome ≠ .completed :=
          outcome_fail s _ (by simp)
        have ht := hf'.executionExpired l₂ "execution deadline during factory"
        rcases executionExpired_cases (s.fail .applicationFailed "factory threw") l₂
          "execution deadline during factory" with e' | ⟨t, e', -, -⟩
        · rw [e']
          simp only [fail_cancelled, Bool.or_true, if_true]
          exact initial_unstarted hf' rfl ho' himpl
        · rw [e'] at ht ⊢
          obtain ⟨hct, hot⟩ := outcome_executionExpired e'
          simp only [Bool.true_or, if_true]
          exact initial_unstarted ht hct hot himpl
    · have ht := hf.executionExpired l₁ "execution deadline before factory"
      rw [e] at ht ⊢
      obtain ⟨hct, hot⟩ := outcome_executionExpired e
      simp only [if_true]
      exact initial_unstarted ht hct hot himpl
  · exact initial_unstarted (hf.fail _ _) rfl (outcome_fail _ _ (by simp)) himpl

theorem initial_of_init {lib : JsonLib} {x : Sys} (h : (lts lib).init x) : Initial x := by
  obtain ⟨a, p, l₁, l₂, rfl⟩ := h
  exact initial_construct a p l₁ l₂

end Sys

end MirrorCpp.Sync
