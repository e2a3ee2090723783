import MirrorCpp.Sync.Texts

/-!
# Steps of a cancelled run that did not fail

Whatever cancels a run also sets its outcome, except the two ways to end one: `cleanup` after
all actors finished, and the destructor. `Drain` lists the steps of a cancelled run whose
outcome is still `completed`; behind a finished run no worker can move any more.
-/

namespace MirrorCpp.Sync

open State

/-! ## What every section keeps -/

/-- The failure, the flags, the cleanup and the cancellation are as they were. -/
structure Same (s t : State) : Prop where
  outcome : t.report.outcome = s.report.outcome
  failureGraph : t.failureGraph = s.failureGraph
  execution : t.report.executionBudgetExceeded = s.report.executionBudgetExceeded
  cleanup : t.report.cleanupBudgetExceeded = s.report.cleanupBudgetExceeded
  status : t.report.cleanup = s.report.cleanup
  cancelled : t.cancelled = s.cancelled

/-- A relation that no section leaves: it is enough to look at what the sections are made of.
Only where `d` is set may a failure be a deadlock. -/
structure Steady (d : Bool) (R : State → State → Prop) : Prop where
  same : ∀ {s t : State}, Same s t → R s t
  trans : ∀ {s t u : State}, R s t → R t u → R s u
  fail : ∀ (s : State) {o : Outcome} (w : String),
    o ≠ .completed ∧ (d = false → o ≠ .controlledDeadlock) → R s (s.fail o w)
  budget : ∀ s : State, R s { s with report := { s.report with executionBudgetExceeded := true } }

theorem Same.refl (s : State) : Same s s := ⟨rfl, rfl, rfl, rfl, rfl, rfl⟩

namespace Steady

variable {s t u : State} {lib : JsonLib} {i : Nat} {d : Bool} {R : State → State → Prop}

theorem refl (H : Steady d R) (s : State) : R s s := H.same (.refl s)

theorem executionExpired (H : Steady d R) (s : State) (late : Bool) (w : String) :
    R s (s.executionExpired late w).2 := by
  unfold State.executionExpired
  split
  · exact H.refl s
  · exact H.trans (H.budget s) (H.fail _ _ (by simp))

theorem event (H : Steady d R) {row : Event} {b : Bool} (h : s.event lib row = some (b, t)) :
    R s t := by
  rcases event_cases h with ⟨-, rfl⟩ | ⟨-, rfl⟩
  · exact H.fail s _ (by simp)
  · exact H.same ⟨rfl, rfl, rfl, rfl, rfl, rfl⟩

theorem workerThrew (H : Steady d R) (s : State) : R s s.workerThrew := by
  unfold State.workerThrew
  split
  · exact H.refl s
  · exact H.fail s _ (by simp)

theorem requestEnter (H : Steady d R) (s : State) (self : ThreadId) (i : Nat) (p : Pending) :
    R s (s.requestEnter self i p).2 := by
  unfold State.requestEnter
  split
  · exact H.fail s _ (by simp)
  split
  · exact H.refl s
  split
  · split
    · exact H.fail s _ (by simp)
    split
    · exact H.fail s _ (by simp)
    · exact H.same ⟨rfl, rfl, rfl, rfl, rfl, rfl⟩
  · exact H.same ⟨rfl, rfl, rfl, rfl, rfl, rfl⟩

theorem requestWake (H : Steady d R) (s : State) (i : Nat) (p : Pending) :
    R s (s.requestWake lib i p).2 := by
  have ht : R s ((Sys.woken s i).takeEffect i p).2 := by
    refine H.same ?_
    unfold State.takeEffect
    split <;> exact ⟨rfl, rfl, rfl, rfl, rfl, rfl⟩
  unfold State.requestWake
  split
  · exact H.refl s
  · dsimp only
    split
    · exact ht
    · rename_i ev; exact H.trans ht (H.event ev)

theorem unwindRelease (H : Steady d R) (s : State) (i : Nat) (r : String) :
    R s (s.unwindRelease i r) := by
  refine H.same ?_
  unfold State.unwindRelease
  split
  · exact .refl s
  · split
    · exact ⟨rfl, rfl, rfl, rfl, rfl, rfl⟩
    · exact .refl s

theorem finishWorker (H : Steady d R) (s : State) (i : Nat) : R s (s.finishWorker i) := by
  refine H.trans (t := s.releaseAll i) ?_ (H.same ⟨rfl, rfl, rfl, rfl, rfl, rfl⟩)
  unfold releaseAll
  split
  · dsimp only
    split
    · exact H.same ⟨rfl, rfl, rfl, rfl, rfl, rfl⟩
    · exact H.trans (H.fail s _ (by simp)) (H.same ⟨rfl, rfl, rfl, rfl, rfl, rfl⟩)
  · exact H.refl s

theorem queryEnabled (H : Steady true R) (s : State) (late : Bool) :
    R s (Sys.queryEnabled s late).2 := by
  have h := H.executionExpired s late "execution deadline before enabled query"
  simp only [Sys.queryEnabled]
  split
  · exact h
  split
  · exact H.trans h (H.fail _ _ (by simp))
  · exact h

theorem advance (H : Steady d R) (x : Sys) (actor : String) (late : Bool) :
    R x.state (x.advance lib actor late).state := by
  have h := H.executionExpired x.state late "execution deadline before decision"
  simp only [Sys.advance]
  split
  · exact h
  split
  · exact H.trans h (H.fail _ _ (by simp))
  split
  · exact H.trans h (H.fail _ _ (by simp))
  split
  · exact h
  · rename_i ev; exact H.trans h (H.event ev)
  · rename_i ev
    exact H.trans (H.trans h (H.event ev)) (H.same ⟨rfl, rfl, rfl, rfl, rfl, rfl⟩)

theorem passBarrier (H : Steady d R) (x : Sys) (timeout late : Bool) :
    R x.state (x.passBarrier timeout late).state := by
  refine H.trans ?_ (H.executionExpired _ late _)
  cases timeout
  · exact H.refl _
  · exact H.fail _ _ (by simp)

theorem observeEnter (H : Steady d R) (x : Sys) (k : Caller) (late : Bool) :
    R x.state (x.observeEnter k late).state := by
  have h := H.executionExpired x.state late "execution deadline before observer"
  simp only [Sys.observeEnter]
  split <;> exact h

theorem retain (H : Steady d R) {value : Option Json} {l₁ l₂ l₃ : Bool}
    (h : Sys.retain lib s value l₁ l₂ l₃ = some t) : R s t := by
  have same : ∀ {s t : State}, Same s t → R s t := H.same
  have h0 : R s (if value.isNone then s.fail .observationFailed "observer threw" else s) := by
    split
    · exact H.fail s _ (by simp)
    · exact H.refl s
  unfold Sys.retain at h
  generalize (if value.isNone then s.fail .observationFailed "observer threw" else s) = s₀ at h h0
  dsimp only at h
  have h1 := H.trans h0 (H.executionExpired s₀ l₁ "execution deadline during observer")
  generalize s₀.executionExpired l₁ "execution deadline during observer" = e₁ at h h1
  split at h
  · cases h; exact h1
  split at h
  · cases h; exact H.trans h1 (H.fail _ _ (by simp))
  split at h
  · cases h
  · cases h; exact H.trans h1 (H.fail _ _ (by simp))
  have h2 := H.trans h1 (H.executionExpired e₁.2 l₂ "execution deadline retaining observation")
  generalize e₁.2.executionExpired l₂ "execution deadline retaining observation" = e₂ at h h2
  split at h
  · cases h; exact h2
  generalize hr : (Observation.mk e₁.2.report.decisions (value.getD .null)) = row at h
  have h3 : R s ({ e₂.2 with observations := e₂.2.observations ++ [row] } : State) :=
    H.trans h2 (same ⟨rfl, rfl, rfl, rfl, rfl, rfl⟩)
  have h4 := H.trans h3 (H.executionExpired _ l₃ "execution deadline after observation retention")
  generalize State.executionExpired _ l₃ "execution deadline after observation retention" = e₃
    at h h4
  split at h
  · cases h; exact H.trans h4 (same ⟨rfl, rfl, rfl, rfl, rfl, rfl⟩)
  split at h
  · cases h; exact H.trans h4 (same ⟨rfl, rfl, rfl, rfl, rfl, rfl⟩)
  · cases h; exact h4

theorem observeLeave (H : Steady d R) (x : Sys) (k : Caller) (value : Option Json)
    (l₁ l₂ l₃ : Bool) : R x.state (x.observeLeave lib k value l₁ l₂ l₃).state := by
  simp only [Sys.observeLeave]
  split
  · rename_i hs; exact H.retain hs
  · exact H.refl _

theorem advanceWake (H : Steady d R) (x : Sys) (i : Nat) (timeout l₁ l₂ : Bool) :
    R x.state (x.advanceWake i timeout l₁ l₂).state := by
  have h0 : R x.state (if timeout then x.state.fail .timedOut
      "actor did not reach resource boundary" else x.state) := by
    split
    · exact H.fail _ _ (by simp)
    · exact H.refl _
  simp only [Sys.advanceWake]
  generalize (if timeout then x.state.fail .timedOut
      "actor did not reach resource boundary" else x.state) = s₀ at h0 ⊢
  have h1 := H.trans h0 (H.executionExpired s₀ l₁ "execution deadline after actor boundary")
  generalize s₀.executionExpired l₁ "execution deadline after actor boundary" = e₁ at h1 ⊢
  split
  · exact h1
  split
  · exact H.trans h1 (H.executionExpired _ _ _)
  · exact H.trans h1 (H.same ⟨rfl, rfl, rfl, rfl, rfl, rfl⟩)

theorem advanceJoined (H : Steady d R) (x : Sys) (i : Nat) (late : Bool) :
    R x.state (x.advanceJoined i late).state := by
  simp only [Sys.advanceJoined]
  exact H.trans (t := { x.state with report := { x.state.report with
    finished := x.state.allFinished } }) (H.same ⟨rfl, rfl, rfl, rfl, rfl, rfl⟩)
    (H.executionExpired _ _ _)

theorem workerStep {x y : Sys} {c : Choice} (H : Steady d R)
    (h : x.workerStep lib i c = some y) : R x.state y.state := by
  unfold Sys.workerStep at h
  split at h
  · split at h
    · cases h; exact H.same ⟨rfl, rfl, rfl, rfl, rfl, rfl⟩
    · cases h
  · split at h
    · cases h; exact H.requestEnter _ _ _ _
    · cases h
  · split at h
    · split at h
      · cases h; exact H.requestWake _ _ _
      · cases h
    · cases h
  · split at h
    · cases h; exact H.refl _
    · cases h
  · split at h
    · cases h; exact H.refl _
    · cases h; exact H.refl _
    · cases h
  · split at h
    · cases h; exact H.unwindRelease _ _ _
    · cases h
  · split at h
    · cases h; exact H.workerThrew _
    · cases h
  · split at h
    · cases h; exact H.finishWorker _ _
    · cases h
  · cases h

end Steady

/-- In `cleanup` or the destructor. -/
def Choice.ends : Choice → Bool
  | .cleanup _ | .destroy | .cleanupWake _ _ | .cleanupJoined _ _ | .cleanupTorn _ _
  | .destroyJoin _ | .destroyEnd | .destroyTorn _ => true
  | _ => false

def Choice.queries : Choice → Bool
  | .enabled _ => true
  | _ => false

/-- A section of the controller inside the constructor or `advance`. -/
def Choice.inner : Choice → Bool
  | .spawn _ | .barrier _ _ | .observe _ | .observed _ _ _ _ | .granted _ _ _ | .joined _ => true
  | _ => false

namespace Sys

variable {lib : JsonLib} {x y : Sys} {i j : Nat}

theorem steady_step {c : Choice} {R : State → State → Prop} (H : Steady c.queries R)
    (hc : c.ends = false) (h : x.step lib c = some y) : R x.state y.state := by
  cases c with
  | cleanup | destroy | cleanupWake | cleanupJoined | cleanupTorn | destroyJoin | destroyEnd
  | destroyTorn => cases hc
  | enabled late =>
    simp only [step, Option.ite_none_right_eq_some, Option.some.injEq] at h
    obtain ⟨-, rfl⟩ := h
    exact H.queryEnabled _ _
  | advance actor late =>
    simp only [step, Option.ite_none_right_eq_some, Option.some.injEq] at h
    obtain ⟨-, rfl⟩ := h
    exact H.advance _ _ _
  | spawn created =>
    simp only [step, Option.ite_none_right_eq_some, Option.some.injEq] at h
    obtain ⟨-, rfl⟩ := h
    cases created
    · exact H.fail _ _ (by simp)
    · exact H.refl _
  | barrier timeout late =>
    simp only [step, Option.ite_none_right_eq_some, Option.some.injEq] at h
    obtain ⟨-, rfl⟩ := h
    exact H.passBarrier _ _ _
  | observe late =>
    simp only [step] at h
    split at h
    · cases h; exact H.observeEnter _ _ _
    · cases h
  | observed value l₁ l₂ l₃ =>
    simp only [step] at h
    split at h
    · cases h; exact H.observeLeave _ _ _ _ _ _
    · cases h
  | granted timeout l₁ l₂ =>
    simp only [step] at h
    split at h
    · simp only [Option.ite_none_right_eq_some, Option.some.injEq] at h
      obtain ⟨-, rfl⟩ := h
      exact H.advanceWake _ _ _ _ _
    · cases h
  | joined late =>
    simp only [step] at h
    split at h
    · simp only [Option.ite_none_right_eq_some, Option.some.injEq] at h
      obtain ⟨-, rfl⟩ := h
      exact H.advanceJoined _ _ _
    · cases h
  | foreignRequest i k p =>
    simp only [step, Option.ite_none_right_eq_some, Option.some.injEq] at h
    obtain ⟨-, rfl⟩ := h
    exact H.requestEnter _ _ _ _
  | foreignRelease i r =>
    simp only [step, Option.ite_none_right_eq_some, Option.some.injEq] at h
    obtain ⟨-, rfl⟩ := h
    exact H.unwindRelease _ _ _
  | register i | request i | wake i | user i c | stop i | release i | caught i | close i =>
    simp only [step, Option.ite_none_right_eq_some] at h
    exact H.workerStep h.2

end Sys

/-! ## Cancelling without failing -/

/-- The change cancels only by failing, and a first failure stays; only where `d` is set can it be
a deadlock. -/
structure Candid (d : Bool) (s t : State) : Prop where
  completed : t.report.outcome = .completed →
    s.report.outcome = .completed ∧ t.cancelled = s.cancelled
  kept : s.report.outcome ≠ .completed → t.report.outcome = s.report.outcome
  deadlock : d = false → t.report.outcome = .controlledDeadlock →
    s.report.outcome = .controlledDeadlock

namespace Candid

variable {s t u : State} {lib : JsonLib} {i : Nat} {d : Bool}

theorem of_eq (ho : t.report.outcome = s.report.outcome) (hc : t.cancelled = s.cancelled) :
    Candid d s t := ⟨fun h => ⟨ho ▸ h, hc⟩, fun _ => ho, fun _ h => ho ▸ h⟩

theorem refl (s : State) : Candid d s s := of_eq rfl rfl

theorem trans (h : Candid d s t) (h' : Candid d t u) : Candid d s u where
  completed hu :=
    have ht := h'.completed hu
    ⟨(h.completed ht.1).1, ht.2.trans (h.completed ht.1).2⟩
  kept hs := (h'.kept fun ht => hs (h.completed ht).1).trans (h.kept hs)
  deadlock hd hu := h.deadlock hd (h'.deadlock hd hu)

theorem fail (s : State) {o : Outcome} (w : String)
    (ho : o ≠ .completed ∧ (d = false → o ≠ .controlledDeadlock)) : Candid d s (s.fail o w) := by
  refine ⟨fun h => absurd h (Sys.outcome_fail s w ho.1), fun hs => ?_, fun hd h => ?_⟩
  · simp [State.fail, hs]
  · by_cases hs : s.report.outcome = .completed
    · simp only [State.fail, hs, if_true] at h
      exact absurd h (ho.2 hd)
    · simpa [State.fail, hs] using h

theorem executionExpired (s : State) (late : Bool) (w : String) :
    Candid d s (s.executionExpired late w).2 := by
  unfold State.executionExpired
  split
  · exact refl s
  · exact trans (t := { s with report := { s.report with executionBudgetExceeded := true } })
      (of_eq rfl rfl) (fail _ _ (by simp))

theorem cleanupExpired (s : State) : Candid d s s.cleanupExpired :=
  trans (t := { s with report := { s.report with cleanupBudgetExceeded := true } })
    (of_eq rfl rfl) (fail _ _ (by simp))

theorem steady : Steady d (Candid d) where
  same h := of_eq h.outcome h.cancelled
  trans h h' := h.trans h'
  fail := fail
  budget _ := of_eq rfl rfl

end Candid

namespace Sys

variable {lib : JsonLib} {x y : Sys} {i j : Nat}

/-- Nothing but `cleanup` and the destructor cancels without failing. -/
theorem candid_step {c : Choice} (hc : c.ends = false) (h : x.step lib c = some y) :
    Candid c.queries x.state y.state := steady_step Candid.steady hc h

/-! ## Owners are alive -/

/-- `j` owns something. -/
def OwnedBy (s : State) (j : Nat) : Prop := ∃ o ∈ s.resources, o.owner = some j

theorem ownedBy_modifyResource {s : State} {r : String} {e : Effect} {f : Owned → Owned}
    (h : OwnedBy (s.modifyResource r e f) j)
    (hf : ∀ o, (f o).owner = some j → o.owner = some j ∨ j = i) : OwnedBy s j ∨ j = i := by
  obtain ⟨o', ho', hj⟩ := h
  obtain ⟨o, ho, rfl⟩ := List.mem_map.mp ho'
  split at hj
  · exact (hf o hj).imp_left fun h => ⟨o, ho, h⟩
  · exact .inl ⟨o, ho, hj⟩

theorem ownedBy_takeEffect {s : State} {p : Pending} (h : OwnedBy (s.takeEffect i p).2 j) :
    OwnedBy s j ∨ j = i := by
  unfold State.takeEffect at h
  split at h
  · exact ownedBy_modifyResource h fun o ho => .inr (by simpa using ho.symm)
  · exact ownedBy_modifyResource h fun o ho => by simp at ho
  · exact ownedBy_modifyResource h fun o ho => .inl ho
  · exact ownedBy_modifyResource h fun o ho => .inl ho
  · exact .inl h

theorem ownedBy_unwindRelease {s : State} {r : String} (h : OwnedBy (s.unwindRelease i r) j) :
    OwnedBy s j := by
  unfold State.unwindRelease at h
  split at h
  · exact h
  split at h
  · obtain ⟨o', ho', hj⟩ := h
    obtain ⟨o, ho, rfl⟩ := List.mem_map.mp ho'
    split at hj
    · cases hj
    · exact ⟨o, ho, hj⟩
  · exact h

theorem ownedBy_finishWorker {s : State} (h : OwnedBy (s.finishWorker i) j) :
    OwnedBy s j ∧ j ≠ i := by
  change OwnedBy (s.releaseAll i) j at h
  unfold releaseAll at h
  split at h
  · have hres : (if s.cancelled then s
        else s.fail .resourceMisuse "actor completed holding mutex").resources = s.resources := by
      split
      · rfl
      · exact (quiet_fail _ _ _).resources
    obtain ⟨o', ho', hj⟩ := h
    dsimp only at ho'
    rw [hres] at ho'
    obtain ⟨o, ho, rfl⟩ := List.mem_map.mp ho'
    split at hj
    · cases hj
    · rename_i hne
      exact ⟨⟨o, ho, hj⟩, by rintro rfl; exact hne (by simpa using hj)⟩
  · rename_i hfree
    refine ⟨h, ?_⟩
    rintro rfl
    obtain ⟨o, ho, hj⟩ := h
    exact hfree (List.any_eq_true.mpr ⟨o, ho, by simpa using hj⟩)

/-- An owner's worker has not ended. -/
def Holding (x : Sys) : Prop :=
  ∀ j, OwnedBy x.state j → j < x.pcs.length ∧ x.pc j ≠ .closed

theorem Holding.move {t : State} {p' : Pc} (h : Holding x) (hi : i < x.pcs.length)
    (hp : p' ≠ .closed) (ho : ∀ j, OwnedBy t j → OwnedBy x.state j ∨ j = i) :
    Holding ({ x with state := t }.setPc i p') := by
  intro j hj
  simp only [pcs_length_setPc, pc_setPc]
  by_cases hji : j = i
  · subst hji; simp [hi, hp]
  · simp only [hji, false_and, if_false]
    exact h j ((ho j hj).resolve_right hji)

theorem Holding.keep {t : State} (h : Holding x) (hp : y.pcs = x.pcs) (hy : y.state = t)
    (ho : ∀ j, OwnedBy t j → OwnedBy x.state j) : Holding y := by
  subst hy
  have hpc : ∀ i, y.pc i = x.pc i := fun i => by simp [pc, hp]
  intro j hj
  rw [hpc, hp]
  exact h j (ho j hj)

theorem ownedBy_quiet {s t : State} (h : Quiet s t) (hj : OwnedBy t j) : OwnedBy s j := by
  simpa [OwnedBy, h.resources] using hj

theorem Holding.step {c : Choice} (h : Holding x) (hs : x.step lib c = some y) : Holding y := by
  cases step_moves hs with
  | control hr _ _ => exact h.keep hr.pcs rfl fun _ => ownedBy_quiet hr.quiet
  | spawn ctl hctl hctl' =>
    intro j hj
    obtain ⟨hlt, hne⟩ := h j hj
    refine ⟨by simpa using hlt, ?_⟩
    have hpc := pc_setPc x x.impl.workers.length j .born
    change (x.setPc x.impl.workers.length .born).pc j ≠ _
    rw [hpc]
    split
    · simp
    · exact hne
  | @grant t i hctl hi he hq hc =>
    exact h.keep rfl rfl fun j hj => ownedBy_quiet hq (hj : OwnedBy t j)
  | register i hi hpc => exact h.move hi (by simp) fun _ hj => .inl hj
  | request i f p hi hpc =>
    rcases requestEnter_cases x.state (.worker i) i p with ⟨e, -, -, -⟩ | ⟨t, e, hq, -⟩
    · rw [e]; exact h.move hi (by simp) fun _ hj => .inl hj
    · rw [e]; exact h.move hi (Handshake.onThrow_ne f).2 fun _ hj => .inl (ownedBy_quiet hq hj)
  | wake i f p hi hpc hw =>
    rcases requestWake_cases lib x.state i p with ⟨-, e⟩ | ⟨-, v, t, e, hq⟩
    · rw [e]; exact h.move hi (Handshake.onThrow_ne f).2 fun _ hj => .inl hj
    · rw [e]
      refine h.move hi ?_ fun _ hj => ownedBy_takeEffect (s := woken x.state i)
        (ownedBy_quiet hq hj)
      cases v
      · exact (Handshake.onThrow_ne f).2
      · exact (Handshake.onReturn_ne f _).2
  | user i r c hi hpc =>
    exact h.move (t := x.state) hi (Handshake.callPc_ne c).2 fun _ hj => .inl hj
  | asked i hi hpc => exact h.move (t := x.state) hi (by simp) fun _ hj => .inl hj
  | dropped i r u hi hpc =>
    refine h.move (t := x.state) hi ?_ fun _ hj => .inl hj
    split <;> simp
  | release i r hi hpc => exact h.move hi (by simp) fun _ hj => .inl (ownedBy_unwindRelease hj)
  | caught i hi hpc =>
    exact h.move hi (by simp) fun _ hj => .inl (ownedBy_quiet (quiet_workerThrew _) hj)
  | close i hi hpc =>
    intro j hj
    obtain ⟨ho, hji⟩ := ownedBy_finishWorker (i := i) (s := x.state) hj
    obtain ⟨hlt, hne⟩ := h j ho
    exact ⟨by simpa using hlt, by rw [pc_setPc_ne _ _ hji]; exact hne⟩
  | foreignRequest i k p hi =>
    rcases requestEnter_cases x.state (.other k) i p with ⟨e, -, -, -⟩ | ⟨t, e, hq, -⟩
    · rw [e]; exact h.keep rfl rfl fun _ hj => hj
    · rw [e]; exact h.keep rfl rfl fun _ => ownedBy_quiet hq
  | foreignRelease i r hi => exact h.keep rfl rfl fun _ => ownedBy_unwindRelease

theorem Holding.reach (h : (lts lib).Reach x) : Holding x := by
  refine h.inv (fun s hi j hj => ?_) fun _ _ _ h _ hs => Holding.step h hs
  obtain ⟨o, ho, hj⟩ := hj
  rw [((initial_of_init hi).fresh.resources o ho).1] at hj
  cases hj

/-- Behind a finished run every worker has ended and every mutex is free. -/
theorem free_of_finished (H : Handshake x) (hold : Holding x)
    (hf : x.state.allFinished = true) {o : Owned} (ho : o ∈ x.state.resources) :
    o.owner = none := by
  cases hown : o.owner with
  | none => rfl
  | some j =>
    obtain ⟨hlt, hne⟩ := hold j ⟨o, ho, hown⟩
    have hjl := lt_of_lt_of_le hlt H.pcs_le
    exact absurd ((H.closed j).mp (List.all_eq_true.mp hf _ (actor_mem hjl))) hne

/-! ## The steps -/

/-- Steps to a cancelled state whose outcome is still `completed`. -/
inductive Drain (x : Sys) : Sys → Prop where
  | stay : Drain x x
  | begin_ (hctl : x.ctl = .idle) (hf : x.state.report.finished = true)
      (hcl : x.state.report.cleanup ≠ .confirmed ∧ x.state.report.cleanup ≠ .teardownFailed) :
      Drain x { x with state := { x.state with cancelled := true }, ctl := .cleaning }
  | wake (hctl : x.ctl = .cleaning) : Drain x (x.cleanupNext false)
  | joined (i : Nat) (hctl : x.ctl = .cleanupJoin i) : Drain x ((x.joined i).cleanupNext false)
  | torn (threw : Bool) (hctl : x.ctl = .tearing) : Drain x (x.cleanupTorn threw false)
  | destroy (hctl : x.ctl = .idle) : Drain x x.destroy
  | destroyJoin (i : Nat) (hctl : x.ctl = .destroying) : Drain x (x.joined i)
  | destroyEnd (hctl : x.ctl = .destroying) : Drain x x.destroyEnd
  | destroyTorn (threw : Bool) (hctl : x.ctl = .destroyTearing) :
      Drain x { x.tornDown threw with ctl := .destroyed }
  /-- A worker, or a foreign guard; only where some worker has not ended. -/
  | worker {y : Sys} (hf : x.state.allFinished = false) (hctl : y.ctl = x.ctl)
      (himpl : y.impl = x.impl) (hc : x.state.cancelled = true)
      (hrep : y.state.report = x.state.report) : Drain x y

/-- Everything but the cancellation and the cleanup. -/
structure Kept (s t : State) : Prop where
  actors : t.actors = s.actors
  resources : t.resources = s.resources
  hist : t.hist = s.hist
  events : t.events = s.events
  observations : t.observations = s.observations
  outcome : t.report.outcome = s.report.outcome
  finished : t.report.finished = s.report.finished
  decisions : t.report.decisions = s.report.decisions

theorem kept_cleanupNext (x : Sys) : Kept x.state (x.cleanupNext false).state := by
  unfold cleanupNext
  split
  · exact ⟨rfl, rfl, rfl, rfl, rfl, rfl, rfl, rfl⟩
  · simp only [Bool.false_eq_true, if_false]
    split <;> exact ⟨rfl, rfl, rfl, rfl, rfl, rfl, rfl, rfl⟩

namespace Drain

/-- Behind the last worker nothing but the cleanup moves. -/
theorem kept_or (h : Drain x y) : Kept x.state y.state ∨
    x.state.allFinished = false ∧ y.state.report = x.state.report := by
  cases h with
  | wake => exact .inl (kept_cleanupNext x)
  | joined i => exact .inl (kept_cleanupNext (x.joined i))
  | torn =>
    left
    simp only [cleanupTorn, Bool.false_eq_true, if_false]
    split <;> exact ⟨rfl, rfl, rfl, rfl, rfl, rfl, rfl, rfl⟩
  | destroyEnd =>
    left
    unfold Sys.destroyEnd
    split <;> exact ⟨rfl, rfl, rfl, rfl, rfl, rfl, rfl, rfl⟩
  | worker hf hctl himpl hc hrep => exact .inr ⟨hf, hrep⟩
  | _ => exact .inl ⟨rfl, rfl, rfl, rfl, rfl, rfl, rfl, rfl⟩

theorem kept (h : Drain x y) (hall : x.state.allFinished = true) : Kept x.state y.state :=
  h.kept_or.resolve_right fun hf => by rw [hall] at hf; cases hf.1

theorem report (h : Drain x y) : y.state.report.outcome = x.state.report.outcome ∧
    y.state.report.finished = x.state.report.finished ∧
      y.state.report.decisions = x.state.report.decisions := by
  rcases h.kept_or with hk | ⟨-, hr⟩
  · exact ⟨hk.outcome, hk.finished, hk.decisions⟩
  · rw [hr]; exact ⟨rfl, rfl, rfl⟩

/-- A live run is ended by its client. -/
theorem idle (h : Drain x y) (hc : x.state.cancelled = false) (hend : x.ctl.ending = false)
    (hcy : y.state.cancelled = true) : x.ctl = .idle := by
  cases h with
  | stay => rw [hc] at hcy; cases hcy
  | begin_ hctl | destroy hctl => exact hctl
  | wake hctl | torn threw hctl | destroyEnd hctl | destroyTorn threw hctl
  | joined i hctl | destroyJoin i hctl => rw [hctl] at hend; cases hend
  | worker hf hctl himpl hcx hrep => rw [hc] at hcx; cases hcx

end Drain

theorem executionExpired_completed {s : State} {late : Bool} {w : String}
    (h : (s.executionExpired late w).2.report.outcome = .completed) :
    s.executionExpired late w = (false, s) := by
  unfold State.executionExpired at h ⊢
  split
  · rfl
  · rename_i hl
    rw [if_neg hl] at h
    exact absurd h (outcome_fail _ _ (by simp))

theorem cleanupExpired_completed (s : State) (c : Cleanup) :
    (setCleanup s.cleanupExpired c).report.outcome ≠ .completed :=
  outcome_fail _ _ (by simp)

theorem queryEnabled_dead {s : State} {late : Bool} (hc : s.cancelled = true)
    (h : (queryEnabled s late).2.report.outcome = .completed) : (queryEnabled s late).2 = s := by
  have hx := @executionExpired_completed s late "execution deadline before enabled query"
  simp only [queryEnabled] at h ⊢
  rcases executionExpired_cases s late "execution deadline before enabled query" with
    e | ⟨t, e, ht, -⟩
  · simp [e, hc]
  · simp only [e, Bool.true_or, if_true] at h
    have := hx (by rw [e]; exact h)
    rw [e] at this; cases this

theorem advance_dead {actor : String} {late : Bool} (hc : x.state.cancelled = true)
    (h : (x.advance lib actor late).state.report.outcome = .completed) :
    x.advance lib actor late = x := by
  have hx := @executionExpired_completed x.state late "execution deadline before decision"
  simp only [advance] at h ⊢
  rcases executionExpired_cases x.state late "execution deadline before decision" with
    e | ⟨t, e, ht, -⟩
  · simp [e, hc]
  · simp only [e, Bool.true_or, if_true] at h
    have := hx (by rw [e]; exact h)
    rw [e] at this; cases this

theorem cleanupNext_completed {late : Bool}
    (h : (x.cleanupNext late).state.report.outcome = .completed) :
    x.cleanupNext late = x.cleanupNext false := by
  cases late with
  | false => rfl
  | true =>
    simp only [cleanupNext, if_true] at h
    split at h
    · exact absurd h (cleanupExpired_completed _ _)
    split at h
    · exact absurd h (cleanupExpired_completed _ _)
    · rename_i hw ht
      simp [cleanupNext, hw, ht]

theorem worker_dead {c : Choice} (hc : x.state.cancelled = true)
    (h : x.workerStep lib i c = some y) (hy : y.state.report.outcome = .completed) :
    y.ctl = x.ctl ∧ y.impl = x.impl ∧ y.state.report = x.state.report := by
  unfold workerStep at h
  split at h
  · split at h
    · cases h; exact ⟨rfl, rfl, rfl⟩
    · cases h
  · split at h
    · rename_i f p hpc
      simp only [requestEnter, hc, if_true] at h
      split at h
      · cases h
        exact absurd hy (outcome_fail _ _ (by simp))
      · cases h; exact ⟨rfl, rfl, rfl⟩
    · cases h
  · split at h
    · split at h
      · simp only [requestWake, hc, if_true] at h
        cases h; exact ⟨rfl, rfl, rfl⟩
      · cases h
    · cases h
  · split at h
    · cases h; exact ⟨rfl, rfl, rfl⟩
    · cases h
  · split at h
    · cases h; exact ⟨rfl, rfl, rfl⟩
    · cases h; exact ⟨rfl, rfl, rfl⟩
    · cases h
  · split at h
    · rename_i r hpc
      cases h
      refine ⟨rfl, rfl, ?_⟩
      simp only [state_setPc, unwindRelease]
      split
      · rfl
      · split <;> rfl
    · cases h
  · split at h
    · cases h
      exact ⟨rfl, rfl, by simp [workerThrew, hc]⟩
    · cases h
  · split at h
    · cases h
      refine ⟨rfl, rfl, ?_⟩
      change (x.state.releaseAll i).report = _
      simp only [releaseAll, hc, if_true]
      split <;> rfl
    · cases h
  · cases h

theorem cleanupNext_failed {late : Bool} (h : x.state.report.outcome ≠ .completed) :
    (x.cleanupNext late).state.report.outcome ≠ .completed := by
  unfold cleanupNext
  split
  · split
    · exact cleanupExpired_completed _ _
    · exact h
  · split
    · split
      · exact cleanupExpired_completed _ _
      · exact h
    · exact h

/-- An ended worker makes no step. -/
theorem workerStep_closed {c : Choice} (h : x.pc i = .closed) : x.workerStep lib i c = none := by
  unfold workerStep
  split <;> simp [h]

theorem unwindRelease_free {s : State} {r : String} (h : ∀ o ∈ s.resources, o.owner = none) :
    s.unwindRelease i r = s := by
  unfold unwindRelease
  split
  · rfl
  · rename_i o ho
    rw [if_neg (by simp [h o (mem_of_resource? ho)])]

theorem ctl_of_inner {c : Choice} (hc : c.inner = true) (h : x.step lib c = some y) :
    x.ctl ≠ .idle ∧ x.ctl.ending = false := by
  cases c with
  | spawn created =>
    simp only [step, Option.ite_none_right_eq_some] at h
    simp [h.1, Ctl.ending]
  | barrier timeout late =>
    simp only [step, Option.ite_none_right_eq_some] at h
    simp [h.1.1, Ctl.ending]
  | observe | observed | granted | joined =>
    simp only [step] at h
    split at h
    · rename_i hctl; simp [hctl, Ctl.ending]
    · cases h
  | _ => cases hc

theorem drain_cleanup {late : Bool} (hctl : x.ctl = .idle)
    (hy : (x.cleanup late).state.report.outcome = .completed) : Drain x (x.cleanup late) := by
  simp only [cleanup] at hy ⊢
  split
  · exact .stay
  rename_i hcl
  rw [if_neg hcl] at hy
  simp only [not_or] at hcl
  split
  · rename_i hn
    rw [if_pos hn] at hy
    dsimp only at hy
    split at hy
    · exact absurd hy (outcome_fail _ _ (by simp))
    · rename_i ho; exact absurd hy ho
  · rename_i hn
    rw [if_neg hn] at hy
    simp only [not_and, Bool.not_eq_false] at hn
    exact .begin_ hctl (hn hy) hcl

theorem drain_cleanupWake {timeout late : Bool} (hctl : x.ctl = .cleaning)
    (hy : (x.cleanupWake timeout late).state.report.outcome = .completed) :
    Drain x (x.cleanupWake timeout late) := by
  cases timeout with
  | true => exact absurd hy (cleanupExpired_completed _ _)
  | false =>
    have e : x.cleanupWake false late = x.cleanupNext late := rfl
    rw [e] at hy ⊢
    rw [cleanupNext_completed hy]
    exact .wake hctl

theorem drain_cleanupJoined {l₁ l₂ : Bool} (hctl : x.ctl = .cleanupJoin i)
    (hy : (x.cleanupJoined i l₁ l₂).state.report.outcome = .completed) :
    Drain x (x.cleanupJoined i l₁ l₂) := by
  cases l₁ with
  | true => exact absurd hy (cleanupNext_failed (outcome_fail _ _ (by simp)))
  | false =>
    have e : x.cleanupJoined i false l₂ = (x.joined i).cleanupNext l₂ := rfl
    rw [e] at hy ⊢
    rw [cleanupNext_completed hy]
    exact .joined i hctl

theorem drain_cleanupTorn {threw late : Bool} (hctl : x.ctl = .tearing)
    (hy : (x.cleanupTorn threw late).state.report.outcome = .completed) :
    Drain x (x.cleanupTorn threw late) := by
  cases late with
  | true => exact absurd hy (outcome_fail _ _ (by simp))
  | false => exact .torn threw hctl

/-- A request of a foreign thread fails: the thread of an actor is its worker's. -/
theorem foreignRequest_failed {k : Nat} {p : Pending} (H : Handshake x) :
    (x.state.requestEnter (.other k) i p).2.report.outcome ≠ .completed := by
  have hth : (x.state.actor i).thread ≠ some (.other k) := fun e =>
    absurd (H.thread i _ e) (by simp)
  simp only [requestEnter, if_pos hth]
  exact outcome_fail _ _ (by simp)

theorem drain_foreignRelease {r : String} (H : Handshake x) (hold : Holding x)
    (hcx : x.state.cancelled = true) :
    Drain x { x with state := x.state.unwindRelease i r } := by
  cases hf : x.state.allFinished with
  | true =>
    rw [unwindRelease_free fun o ho => free_of_finished H hold hf ho]
    exact .stay
  | false =>
    refine .worker hf rfl rfl hcx ?_
    simp only [unwindRelease]
    split
    · rfl
    · split <;> rfl

theorem drain_workerStep {c : Choice} (H : Handshake x) (hi : i < x.pcs.length)
    (hcx : x.state.cancelled = true) (hs : x.workerStep lib i c = some y)
    (hy : y.state.report.outcome = .completed) : Drain x y := by
  have hil := lt_of_lt_of_le hi H.pcs_le
  cases hf : x.state.allFinished with
  | true =>
    have hcl := (H.closed i).mp (List.all_eq_true.mp hf _ (actor_mem hil))
    rw [workerStep_closed hcl] at hs; cases hs
  | false =>
    obtain ⟨hctl, himpl, hrep⟩ := worker_dead hcx hs hy
    exact .worker hf hctl himpl hcx hrep

theorem drain_step {c : Choice} (H : Handshake x) (hold : Holding x)
    (hphase : x.state.cancelled = true → x.state.report.outcome = .completed →
      x.ctl = .idle ∨ x.ctl.ending = true)
    (hs : x.step lib c = some y) (hy : y.state.report.outcome = .completed)
    (hc : y.state.cancelled = true) : Drain x y := by
  -- a candid step to a cancelled state was cancelled before
  have dead : ∀ {d}, Candid d x.state y.state → x.state.cancelled = true ∧
      (x.ctl = .idle ∨ x.ctl.ending = true) := fun h =>
    have hx := h.completed hy
    have hcx := hx.2.symm.trans hc
    ⟨hcx, hphase hcx hx.1⟩
  cases c with
  | enabled late =>
    obtain ⟨hcx, -⟩ := dead (candid_step rfl hs)
    simp only [step, Option.ite_none_right_eq_some, Option.some.injEq] at hs
    obtain ⟨-, rfl⟩ := hs
    rw [show ({ x with state := (queryEnabled x.state late).2 } : Sys) = x by
      rw [queryEnabled_dead hcx hy]]
    exact .stay
  | advance actor late =>
    obtain ⟨hcx, -⟩ := dead (candid_step rfl hs)
    simp only [step, Option.ite_none_right_eq_some, Option.some.injEq] at hs
    obtain ⟨-, rfl⟩ := hs
    rw [advance_dead hcx hy]
    exact .stay
  | cleanup late =>
    simp only [step, Option.ite_none_right_eq_some, Option.some.injEq] at hs
    obtain ⟨hctl, rfl⟩ := hs
    exact drain_cleanup hctl hy
  | destroy =>
    simp only [step, Option.ite_none_right_eq_some, Option.some.injEq] at hs
    obtain ⟨hctl, rfl⟩ := hs
    exact .destroy hctl
  | spawn | barrier | observe | observed | granted | joined =>
    -- no cancelled state has them
    obtain ⟨hidle, hend⟩ := ctl_of_inner rfl hs
    rcases (dead (candid_step rfl hs)).2 with h | h
    · exact absurd h hidle
    · rw [hend] at h; cases h
  | cleanupWake timeout late =>
    simp only [step, Option.ite_none_right_eq_some, Option.some.injEq] at hs
    obtain ⟨⟨hctl, -⟩, rfl⟩ := hs
    exact drain_cleanupWake hctl hy
  | cleanupJoined l₁ l₂ =>
    simp only [step] at hs
    split at hs
    · rename_i i hctl
      simp only [Option.ite_none_right_eq_some, Option.some.injEq] at hs
      obtain ⟨-, rfl⟩ := hs
      exact drain_cleanupJoined hctl hy
    · cases hs
  | cleanupTorn threw late =>
    simp only [step, Option.ite_none_right_eq_some, Option.some.injEq] at hs
    obtain ⟨hctl, rfl⟩ := hs
    exact drain_cleanupTorn hctl hy
  | destroyJoin i =>
    simp only [step, Option.ite_none_right_eq_some, Option.some.injEq] at hs
    obtain ⟨⟨hctl, -⟩, rfl⟩ := hs
    exact .destroyJoin i hctl
  | destroyEnd =>
    simp only [step, Option.ite_none_right_eq_some, Option.some.injEq] at hs
    obtain ⟨⟨hctl, -⟩, rfl⟩ := hs
    exact .destroyEnd hctl
  | destroyTorn threw =>
    simp only [step, Option.ite_none_right_eq_some, Option.some.injEq] at hs
    obtain ⟨hctl, rfl⟩ := hs
    exact .destroyTorn threw hctl
  | foreignRequest i k p =>
    simp only [step, Option.ite_none_right_eq_some, Option.some.injEq] at hs
    obtain ⟨-, rfl⟩ := hs
    exact absurd hy (foreignRequest_failed H)
  | foreignRelease i r =>
    obtain ⟨hcx, -⟩ := dead (candid_step rfl hs)
    simp only [step, Option.ite_none_right_eq_some, Option.some.injEq] at hs
    obtain ⟨-, rfl⟩ := hs
    exact drain_foreignRelease H hold hcx
  | register i | request i | wake i | user i c | stop i | release i | caught i | close i =>
    obtain ⟨hcx, -⟩ := dead (candid_step rfl hs)
    simp only [step, Option.ite_none_right_eq_some] at hs
    exact drain_workerStep H hs.1 hcx hs.2 hy

end Sys

end MirrorCpp.Sync
