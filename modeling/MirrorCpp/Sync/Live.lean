import MirrorCpp.Sync.Handshake

/-!
# Steps of a run that has not failed

As long as nothing failed and nobody cancelled, no clock reading was late, no budget refused
and no check threw. `LiveStep` lists what is left of the steps, each with the exact state it
leads to; `live_step` reads a step whose target is not cancelled against this list.
-/

namespace MirrorCpp.Sync

namespace State

/-- The row of a grant to actor `i`. -/
def grantRow (s : State) (i : Nat) : Event :=
  ⟨s.events.length, (s.actor i).id, (s.actor i).pending.op, (s.actor i).pending.resource,
    some s.enabledIds, 0⟩

/-- A logged grant. -/
def grantTo (s : State) (i : Nat) : State :=
  State.setActor { s with
    events := s.events ++ [s.grantRow i]
    report := { s.report with decisions := s.report.decisions + 1 } }
    i { s.actor i with grant := true }

/-- The row of the result of `p` for actor `i`. -/
def resultRow (s : State) (i : Nat) (p : Pending) (value : Int) : Event :=
  ⟨s.events.length, (s.actor i).id, p.op, p.resource, none, value⟩

/-- A granted operation that took effect and was logged. -/
def resultOf (s : State) (i : Nat) (p : Pending) : Int × State :=
  let (value, t) := (Sys.woken s i).takeEffect i p
  (value, { t with events := t.events ++ [s.resultRow i p value] })

/-- An observation that was retained. -/
def observed (s : State) (v : Json) : State :=
  { s with
    observations := s.observations ++ [⟨s.report.decisions, v⟩]
    executionEnded := s.executionEnded || s.report.finished }

def setFinished (s : State) : State :=
  { s with report := { s.report with finished := s.allFinished } }

/-- The record of an actor whose worker ended. -/
def finish (s : State) (i : Nat) : State :=
  s.setActor i { s.actor i with
    finished := true, parked := false, version := (s.actor i).version + 1 }

variable {s : State} {i : Nat}

theorem actor_grantTo (hi : i < s.actors.length) (j : Nat) :
    (s.grantTo i).actor j = if j = i then { s.actor i with grant := true } else s.actor j := by
  refine (actor_setActor _ i j _).trans ?_
  simp [hi]
  rfl

theorem actor_park (hi : i < s.actors.length) (p : Pending) :
    (s.park i p).actor i = { s.actor i with
      pending := p, parked := true, grant := false, version := (s.actor i).version + 1 } :=
  actor_setActor_self s _ hi

theorem actor_registerThread (hi : i < s.actors.length) :
    (s.registerThread i).actor i = { s.actor i with thread := some (.worker i) } :=
  actor_setActor_self s _ hi

theorem actor_finish (hi : i < s.actors.length) :
    (s.finish i).actor i = { s.actor i with
      finished := true, parked := false, version := (s.actor i).version + 1 } :=
  actor_setActor_self s _ hi

theorem allFinished_iff : s.allFinished = true ↔
    ∀ i, i < s.actors.length → (s.actor i).finished = true := by
  simp only [allFinished, List.all_eq_true]
  refine ⟨fun h i hi => h _ (actor_mem hi), fun h a ha => ?_⟩
  obtain ⟨i, hi, rfl⟩ := List.getElem_of_mem ha
  simpa [State.actor, List.getD_eq_getElem?_getD, hi] using h i hi

end State

open State

namespace Sys

inductive LiveStep (lib : JsonLib) (x : Sys) (c : Choice) : Sys → Prop where
  /-- A query of the enabled actors, or a decision whose row did not serialise. -/
  | stay : LiveStep lib x c x
  | spawn (ctl : Ctl) (hctl : x.ctl = .spawning) (hctl' : ctl.started = false) :
      LiveStep lib x c ⟨x.state, { x.impl with workers := x.impl.workers ++ [true] },
        x.pcs.set x.impl.workers.length .born, ctl⟩
  | barrier (hctl : x.ctl = .barrier) (hall : x.state.allParked = true) :
      LiveStep lib x c { x with ctl := .observing .constructor }
  | enter (k : Caller) (hctl : x.ctl = .observing k) :
      LiveStep lib x c { x with impl := { x.impl with observing := true }, ctl := .observer k }
  | retain (k : Caller) (v : Json) (hctl : x.ctl = .observer k) (hobj : v.isObj = true)
      (hinert : inertJson v = true) (hv : v.utf8 = true) :
      LiveStep lib x c { x with
        state := x.state.observed v, impl := { x.impl with observing := false }, ctl := .idle }
  /-- The row of the observation did not serialise. -/
  | unserialised (k : Caller) (v : Json) (l₁ l₂ l₃ : Bool) (hctl : x.ctl = .observer k)
      (hch : c = .observed (some v) l₁ l₂ l₃) (hl : l₁ = false ∨ x.state.executionEnded = true)
      (hobj : v.isObj = true) (hinert : inertJson v = true)
      (hbad : x.state.evidenceFits lib x.state.observations.isEmpty
        (Observation.toJson ⟨x.state.report.decisions, v⟩) = none) :
      LiveStep lib x c { x with
        impl := { x.impl with observing := false }
        ctl := k.onThrow }
  | grant (i : Nat) (actor : String) (late : Bool) (hch : c = .advance actor late)
      (hctl : x.ctl = .idle) (hi : i < x.state.actors.length)
      (he : x.state.enabled i = true) (hd : x.state.report.decisions < x.state.policy.maxDecisions)
      (hrow : (x.state.grantRow i).toJson.utf8 = true) :
      LiveStep lib x c ⟨x.state.grantTo i, x.impl, x.pcs, .granted i (x.state.actor i).version⟩
  | leave (i v : Nat) (hctl : x.ctl = .granted i v) (hv : (x.state.actor i).version ≠ v)
      (hj : (x.state.actor i).finished = true → x.joinable i = false) :
      LiveStep lib x c { x with state := x.state.setFinished, ctl := .observing .advance }
  | toJoin (i v : Nat) (hctl : x.ctl = .granted i v) (hv : (x.state.actor i).version ≠ v)
      (hf : (x.state.actor i).finished = true) (hj : x.joinable i = true) :
      LiveStep lib x c { x with ctl := .joining i }
  | joined (i : Nat) (hctl : x.ctl = .joining i) (hpc : x.pc i = .closed) :
      LiveStep lib x c { x.joined i with state := x.state.setFinished, ctl := .observing .advance }
  | register (i : Nat) (hi : i < x.pcs.length) (hpc : x.pc i = .born) :
      LiveStep lib x c ({ x with state := x.state.registerThread i }.setPc i
        (.calling .start ⟨.start, "", 0⟩))
  | park (i : Nat) (f : Frame) (p : Pending) (hi : i < x.pcs.length)
      (hpc : x.pc i = .calling f p)
      (hres : p.op.onResource = true → ∃ o, x.state.resource? p.resource = some o ∧
        misuse i p.op o = false) :
      LiveStep lib x c ({ x with state := x.state.park i p }.setPc i (.waiting f p))
  | result (i : Nat) (f : Frame) (p : Pending) (hi : i < x.pcs.length)
      (hpc : x.pc i = .waiting f p) (hg : (x.state.actor i).grant = true)
      (hrow : (x.state.resultRow i p (x.state.resultOf i p).1).toJson.utf8 = true) :
      LiveStep lib x c ({ x with state := (x.state.resultOf i p).2 }.setPc i
        (f.onReturn (x.state.resultOf i p).1))
  /-- The row of the result did not serialise. -/
  | unlogged (i : Nat) (f : Frame) (p : Pending) (hi : i < x.pcs.length)
      (hpc : x.pc i = .waiting f p) (hg : (x.state.actor i).grant = true)
      (hbad : x.state.evidenceFits lib x.state.events.isEmpty
        (x.state.resultRow i p (x.state.resultOf i p).1).toJson = none) :
      LiveStep lib x c ({ x with state := ((woken x.state i).takeEffect i p).2 }.setPc i f.onThrow)
  | user (i : Nat) (r : Ret) (call : Call) (hi : i < x.pcs.length) (hpc : x.pc i = .user r) :
      LiveStep lib x c (x.setPc i call.pc)
  | asked (i : Nat) (hi : i < x.pcs.length) (hpc : x.pc i = .asking) :
      LiveStep lib x c (x.setPc i (.user (.flag false)))
  | dropped (i : Nat) (r : String) (u : Bool) (hi : i < x.pcs.length)
      (hpc : x.pc i = .dropping r u) :
      LiveStep lib x c (x.setPc i (if u then .releasing r
        else .calling (.guard r) ⟨.unlock, r, 0⟩))
  | release (i : Nat) (r : String) (hi : i < x.pcs.length) (hpc : x.pc i = .releasing r)
      (hch : c = .release i) :
      LiveStep lib x c ({ x with state := x.state.unwindRelease i r }.setPc i (.user (.value 0)))
  | close (i : Nat) (hi : i < x.pcs.length) (hpc : x.pc i = .closing)
      (hfree : x.state.owns i = false) :
      LiveStep lib x c ({ x with state := x.state.finish i }.setPc i .closed)
  | foreignRelease (i : Nat) (r : String) (hi : i < x.pcs.length)
      (hch : c = .foreignRelease i r) :
      LiveStep lib x c { x with state := x.state.unwindRelease i r }

variable {lib : JsonLib} {x y : Sys} {i : Nat} {c : Choice}

/-! ## The controller -/

theorem queryEnabled_live {s : State} {late : Bool}
    (h : (queryEnabled s late).2.cancelled = false) : (queryEnabled s late).2 = s := by
  have hc := (quiet_queryEnabled s late).cancelled h
  simp only [queryEnabled] at h ⊢
  rcases executionExpired_cases s late "execution deadline before enabled query" with
    e | ⟨t, e, ht, -⟩
  · rw [e] at h ⊢
    split
    · rfl
    · rename_i h1
      rw [if_neg h1] at h
      split
      · rename_i h2
        rw [if_pos h2] at h
        exact absurd h (by simp)
      · rfl
  · rw [e] at h
    simp only [Bool.true_or, if_true] at h
    rw [ht] at h; cases h

theorem event_live {s t : State} {row : Event} {b : Bool} (h : s.event lib row = some (b, t))
    (hc : t.cancelled = false) :
    b = true ∧ t = { s with events := s.events ++ [{ row with ordinal := s.events.length }] } ∧
      ({ row with ordinal := s.events.length } : Event).toJson.utf8 = true := by
  rcases event_cases h with ⟨-, rfl⟩ | ⟨hb, ht⟩
  · exact absurd hc (by simp)
  · refine ⟨hb, ht, ?_⟩
    by_contra hu
    simp only [event] at h
    have hrow : lib.dumpSize ({ row with ordinal := s.events.length } : Event).toJson = none :=
      lib.dumpSize_eq_none.mpr (by simpa using hu)
    have hfit : s.evidenceFits lib s.events.isEmpty
        ({ row with ordinal := s.events.length } : Event).toJson = none := by
      simp only [evidenceFits, hrow]
      cases lib.dumpSize (.arr (s.events.map Event.toJson)) <;>
        cases lib.dumpSize (.arr (s.observations.map Observation.toJson)) <;> rfl
    rw [hfit] at h; cases h

theorem evidenceFits_some {s : State} {first b : Bool} {row : Json}
    (h : s.evidenceFits lib first row = some b) : row.utf8 = true := by
  by_contra hu
  have hrow : lib.dumpSize row = none := lib.dumpSize_eq_none.mpr (by simpa using hu)
  simp only [evidenceFits, hrow] at h
  cases he : lib.dumpSize (.arr (s.events.map Event.toJson)) <;>
    cases ho : lib.dumpSize (.arr (s.observations.map Observation.toJson)) <;>
    simp [he, ho] at h

theorem advance_live {actor : String} {late : Bool} (hctl : x.ctl = .idle)
    (hc : (x.advance lib actor late).state.cancelled = false) :
    LiveStep lib x (.advance actor late) (x.advance lib actor late) := by
  simp only [advance] at hc ⊢
  rcases executionExpired_cases x.state late "execution deadline before decision" with
    e | ⟨t, e, ht, -⟩
  · rw [e] at hc ⊢
    simp only [Bool.false_or] at hc ⊢
    split
    · exact .stay
    rename_i h1
    rw [if_neg h1] at hc
    split
    · rename_i h2
      rw [if_pos h2] at hc
      exact absurd hc (by simp)
    rename_i h2
    rw [if_neg h2] at hc
    simp only [Bool.or_eq_true, decide_eq_true_eq, Bool.not_eq_true', not_or,
      Bool.not_eq_false] at h2
    split
    · rename_i h3
      rw [if_pos h3] at hc
      exact absurd hc (by simp)
    rename_i h3
    rw [if_neg h3] at hc
    have hi : find x.state actor < x.state.actors.length :=
      lt_of_le_of_ne List.findIdx_le_length h2.1
    split
    · exact .stay
    · rename_i s ev
      rw [ev] at hc
      exact absurd hc (by
        rcases event_cases ev with ⟨-, rfl⟩ | ⟨hb, -⟩
        · simp
        · cases hb)
    · rename_i s ev
      obtain ⟨-, rfl, hrow⟩ := event_live ev (by rw [ev] at hc; exact hc)
      exact .grant (find x.state actor) actor late rfl hctl hi h2.2 (by omega) hrow
  · rw [e] at hc
    simp only [Bool.true_or, if_true] at hc
    rw [ht] at hc; cases hc

theorem passBarrier_live {timeout late : Bool} (hctl : x.ctl = .barrier)
    (ht : timeout = !(x.state.cancelled || x.state.allParked))
    (hc : (x.passBarrier timeout late).state.cancelled = false) :
    LiveStep lib x c (x.passBarrier timeout late) := by
  have hcx := (quiet_passBarrier x timeout late).cancelled hc
  simp only [passBarrier] at hc ⊢
  have he := executionExpired_cancelled hc
  rw [he] at hc ⊢
  cases timeout with
  | true => exact absurd hc (by simp)
  | false =>
    simp only [Bool.false_eq_true, if_false, hcx]
    exact .barrier hctl (by simpa [hcx] using ht)

theorem observeEnter_live {k : Caller} {late : Bool} (hctl : x.ctl = .observing k)
    (hc : (x.observeEnter k late).state.cancelled = false) :
    LiveStep lib x c (x.observeEnter k late) := by
  have hcx := (quiet_observeEnter x k late).cancelled hc
  simp only [observeEnter] at hc ⊢
  rcases executionExpired_cases x.state late "execution deadline before observer" with
    e | ⟨t, e, ht, -⟩
  · rw [e]
    simp only [hcx, Bool.or_self, Bool.false_eq_true, if_false]
    exact .enter k hctl
  · rw [e] at hc
    simp only [Bool.true_or, if_true] at hc
    rw [ht] at hc; cases hc

/-- What is retained of an observation, as long as nothing fails. -/
theorem retain_live {s t : State} {value : Option Json} {l₁ l₂ l₃ : Bool}
    (h : retain lib s value l₁ l₂ l₃ = some t) (hc : t.cancelled = false) :
    ∃ v, value = some v ∧ v.isObj = true ∧ inertJson v = true ∧ v.utf8 = true ∧
      t = s.observed v := by
  have hq := quiet_retain h
  have hcs := hq.cancelled hc
  cases value with
  | none =>
    -- an observer that threw has failed the run
    simp only [retain, Option.isNone_none, if_true] at h
    have hdead : (State.executionExpired (s.fail .observationFailed "observer threw") l₁
        "execution deadline during observer").2.cancelled = true := by
      have := quiet_executionExpired (s.fail .observationFailed "observer threw") l₁
        "execution deadline during observer"
      by_contra hn
      exact absurd (this.cancelled (by simpa using hn)) (by simp)
    rw [hdead] at h
    simp only [Bool.or_true, if_true, Option.some.injEq] at h
    rw [← h, hdead] at hc; cases hc
  | some v =>
    simp only [retain, Option.isNone_some, Bool.false_eq_true, if_false, Option.getD_some] at h
    rcases executionExpired_cases s l₁ "execution deadline during observer" with
      e | ⟨u, e, hu, -⟩
    · rw [e] at h
      simp only [hcs, Bool.or_self, Bool.false_eq_true, if_false] at h
      split at h
      · cases h; exact absurd hc (by simp)
      rename_i hshape
      simp only [Bool.or_eq_true, Bool.not_eq_true', not_or, Bool.not_eq_false] at hshape
      split at h
      · cases h
      · cases h; exact absurd hc (by simp)
      rename_i hfit
      have hv : v.utf8 = true := by
        have hrow := evidenceFits_some hfit
        simp only [Observation.toJson, Json.utf8_obj, Json.utf8Members_iff] at hrow
        exact (hrow ("state", v) (by simp)).2
      rcases executionExpired_cases s l₂ "execution deadline retaining observation" with
        e₂ | ⟨u, e₂, hu, -⟩
      · rw [e₂] at h
        simp only [Bool.false_eq_true, if_false] at h
        generalize hw : ({ s with observations := s.observations ++ [⟨s.report.decisions, v⟩] } :
          State) = w at h
        rcases executionExpired_cases w l₃ "execution deadline after observation retention" with
          e₃ | ⟨u, e₃, hu, -⟩
        · rw [e₃] at h
          simp only [Bool.false_eq_true, if_false] at h
          refine ⟨v, rfl, hshape.1, hshape.2, hv, ?_⟩
          subst hw
          split at h
          · rename_i hfin
            cases h
            simp only at hfin
            simp [observed, hfin]
          · rename_i hfin
            cases h
            simp only [Bool.not_eq_true] at hfin
            simp [observed, hfin]
        · rw [e₃] at h
          simp only [if_true] at h
          cases h
          change u.cancelled = false at hc
          rw [hu] at hc; cases hc
      · rw [e₂] at h
        simp only [if_true] at h
        cases h
        rw [hu] at hc; cases hc
    · rw [e] at h
      simp only [Bool.true_or, if_true] at h
      cases h
      rw [hu] at hc; cases hc

/-- Where retaining throws, the row of the observation did not serialise. -/
theorem retain_throws {s : State} {value : Option Json} {l₁ l₂ l₃ : Bool}
    (h : retain lib s value l₁ l₂ l₃ = none) (hcs : s.cancelled = false) :
    ∃ v, value = some v ∧ (l₁ = false ∨ s.executionEnded = true) ∧ v.isObj = true ∧
      inertJson v = true ∧ s.evidenceFits lib s.observations.isEmpty
        (Observation.toJson ⟨s.report.decisions, v⟩) =
        none := by
  cases value with
  | none =>
    simp only [retain, Option.isNone_none, if_true] at h
    have hdead : (State.executionExpired (s.fail .observationFailed "observer threw") l₁
        "execution deadline during observer").2.cancelled = true := by
      have := quiet_executionExpired (s.fail .observationFailed "observer threw") l₁
        "execution deadline during observer"
      by_contra hn
      exact absurd (this.cancelled (by simpa using hn)) (by simp)
    rw [hdead] at h
    simp at h
  | some v =>
    simp only [retain, Option.isNone_some, Bool.false_eq_true, if_false, Option.getD_some] at h
    rcases executionExpired_cases s l₁ "execution deadline during observer" with
      e | ⟨u, e, hu, -⟩
    · rw [e] at h
      simp only [hcs, Bool.or_self, Bool.false_eq_true, if_false] at h
      split at h
      · cases h
      rename_i hshape
      simp only [Bool.or_eq_true, Bool.not_eq_true', not_or, Bool.not_eq_false] at hshape
      split at h
      · rename_i hfit
        refine ⟨v, rfl, ?_, hshape.1, hshape.2, hfit⟩
        by_contra hl
        simp only [not_or, Bool.not_eq_false, Bool.not_eq_true] at hl
        simp [State.executionExpired, hl.1, hl.2] at e
      · cases h
      split at h
      · cases h
      split at h
      · cases h
      split at h <;> cases h
    · rw [e] at h
      simp at h

theorem observeLeave_live {k : Caller} {value : Option Json} {l₁ l₂ l₃ : Bool}
    (hctl : x.ctl = .observer k)
    (hc : (x.observeLeave lib k value l₁ l₂ l₃).state.cancelled = false) :
    LiveStep lib x (.observed value l₁ l₂ l₃) (x.observeLeave lib k value l₁ l₂ l₃) := by
  simp only [observeLeave] at hc ⊢
  split
  · rename_i s hs
    rw [hs] at hc
    obtain ⟨v, -, hobj, hinert, hv, rfl⟩ := retain_live hs hc
    exact .retain k v hctl hobj hinert hv
  · rename_i hs
    rw [hs] at hc
    obtain ⟨v, rfl, hl, hobj, hinert, hbad⟩ := retain_throws hs hc
    exact .unserialised k v l₁ l₂ l₃ hctl rfl hl hobj hinert hbad

theorem advanceWake_live {v : Nat} {timeout l₁ l₂ : Bool} (hctl : x.ctl = .granted i v)
    (ht : timeout = !canReturn x.state i v)
    (hc : (x.advanceWake i timeout l₁ l₂).state.cancelled = false) :
    LiveStep lib x c (x.advanceWake i timeout l₁ l₂) := by
  have hcx := (releases_advanceWake x i timeout l₁ l₂).quiet.cancelled hc
  cases timeout with
  | true =>
    simp only [advanceWake, if_true] at hc
    have h0 := quiet_executionExpired (x.state.fail .timedOut
      "actor did not reach resource boundary") l₁ "execution deadline after actor boundary"
    split at hc
    · exact absurd (h0.cancelled hc) (by simp)
    split at hc
    · exact absurd (h0.cancelled ((quiet_executionExpired _ _ _).cancelled hc)) (by simp)
    · exact absurd (h0.cancelled hc) (by simp)
  | false =>
    have hv : (x.state.actor i).version ≠ v := by simpa [canReturn, hcx] using ht.symm
    simp only [advanceWake, Bool.false_eq_true, if_false] at hc ⊢
    rcases executionExpired_cases x.state l₁ "execution deadline after actor boundary" with
      e | ⟨t, e, ht, -⟩
    · rw [e] at hc ⊢
      have hn : ¬x.state.cancelled = true := by simp [hcx]
      dsimp only at hc ⊢
      rw [if_neg hn] at hc ⊢
      split
      · rename_i hj
        rw [if_pos hj] at hc
        simp only [Bool.and_eq_true] at hj
        rw [executionExpired_cancelled hc]
        exact .toJoin i v hctl hv hj.1 hj.2
      · rename_i hj
        simp only [Bool.and_eq_true, not_and, Bool.not_eq_true] at hj
        exact .leave i v hctl hv hj
    · rw [e] at hc
      simp only [ht, if_true] at hc
      cases hc

theorem advanceJoined_live {late : Bool} (hctl : x.ctl = .joining i) (hpc : x.pc i = .closed)
    (hc : (x.advanceJoined i late).state.cancelled = false) :
    LiveStep lib x c (x.advanceJoined i late) := by
  have hcx := (releases_advanceJoined x i late).quiet.cancelled hc
  simp only [advanceJoined] at hc ⊢
  have e := executionExpired_cancelled hc
  rw [e]
  have hn : ¬(false || (x.joined i).state.cancelled) = true := by simp [joined, hcx]
  dsimp only
  rw [if_neg hn]
  exact .joined i hctl hpc

/-! ## The workers -/

/-- What a woken request does with its result, by the answer of the budget. -/
theorem requestWake_eq {s : State} (p : Pending) (hcs : s.cancelled = false) :
    s.requestWake lib i p =
      match s.evidenceFits lib s.events.isEmpty
        (s.resultRow i p ((woken s i).takeEffect i p).1).toJson with
      | none => (none, ((woken s i).takeEffect i p).2)
      | some false => (some ((woken s i).takeEffect i p).1,
        ((woken s i).takeEffect i p).2.fail .evidenceExhausted "receipt byte bound")
      | some true => (some (s.resultOf i p).1, (s.resultOf i p).2) := by
  set u := ((woken s i).takeEffect i p).2 with hu
  set v := ((woken s i).takeEffect i p).1 with hv
  have hevents : u.events = s.events := by
    simp only [hu, takeEffect]; split <;> rfl
  have hobs : u.observations = s.observations := by
    simp only [hu, takeEffect]; split <;> rfl
  have hpol : u.policy = s.policy := by
    simp only [hu, takeEffect]; split <;> rfl
  have hid : (u.actor i).id = (s.actor i).id := by
    simp only [hu, State.actor, actors_takeEffect, woken, setActor, List.getD_eq_getElem?_getD,
      List.getElem?_set]
    split
    · split
      · rfl
      · rename_i h; simp [List.getElem?_eq_none (Nat.le_of_not_lt h)]
    · rfl
  have hrow : ({ (⟨0, (u.actor i).id, p.op, p.resource, none, v⟩ : Event) with
      ordinal := u.events.length } : Event) = s.resultRow i p v := by
    simp [resultRow, hevents, hid]
  have hfits : u.evidenceFits lib u.events.isEmpty = s.evidenceFits lib s.events.isEmpty := by
    funext r; simp only [evidenceFits, hevents, hobs, hpol]
  unfold requestWake
  rw [hcs, if_neg Bool.false_ne_true]
  dsimp only
  generalize hwoken : takeEffect _ i p = t
  obtain rfl : t = (v, u) := hwoken.symm
  unfold event
  dsimp only
  rw [hfits, hrow]
  cases s.evidenceFits lib s.events.isEmpty (s.resultRow i p v).toJson with
  | none => rfl
  | some b => cases b <;> rfl

theorem requestWake_live {s : State} {p : Pending} (hcs : s.cancelled = false)
    (hc : (s.requestWake lib i p).2.cancelled = false) :
    (s.requestWake lib i p = (some (s.resultOf i p).1, (s.resultOf i p).2) ∧
      (s.resultRow i p (s.resultOf i p).1).toJson.utf8 = true) ∨
    (s.requestWake lib i p = (none, ((woken s i).takeEffect i p).2) ∧
      s.evidenceFits lib s.events.isEmpty (s.resultRow i p (s.resultOf i p).1).toJson = none) := by
  have heq := @requestWake_eq lib i s p hcs
  rw [heq] at hc
  rw [heq]
  split at hc
  · rename_i hfit
    exact .inr ⟨rfl, hfit⟩
  · exact absurd hc (by simp)
  · rename_i hfit
    exact .inl ⟨rfl, evidenceFits_some hfit⟩

theorem releaseAll_live {s : State} (hcs : s.cancelled = false)
    (hc : (s.finishWorker i).cancelled = false) :
    s.owns i = false ∧ s.finishWorker i = s.finish i := by
  have hfree : s.owns i = false := by
    by_contra ho
    have ho : s.owns i = true := by simpa using ho
    have : (s.releaseAll i).cancelled = false := hc
    simp [releaseAll, ho, hcs] at this
  refine ⟨hfree, ?_⟩
  simp only [finishWorker, releaseAll, hfree, Bool.false_eq_true, if_false]
  rfl

/-- A cancelled run stays cancelled. -/
theorem step_cancelled (h : x.step lib c = some y)
    (hc : y.state.cancelled = false) : x.state.cancelled = false := by
  cases step_moves h with
  | control hr _ _ => exact hr.quiet.cancelled hc
  | spawn => exact hc
  | grant i hctl hi he hq hct => exact hq.cancelled hct
  | register => exact hc
  | request i f p hi hpc =>
    rcases requestEnter_cases x.state (.worker i) i p with ⟨-, hcx, -, -⟩ | ⟨t, e, hq, -⟩
    · exact hcx
    · rw [e] at hc; exact hq.cancelled hc
  | wake i f p hi hpc hw => exact (own_requestWake lib x.state i p).cancelled hc
  | user => exact hc
  | asked => exact hc
  | dropped => exact hc
  | release i r hi hpc => simpa using hc
  | caught i hi hpc => exact (quiet_workerThrew x.state).cancelled hc
  | close i hi hpc => exact (own_finishWorker x.state i).cancelled hc
  | foreignRequest i k p hi =>
    rcases requestEnter_cases x.state (.other k) i p with ⟨-, hcx, -, -⟩ | ⟨t, e, hq, -⟩
    · exact hcx
    · rw [e] at hc; exact hq.cancelled hc
  | foreignRelease i r hi => simpa using hc

theorem worker_live (hcx : x.state.cancelled = false) (hch : ∀ j, c = .release j → j = i)
    (hi : i < x.pcs.length) (h : x.workerStep lib i c = some y)
    (hc : y.state.cancelled = false) : LiveStep lib x c y := by
  unfold workerStep at h
  split at h
  · split at h
    · rename_i hpc; cases h; exact .register i hi hpc
    · cases h
  · split at h
    · rename_i f p hpc
      rcases requestEnter_cases x.state (.worker i) i p with ⟨e, -, -, hres⟩ | ⟨t, e, -, ht⟩
      · rw [e] at h; cases h; exact .park i f p hi hpc hres
      · rw [e] at h
        cases h
        change t.cancelled = false at hc
        rw [ht] at hc; cases hc
    · cases h
  · split at h
    · rename_i f p hpc
      split at h
      · rename_i hw
        have hg : (x.state.actor i).grant = true := by simpa [canWake, hcx] using hw
        have hlive : (x.state.requestWake lib i p).2.cancelled = false → _ :=
          requestWake_live hcx
        generalize x.state.requestWake lib i p = r at h hlive
        obtain ⟨value, s⟩ := r
        cases h
        rcases hlive hc with ⟨e, hrow⟩ | ⟨e, hbad⟩
        · cases e; exact .result i f p hi hpc hg hrow
        · cases e; exact .unlogged i f p hi hpc hg hbad
      · cases h
    · cases h
  · split at h
    · rename_i r hpc; cases h; exact .user i r _ hi hpc
    · cases h
  · split at h
    · rename_i hpc
      cases h
      rw [hcx]
      exact .asked i hi hpc
    · rename_i r u hpc
      cases h
      rw [hcx, Bool.false_or]
      exact .dropped i r u hi hpc
    · cases h
  · split at h
    · rename_i r hpc; cases h; exact .release i r hi hpc (by rw [hch _ rfl])
    · cases h
  · split at h
    · rename_i hpc
      cases h
      change (x.state.workerThrew).cancelled = false at hc
      simp [workerThrew, hcx] at hc
    · cases h
  · split at h
    · rename_i hpc
      cases h
      obtain ⟨hfree, e⟩ := releaseAll_live hcx hc
      rw [e]
      exact .close i hi hpc hfree
    · cases h
  · cases h

/-- **A step that leaves the run alive is one of the list.** -/
theorem live_step (H : Handshake x) (hend : x.ctl.ending = false)
    (h : x.step lib c = some y) (hc : y.state.cancelled = false) : LiveStep lib x c y := by
  have hcx := step_cancelled h hc
  cases c with
  | enabled late =>
    simp only [step, Option.ite_none_right_eq_some, Option.some.injEq] at h
    obtain ⟨-, rfl⟩ := h
    rw [show ({ x with state := (queryEnabled x.state late).2 } : Sys) = x by
      rw [queryEnabled_live hc]]
    exact .stay
  | advance actor late =>
    simp only [step, Option.ite_none_right_eq_some, Option.some.injEq] at h
    obtain ⟨hctl, rfl⟩ := h
    exact advance_live hctl hc
  | cleanup late =>
    simp only [step, Option.ite_none_right_eq_some, Option.some.injEq] at h
    obtain ⟨hctl, rfl⟩ := h
    simp only [cleanup] at hc ⊢
    split
    · exact .stay
    · rename_i hn
      rw [if_neg hn] at hc; cases hc
  | destroy =>
    simp only [step, Option.ite_none_right_eq_some, Option.some.injEq] at h
    obtain ⟨-, rfl⟩ := h
    cases hc
  | spawn created =>
    simp only [step, Option.ite_none_right_eq_some, Option.some.injEq] at h
    obtain ⟨hctl, rfl⟩ := h
    cases created with
    | true =>
      refine .spawn _ hctl ?_
      split <;> rfl
    | false => exact absurd hc (by simp [spawn])
  | barrier timeout late =>
    simp only [step, Option.ite_none_right_eq_some, Option.some.injEq] at h
    obtain ⟨⟨hctl, ht⟩, rfl⟩ := h
    exact passBarrier_live hctl ht hc
  | observe late =>
    simp only [step] at h
    split at h
    · rename_i k hctl; cases h; exact observeEnter_live hctl hc
    · cases h
  | observed value l₁ l₂ l₃ =>
    simp only [step] at h
    split at h
    · rename_i k hctl; cases h; exact observeLeave_live hctl hc
    · cases h
  | granted timeout l₁ l₂ =>
    simp only [step] at h
    split at h
    · rename_i i version hctl
      simp only [Option.ite_none_right_eq_some, Option.some.injEq] at h
      obtain ⟨ht, rfl⟩ := h
      exact advanceWake_live hctl ht hc
    · cases h
  | joined late =>
    simp only [step] at h
    split at h
    · rename_i i hctl
      simp only [Option.ite_none_right_eq_some, Option.some.injEq] at h
      obtain ⟨hpc, rfl⟩ := h
      exact advanceJoined_live hctl hpc hc
    · cases h
  | cleanupWake timeout late | destroyJoin i | destroyEnd =>
    simp only [step, Option.ite_none_right_eq_some] at h
    rw [h.1.1] at hend; cases hend
  | cleanupTorn threw late | destroyTorn threw =>
    simp only [step, Option.ite_none_right_eq_some] at h
    rw [h.1] at hend; cases hend
  | cleanupJoined l₁ l₂ =>
    simp only [step] at h
    split at h
    · rename_i hctl; rw [hctl] at hend; cases hend
    · cases h
  | register i | request i | wake i | user i c | stop i | release i | caught i | close i =>
    simp only [step, Option.ite_none_right_eq_some] at h
    exact worker_live hcx (by rintro j ⟨⟩ <;> rfl) h.1 h.2 hc
  | foreignRequest i k p =>
    simp only [step, Option.ite_none_right_eq_some, Option.some.injEq] at h
    obtain ⟨hi, rfl⟩ := h
    rcases requestEnter_cases x.state (.other k) i p with ⟨-, -, hth, -⟩ | ⟨t, e, -, ht⟩
    · exact absurd (H.thread i _ hth) (by simp)
    · rw [e] at hc
      rw [ht] at hc; cases hc
  | foreignRelease i r =>
    simp only [step, Option.ite_none_right_eq_some, Option.some.injEq] at h
    obtain ⟨hi, rfl⟩ := h
    exact .foreignRelease i r hi rfl

end Sys

end MirrorCpp.Sync
