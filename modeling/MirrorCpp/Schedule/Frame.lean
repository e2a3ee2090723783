import MirrorCpp.Schedule.Execution

/-!
# What a step can do

`Work` lists the sections of a worker, `Move` every step, each with the guards it passed; the
steps of `cleanup` and the destructor behind their first section have one case, `Winding`.
Invariants are shown against these lists.
-/

namespace MirrorCpp.Schedule

namespace Shared

variable {s t : Shared} {i j : Nat}

/-! ## Actors -/

theorem actor_setActor (s : Shared) (i j : Nat) (a : ActorState) :
    (s.setActor i a).actor j = if j = i ∧ i < s.actors.length then a else s.actor j := by
  simp only [actor, setActor, List.getD_eq_getElem?_getD, List.getElem?_set]
  by_cases hj : i = j
  · subst hj
    by_cases hi : i < s.actors.length <;> simp [hi]
  · simp [hj, Ne.symm hj]

theorem actor_setActor_self (s : Shared) {i : Nat} (a : ActorState) (hi : i < s.actors.length) :
    (s.setActor i a).actor i = a := by simp [actor_setActor, hi]

theorem actor_setActor_ne (s : Shared) {i j : Nat} (a : ActorState) (hj : j ≠ i) :
    (s.setActor i a).actor j = s.actor j := by simp [actor_setActor, hj]

theorem actor_of_ge (h : s.actors.length ≤ i) : s.actor i = {} := by
  simp [actor, List.getD_eq_getElem?_getD, List.getElem?_eq_none h]

theorem actor_mem (hi : i < s.actors.length) : s.actor i ∈ s.actors := by
  simp [actor, List.getD_eq_getElem?_getD, List.getElem?_eq_getElem hi]

theorem lt_of_phase (h : (s.actor i).phase ≠ .starting) : i < s.actors.length := by
  by_contra hge
  exact h (by rw [actor_of_ge (by omega)])

theorem all_actors {p : ActorState → Bool} (h : s.actors.all p = true) (hi : i < s.actors.length) :
    p (s.actor i) = true := List.all_eq_true.mp h _ (actor_mem hi)

@[simp] theorem length_setActor (s : Shared) (i : Nat) (a : ActorState) :
    (s.setActor i a).actors.length = s.actors.length := by simp [setActor]

@[simp] theorem report_setActor (s : Shared) (i : Nat) (a : ActorState) :
    (s.setActor i a).report = s.report := rfl

@[simp] theorem failed_setActor (s : Shared) (i : Nat) (a : ActorState) :
    (s.setActor i a).failed = s.failed := rfl

@[simp] theorem stopping_setActor (s : Shared) (i : Nat) (a : ActorState) :
    (s.setActor i a).stopping = s.stopping := rfl

@[simp] theorem cancelled_setActor (s : Shared) (i : Nat) (a : ActorState) :
    (s.setActor i a).cancelled = s.cancelled := rfl

@[simp] theorem checkpoints_setActor (s : Shared) (i : Nat) (a : ActorState) :
    (s.setActor i a).checkpoints = s.checkpoints := rfl

/-! ## Failures -/

/-- `t` is `s`, or `s` with its first failure recorded. -/
structure Judged (s t : Shared) : Prop where
  actors : t.actors = s.actors
  stopping : t.stopping = s.stopping
  cancelled : t.cancelled = s.cancelled
  checkpoints : t.checkpoints = s.checkpoints
  report : t.report = { s.report with outcome := t.report.outcome, detail := t.report.detail }
  first : t = s ∨ s.failed = false ∧ t.failed = true ∧ t.report.outcome ≠ .completed

namespace Judged

variable {u : Shared}

theorem refl (s : Shared) : Judged s s := ⟨rfl, rfl, rfl, rfl, rfl, .inl rfl⟩

theorem eq_of_failed (h : Judged s t) (hf : s.failed = true) : t = s := by
  rcases h.first with h | ⟨h, -⟩
  · exact h
  · rw [hf] at h; cases h

theorem eq_of_live (h : Judged s t) (hf : t.failed = false) : t = s := by
  rcases h.first with h | ⟨-, h, -⟩
  · exact h
  · rw [hf] at h; cases h

theorem trans (h : Judged s t) (h' : Judged t u) : Judged s u where
  actors := h'.actors.trans h.actors
  stopping := h'.stopping.trans h.stopping
  cancelled := h'.cancelled.trans h.cancelled
  checkpoints := h'.checkpoints.trans h.checkpoints
  report := by rw [h'.report, h.report]
  first := by
    rcases h.first with rfl | ⟨hs, ht, ho⟩
    · exact h'.first
    · rw [h'.eq_of_failed ht]
      exact .inr ⟨hs, ht, ho⟩

theorem actor (h : Judged s t) (i : Nat) : t.actor i = s.actor i := by
  simp [Shared.actor, h.actors]

theorem live (h : Judged s t) (hf : t.failed = false) : s.failed = false := by
  rw [← h.eq_of_live hf]; exact hf

theorem events (h : Judged s t) : t.report.events = s.report.events := by rw [h.report]

theorem observations (h : Judged s t) : t.report.observations = s.report.observations := by
  rw [h.report]

theorem scheduleCompleted (h : Judged s t) :
    t.report.scheduleCompleted = s.report.scheduleCompleted := by rw [h.report]

theorem cleanup (h : Judged s t) : t.report.cleanup = s.report.cleanup := by rw [h.report]

theorem remainingActors (h : Judged s t) :
    t.report.remainingActors = s.report.remainingActors := by rw [h.report]

end Judged

@[simp] theorem failed_fail (s : Shared) (o : Outcome) (d : String) :
    (s.fail o d).failed = true := by
  unfold fail
  split
  · assumption
  · rfl

theorem fail_of_failed (h : s.failed = true) (o : Outcome) (d : String) : s.fail o d = s := by
  simp [fail, h]

theorem judged_fail (s : Shared) {o : Outcome} (ho : o ≠ .completed) (d : String) :
    Judged s (s.fail o d) := by
  cases hf : s.failed with
  | true => rw [fail_of_failed hf]; exact .refl s
  | false =>
    have h : s.fail o d = { s with
        failed := true
        report := { s.report with outcome := o, detail := Text.firstBytes 1024 d } } := by
      simp [fail, hf]
    rw [h]
    exact ⟨rfl, rfl, rfl, rfl, rfl, .inr ⟨hf, rfl, ho⟩⟩

theorem judged_misused (s : Shared) : Judged s s.misused := judged_fail s (by decide) _

theorem judged_workerThrew (s : Shared) (what : Option String) : Judged s (s.workerThrew what) :=
  judged_fail s (by decide) _

theorem judged_settle (s : Shared) (late : Bool) : Judged s (s.settle late) := by
  have h : Judged s (if s.cancelled then s.fail .cancelled "execution cancelled" else s) := by
    split
    · exact judged_fail s (by decide) _
    · exact .refl s
  unfold settle
  dsimp only
  split
  · exact h.trans (judged_fail _ (by decide) _)
  · exact h

/-- What a check leaves alive is neither cancelled nor late. -/
theorem settle_live {late : Bool} (h : (s.settle late).failed = false) :
    s.settle late = s ∧ s.failed = false ∧ s.cancelled = false ∧ late = false := by
  have heq := (judged_settle s late).eq_of_live h
  refine ⟨heq, heq ▸ h, ?_, ?_⟩
  · cases hc : s.cancelled with
    | false => rfl
    | true =>
      cases late <;> simp [settle, hc] at h
  · cases late with
    | false => rfl
    | true => simp [settle] at h

theorem settle_of_live {late : Bool} (hc : s.cancelled = false) (hl : late = false) :
    s.settle late = s := by simp [settle, hc, hl]

end Shared

/-! ## The sections of a worker -/

/-- In the worker's own code, or behind it: between the wake-up and the next wait. -/
def Pc.loose : Pc → Bool
  | .user _ | .arriving _ | .asking | .caught _ | .closing => true
  | _ => false

namespace Sys

open Shared

variable {x y : Sys} {lib : JsonLib} {i j : Nat}

theorem pc_setPc (x : Sys) (i j : Nat) (p : Pc) :
    (x.setPc i p).pc j = if j = i ∧ i < x.pcs.length then p else x.pc j := by
  simp only [pc, setPc, List.getD_eq_getElem?_getD, List.getElem?_set]
  by_cases hj : i = j
  · subst hj
    by_cases hi : i < x.pcs.length <;> simp [hi]
  · simp [hj, Ne.symm hj]

theorem pc_setPc_self (x : Sys) {i : Nat} (p : Pc) (hi : i < x.pcs.length) :
    (x.setPc i p).pc i = p := by simp [pc_setPc, hi]

theorem pc_setPc_ne (x : Sys) {i j : Nat} (p : Pc) (hj : j ≠ i) :
    (x.setPc i p).pc j = x.pc j := by simp [pc_setPc, hj]

@[simp] theorem state_setPc (x : Sys) (i : Nat) (p : Pc) : (x.setPc i p).state = x.state := rfl

@[simp] theorem ctl_setPc (x : Sys) (i : Nat) (p : Pc) : (x.setPc i p).ctl = x.ctl := rfl

@[simp] theorem impl_setPc (x : Sys) (i : Nat) (p : Pc) : (x.setPc i p).impl = x.impl := rfl

@[simp] theorem pcs_length_setPc (x : Sys) (i : Nat) (p : Pc) :
    (x.setPc i p).pcs.length = x.pcs.length := by simp [setPc]

/-- One section of worker `i`. -/
inductive Work (x : Sys) (i : Nat) : Sys → Prop where
  | register (hpc : x.pc i = .born) (hl : x.locked = false) :
      Work x i ({ x with state := x.state.register i }.setPc i (.waiting .start))
  | wake {f : Frame} (hpc : x.pc i = .waiting f) (hl : x.locked = false)
      (hs : x.state.stopping = false) (hr : (x.state.actor i).phase = .running) :
      Work x i (x.setPc i (.user .returned))
  | stopped {f : Frame} (hpc : x.pc i = .waiting f) (hl : x.locked = false)
      (hs : x.state.stopping = true) : Work x i (x.setPc i f.onStop)
  | user {r : Ret} {c : Call} (hpc : x.pc i = .user r) : Work x i (x.setPc i c.pc)
  | asked (hpc : x.pc i = .asking) : Work x i (x.setPc i (.user (.flag x.state.cancelled)))
  | foreign {checkpoint : String} (hpc : x.pc i = .arriving checkpoint) (hl : x.locked = false)
      (hw : (x.state.actor i).thread ≠ some (.worker i) ∨ (x.state.actor i).phase ≠ .running) :
      Work x i ({ x with state := x.state.misused }.setPc i (.user .threw))
  | refused {checkpoint : String} (hpc : x.pc i = .arriving checkpoint) (hl : x.locked = false)
      (hs : x.state.stopping = true) : Work x i (x.setPc i (.user .threw))
  | astray {checkpoint : String} (hpc : x.pc i = .arriving checkpoint) (hl : x.locked = false)
      (ht : (x.state.actor i).thread = some (.worker i)) (hr : (x.state.actor i).phase = .running)
      (hs : x.state.stopping = false) (hd : x.state.declares checkpoint = false) :
      Work x i ({ x with state := x.state.astray i checkpoint }.setPc i (.user .threw))
  | park {checkpoint : String} (hpc : x.pc i = .arriving checkpoint) (hl : x.locked = false)
      (ht : (x.state.actor i).thread = some (.worker i)) (hr : (x.state.actor i).phase = .running)
      (hs : x.state.stopping = false) (hd : x.state.declares checkpoint = true) :
      Work x i ({ x with state := x.state.park i checkpoint }.setPc i (.waiting .body))
  | threw {what : Option String} (hpc : x.pc i = .caught what) (hl : x.locked = false) :
      Work x i ({ x with state := x.state.workerThrew what }.setPc i .closing)
  | finish (hpc : x.pc i = .closing) (hl : x.locked = false) :
      Work x i ({ x with state := x.state.finishWorker i }.setPc i .closed)

/-- The outcomes of `arrive`. -/
theorem arrive_cases (s : Shared) (self : ThreadId) (i : Nat) (checkpoint : String) :
    (((s.actor i).thread ≠ some self ∨ (s.actor i).phase ≠ .running) ∧
      s.arrive self i checkpoint = (false, s.misused)) ∨
    ((s.actor i).thread = some self ∧ (s.actor i).phase = .running ∧
      (s.stopping = true ∧ s.arrive self i checkpoint = (false, s) ∨
        s.stopping = false ∧ s.declares checkpoint = false ∧
          s.arrive self i checkpoint = (false, s.astray i checkpoint) ∨
        s.stopping = false ∧ s.declares checkpoint = true ∧
          s.arrive self i checkpoint = (true, s.park i checkpoint))) := by
  unfold arrive
  split
  · exact .inl ⟨‹_›, rfl⟩
  · rename_i hw
    simp only [not_or, ne_eq, not_not] at hw
    refine .inr ⟨hw.1, hw.2, ?_⟩
    cases hs : s.stopping <;> cases hd : s.declares checkpoint <;> simp

theorem work_of_workerStep {c : Choice} (h : x.workerStep i c = some y) : Work x i y := by
  unfold workerStep at h
  split at h
  case h_1 =>
    split at h <;> cases hl : x.locked <;> simp only [hl, if_true, if_false, reduceCtorEq] at h
    cases h; exact .register ‹_› hl
  case h_2 =>
    split at h
    · rename_i f hpc
      cases hl : x.locked <;> cases hs : x.state.stopping <;>
        simp only [hl, hs, canWake, Bool.true_or, Bool.false_or, Bool.or_false, if_true,
          Bool.not_true, reduceCtorEq, if_false, Bool.false_eq_true] at h
      · split at h
        · cases h
        · cases h
          rename_i hr
          exact .wake hpc hl hs (by simpa [beq_iff_eq] using hr)
      · cases h; exact .stopped hpc hl hs
    · cases h
  case h_3 =>
    split at h
    · cases h; exact .user ‹_›
    · cases h
  case h_4 =>
    split at h
    · cases h; exact .asked ‹_›
    · cases h
  case h_5 =>
    split at h
    · rename_i checkpoint hpc
      cases hl : x.locked <;> simp only [hl, if_true, if_false, reduceCtorEq, Bool.false_eq_true]
        at h
      rcases arrive_cases x.state (.worker i) i checkpoint with
        ⟨hw, he⟩ | ⟨ht, hr, ⟨hs, he⟩ | ⟨hs, hd, he⟩ | ⟨hs, hd, he⟩⟩ <;>
      · rw [he] at h
        cases h
        first
          | exact .foreign hpc hl hw
          | exact .refused hpc hl hs
          | exact .astray hpc hl ht hr hs hd
          | exact .park hpc hl ht hr hs hd
    · cases h
  case h_6 =>
    split at h <;> cases hl : x.locked <;> simp only [hl, if_true, if_false, reduceCtorEq] at h
    cases h; exact .threw ‹_› hl
  case h_7 =>
    split at h <;> cases hl : x.locked <;> simp only [hl, if_true, if_false, reduceCtorEq] at h
    cases h; exact .finish ‹_› hl
  case h_8 => cases h

/-! ## The sections of the controller -/

/-- What the loop of `cleanup` does up to its next join or its end. -/
inductive Scan (x : Sys) : Sys → Prop where
  | join {i : Nat} (hi : i < x.impl.threads.length) (hp : (x.state.actor i).phase = .finished)
      (hj : x.joinable i = true) : Scan x { x with ctl := .cleanupJoin i }
  | tear (hr : x.remaining = []) (ha : x.impl.teardownAttempted = false) :
      Scan x { x with
        state := { x.state with report := { x.state.report with remainingActors := [] } }
        impl := { x.impl with teardownAttempted := true }
        ctl := .tearing }.callTeardown
  | rest (h : x.remaining = [] → x.impl.teardownAttempted = true) :
      Scan x { x with state := { x.state with report :=
        { x.state.report with remainingActors := x.remaining } } }.cleanupEnd

theorem scan (x : Sys) (k : Nat) : Scan x (x.cleanupScan k) := by
  unfold cleanupScan
  split
  · rename_i i hf
    have hi := List.find?_some hf
    simp only [mayJoin, Bool.and_eq_true, decide_eq_true_eq, beq_iff_eq] at hi
    exact .join (List.mem_range.mp (List.mem_of_find?_eq_some hf)) hi.2.1 hi.2.2
  · have hr : ∀ r, Sys.remaining { x with state := { x.state with report := r } } = x.remaining :=
      fun _ => rfl
    unfold cleanupRest
    dsimp only
    rw [hr]
    split
    · rename_i h
      rw [h.1]
      exact .tear h.1 h.2
    · rename_i h
      exact .rest fun hx => by
        cases ha : x.impl.teardownAttempted with
        | true => rfl
        | false => exact absurd ⟨hx, ha⟩ h

/-- A section of `cleanup` behind its wait, or of the destructor. -/
inductive Wind (x : Sys) : Sys → Prop where
  | wake {y : Sys} (hctl : x.ctl = .cleaning) (h : Scan x y) : Wind x y
  | joined {i : Nat} {y : Sys} (hctl : x.ctl = .cleanupJoin i) (hpc : x.pc i = .closed)
      (h : Scan { x.joined i with state := markJoined x.state i } y) : Wind x y
  | torn {failed : Bool} {detail : String} (hctl : x.ctl = .tearing)
      (hf : x.impl.teardownFailed = true → failed = true)
      (hm : x.impl.program.teardown = false → failed = true) :
      Wind x { x with impl := { x.impl with
        teardownFailed := failed, teardownDetail := detail } }.cleanupEnd
  | destroyJoin {i : Nat} (hctl : x.ctl = .destroying) (hpc : x.pc i = .closed) :
      Wind x (x.joined i)
  | destroyTear (hctl : x.ctl = .destroying) (hj : x.impl.threads.all (!·) = true)
      (hc : x.impl.constructed = true) (ha : x.impl.teardownAttempted = false)
      (ht : x.impl.program.teardown = true) :
      Wind x { x with ctl := .destroyTearing }.callTeardown
  | destroyEnd (hctl : x.ctl = .destroying) (hj : x.impl.threads.all (!·) = true)
      (h : x.impl.constructed = true → x.impl.program.teardown = true →
        x.impl.teardownAttempted = true) : Wind x { x with ctl := .destroyed }
  | destroyTorn (hctl : x.ctl = .destroyTearing) : Wind x { x with ctl := .destroyed }

/-- What the observer's return leaves: a failure, or one more observation. -/
inductive Retained (x : Sys) : Sys → Prop where
  | failed {what : String} :
      Retained x { x with state := x.state.fail .observationFailed what }
  | kept {bytes : Nat} {value : Json} :
      Retained x { x with
        impl := { x.impl with observationBytes := bytes }
        state := { x.state with report := { x.state.report with
          observations := x.state.report.observations ++ [⟨x.impl.nextStep, value⟩] } } }

theorem retained (lib : JsonLib) (x : Sys) (value : Except Thrown Json) :
    Retained x (x.retain lib value) := by
  unfold retain
  dsimp only
  split
  · exact .failed
  · split
    · exact .failed
    · split
      · exact .failed
      · split
        · exact .failed
        · exact .kept

/-- One step. -/
inductive Move (x : Sys) : Sys → Prop where
  | work {i : Nat} {y : Sys} (hi : i < x.pcs.length) (h : Work x i y) : Move x y
  | cancel : Move x { x with state := { x.state with cancelled := true } }
  | foreign {i k : Nat} {checkpoint : String} (hl : x.locked = false) :
      Move x { x with state := (x.state.arrive (.other k) i checkpoint).2 }
  /-- A call that throws or has nothing to do. -/
  | stay (hctl : x.ctl = .idle) : Move x x
  | refuse {o : Outcome} {d : String} (hctl : x.ctl = .idle) (hc : x.cannotAdvance = false)
      (ho : o ≠ .completed) :
      Move x { x with state := x.state.fail o d, ctl := .returning }
  | permit {st : Step} {late : Bool} (hctl : x.ctl = .idle) (hc : x.cannotAdvance = false)
      (hr : x.refusal st late = none) :
      Move x { x with
        state := Sys.permit x.state x.impl.nextStep (find x.state st.actor)
        ctl := .permitted (find x.state st.actor) st.checkpoint }
  | finish {s : Shared} (hctl : x.ctl = .idle) (hc : x.impl.closed = false)
      (hs : x.impl.constructed = true) (hj : Judged x.state s)
      (hl : s.failed = false → x.state.report.scheduleCompleted = true) :
      Move x { x with state := s, ctl := .entering }
  | badBudget (hctl : x.ctl = .entering) (hb : validBudget x.impl.policy.cleanupTimeout = false) :
      Move x { x with ctl := .idle }
  | close (hctl : x.ctl = .idle ∨ x.ctl = .entering) (hc : x.impl.constructed = false) :
      Move x { x with impl := { x.impl with closed := true }, ctl := .idle }
  | clean (hctl : x.ctl = .idle ∨ x.ctl = .entering) (hc : x.impl.constructed = true) :
      Move x { x with
        impl := { x.impl with closed := true }
        state := { x.state with stopping := true, cancelled := true }
        ctl := .cleaning }
  | destroy (hctl : x.ctl = .idle) : Move x x.destroy
  | spawn (hctl : x.ctl = .spawning) : Move x (x.spawn none)
  | spawnRefused {what : String} (hctl : x.ctl = .spawning) :
      Move x { x with state := x.state.fail .resourceFailed what, ctl := .barrier }
  | barrierFailed {s : Shared} (hctl : x.ctl = .barrier) (hj : Judged x.state s)
      (hf : s.failed = true) : Move x { x with state := s, ctl := .entering }
  | barrier (hctl : x.ctl = .barrier) (hf : x.state.failed = false)
      (hp : x.state.allParked = true) : Move x { x with ctl := .observer .start }
  | startObserved {y : Sys} {late : Bool} (hctl : x.ctl = .observer .start) (h : Retained x y) :
      Move x (y.startObserved late)
  | advanceObserved {y : Sys} {late : Bool} (hctl : x.ctl = .observer .advance)
      (h : Retained x y) : Move x (y.advanceObserved late)
  | wokenFailed {i : Nat} {e : String} {s : Shared} (hctl : x.ctl = .permitted i e)
      (hj : Judged x.state s) (hf : s.failed = true) :
      Move x { x with state := recordArrival s x.impl.nextStep i, ctl := .returning }
  | wokenAstray {i : Nat} {e d : String} (hctl : x.ctl = .permitted i e)
      (hf : x.state.failed = false) (hp : (x.state.actor i).phase ≠ .running) :
      Move x { x with
        state := (recordArrival x.state x.impl.nextStep i).fail .unexpectedCheckpoint d
        ctl := .returning }
  | wokenFinished {i : Nat} {e : String} (hctl : x.ctl = .permitted i e)
      (hf : x.state.failed = false) (hp : (x.state.actor i).phase = .finished)
      (he : (x.state.actor i).checkpoint = e) :
      Move x { x with state := recordArrival x.state x.impl.nextStep i, ctl := .joining i }
  | wokenParked {i : Nat} {e : String} (hctl : x.ctl = .permitted i e)
      (hf : x.state.failed = false) (hr : (x.state.actor i).phase ≠ .running)
      (hp : (x.state.actor i).phase ≠ .finished) (he : (x.state.actor i).checkpoint = e) :
      Move x { x with
        state := recordArrival x.state x.impl.nextStep i
        impl := { x.impl with nextStep := x.impl.nextStep + 1 }
        ctl := .observer .advance }
  | joined {i : Nat} (hctl : x.ctl = .joining i) (hpc : x.pc i = .closed) :
      Move x (x.advanceJoined i)
  | leave (hctl : x.ctl = .returning) :
      Move x { x with ctl := if x.state.failed then .entering else .idle }
  | wind {y : Sys} (h : Wind x y) : Move x y

theorem move_advance (x : Sys) (st : Step) (late : Bool) (hctl : x.ctl = .idle) :
    Move x (x.advance st late) := by
  unfold advance
  split
  · exact .stay hctl
  · rename_i hc
    have hc : x.cannotAdvance = false := by simpa using hc
    cases hr : x.refusal st late with
    | none => exact .permit hctl hc hr
    | some r =>
      obtain ⟨o, d⟩ := r
      refine .refuse hctl hc ?_
      unfold refusal at hr
      repeat' split at hr
      all_goals cases hr <;> decide

theorem move_finish (x : Sys) (hctl : x.ctl = .idle) : Move x x.finish := by
  unfold finish
  split
  · exact .stay hctl
  · rename_i h
    simp only [Bool.or_eq_true, not_or, Bool.not_eq_true, Bool.not_eq_eq_eq_not,
      Bool.not_true] at h
    refine .finish hctl h.1 (by simpa using h.2) ?_ ?_
    · split
      · exact judged_fail _ (by decide) _
      · exact .refl _
    · split
      · simp
      · rename_i hc
        intro _
        simp only [Bool.or_eq_true, not_or, Bool.not_eq_eq_eq_not, Bool.not_true] at hc
        simpa using hc.2

theorem move_cleanup (x : Sys) (timeout : Int) (hctl : x.ctl = .idle ∨ x.ctl = .entering)
    (hb : x.ctl = .entering → timeout = x.impl.policy.cleanupTimeout) :
    Move x (x.cleanup timeout) := by
  unfold cleanup
  split
  · rename_i h
    rcases hctl with hctl | hctl
    · rw [← hctl]; exact .stay hctl
    · exact .badBudget hctl (by rw [← hb hctl]; simpa using h)
  · dsimp only
    split
    · exact .close hctl (by simpa using ‹(!_) = true›)
    · exact .clean hctl (by simpa using ‹¬(!_) = true›)

theorem move_passBarrier (x : Sys) (late : Bool) (hctl : x.ctl = .barrier)
    (hw : waitOver x.state x.state.allParked late = true) : Move x (x.passBarrier late) := by
  unfold passBarrier
  dsimp only
  cases hf : (x.state.settle late).failed with
  | true => exact .barrierFailed hctl (judged_settle _ _) hf
  | false =>
    obtain ⟨heq, hx, hc, hl⟩ := settle_live hf
    rw [heq]
    exact .barrier hctl hx (by simpa [waitOver, hx, hc, hl] using hw)

theorem recordArrival_actors (s : Shared) (n i : Nat) :
    (recordArrival s n i).actors = s.actors := by
  unfold recordArrival
  dsimp only
  split <;> rfl

@[simp] theorem recordArrival_actor (s : Shared) (n i j : Nat) :
    (recordArrival s n i).actor j = s.actor j := by
  simp [Shared.actor, recordArrival_actors]

@[simp] theorem recordArrival_failed (s : Shared) (n i : Nat) :
    (recordArrival s n i).failed = s.failed := by
  unfold recordArrival
  dsimp only
  split <;> rfl

@[simp] theorem recordArrival_stopping (s : Shared) (n i : Nat) :
    (recordArrival s n i).stopping = s.stopping := by
  unfold recordArrival
  dsimp only
  split <;> rfl

theorem move_permitWake (x : Sys) (i : Nat) (e : String) (late : Bool)
    (hctl : x.ctl = .permitted i e)
    (hw : waitOver x.state ((x.state.actor i).phase != .running) late = true) :
    Move x (x.permitWake i e late) := by
  unfold permitWake
  dsimp only
  rw [recordArrival_failed, recordArrival_actor]
  split
  · rename_i hf
    exact .wokenFailed hctl (judged_settle _ _) hf
  · rename_i hf
    obtain ⟨heq, hx, hc, hl⟩ := settle_live (by simpa using hf)
    have hr : (x.state.actor i).phase ≠ .running := by simpa [waitOver, hx, hc, hl] using hw
    rw [heq]
    split
    · exact .wokenAstray hctl hx hr
    · rename_i he
      have he : (x.state.actor i).checkpoint = e := by simpa using he
      split
      · exact .wokenFinished hctl hx ‹_› he
      · exact .wokenParked hctl hx hr ‹_› he

theorem wind_torn (x : Sys) (threw : Option Thrown) (hctl : x.ctl = .tearing) :
    Wind x (x.cleanupTorn threw) := by
  unfold cleanupTorn
  dsimp only
  cases hp : x.impl.program.teardown with
  | false => exact .torn hctl (fun _ => rfl) fun _ => rfl
  | true =>
    cases threw with
    | none => exact .torn hctl id fun h => by rw [hp] at h; cases h
    | some what => exact .torn hctl (fun _ => rfl) fun _ => rfl

theorem wind_destroyEnd (x : Sys) (hctl : x.ctl = .destroying)
    (hj : x.impl.threads.all (!·) = true) : Wind x x.destroyEnd := by
  unfold destroyEnd
  split
  · rename_i h
    simp only [Bool.and_eq_true, Bool.not_eq_true'] at h
    exact .destroyTear hctl hj h.1.1 h.1.2 h.2
  · rename_i h
    refine .destroyEnd hctl hj fun hc ht => ?_
    simpa [hc, ht] using h

theorem move_of_step {c : Choice} (h : x.step lib c = some y) : Move x y := by
  cases c with
  | advance st late =>
    simp only [step, Option.ite_none_right_eq_some, Option.some.injEq] at h
    rw [← h.2]; exact move_advance x st late h.1
  | finish =>
    simp only [step, Option.ite_none_right_eq_some, Option.some.injEq] at h
    rw [← h.2]; exact move_finish x h.1
  | cleanup timeout =>
    simp only [step, Option.ite_none_right_eq_some, Option.some.injEq] at h
    rw [← h.2]
    exact move_cleanup x timeout (.inl h.1) fun he => by rw [h.1] at he; cases he
  | destroy =>
    simp only [step, Option.ite_none_right_eq_some, Option.some.injEq] at h
    rw [← h.2]; exact .destroy h.1
  | spawn refused =>
    simp only [step, Option.ite_none_right_eq_some, Option.some.injEq] at h
    rw [← h.2]
    cases refused with
    | none => exact .spawn h.1
    | some what => exact .spawnRefused h.1
  | barrier late =>
    simp only [step, Option.ite_none_right_eq_some, Option.some.injEq] at h
    rw [← h.2]; exact move_passBarrier x late h.1.1 h.1.2
  | observed value late =>
    simp only [step] at h
    split at h
    · rename_i k hctl
      rw [← Option.some.inj h]
      cases k with
      | start => exact .startObserved hctl (retained lib x value)
      | advance => exact .advanceObserved hctl (retained lib x value)
    · cases h
  | permitted late =>
    simp only [step] at h
    split at h
    · simp only [Option.ite_none_right_eq_some, Option.some.injEq] at h
      rw [← h.2]; exact move_permitWake x _ _ late ‹_› h.1
    · cases h
  | joined =>
    simp only [step] at h
    split at h
    · simp only [Option.ite_none_right_eq_some, Option.some.injEq] at h
      rw [← h.2]; exact .joined ‹_› h.1
    · cases h
  | leave =>
    simp only [step, Option.ite_none_right_eq_some, Option.some.injEq] at h
    rw [← h.2]; exact .leave h.1
  | enter =>
    simp only [step, Option.ite_none_right_eq_some, Option.some.injEq] at h
    rw [← h.2]; exact move_cleanup x _ (.inr h.1) fun _ => rfl
  | cleanupWake late =>
    simp only [step, Option.ite_none_right_eq_some, Option.some.injEq] at h
    rw [← h.2]; exact .wind (.wake h.1.1 (scan x 0))
  | cleanupJoined =>
    simp only [step] at h
    split at h
    · simp only [Option.ite_none_right_eq_some, Option.some.injEq] at h
      rw [← h.2]; exact .wind (.joined ‹_› h.1 (scan _ _))
    · cases h
  | cleanupTorn threw =>
    simp only [step, Option.ite_none_right_eq_some, Option.some.injEq] at h
    rw [← h.2]; exact .wind (wind_torn x threw h.1)
  | destroyJoin =>
    simp only [step] at h
    split at h
    · simp only [Option.ite_none_right_eq_some, Option.some.injEq] at h
      rw [← h.2]; exact .wind (.destroyJoin h.1.1 h.1.2)
    · cases h
  | destroyEnd =>
    simp only [step, Option.ite_none_right_eq_some, Option.some.injEq] at h
    rw [← h.2]; exact .wind (wind_destroyEnd x h.1.1 h.1.2)
  | destroyTorn =>
    simp only [step, Option.ite_none_right_eq_some, Option.some.injEq] at h
    rw [← h.2]; exact .wind (.destroyTorn h.1)
  | register i | wake i | user i c | stop i | arrive i | caught i | close i =>
    simp only [step, Option.ite_none_right_eq_some] at h
    exact .work h.1 (work_of_workerStep h.2)
  | cancel =>
    simp only [step, Option.ite_none_right_eq_some, Option.some.injEq] at h
    rw [← h.2]; exact .cancel
  | foreign i k checkpoint =>
    simp only [step, Option.ite_none_right_eq_some, Option.some.injEq] at h
    rw [← h.2]; exact .foreign h.1.2

end Sys

end MirrorCpp.Schedule
