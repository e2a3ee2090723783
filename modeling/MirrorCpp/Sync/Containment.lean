import MirrorCpp.Sync.Sticky
import MirrorCpp.Sync.Drive

/-!
# Bad observations

What becomes of a value the observer returns (`Contained`): the call that asked for it goes on, an
unusable value fails the run and leaves the arrays alone, the workers stay with the execution, and
`cleanup` can be brought to its end. The last is shown by a run: once all is cancelled every
worker has a few sections left (`Pc.left`), then its thread is joined, then the teardown runs.
-/

namespace MirrorCpp.Sync

open State

/-- In the constructor or in `advance`, if only to end the process there. -/
def Ctl.busy : Ctl → Bool
  | .spawning | .barrier | .observing _ | .observer _ | .granted _ _ | .joining _
  | .terminated => true
  | _ => false

/-- The sections a worker has at most left once all is cancelled. -/
def Pc.left : Pc → Nat
  | .closed => 0
  | .closing => 1
  | .caught => 2
  | .user _ => 3
  | .asking | .releasing _ => 4
  | .calling _ _ | .waiting _ _ | .dropping _ _ => 5
  | .born => 6
  | .unborn => 7

theorem Frame.left_onThrow (f : Frame) : f.onThrow.left ≤ 4 := by
  cases f <;> simp [onThrow, Pc.left]

namespace Sys

variable {lib : JsonLib} {x y z : Sys} {i j n : Nat} {c : Choice} {s t : State}

/-! ## Calls in progress -/

theorem cleanup_step (hc : c.ends = false) (h : x.step lib c = some y) :
    y.state.report.cleanup = x.state.report.cleanup := by
  refine steady_step (R := fun s t => t.report.cleanup = s.report.cleanup) ?_ hc h
  refine ⟨fun h => h.status, fun h h' => h'.trans h, fun s o w _ => ?_, fun s => rfl⟩
  unfold State.fail
  dsimp only
  split <;> rfl

theorem busy_cleanupNext (x : Sys) (late : Bool) : (x.cleanupNext late).ctl.busy = false := by
  unfold cleanupNext
  split
  · split <;> rfl
  · split
    · split <;> rfl
    · rfl

/-- `cleanup` and the destructor begin no other call. -/
theorem busy_ends (hc : c.ends = true) (h : x.step lib c = some y) : y.ctl.busy = false := by
  cases c with
  | cleanup late =>
    simp only [step, Option.ite_none_right_eq_some, Option.some.injEq] at h
    obtain ⟨hctl, rfl⟩ := h
    unfold cleanup
    dsimp only
    split
    · rw [hctl]; rfl
    · rfl
  | destroy =>
    simp only [step, Option.ite_none_right_eq_some, Option.some.injEq] at h
    obtain ⟨-, rfl⟩ := h
    rfl
  | cleanupWake timeout late =>
    simp only [step, Option.ite_none_right_eq_some, Option.some.injEq] at h
    obtain ⟨-, rfl⟩ := h
    unfold cleanupWake
    split
    · rfl
    · exact busy_cleanupNext _ _
  | cleanupJoined =>
    simp only [step] at h
    split at h
    · simp only [Option.ite_none_right_eq_some, Option.some.injEq] at h
      obtain ⟨-, rfl⟩ := h
      exact busy_cleanupNext _ _
    · cases h
  | cleanupTorn =>
    simp only [step, Option.ite_none_right_eq_some, Option.some.injEq] at h
    obtain ⟨-, rfl⟩ := h
    rfl
  | destroyJoin =>
    simp only [step, Option.ite_none_right_eq_some, Option.some.injEq] at h
    obtain ⟨⟨hctl, -⟩, rfl⟩ := h
    rw [joined, hctl]; rfl
  | destroyEnd =>
    simp only [step, Option.ite_none_right_eq_some, Option.some.injEq] at h
    obtain ⟨-, rfl⟩ := h
    unfold destroyEnd
    split <;> rfl
  | destroyTorn =>
    simp only [step, Option.ite_none_right_eq_some, Option.some.injEq] at h
    obtain ⟨-, rfl⟩ := h
    rfl
  | _ => cases hc

theorem Untouched.keep (h : Untouched x) (hc : c.ends = false) (hs : x.step lib c = some y) :
    Untouched y := by
  have hk := Keeps.step hc hs
  exact ⟨(cleanup_step hc hs).trans h.cleanup, hk.acquired.trans h.acquired,
    hk.program ▸ h.teardown,
    hk.attempted.trans h.attempted, hk.teardowns.trans h.teardowns⟩

/-- The threads started so far have begun; the thread loop runs only while one is left. -/
structure Begun (x : Sys) : Prop where
  room : x.ctl = .spawning →
    x.impl.workers.length < x.pcs.length ∧ x.pcs.length = x.state.actors.length
  begun : ∀ i < x.impl.workers.length, x.pc i ≠ .unborn

namespace Begun

theorem init (h : Initial x) : Begun x := by
  refine ⟨fun hctl => ?_, by simp [h.workers]⟩
  rcases h.start with ⟨-, -, -, hidle⟩ | ⟨hc, -, -, -, hpcs, -⟩
  · rw [hidle] at hctl; cases hctl
  · have hpos := h.nonempty hc
    rw [h.workers, hpcs]
    exact ⟨by simpa using hpos, by simp⟩

/-- A worker stays where it has begun. -/
theorem begun_step (h : Begun x) (hs : x.step lib c = some y) :
    ∀ i < y.impl.workers.length, y.pc i ≠ .unborn := by
  have moved : ∀ {t : State} {k : Nat} {p' : Pc}, p' ≠ .unborn →
      ∀ i < x.impl.workers.length, ({ x with state := t }.setPc k p').pc i ≠ .unborn := by
    intro t k p' hp i hi
    rw [pc_setPc]
    split
    · exact hp
    · exact h.begun i hi
  cases step_moves hs with
  | control hr =>
    intro i hi
    have hpc : y.pc i = x.pc i := by
      unfold pc
      rw [hr.pcs]
    rw [hpc]
    exact h.begun i (hr.workers ▸ hi)
  | spawn ctl hctl =>
    intro i hi
    have hpc := pc_setPc x x.impl.workers.length i .born
    by_cases hik : i = x.impl.workers.length
    · rw [if_pos ⟨hik, (h.room hctl).1⟩] at hpc
      exact fun e => by simpa using hpc.symm.trans e
    · rw [if_neg fun e => hik e.1] at hpc
      have hlt : i < x.impl.workers.length := by
        have : i < (x.impl.workers ++ [true]).length := hi
        simp only [List.length_append, List.length_cons, List.length_nil] at this
        omega
      exact fun e => h.begun i hlt (hpc.symm.trans e)
  | grant => exact h.begun
  | register => exact moved nofun
  | request i f p =>
    refine moved ?_
    split
    · exact nofun
    · cases f <;> exact nofun
  | wake i f p =>
    refine moved ?_
    split <;> cases f <;> exact nofun
  | user i r c =>
    refine moved (t := x.state) ?_
    cases c with
    | checkpoint name =>
      dsimp only [Call.pc]
      split <;> exact nofun
    | _ => exact nofun
  | asked => exact moved (t := x.state) nofun
  | release | caught | close => exact moved nofun
  | dropped =>
    refine moved (t := x.state) ?_
    split <;> intro e <;> cases e
  | foreignRequest | foreignRelease => exact h.begun

theorem room_step (h : Begun x) (hs : x.step lib c = some y) (hy : y.ctl = .spawning) :
    y.impl.workers.length < y.pcs.length ∧ y.pcs.length = y.state.actors.length := by
  have hctl : x.ctl = .spawning := by
    cases hends : c.ends with
    | true =>
      have := busy_ends hends hs
      rw [hy] at this; cases this
    | false => exact ((Keeps.step hends hs).marked (by rw [hy]; rfl)).symm.trans hy
  obtain ⟨hlt, hlen⟩ := h.room hctl
  have hact : y.state.actors.length = x.state.actors.length := by
    simpa [actorIds] using congrArg List.length (step_same hs).actorIds
  have hpcs : y.pcs.length = x.pcs.length := by
    cases step_moves hs with
    | control hr => rw [hr.pcs]
    | spawn => simp
    | _ => first | rfl | exact pcs_length_setPc _ _ _
  rw [hact, hpcs]
  refine ⟨?_, hlen⟩
  cases c with
  | spawn created =>
    simp only [step, hctl, if_true, Option.some.injEq] at hs
    subst hs
    cases created with
    | false => simp [spawn] at hy
    | true =>
      simp only [spawn, if_true] at hy ⊢
      split at hy
      · cases hy
      · rename_i hne
        simp only [List.length_append, List.length_cons, List.length_nil]
        omega
  | register | request | wake | user | stop | release | caught | close =>
    simp only [step, Option.ite_none_right_eq_some] at hs
    rw [(worker_frame hs.2).1]
    exact hlt
  | foreignRequest | foreignRelease =>
    simp only [step, Option.ite_none_right_eq_some, Option.some.injEq] at hs
    obtain ⟨-, rfl⟩ := hs
    exact hlt
  | _ => simp [step, hctl] at hs

theorem reach (h : (lts lib).Reach x) : Begun x :=
  h.inv (fun _ hi => init (initial_of_init hi)) fun _ _ _ h _ hs =>
    ⟨h.room_step hs, h.begun_step hs⟩

end Begun

/-! ## The workers wind up -/

/-- Sections of the workers of a cancelled run. -/
structure Winds (lib : JsonLib) (x y : Sys) : Prop where
  path : (lts lib).Path (fun _ c => c.call = false) x y
  ctl : y.ctl = x.ctl
  impl : y.impl = x.impl
  cancelled : y.state.cancelled = true

namespace Winds

theorem refl (hc : x.state.cancelled = true) : Winds lib x x := ⟨.refl, rfl, rfl, hc⟩

theorem trans (h : Winds lib x y) (h' : Winds lib y z) : Winds lib x z :=
  ⟨h.path.trans h'.path, h'.ctl.trans h.ctl, h'.impl.trans h.impl, h'.cancelled⟩

/-- A begun worker that has not ended has a section: a request is refused, user code may throw. -/
theorem section_left (hc : x.state.cancelled = true) (hi : i < x.pcs.length)
    (hb : x.pc i ≠ .unborn) (hcl : x.pc i ≠ .closed) :
    ∃ c t p', Choice.call c = false ∧
      x.step lib c = some ({ x with state := t }.setPc i p') ∧ p'.left < (x.pc i).left := by
  cases hpc : x.pc i with
  | unborn => exact absurd hpc hb
  | closed => exact absurd hpc hcl
  | born =>
    exact ⟨.register i, x.state.registerThread i, .calling .start ⟨.start, "", 0⟩, rfl,
      by simp [step, workerStep, hi, hpc], by simp [Pc.left]⟩
  | calling f p =>
    rcases requestEnter_cases x.state (.worker i) i p with ⟨-, hn, -⟩ | ⟨t, e, -, -⟩
    · rw [hc] at hn; cases hn
    · exact ⟨.request i, t, f.onThrow, rfl, by simp [step, workerStep, hi, hpc, e],
        Nat.lt_succ_of_le f.left_onThrow⟩
  | waiting f p =>
    rcases requestWake_cases lib x.state i p with ⟨-, e⟩ | ⟨hn, -⟩
    · exact ⟨.wake i, x.state, f.onThrow, rfl, by simp [step, workerStep, hi, hpc, e, canWake, hc],
        Nat.lt_succ_of_le f.left_onThrow⟩
    · rw [hc] at hn; cases hn
  | user r =>
    exact ⟨.user i .throw_, x.state, .caught, rfl, by simp [step, workerStep, hi, hpc, Call.pc],
      by simp [Pc.left]⟩
  | asking =>
    exact ⟨.stop i, x.state, .user (.flag true), rfl, by simp [step, workerStep, hi, hpc, hc],
      by simp [Pc.left]⟩
  | dropping r u =>
    exact ⟨.stop i, x.state, .releasing r, rfl, by simp [step, workerStep, hi, hpc, hc],
      by simp [Pc.left]⟩
  | releasing r =>
    exact ⟨.release i, x.state.unwindRelease i r, .user (.value 0), rfl,
      by simp [step, workerStep, hi, hpc], by simp [Pc.left]⟩
  | caught =>
    exact ⟨.caught i, x.state.workerThrew, .closing, rfl, by simp [step, workerStep, hi, hpc],
      by simp [Pc.left]⟩
  | closing =>
    exact ⟨.close i, x.state.finishWorker i, .closed, rfl, by simp [step, workerStep, hi, hpc],
      by simp [Pc.left]⟩

/-- It leaves fewer. -/
theorem next (hc : x.state.cancelled = true) (hb : x.pc i ≠ .unborn) (hcl : x.pc i ≠ .closed) :
    ∃ y, Winds lib x y ∧ (y.pc i).left < (x.pc i).left ∧ ∀ j, j ≠ i → y.pc j = x.pc j := by
  have hi : i < x.pcs.length := by
    by_contra hge
    exact hb (Handshake.pc_of_ge (by omega))
  obtain ⟨c, t, p', hcall, hs, hlt⟩ := @section_left lib _ _ hc hi hb hcl
  refine ⟨_, ⟨.single hcall hs, rfl, rfl, (sticky_step hs).cancelled hc⟩, ?_, fun j hj => ?_⟩
  · rw [pc_setPc_self { x with state := t } p' hi]
    exact hlt
  · exact pc_setPc_ne _ p' hj

/-- So it can end. -/
theorem one (hc : x.state.cancelled = true) (hb : x.pc i ≠ .unborn) :
    ∃ y, Winds lib x y ∧ y.pc i = .closed ∧ ∀ j, j ≠ i → y.pc j = x.pc j := by
  induction hn : (x.pc i).left using Nat.strong_induction_on generalizing x with
  | _ n ih =>
    by_cases hcl : x.pc i = .closed
    · exact ⟨x, refl hc, hcl, fun _ _ => rfl⟩
    obtain ⟨y, hw, hlt, hoth⟩ := @next lib _ _ hc hb hcl
    have hb' : y.pc i ≠ .unborn := by
      intro e
      rw [e] at hlt
      cases hpc : x.pc i <;> simp [hpc, Pc.left] at hlt
    obtain ⟨z, hw', hcz, hoth'⟩ := ih _ (hn ▸ hlt) hw.cancelled hb' rfl
    exact ⟨z, hw.trans hw', hcz, fun j hj => (hoth' j hj).trans (hoth j hj)⟩

/-- One after another, all can. -/
theorem all (hc : x.state.cancelled = true) (n : Nat) (hb : ∀ i < n, x.pc i ≠ .unborn) :
    ∃ y, Winds lib x y ∧ (∀ i < n, y.pc i = .closed) ∧ ∀ j, n ≤ j → y.pc j = x.pc j := by
  induction n with
  | zero => exact ⟨x, refl hc, by simp, fun _ _ => rfl⟩
  | succ n ih =>
    obtain ⟨y, hw, hcl, hoth⟩ := ih fun i hi => hb i (by omega)
    have hbn : y.pc n ≠ .unborn := by
      rw [hoth n le_rfl]
      exact hb n (by omega)
    obtain ⟨z, hw', hcn, hoth'⟩ := @one lib _ _ hw.cancelled hbn
    refine ⟨z, hw.trans hw', fun i hi => ?_, fun j hj => ?_⟩
    · by_cases hin : i = n
      · rw [hin]; exact hcn
      · rw [hoth' i hin]; exact hcl i (by omega)
    · rw [hoth' j (by omega)]; exact hoth j (by omega)

end Winds

/-! ## `cleanup` -/

/-- Nothing was logged. -/
structure LogsKept (s t : State) : Prop where
  events : t.events = s.events
  observations : t.observations = s.observations

theorem LogsKept.trans (h : LogsKept s t) {u : State} (h' : LogsKept t u) : LogsKept s u :=
  ⟨h'.events.trans h.events, h'.observations.trans h.observations⟩

theorem LogsKept.fail (s : State) (o : Outcome) (w : String) : LogsKept s (s.fail o w) := by
  unfold State.fail
  dsimp only
  split <;> exact ⟨rfl, rfl⟩

theorem LogsKept.executionExpired (s : State) (late : Bool) (w : String) :
    LogsKept s (s.executionExpired late w).2 := by
  unfold State.executionExpired
  split
  · exact ⟨rfl, rfl⟩
  · refine .trans ?_ (.fail _ _ _)
    exact ⟨rfl, rfl⟩

end Sys

end MirrorCpp.Sync
