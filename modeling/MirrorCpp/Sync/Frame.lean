import MirrorCpp.Sync.Execution

/-!
# What a step can do

`Quiet s t`: the state changed in the report, the logs and the cancellation only. Every
critical section of the controller is quiet, but for a grant; `step_cases` lists what is left:
a grant, the start of a thread, and the sections of the workers. Invariants over actors and
resources are shown against this list.
-/

namespace MirrorCpp.Sync

namespace State

variable {s t : State} {i j : Nat} {r q : String}

/-! ## Actors and resources -/

theorem actor_setActor (s : State) (i j : Nat) (a : Actor) :
    (s.setActor i a).actor j = if j = i ∧ i < s.actors.length then a else s.actor j := by
  simp only [actor, setActor, List.getD_eq_getElem?_getD, List.getElem?_set]
  by_cases hj : i = j
  · subst hj
    by_cases hi : i < s.actors.length <;> simp [hi]
  · simp [hj, Ne.symm hj]

theorem actor_setActor_self (s : State) {i : Nat} (a : Actor) (hi : i < s.actors.length) :
    (s.setActor i a).actor i = a := by simp [actor_setActor, hi]

theorem actor_setActor_ne (s : State) {i j : Nat} (a : Actor) (hj : j ≠ i) :
    (s.setActor i a).actor j = s.actor j := by simp [actor_setActor, hj]

theorem actor_of_ge (h : s.actors.length ≤ i) : s.actor i = {} := by
  simp [actor, List.getD_eq_getElem?_getD, List.getElem?_eq_none h]

theorem actor_mem (hi : i < s.actors.length) : s.actor i ∈ s.actors := by
  simp [actor, List.getD_eq_getElem?_getD, List.getElem?_eq_getElem hi]

theorem id_of_resource? {o : Owned} (h : s.resource? r = some o) : o.declaration.id = r := by
  simpa using List.find?_some h

theorem mem_of_resource? {o : Owned} (h : s.resource? r = some o) : o ∈ s.resources :=
  List.mem_of_find?_eq_some h

theorem find?_map_owned {f : Owned → Owned} (hf : ∀ o, (f o).declaration = o.declaration)
    (os : List Owned) (r : String) :
    (os.map f).find? (fun o => o.declaration.id == r) =
      (os.find? fun o => o.declaration.id == r).map f := by
  rw [List.find?_map]
  congr 2
  funext o
  simp [hf]

theorem resource?_modifyResource (s : State) (r q : String) (e : Effect) {f : Owned → Owned}
    (hf : ∀ o, (f o).declaration = o.declaration) :
    (s.modifyResource r e f).resource? q =
      if q = r then (s.resource? r).map f else s.resource? q := by
  have hg : ∀ o : Owned, (if o.declaration.id == r then f o else o).declaration =
    o.declaration := by
    intro o; split <;> simp [hf]
  simp only [resource?, modifyResource, find?_map_owned hg]
  cases hq : s.resources.find? (fun o => o.declaration.id == q) with
  | none =>
    by_cases h : q = r
    · subst h; simp [hq]
    · simp [h]
  | some o =>
    have ho : o.declaration.id = q := by simpa using List.find?_some hq
    by_cases h : q = r
    · subst h; simp [hq, ho]
    · simp [h, ho]

/-- What `releaseAll` and `unwindRelease` do to a resource. -/
def clearOwner (i : Nat) (o : Owned) : Owned :=
  if o.owner == some i then { o with owner := none } else o

theorem clearOwner_declaration (i : Nat) (o : Owned) :
    (clearOwner i o).declaration = o.declaration := by unfold clearOwner; split <;> rfl

theorem clearOwner_queue (i : Nat) (o : Owned) : (clearOwner i o).queue = o.queue := by
  unfold clearOwner; split <;> rfl

theorem clearOwner_owner (i : Nat) (o : Owned) :
    (clearOwner i o).owner = if o.owner = some i then none else o.owner := by
  unfold clearOwner
  by_cases h : o.owner = some i <;> simp [h]

/-! ## Quiet changes -/

structure Quiet (s t : State) : Prop where
  actors : t.actors = s.actors
  resources : t.resources = s.resources
  hist : t.hist = s.hist
  policy : t.policy = s.policy
  cancelled : t.cancelled = false → s.cancelled = false

namespace Quiet

theorem refl (s : State) : Quiet s s := ⟨rfl, rfl, rfl, rfl, id⟩

theorem trans {s t u : State} (h : Quiet s t) (h' : Quiet t u) : Quiet s u where
  actors := h'.actors.trans h.actors
  resources := h'.resources.trans h.resources
  hist := h'.hist.trans h.hist
  policy := h'.policy.trans h.policy
  cancelled hc := h.cancelled (h'.cancelled hc)

theorem actor (h : Quiet s t) (i : Nat) : t.actor i = s.actor i := by
  simp [State.actor, h.actors]

theorem resource? (h : Quiet s t) (r : String) : t.resource? r = s.resource? r := by
  simp [State.resource?, h.resources]

end Quiet

theorem quiet_fail (s : State) (o : Outcome) (d : String) : Quiet s (s.fail o d) := by
  unfold fail
  split <;> exact ⟨rfl, rfl, rfl, rfl, fun h => absurd h (by simp)⟩

/-- A new report is quiet. -/
theorem quiet_report (s : State) (r : Report) : Quiet s { s with report := r } :=
  ⟨rfl, rfl, rfl, rfl, id⟩

theorem quiet_executionExpired (s : State) (late : Bool) (w : String) :
    Quiet s (s.executionExpired late w).2 := by
  unfold executionExpired
  split
  · exact .refl s
  · exact (quiet_report s _).trans (quiet_fail _ _ _)

theorem quiet_cleanupExpired (s : State) : Quiet s s.cleanupExpired :=
  (quiet_report s _).trans (quiet_fail _ _ _)

@[simp] theorem fail_cancelled (s : State) (o : Outcome) (d : String) :
    (s.fail o d).cancelled = true := rfl

/-- A budget that has not expired leaves the state alone; one that has cancels. -/
theorem executionExpired_cases (s : State) (late : Bool) (w : String) :
    s.executionExpired late w = (false, s) ∨
      ∃ t, s.executionExpired late w = (true, t) ∧ t.cancelled = true ∧ Quiet s t := by
  have hq := quiet_executionExpired s late w
  unfold executionExpired at hq ⊢
  split
  · exact .inl rfl
  · rename_i h
    rw [if_neg h] at hq
    exact .inr ⟨_, rfl, rfl, hq⟩

theorem executionExpired_cancelled {late : Bool} {w : String}
    (h : (s.executionExpired late w).2.cancelled = false) :
    s.executionExpired late w = (false, s) := by
  rcases executionExpired_cases s late w with h' | ⟨t, h', hc, -⟩
  · exact h'
  · rw [h', hc] at h; cases h

variable {lib : JsonLib}

/-- An event is refused with a failure, or appended under its ordinal. -/
theorem event_cases {row : Event} {b : Bool} (h : s.event lib row = some (b, t)) :
    (b = false ∧ t = s.fail .evidenceExhausted "receipt byte bound") ∨
      (b = true ∧
        t = { s with events := s.events ++ [{ row with ordinal := s.events.length }] }) := by
  simp only [event] at h
  split at h
  · cases h
  · cases h; exact .inl ⟨rfl, rfl⟩
  · cases h; exact .inr ⟨rfl, rfl⟩

theorem quiet_event {row : Event} {b : Bool} (h : s.event lib row = some (b, t)) : Quiet s t := by
  rcases event_cases h with ⟨-, rfl⟩ | ⟨-, rfl⟩
  · exact quiet_fail _ _ _
  · exact ⟨rfl, rfl, rfl, rfl, id⟩

theorem quiet_workerThrew (s : State) : Quiet s s.workerThrew := by
  unfold workerThrew
  split
  · exact .refl s
  · exact quiet_fail _ _ _

/-- Entering `request` either parks the actor or leaves actors and resources alone. -/
theorem requestEnter_cases (s : State) (self : ThreadId) (i : Nat) (p : Pending) :
    (s.requestEnter self i p = (true, s.park i p) ∧ s.cancelled = false ∧
      (s.actor i).thread = some self ∧
      (p.op.onResource = true → ∃ o, s.resource? p.resource = some o ∧
        misuse i p.op o = false)) ∨
    ∃ t, s.requestEnter self i p = (false, t) ∧ Quiet s t ∧ t.cancelled = true := by
  unfold requestEnter
  split
  · exact .inr ⟨_, rfl, quiet_fail _ _ _, rfl⟩
  · rename_i hself
    split
    · rename_i hc
      exact .inr ⟨_, rfl, .refl s, hc⟩
    · rename_i hc
      have hself : (s.actor i).thread = some self := by simpa using hself
      have hc : s.cancelled = false := by simpa using hc
      split
      · split
        · exact .inr ⟨_, rfl, quiet_fail _ _ _, rfl⟩
        · rename_i o ho
          split
          · exact .inr ⟨_, rfl, quiet_fail _ _ _, rfl⟩
          · rename_i hm
            exact .inl ⟨rfl, hc, hself, fun _ => ⟨o, ho, by simpa using hm⟩⟩
      · rename_i hop
        exact .inl ⟨rfl, hc, hself, fun h => absurd h hop⟩

end State

/-- The initial barrier is behind. -/
def Ctl.started : Ctl → Bool
  | .spawning | .barrier => false
  | _ => true

/-- In `cleanup` or the destructor. -/
def Ctl.ending : Ctl → Bool
  | .cleaning | .cleanupJoin _ | .tearing | .destroying | .destroyTearing | .destroyed => true
  | _ => false

namespace Sys

open State

variable {x y : Sys} {lib : JsonLib} {i j : Nat}

theorem pc_setPc (x : Sys) (i j : Nat) (p : Pc) :
    (x.setPc i p).pc j = if j = i ∧ i < x.pcs.length then p else x.pc j := by
  simp only [pc, setPc, List.getD_eq_getElem?_getD, List.getElem?_set]
  by_cases hj : i = j
  · subst hj
    by_cases hi : i < x.pcs.length <;> simp [hi]
  · simp [hj, Ne.symm hj]

theorem pc_setPc_self (x : Sys) {i : Nat} (p : Pc) (hi : i < x.pcs.length) :
    (x.setPc i p).pc i = p := by simp [pc_setPc, hi]

theorem pc_setPc_ne (x : Sys) {i j : Nat} (p : Pc) (hj : j ≠ i) :
    (x.setPc i p).pc j = x.pc j := by simp [pc_setPc, hj]

@[simp] theorem state_setPc (x : Sys) (i : Nat) (p : Pc) : (x.setPc i p).state = x.state := rfl

@[simp] theorem ctl_setPc (x : Sys) (i : Nat) (p : Pc) : (x.setPc i p).ctl = x.ctl := rfl

@[simp] theorem impl_setPc (x : Sys) (i : Nat) (p : Pc) : (x.setPc i p).impl = x.impl := rfl

@[simp] theorem pcs_length_setPc (x : Sys) (i : Nat) (p : Pc) :
    (x.setPc i p).pcs.length = x.pcs.length := by simp [setPc]

/-! ## The controller's sections are quiet -/

theorem quiet_setCleanup (s : State) (c : Cleanup) : Quiet s (setCleanup s c) :=
  quiet_report s _

theorem quiet_passBarrier (x : Sys) (timeout late : Bool) :
    Quiet x.state (x.passBarrier timeout late).state := by
  unfold passBarrier
  refine Quiet.trans ?_ (quiet_executionExpired _ late _)
  cases timeout
  · exact .refl _
  · exact quiet_fail _ _ _

theorem quiet_observeEnter (x : Sys) (k : Caller) (late : Bool) :
    Quiet x.state (x.observeEnter k late).state := by
  unfold observeEnter
  have h := quiet_executionExpired x.state late "execution deadline before observer"
  dsimp only
  split <;> exact h

theorem quiet_retain {s t : State} {value : Option Json} {l₁ l₂ l₃ : Bool}
    (h : retain lib s value l₁ l₂ l₃ = some t) : Quiet s t := by
  unfold retain at h
  have h0 : Quiet s (if value.isNone then s.fail .observationFailed "observer threw" else s) := by
    split
    · exact quiet_fail _ _ _
    · exact .refl s
  generalize (if value.isNone then s.fail .observationFailed "observer threw" else s) = s₀ at h h0
  have h1 := h0.trans (quiet_executionExpired s₀ l₁ "execution deadline during observer")
  dsimp only at h
  generalize s₀.executionExpired l₁ "execution deadline during observer" = e₁ at h h1
  split at h
  · cases h; exact h1
  split at h
  · cases h; exact h1.trans (quiet_fail _ _ _)
  split at h
  · cases h
  · cases h; exact h1.trans (quiet_fail _ _ _)
  have h2 := h1.trans (quiet_executionExpired e₁.2 l₂ "execution deadline retaining observation")
  generalize e₁.2.executionExpired l₂ "execution deadline retaining observation" = e₂ at h h2
  split at h
  · cases h; exact h2
  generalize hr : (Observation.mk e₁.2.report.decisions (value.getD .null)) = row at h
  have h3 : Quiet s ({ e₂.2 with observations := e₂.2.observations ++ [row] } : State) :=
    h2.trans ⟨rfl, rfl, rfl, rfl, id⟩
  have h4 := h3.trans (quiet_executionExpired _ l₃ "execution deadline after observation retention")
  generalize State.executionExpired _ l₃ "execution deadline after observation retention" = e₃
    at h h4
  split at h
  · cases h; exact h4.trans ⟨rfl, rfl, rfl, rfl, id⟩
  split at h
  · cases h; exact h4.trans ⟨rfl, rfl, rfl, rfl, id⟩
  · cases h; exact h4

theorem quiet_queryEnabled (s : State) (late : Bool) : Quiet s (queryEnabled s late).2 := by
  have h := quiet_executionExpired s late "execution deadline before enabled query"
  simp only [queryEnabled]
  split
  · exact h
  split
  · exact h.trans (quiet_fail _ _ _)
  · exact h

/-- What `cleanup`, the destructor and the joins share: a quiet change that gives no grant. -/
structure Releases (x y : Sys) : Prop where
  quiet : Quiet x.state y.state
  pcs : y.pcs = x.pcs
  workers : y.impl.workers.length = x.impl.workers.length
  ctl : ∀ i v, y.ctl ≠ .granted i v

theorem ite_ne {c d e : Ctl} {p : Prop} [Decidable p] (hc : c ≠ e) (hd : d ≠ e) :
    (if p then c else d) ≠ e := by split <;> assumption

theorem releases_cleanupNext (x : Sys) (late : Bool) : Releases x (x.cleanupNext late) := by
  have hq := (quiet_cleanupExpired x.state).trans (quiet_setCleanup _ .incomplete)
  unfold cleanupNext
  split
  · split
    · exact ⟨hq, rfl, rfl, nofun⟩
    · exact ⟨.refl _, rfl, rfl, nofun⟩
  · split
    · split
      · exact ⟨hq, rfl, rfl, nofun⟩
      · exact ⟨.refl _, rfl, rfl, nofun⟩
    · exact ⟨quiet_setCleanup _ _, rfl, rfl, nofun⟩

theorem releases_cleanup (x : Sys) (late : Bool) (hctl : x.ctl = .idle) :
    Releases x (x.cleanup late) := by
  simp only [cleanup]
  split
  · exact ⟨.refl _, rfl, rfl, by simp [hctl]⟩
  · refine ⟨?_, rfl, rfl, nofun⟩
    have hmono : ∀ {s : State}, Quiet x.state s → Quiet x.state { s with cancelled := true } :=
      fun h => h.trans ⟨rfl, rfl, rfl, rfl, nofun⟩
    apply hmono
    split
    · have h := quiet_executionExpired x.state late "execution deadline before cleanup"
      split
      · exact h.trans (quiet_fail _ _ _)
      · exact h
    · exact .refl _

theorem releases_joined (x : Sys) (i : Nat) (hctl : ∀ j v, x.ctl ≠ .granted j v) :
    Releases x (x.joined i) :=
  ⟨.refl _, rfl, by simp [joined], hctl⟩

theorem Releases.trans {x y z : Sys} (h : Releases x y) (h' : Releases y z) : Releases x z :=
  ⟨h.quiet.trans h'.quiet, h'.pcs.trans h.pcs, h'.workers.trans h.workers, h'.ctl⟩

theorem releases_cleanupJoined (x : Sys) (i : Nat) (l₁ l₂ : Bool)
    (hctl : ∀ j v, x.ctl ≠ .granted j v) : Releases x (x.cleanupJoined i l₁ l₂) := by
  have hj := releases_joined x i hctl
  simp only [cleanupJoined]
  cases l₁ with
  | false => exact hj.trans (releases_cleanupNext _ l₂)
  | true =>
    have he : Releases (x.joined i)
        { x.joined i with state := (x.joined i).state.cleanupExpired } :=
      ⟨quiet_cleanupExpired _, rfl, rfl, hj.ctl⟩
    exact (hj.trans he).trans (releases_cleanupNext _ l₂)

theorem releases_cleanupTorn (x : Sys) (threw late : Bool) :
    Releases x (x.cleanupTorn threw late) := by
  simp only [cleanupTorn, cleanupEnd]
  have h : (if x.impl.program.teardown then x.tornDown threw else x).state = x.state ∧
      (if x.impl.program.teardown then x.tornDown threw else x).pcs = x.pcs ∧
      (if x.impl.program.teardown then x.tornDown threw else x).impl.workers.length =
        x.impl.workers.length := by
    split <;> exact ⟨rfl, rfl, rfl⟩
  generalize (if x.impl.program.teardown then x.tornDown threw else x) = z at h
  obtain ⟨hs, hp, hw⟩ := h
  cases late with
  | true => exact ⟨hs ▸ (quiet_cleanupExpired _).trans (quiet_setCleanup _ _), hp, hw, nofun⟩
  | false => exact ⟨hs ▸ quiet_setCleanup _ _, hp, hw, nofun⟩

theorem releases_advanceWake (x : Sys) (i : Nat) (timeout l₁ l₂ : Bool) :
    Releases x (x.advanceWake i timeout l₁ l₂) := by
  simp only [advanceWake]
  have h0 : Quiet x.state (if timeout then x.state.fail .timedOut
      "actor did not reach resource boundary" else x.state) := by
    split
    · exact quiet_fail _ _ _
    · exact .refl _
  generalize (if timeout then x.state.fail .timedOut
      "actor did not reach resource boundary" else x.state) = s₀ at h0 ⊢
  have h1 := h0.trans (quiet_executionExpired s₀ l₁ "execution deadline after actor boundary")
  generalize s₀.executionExpired l₁ "execution deadline after actor boundary" = e₁ at h1 ⊢
  split
  · exact ⟨h1, rfl, rfl, nofun⟩
  split
  · exact ⟨h1.trans (quiet_executionExpired _ _ _), rfl, rfl, fun j v => ite_ne nofun nofun⟩
  · exact ⟨h1.trans (quiet_report _ _), rfl, rfl, nofun⟩

theorem releases_advanceJoined (x : Sys) (i : Nat) (late : Bool) :
    Releases x (x.advanceJoined i late) := by
  simp only [advanceJoined]
  refine ⟨?_, rfl, by simp [joined], fun j v => ite_ne nofun nofun⟩
  exact (quiet_report x.state _).trans (quiet_executionExpired _ _ _)

/-! ## The steps -/

/-- Everything a step can do. -/
inductive Moves (lib : JsonLib) (x : Sys) : Sys → Prop where
  /-- The controller leaves actors and resources alone; it leaves the wait of `advance` only on
  a cancellation or a new version, and the initial barrier on a cancellation or with all actors
  parked. -/
  | control {y : Sys} (hr : Releases x y)
      (hleave : ∀ i v, x.ctl = .granted i v → y.state.cancelled = false →
        (x.state.actor i).version ≠ v)
      (hbarrier : x.ctl.started = false → y.state.cancelled = false →
        x.state.allParked = true) : Moves lib x y
  | spawn (ctl : Ctl) (hctl : x.ctl = .spawning) (hctl' : ctl.started = false) :
      Moves lib x ⟨x.state, { x.impl with workers := x.impl.workers ++ [true] },
        x.pcs.set x.impl.workers.length .born, ctl⟩
  | grant {t : State} (i : Nat) (hctl : x.ctl = .idle) (hi : i < x.state.actors.length)
      (he : x.state.enabled i = true) (hq : Quiet x.state t) (hc : t.cancelled = false) :
      Moves lib x ⟨t.setActor i { t.actor i with grant := true }, x.impl, x.pcs,
        .granted i (x.state.actor i).version⟩
  | register (i : Nat) (hi : i < x.pcs.length) (hpc : x.pc i = .born) :
      Moves lib x ({ x with state := x.state.registerThread i }.setPc i
        (.calling .start ⟨.start, "", 0⟩))
  | request (i : Nat) (f : Frame) (p : Pending) (hi : i < x.pcs.length)
      (hpc : x.pc i = .calling f p) :
      Moves lib x ({ x with state := (x.state.requestEnter (.worker i) i p).2 }.setPc i
        (if (x.state.requestEnter (.worker i) i p).1 then .waiting f p else f.onThrow))
  | wake (i : Nat) (f : Frame) (p : Pending) (hi : i < x.pcs.length)
      (hpc : x.pc i = .waiting f p) (hw : x.state.canWake i = true) :
      Moves lib x ({ x with state := (x.state.requestWake lib i p).2 }.setPc i
        (match (x.state.requestWake lib i p).1 with
          | some v => f.onReturn v
          | none => f.onThrow))
  | user (i : Nat) (r : Ret) (c : Call) (hi : i < x.pcs.length) (hpc : x.pc i = .user r) :
      Moves lib x (x.setPc i c.pc)
  | asked (i : Nat) (hi : i < x.pcs.length) (hpc : x.pc i = .asking) :
      Moves lib x (x.setPc i (.user (.flag x.state.cancelled)))
  | dropped (i : Nat) (r : String) (u : Bool) (hi : i < x.pcs.length)
      (hpc : x.pc i = .dropping r u) :
      Moves lib x (x.setPc i (if x.state.cancelled || u then .releasing r
        else .calling (.guard r) ⟨.unlock, r, 0⟩))
  | release (i : Nat) (r : String) (hi : i < x.pcs.length) (hpc : x.pc i = .releasing r) :
      Moves lib x ({ x with state := x.state.unwindRelease i r }.setPc i (.user (.value 0)))
  | caught (i : Nat) (hi : i < x.pcs.length) (hpc : x.pc i = .caught) :
      Moves lib x ({ x with state := x.state.workerThrew }.setPc i .closing)
  | close (i : Nat) (hi : i < x.pcs.length) (hpc : x.pc i = .closing) :
      Moves lib x ({ x with state := x.state.finishWorker i }.setPc i .closed)
  | foreignRequest (i k : Nat) (p : Pending) (hi : i < x.pcs.length) :
      Moves lib x { x with state := (x.state.requestEnter (.other k) i p).2 }
  | foreignRelease (i : Nat) (r : String) (hi : i < x.pcs.length) :
      Moves lib x { x with state := x.state.unwindRelease i r }

theorem moves_workerStep {c : Choice} (hi : i < x.pcs.length)
    (h : x.workerStep lib i c = some y) : Moves lib x y := by
  unfold workerStep at h
  split at h
  · split at h
    · rename_i hpc; cases h; exact .register i hi hpc
    · cases h
  · split at h
    · rename_i f p hpc; cases h; exact .request i f p hi hpc
    · cases h
  · split at h
    · rename_i f p hpc
      split at h
      · rename_i hw; cases h; exact .wake i f p hi hpc hw
      · cases h
    · cases h
  · split at h
    · rename_i r hpc; cases h; exact .user i r _ hi hpc
    · cases h
  · split at h
    · rename_i hpc; cases h; exact .asked i hi hpc
    · rename_i r u hpc; cases h; exact .dropped i r u hi hpc
    · cases h
  · split at h
    · rename_i r hpc; cases h; exact .release i r hi hpc
    · cases h
  · split at h
    · rename_i hpc; cases h; exact .caught i hi hpc
    · cases h
  · split at h
    · rename_i hpc; cases h; exact .close i hi hpc
    · cases h
  · cases h

theorem moves_advance (x : Sys) (actor : String) (late : Bool) (hctl : x.ctl = .idle) :
    Moves lib x (x.advance lib actor late) := by
  have hleave : ∀ {y : Sys}, ∀ i v, x.ctl = .granted i v → y.state.cancelled = false →
      (x.state.actor i).version ≠ v := fun i v h => by rw [hctl] at h; cases h
  have hng : ∀ i v, x.ctl ≠ .granted i v := by simp [hctl]
  have hst : ∀ {y : Sys}, x.ctl.started = false → y.state.cancelled = false →
      x.state.allParked = true := fun h => by rw [hctl] at h; cases h
  simp only [advance]
  have hq := quiet_executionExpired x.state late "execution deadline before decision"
  rcases executionExpired_cases x.state late "execution deadline before decision" with
    he | ⟨t, he, hc, -⟩
  · rw [he] at hq ⊢
    simp only [Bool.false_or]
    split
    · exact .control ⟨hq, rfl, rfl, hng⟩ hleave hst
    rename_i hc
    split
    · exact .control ⟨hq.trans (quiet_fail _ _ _), rfl, rfl, hng⟩ hleave hst
    rename_i hfind
    simp only [Bool.or_eq_true, decide_eq_true_eq, Bool.not_eq_eq_eq_not, Bool.not_true, not_or,
      Bool.not_eq_false] at hfind
    split
    · exact .control ⟨hq.trans (quiet_fail _ _ _), rfl, rfl, hng⟩ hleave hst
    split
    · exact .control ⟨hq, rfl, rfl, hng⟩ hleave hst
    · rename_i ev; exact .control ⟨quiet_event ev, rfl, rfl, hng⟩ hleave hst
    · rename_i s ev
      have hqe := quiet_event ev
      have hc' : s.cancelled = false := by
        rcases event_cases ev with ⟨hb, -⟩ | ⟨-, rfl⟩
        · cases hb
        · simpa using hc
      have hlen : find x.state actor ≤ x.state.actors.length := List.findIdx_le_length
      exact .grant _ hctl (lt_of_le_of_ne hlen hfind.1) hfind.2 (hqe.trans (quiet_report _ _)) hc'
  · rw [he] at hq ⊢
    exact .control ⟨hq, rfl, rfl, hng⟩ hleave hst

/-- The controller, outside the wait of `advance` and behind the initial barrier. -/
theorem Moves.quietly (hr : Releases x y) (hng : ∀ i v, x.ctl ≠ .granted i v)
    (hst : x.ctl.started = true) : Moves lib x y :=
  .control hr (fun i v he => absurd he (hng i v)) fun h => absurd h (by simp [hst])

theorem moves_queryEnabled (x : Sys) (late : Bool) (hctl : x.ctl = .idle) :
    Moves lib x { x with state := (queryEnabled x.state late).2 } :=
  .quietly ⟨quiet_queryEnabled _ _, rfl, rfl, by simp [hctl]⟩ (by simp [hctl])
    (by simp [hctl, Ctl.started])

theorem moves_spawn (x : Sys) (created : Bool) (hctl : x.ctl = .spawning) :
    Moves lib x (x.spawn created) := by
  cases created with
  | true =>
    refine .spawn _ hctl ?_
    split <;> rfl
  | false =>
    exact .control ⟨quiet_fail _ _ _, rfl, rfl, nofun⟩ (by simp [hctl]) fun _ hc => by cases hc

theorem moves_passBarrier (x : Sys) (timeout late : Bool) (hctl : x.ctl = .barrier)
    (ht : timeout = !(x.state.cancelled || x.state.allParked)) :
    Moves lib x (x.passBarrier timeout late) := by
  have hq := quiet_passBarrier x timeout late
  refine .control ⟨hq, rfl, rfl, fun i v => ite_ne nofun nofun⟩ (by simp [hctl]) fun _ hc => ?_
  cases timeout with
  | true =>
    -- a wait that timed out has failed, hence cancelled
    have h0 := quiet_executionExpired (x.state.fail .timedOut "initial barrier") late
      "execution deadline at initial barrier"
    exact absurd (h0.cancelled hc) (by simp)
  | false => simpa [hq.cancelled hc] using ht

theorem moves_observeEnter (x : Sys) (k : Caller) (late : Bool) (hctl : x.ctl = .observing k) :
    Moves lib x (x.observeEnter k late) := by
  refine .quietly ⟨quiet_observeEnter x k late, ?_, ?_, ?_⟩ (by simp [hctl])
    (by simp [hctl, Ctl.started]) <;>
    simp only [observeEnter] <;> split <;> first | rfl | exact nofun

theorem moves_observeLeave (x : Sys) (k : Caller) (value : Option Json) (l₁ l₂ l₃ : Bool)
    (hctl : x.ctl = .observer k) : Moves lib x (x.observeLeave lib k value l₁ l₂ l₃) := by
  simp only [observeLeave]
  split
  · rename_i s hs
    exact .quietly ⟨quiet_retain hs, rfl, rfl, nofun⟩ (by simp [hctl]) (by simp [hctl, Ctl.started])
  · refine .quietly ⟨.refl _, rfl, rfl, ?_⟩ (by simp [hctl]) (by simp [hctl, Ctl.started])
    cases k <;> exact nofun

theorem moves_advanceWake (x : Sys) (i version : Nat) (timeout l₁ l₂ : Bool)
    (hctl : x.ctl = .granted i version) (ht : timeout = !canReturn x.state i version) :
    Moves lib x (x.advanceWake i timeout l₁ l₂) := by
  have hr := releases_advanceWake x i timeout l₁ l₂
  refine .control hr (fun j v hj hc => ?_) (by simp [hctl, Ctl.started])
  rw [hctl] at hj; cases hj
  have hcx := hr.1.cancelled hc
  cases timeout with
  | true =>
    -- a wait that timed out has failed, hence cancelled
    simp only [advanceWake, if_true] at hc
    have h0 := quiet_executionExpired (x.state.fail .timedOut
      "actor did not reach resource boundary") l₁ "execution deadline after actor boundary"
    split at hc
    · exact absurd (h0.cancelled hc) (by simp)
    split at hc
    · have := h0.cancelled ((quiet_executionExpired _ _ _).cancelled hc)
      exact absurd this (by simp)
    · exact absurd (h0.cancelled hc) (by simp)
  | false => simpa [canReturn, hcx] using ht.symm

theorem moves_cleanupWake (x : Sys) (timeout late : Bool) (hctl : x.ctl = .cleaning) :
    Moves lib x (x.cleanupWake timeout late) := by
  refine .quietly ?_ (by simp [hctl]) (by simp [hctl, Ctl.started])
  cases timeout with
  | true => exact ⟨(quiet_cleanupExpired _).trans (quiet_setCleanup _ _), rfl, rfl, nofun⟩
  | false => exact releases_cleanupNext x late

theorem moves_destroyEnd (x : Sys) (hctl : x.ctl = .destroying) : Moves lib x x.destroyEnd := by
  refine .quietly ?_ (by simp [hctl]) (by simp [hctl, Ctl.started])
  simp only [destroyEnd]
  split <;> exact ⟨.refl _, rfl, rfl, nofun⟩

/-- Every step is one of the `Moves`. -/
theorem step_moves {c : Choice} (h : x.step lib c = some y) : Moves lib x y := by
  cases c with
  | enabled late =>
    simp only [step, Option.ite_none_right_eq_some, Option.some.injEq] at h
    obtain ⟨hctl, rfl⟩ := h
    exact moves_queryEnabled x late hctl
  | advance actor late =>
    simp only [step, Option.ite_none_right_eq_some, Option.some.injEq] at h
    obtain ⟨hctl, rfl⟩ := h
    exact moves_advance x actor late hctl
  | cleanup late =>
    simp only [step, Option.ite_none_right_eq_some, Option.some.injEq] at h
    obtain ⟨hctl, rfl⟩ := h
    exact .quietly (releases_cleanup x late hctl) (by simp [hctl]) (by simp [hctl, Ctl.started])
  | destroy =>
    simp only [step, Option.ite_none_right_eq_some, Option.some.injEq] at h
    obtain ⟨hctl, rfl⟩ := h
    exact .quietly ⟨⟨rfl, rfl, rfl, rfl, nofun⟩, rfl, rfl, nofun⟩ (by simp [hctl])
      (by simp [hctl, Ctl.started])
  | spawn created =>
    simp only [step, Option.ite_none_right_eq_some, Option.some.injEq] at h
    obtain ⟨hctl, rfl⟩ := h
    exact moves_spawn x created hctl
  | barrier timeout late =>
    simp only [step, Option.ite_none_right_eq_some, Option.some.injEq] at h
    obtain ⟨⟨hctl, ht⟩, rfl⟩ := h
    exact moves_passBarrier x timeout late hctl ht
  | observe late =>
    simp only [step] at h
    split at h
    · rename_i k hctl
      cases h; exact moves_observeEnter x k late hctl
    · cases h
  | observed value l₁ l₂ l₃ =>
    simp only [step] at h
    split at h
    · rename_i k hctl
      cases h; exact moves_observeLeave x k value l₁ l₂ l₃ hctl
    · cases h
  | granted timeout l₁ l₂ =>
    simp only [step] at h
    split at h
    · rename_i i version hctl
      simp only [Option.ite_none_right_eq_some, Option.some.injEq] at h
      obtain ⟨ht, rfl⟩ := h
      exact moves_advanceWake x i version timeout l₁ l₂ hctl ht
    · cases h
  | joined late =>
    simp only [step] at h
    split at h
    · rename_i i hctl
      simp only [Option.ite_none_right_eq_some, Option.some.injEq] at h
      obtain ⟨-, rfl⟩ := h
      exact .quietly (releases_advanceJoined x i late) (by simp [hctl])
        (by simp [hctl, Ctl.started])
    · cases h
  | cleanupWake timeout late =>
    simp only [step, Option.ite_none_right_eq_some, Option.some.injEq] at h
    obtain ⟨⟨hctl, -⟩, rfl⟩ := h
    exact moves_cleanupWake x timeout late hctl
  | cleanupJoined l₁ l₂ =>
    simp only [step] at h
    split at h
    · rename_i i hctl
      simp only [Option.ite_none_right_eq_some, Option.some.injEq] at h
      obtain ⟨-, rfl⟩ := h
      exact .quietly (releases_cleanupJoined x i l₁ l₂ (by simp [hctl])) (by simp [hctl])
        (by simp [hctl, Ctl.started])
    · cases h
  | cleanupTorn threw late =>
    simp only [step, Option.ite_none_right_eq_some, Option.some.injEq] at h
    obtain ⟨hctl, rfl⟩ := h
    exact .quietly (releases_cleanupTorn x threw late) (by simp [hctl])
      (by simp [hctl, Ctl.started])
  | destroyJoin i =>
    simp only [step, Option.ite_none_right_eq_some, Option.some.injEq] at h
    obtain ⟨⟨hctl, -⟩, rfl⟩ := h
    exact .quietly (releases_joined x i (by simp [hctl])) (by simp [hctl])
      (by simp [hctl, Ctl.started])
  | destroyEnd =>
    simp only [step, Option.ite_none_right_eq_some, Option.some.injEq] at h
    obtain ⟨⟨hctl, -⟩, rfl⟩ := h
    exact moves_destroyEnd x hctl
  | destroyTorn threw =>
    simp only [step, Option.ite_none_right_eq_some, Option.some.injEq] at h
    obtain ⟨hctl, rfl⟩ := h
    exact .quietly ⟨.refl _, rfl, rfl, nofun⟩ (by simp [hctl]) (by simp [hctl, Ctl.started])
  | foreignRequest i k p =>
    simp only [step, Option.ite_none_right_eq_some, Option.some.injEq] at h
    obtain ⟨hi, rfl⟩ := h
    exact .foreignRequest i k p hi
  | foreignRelease i r =>
    simp only [step, Option.ite_none_right_eq_some, Option.some.injEq] at h
    obtain ⟨hi, rfl⟩ := h
    exact .foreignRelease i r hi
  | register i | request i | wake i | user i _ | stop i | release i | caught i | close i =>
    simp only [step, Option.ite_none_right_eq_some] at h
    exact moves_workerStep h.1 h.2

end Sys

end MirrorCpp.Sync
