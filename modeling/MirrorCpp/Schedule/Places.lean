import MirrorCpp.Schedule.Course

/-!
# Places of the workers

`Core` ties the place of a worker to the phase of its actor, to the thread the hook belongs to and
to the joins; `Room` counts the threads that `start` creates.
-/

namespace MirrorCpp.Schedule

/-- The phases an actor may be in while its worker stands here. -/
def Pc.allows (stopping : Bool) : Pc → Phase → Prop
  | .unborn, ph | .born, ph => ph = .starting
  | .waiting _, ph => ph = .parked ∨ ph = .running
  | .closed, ph => ph = .finished
  | _, ph => ph = .running ∨ stopping = true ∧ ph = .parked

/-- The thread has not registered. -/
def Pc.fresh : Pc → Bool
  | .unborn | .born => true
  | _ => false

theorem Pc.allows_loose {b : Bool} {p : Pc} {ph : Phase} (h : p.loose = true) :
    p.allows b ph ↔ ph = .running ∨ b = true ∧ ph = .parked := by
  cases p <;> first | rfl | cases h

theorem Pc.fresh_of_loose {p : Pc} (h : p.loose = true) : p.fresh = false := by
  cases p <;> first | rfl | cases h

theorem Pc.allows_mono {b c : Bool} {p : Pc} {ph : Phase} (hbc : b = true → c = true)
    (h : p.allows b ph) : p.allows c ph := by
  cases p <;> first | exact h | exact h.imp_right fun h => ⟨hbc h.1, h.2⟩

namespace Sys

open Shared

variable {x y : Sys} {lib : JsonScan} {i j : Nat}

structure Core (x : Sys) : Prop where
  length : x.pcs.length = x.state.actors.length
  threads : x.impl.threads.length ≤ x.pcs.length
  unborn : ∀ i, x.impl.threads.length ≤ i → x.pc i = .unborn
  phase : ∀ i, (x.pc i).allows x.state.stopping (x.state.actor i).phase
  thread : ∀ i, (x.state.actor i).thread = if (x.pc i).fresh then none else some (.worker i)
  joined : ∀ i, i < x.impl.threads.length → x.joinable i = false → x.pc i = .closed
  marked : ∀ i, (x.state.actor i).joined = true → x.pc i = .closed ∧ x.joinable i = false

theorem actor_declaredActors {a : Adapter} {s : Shared} (h : s.actors = declaredActors a)
    (i : Nat) :
    s.actor i = { declaration := (s.actor i).declaration } := by
  simp only [Shared.actor, h, declaredActors, List.getD_eq_getElem?_getD, List.getElem?_map]
  cases a.actors[i]? <;> rfl

theorem Initial.actor {o : Opening} (h : Initial o x) (i : Nat) :
    x.state.actor i = { declaration := (x.state.actor i).declaration } := by
  rcases h.actors with ⟨ha, -⟩ | ha
  · rw [actor_of_ge (by simp [ha])]
  · exact actor_declaredActors ha i

theorem Initial.pc {o : Opening} (h : Initial o x) (i : Nat) : x.pc i = .unborn := by
  simp only [Sys.pc, h.pcs, List.getD_eq_getElem?_getD, List.getElem?_map]
  cases x.state.actors[i]? <;> rfl

theorem Initial.core {o : Opening} (h : Initial o x) : Core x where
  length := by simp [h.pcs]
  threads := by rw [h.impl]; simp
  unborn i _ := h.pc i
  phase i := by rw [h.pc, h.actor]; rfl
  thread i := by rw [h.pc, h.actor]; rfl
  joined i hi := by rw [h.impl] at hi; cases hi
  marked i hm := by rw [h.actor] at hm; cases hm

/-- Actors, places and threads as before. -/
theorem Core.same (H : Core x) (hp : y.pcs = x.pcs) (ha : y.state.actors = x.state.actors)
    (ht : y.impl.threads = x.impl.threads) (hs : x.state.stopping = true → y.state.stopping =
      true) :
    Core y := by
  have hpc : ∀ i, y.pc i = x.pc i := fun i => by simp [pc, hp]
  have hact : ∀ i, y.state.actor i = x.state.actor i := fun i => by simp [Shared.actor, ha]
  have hj : ∀ i, y.joinable i = x.joinable i := fun i => by simp [joinable, ht]
  refine ⟨by rw [hp, ha]; exact H.length, by rw [ht, hp]; exact H.threads, fun i hi => ?_,
    fun i => ?_, fun i => ?_, fun i hi hf => ?_, fun i hm => ?_⟩
  · rw [hpc]; exact H.unborn i (ht ▸ hi)
  · rw [hpc, hact]; exact Pc.allows_mono hs (H.phase i)
  · rw [hpc, hact]; exact H.thread i
  · rw [hpc]; exact H.joined i (ht ▸ hi) (hj i ▸ hf)
  · rw [hpc, hj]; exact H.marked i (hact i ▸ hm)

/-- Worker `i` moves to another place, its actor to a phase allowed there. -/
theorem Core.move (H : Core x) {s : Shared} {a : ActorState} {p : Pc} (hi : i < x.pcs.length)
    (hs : s.actors = x.state.actors.set i a) (hst : s.stopping = x.state.stopping)
    (hp : p.allows x.state.stopping a.phase)
    (ht : a.thread = if p.fresh then none else some (.worker i))
    (hj : a.joined = (x.state.actor i).joined) (hu : x.pc i ≠ .unborn) (hc : x.pc i ≠ .closed) :
    Core ({ x with state := s }.setPc i p) := by
  have hia : i < x.state.actors.length := H.length ▸ hi
  have hlt : i < x.impl.threads.length := by
    by_contra h
    exact hu (H.unborn i (by omega))
  have hact : ∀ j, s.actor j = if j = i then a else x.state.actor j := fun j => by
    have := actor_setActor x.state i j a
    simp only [hia, and_true] at this
    rw [← this]
    simp [Shared.actor, setActor, hs]
  have hpc : ∀ j, ({ x with state := s }.setPc i p).pc j = if j = i then p else x.pc j :=
    fun j => by
    rw [pc_setPc]
    simp only [hi, and_true]
    rfl
  refine ⟨by simpa [hs] using H.length, by simpa using H.threads, fun j hj' => ?_, fun j => ?_,
    fun j => ?_, fun j hj' hf => ?_, fun j hm => ?_⟩
  · rw [hpc, if_neg (by rintro rfl; exact absurd hj' (by simpa using hlt))]
    exact H.unborn j hj'
  · rw [hpc]
    change Pc.allows s.stopping _ (s.actor j).phase
    rw [hact, hst]
    split
    · exact hp
    · exact H.phase j
  · rw [hpc]
    change (s.actor j).thread = _
    rw [hact]
    split
    · rename_i h; rw [h]; exact ht
    · exact H.thread j
  · rw [hpc, if_neg (by rintro rfl; exact hc (H.joined j hj' hf))]
    exact H.joined j hj' hf
  · change (s.actor j).joined = true at hm
    rw [hact] at hm
    rw [hpc]
    split at hm
    · rename_i h
      rw [hj] at hm
      exact absurd (H.marked i hm).1 hc
    · rename_i h
      rw [if_neg h]
      exact H.marked j hm

theorem set_actor_self (s : Shared) (i : Nat) : s.actors.set i (s.actor i) = s.actors := by
  refine List.ext_getElem (by simp) fun j hj hj' => ?_
  rw [List.getElem_set]
  split
  · rename_i h
    subst h
    simp [Shared.actor, List.getD_eq_getElem?_getD, hj']
  · rfl

theorem set_pc_self (x : Sys) (i : Nat) : x.setPc i (x.pc i) = x := by
  have h : x.pcs.set i (x.pc i) = x.pcs := by
    refine List.ext_getElem (by simp) fun j hj hj' => ?_
    rw [List.getElem_set]
    split
    · rename_i h
      subst h
      simp [pc, List.getD_eq_getElem?_getD, hj']
    · rfl
  rw [setPc, h]

/-- A worker goes on, its actor unchanged. -/
theorem Core.go (H : Core x) {s : Shared} {p : Pc} (hj : Judged x.state s) (hi : i < x.pcs.length)
    (hp : p.allows x.state.stopping (x.state.actor i).phase) (hf : (x.pc i).fresh = false)
    (hq : p.fresh = false) (hc : x.pc i ≠ .closed) : Core ({ x with state := s }.setPc i p) := by
  refine H.move hi (a := x.state.actor i) (by rw [set_actor_self, hj.actors]) hj.stopping hp ?_ rfl
    (fun h => by rw [h] at hf; cases hf) hc
  rw [H.thread i, hf, hq]

theorem loose_pc (c : Call) : c.pc.loose = true := by cases c <;> rfl

theorem loose_onStop (f : Frame) : f.onStop.loose = true := by cases f <;> rfl

/-- Between two places of its own code. -/
theorem Core.stroll (H : Core x) {s : Shared} {p : Pc} (hj : Judged x.state s)
    (hi : i < x.pcs.length) (hl : (x.pc i).loose = true) (hp : p.loose = true) :
    Core ({ x with state := s }.setPc i p) := by
  refine H.go hj hi ?_ (Pc.fresh_of_loose hl) (Pc.fresh_of_loose hp)
    fun h => by rw [h] at hl; cases hl
  have := H.phase i
  rw [Pc.allows_loose hl] at this
  exact (Pc.allows_loose hp).mpr this

theorem Core.work (H : Core x) (hi : i < x.pcs.length) (h : Work x i y) : Core y := by
  have hph := H.phase i
  have hth := H.thread i
  cases h with
  | register hpc =>
    rw [hpc] at hph hth
    refine H.move hi rfl rfl (.inl rfl) rfl rfl ?_ ?_ <;> simp [hpc]
  | wake hpc _ hs hr =>
    exact H.go (.refl _) hi (.inl hr) (by rw [hpc]; rfl) rfl (by simp [hpc])
  | stopped hpc _ hs =>
    rw [hpc] at hph
    refine H.go (.refl _) hi ?_ (by rw [hpc]; rfl) (Pc.fresh_of_loose (loose_onStop _))
      (by simp [hpc])
    rw [Pc.allows_loose (loose_onStop _)]
    exact hph.symm.imp_right fun h => ⟨hs, h⟩
  | user hpc => exact H.stroll (.refl _) hi (by rw [hpc]; rfl) (loose_pc _)
  | asked hpc => exact H.stroll (.refl _) hi (by rw [hpc]; rfl) rfl
  | foreign hpc => exact H.stroll (judged_misused _) hi (by rw [hpc]; rfl) rfl
  | refused hpc => exact H.stroll (.refl _) hi (by rw [hpc]; rfl) rfl
  | astray hpc _ ht hr hs =>
    refine H.move hi ((judged_fail _ (by decide) _).actors) ((judged_fail _ (by decide) _).stopping)
      (.inl hr) ?_ rfl ?_ ?_
    · simpa [Pc.fresh] using ht
    · simp [hpc]
    · simp [hpc]
  | park hpc _ ht =>
    refine H.move hi rfl rfl (.inl rfl) ?_ rfl ?_ ?_
    · simpa [Pc.fresh] using ht
    · simp [hpc]
    · simp [hpc]
  | threw hpc => exact H.stroll (judged_workerThrew _ _) hi (by rw [hpc]; rfl) rfl
  | finish hpc =>
    rw [hpc] at hth
    refine H.move hi rfl rfl rfl ?_ rfl ?_ ?_
    · simpa [Pc.fresh] using hth
    · simp [hpc]
    · simp [hpc]

theorem joinable_joined (x : Sys) (i j : Nat) :
    (x.joined i).joinable j = (x.joinable j && decide (j ≠ i)) := by
  simp only [joinable, joined, List.getD_eq_getElem?_getD, List.getElem?_set]
  by_cases h : i = j
  · subst h
    by_cases hi : i < x.impl.threads.length <;> simp [hi]
  · simp [h, Ne.symm h]

/-- A thread that ended is joined. -/
theorem Core.join (H : Core x) (hpc : x.pc i = .closed) : Core (x.joined i) where
  length := H.length
  threads := by simpa [Sys.joined] using H.threads
  unborn j hj := H.unborn j (by simpa [Sys.joined] using hj)
  phase := H.phase
  thread := H.thread
  joined j hj hf := by
    rw [joinable_joined] at hf
    by_cases hji : j = i
    · subst hji; exact hpc
    · exact H.joined j (by simpa [Sys.joined] using hj) (by simpa [hji] using hf)
  marked j hm := by
    rw [joinable_joined]
    exact ⟨(H.marked j hm).1, by rw [(H.marked j hm).2, Bool.false_and]⟩

theorem actor_markJoined (s : Shared) (i j : Nat) :
    (markJoined s i).actor j =
      { s.actor j with joined := (markJoined s i |>.actor j).joined } := by
  simp only [markJoined, actor_setActor]
  split
  · rename_i h; rw [h.1]
  · rfl

theorem joined_markJoined (s : Shared) (i j : Nat) :
    ((markJoined s i).actor j).joined =
      ((s.actor j).joined || decide (j = i ∧ i < s.actors.length)) := by
  simp only [markJoined, actor_setActor]
  by_cases h : j = i ∧ i < s.actors.length
  · simp [h]
  · simp [h]

theorem Core.mark (H : Core x) (hpc : x.pc i = .closed) :
    Core { x.joined i with state := markJoined x.state i } := by
  have hc := H.join hpc
  refine ⟨by simpa [markJoined, Sys.joined] using H.length, hc.threads, hc.unborn, fun j => ?_,
    fun j => ?_, hc.joined, fun j hm => ?_⟩
  · change Pc.allows x.state.stopping (x.pc j) ((markJoined x.state i).actor j).phase
    rw [actor_markJoined]; exact H.phase j
  · change ((markJoined x.state i).actor j).thread = if (x.pc j).fresh then none else _
    rw [actor_markJoined]; exact H.thread j
  · change ((markJoined x.state i).actor j).joined = true at hm
    rw [joined_markJoined, Bool.or_eq_true, decide_eq_true_eq] at hm
    rcases hm with hm | ⟨rfl, -⟩
    · exact hc.marked j hm
    · refine ⟨hpc, ?_⟩
      change (x.joined j).joinable j = false
      simp [joinable_joined]

/-- The teardown and the report do not touch the workers. -/
theorem Scan.core (H : Core x) (h : Scan x y) : Core y := by
  cases h with
  | join => exact H.same rfl rfl rfl id
  | tear =>
    unfold callTeardown
    split <;> exact H.same rfl rfl rfl id
  | rest => exact H.same rfl rfl rfl id

theorem Core.wind (H : Core x) (h : Wind x y) : Core y := by
  cases h with
  | wake _ h => exact h.core H
  | joined _ hpc h => exact h.core (H.mark hpc)
  | torn => exact H.same rfl rfl rfl id
  | destroyJoin _ hpc => exact H.join hpc
  | destroyTear =>
    unfold callTeardown
    split <;> exact H.same rfl rfl rfl id
  | destroyEnd | destroyTorn => exact H.same rfl rfl rfl id

theorem Core.judged (H : Core x) {s : Shared} (hj : Judged x.state s) (c : Ctl) :
    Core { x with state := s, ctl := c } :=
  H.same rfl hj.actors rfl fun h => hj.stopping.trans h

theorem Retained.core (H : Core x) (h : Retained x y) : Core y := by
  cases h with
  | failed => exact H.judged (judged_fail _ (by decide) _) x.ctl
  | kept => exact H.same rfl rfl rfl id

/-- A parked actor of a live execution waits in its hook. -/
theorem Core.parked (H : Core x) (hs : x.state.stopping = false)
    (hp : (x.state.actor i).phase = .parked) : ∃ f, x.pc i = .waiting f := by
  have h := H.phase i
  rw [hs, hp] at h
  cases hpc : x.pc i with
  | waiting f => exact ⟨f, rfl⟩
  | _ => rw [hpc] at h; simp [Pc.allows] at h

/-- The granted actor runs. -/
theorem Core.permit (H : Core x) (hs : x.state.stopping = false) {n : Nat}
    (hp : (x.state.actor i).phase = .parked) (c : Ctl) :
    Core { x with state := Sys.permit x.state n i, ctl := c } := by
  obtain ⟨f, hf⟩ := H.parked hs hp
  have hi : i < x.pcs.length := by
    rw [H.length]
    exact lt_of_phase (by rw [hp]; decide)
  have hth := H.thread i
  rw [hf] at hth
  have := H.move (s := Sys.permit x.state n i) (p := x.pc i) hi rfl rfl
    (by rw [hf]; exact .inr rfl) (by rw [hf]; exact hth) rfl (by simp [hf]) (by simp [hf])
  have he : { x with state := Sys.permit x.state n i }.setPc i (x.pc i) =
      { x with state := Sys.permit x.state n i } :=
        set_pc_self { x with state := Sys.permit x.state n i } i
  rw [he] at this
  exact this.same rfl rfl rfl id

theorem refusal_none {st : Step} {late : Bool} (h : x.refusal st late = none) :
    x.state.cancelled = false ∧ late = false ∧ x.impl.schedule.steps[x.impl.nextStep]? = some st ∧
      (x.state.actor (find x.state st.actor)).phase = .parked := by
  unfold refusal at h
  split at h
  · cases h
  rename_i hc
  split at h
  · cases h
  rename_i hl
  split at h
  · cases h
  rename_i hst
  split at h
  · cases h
  rename_i hp
  exact ⟨by simpa using hc, by simpa using hl, by simpa using hst, by simpa using hp⟩

/-! ### Creating the threads -/

theorem Work.frame (h : Work x i y) :
    y.pcs.length = x.pcs.length ∧ y.impl = x.impl ∧ y.ctl = x.ctl := by
  cases h <;> exact ⟨pcs_length_setPc _ _ _, rfl, rfl⟩

/-- The thread loop ends with the last actor. -/
structure Room (x : Sys) : Prop where
  spawning : x.ctl = .spawning → x.impl.threads.length < x.pcs.length
  barrier : x.ctl = .barrier → x.state.failed = false → x.impl.threads.length = x.pcs.length

theorem Initial.room {o : Opening} (h : Initial o x) : Room x := by
  have ht : x.impl.threads = [] := by rw [h.impl]
  rcases h.start with ⟨hctl, -⟩ | ⟨hctl, -⟩ | ⟨hctl, -, -, -, -, ha, hA⟩
  · constructor <;> simp [hctl]
  · constructor <;> simp [hctl]
  · refine ⟨fun _ => ?_, by simp [hctl]⟩
    have := List.length_pos_iff.mpr hA.actors
    simpa [ht, h.pcs, ha, declaredActors] using this

theorem Room.away (h : y.ctl ≠ .spawning) (h' : y.ctl ≠ .barrier) : Room y :=
  ⟨fun he => absurd he h, fun he => absurd he h'⟩

theorem Room.step (HC : Core x) (H : Room x) (h : Move x y) : Room y := by
  cases h with
  | work _ h =>
    obtain ⟨s, ps, rfl, hj⟩ := h.judged
    obtain ⟨hp, -, -⟩ := h.frame
    refine ⟨fun he => ?_, fun he hf => ?_⟩
    · have := H.spawning he
      exact lt_of_lt_of_eq this hp.symm
    · have := H.barrier he ?_
      · exact this.trans hp.symm
      · have := hj.live hf
        exact this
  | cancel => exact ⟨H.spawning, H.barrier⟩
  | foreign =>
    exact ⟨H.spawning, fun he hf => H.barrier he ((judged_arrive _ _ _ _).live hf)⟩
  | stay => exact H
  | spawn hctl =>
    have hlt := H.spawning hctl
    refine ⟨fun he => ?_, fun he _ => ?_⟩
    · dsimp only [Sys.spawn] at he
      split at he
      · cases he
      · rename_i hne
        rw [← HC.length] at hne
        dsimp only [Sys.spawn, setPc]
        simp only [List.length_append, List.length_singleton, List.length_set]
        omega
    · dsimp only [Sys.spawn] at he
      split at he
      · rename_i heq
        rw [← HC.length] at heq
        unfold Sys.spawn setPc
        simpa using heq
      · cases he
  | spawnRefused =>
    refine ⟨nofun, fun _ hf => ?_⟩
    rw [failed_fail] at hf
    cases hf
  | startObserved =>
    refine .away ?_ ?_ <;>
    · dsimp only [Sys.startObserved]
      split <;> exact nofun
  | leave =>
    refine .away ?_ ?_ <;>
    · dsimp only
      split <;> exact nofun
  | wind h =>
    obtain ⟨-, ⟨-, hy | hy⟩ | ⟨-, hy⟩⟩ := h.steady
    · exact .away (fun he => by rw [he] at hy; cases hy) fun he => by rw [he] at hy; cases hy
    · exact .away (fun he => by rw [he] at hy; cases hy) fun he => by rw [he] at hy; cases hy
    · exact .away (fun he => by rw [he] at hy; cases hy) fun he => by rw [he] at hy; cases hy
  | _ => exact .away nofun nofun

/-- The next thread is created. -/
theorem Core.spawn (H : Core x) (hlt : x.impl.threads.length < x.pcs.length) :
    Core (x.spawn none) := by
  have hpc : ∀ j, (x.spawn none).pc j = if j = x.impl.threads.length then .born else x.pc j :=
    fun j => by
      change (x.setPc x.impl.threads.length .born).pc j = _
      simp [pc_setPc, hlt]
  have hj : ∀ j, (x.spawn none).joinable j =
      (x.joinable j || decide (j = x.impl.threads.length)) := fun j => by
    simp only [Sys.spawn, joinable, List.getD_eq_getElem?_getD, List.getElem?_append]
    by_cases h : j < x.impl.threads.length
    · simp [h, Nat.ne_of_lt h]
    · by_cases he : j = x.impl.threads.length
      · simp [he]
      · have : ¬ j - x.impl.threads.length < 1 := by omega
        simp [h, he, this]
  have hu := H.unborn _ le_rfl
  have hph := H.phase x.impl.threads.length
  have hth := H.thread x.impl.threads.length
  rw [hu] at hph hth
  refine ⟨by simpa [Sys.spawn, setPc] using H.length, ?_, fun j hj' => ?_, fun j => ?_, fun j => ?_,
    fun j hlt' hf => ?_, fun j hm => ?_⟩
  · simp only [Sys.spawn, List.length_append, List.length_singleton, setPc, List.length_set]
    omega
  · simp only [Sys.spawn, List.length_append, List.length_singleton] at hj'
    rw [hpc, if_neg (by omega)]
    exact H.unborn j (by omega)
  · rw [hpc]
    split
    · rename_i h; rw [h]; exact hph
    · exact H.phase j
  · rw [hpc]
    split
    · rename_i h; rw [h]; exact hth
    · exact H.thread j
  · rw [hj, Bool.or_eq_false_iff, decide_eq_false_iff_not] at hf
    simp only [Sys.spawn, List.length_append, List.length_singleton] at hlt'
    rw [hpc, if_neg hf.2]
    exact H.joined j (by omega) hf.1
  · obtain ⟨hc, hj'⟩ := H.marked j hm
    have hne : j ≠ x.impl.threads.length := by
      rintro rfl
      rw [hu] at hc; cases hc
    rw [hpc, if_neg hne, hj, hj', decide_eq_false hne]
    exact ⟨hc, rfl⟩

/-- A hook belongs to its own worker. -/
theorem Core.misused (H : Core x) {k : Nat} {checkpoint : String} :
    (x.state.arrive (.other k) i checkpoint).2 = x.state.misused := by
  rcases arrive_cases x.state (.other k) i checkpoint with ⟨-, he⟩ | ⟨ht, -⟩
  · rw [he]
  · rw [H.thread i] at ht
    split at ht <;> cases ht

theorem Core.step (HC : Course x) (HR : Room x) (H : Core x) (h : Move x y) : Core y := by
  cases h with
  | work hi h => exact H.work hi h
  | cancel => exact H.same rfl rfl rfl id
  | @foreign i k checkpoint =>
    rw [H.misused]
    exact H.judged (judged_misused _) x.ctl
  | stay => exact H
  | refuse _ _ ho => exact H.judged (judged_fail _ ho _) _
  | permit hctl hc hr =>
    obtain ⟨-, hcl, -, -⟩ := cannotAdvance_false hc
    exact H.permit (HC.live hcl (by rw [hctl]; rfl)) (refusal_none hr).2.2.2 _
  | finish _ _ _ hj => exact H.judged hj _
  | badBudget => exact H.same rfl rfl rfl id
  | close => exact H.same rfl rfl rfl id
  | clean => exact H.same rfl rfl rfl fun _ => rfl
  | destroy => exact H.same rfl rfl rfl fun _ => rfl
  | spawn hctl => exact H.spawn (HR.spawning hctl)
  | spawnRefused => exact H.judged (judged_fail _ (by decide) _) _
  | barrierFailed _ hj => exact H.judged hj _
  | barrier => exact H.same rfl rfl rfl id
  | startObserved _ h =>
    have hy := h.core H
    exact hy.same rfl (judged_settle _ _).actors rfl (judged_settle _ _).stopping.trans
  | advanceObserved _ h =>
    have hy := h.core H
    refine hy.same rfl ?_ rfl ?_
    · unfold Sys.advanceObserved
      dsimp only
      split <;> exact (judged_settle _ _).actors
    · unfold Sys.advanceObserved
      dsimp only
      split <;> exact (judged_settle _ _).stopping.trans
  | wokenFailed _ hj =>
    exact H.same rfl ((recordArrival_actors _ _ _).trans hj.actors) rfl
      ((recordArrival_stopping _ _ _).trans hj.stopping).trans
  | wokenAstray =>
    refine H.same rfl ?_ rfl ?_
    · exact (judged_fail _ (by decide) _).actors.trans (recordArrival_actors _ _ _)
    · exact ((judged_fail _ (by decide) _).stopping.trans (recordArrival_stopping _ _ _)).trans
  | wokenFinished | wokenParked =>
    exact H.same rfl (recordArrival_actors _ _ _) rfl (recordArrival_stopping _ _ _).trans
  | joined _ hpc => exact (H.mark hpc).same rfl rfl rfl id
  | leave => exact H.same rfl rfl rfl id
  | wind h => exact H.wind h

/-- The places and the room for threads hold along every run. -/
theorem core_room_reach (h : (lts lib).Reach x) : Core x ∧ Room x := by
  refine Lts.ReachBy.inv_of (P := fun x => Core x ∧ Room x) (fun _ => Course.reach) ?_ ?_ h
  · rintro _ ⟨o, rfl⟩
    have hi := initial_start lib o
    exact ⟨hi.core, hi.room⟩
  · rintro x c y HC ⟨H, HR⟩ - hs
    have hm := move_of_step hs
    exact ⟨H.step HC HR hm, HR.step H hm⟩

theorem Core.reach (h : (lts lib).Reach x) : Core x := (core_room_reach h).1

end Sys

end MirrorCpp.Schedule
