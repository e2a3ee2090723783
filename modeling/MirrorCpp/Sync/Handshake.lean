import MirrorCpp.Sync.Construct

/-!
# The handshake between a grant and a request

`Handshake` says who may be doing what. Until the run is cancelled a parked actor waits in its
`request`, a grant belongs to the one actor the controller waits for, and behind the initial
barrier every actor is parked or finished but for that one. Only a hook's own thread gets past
the first check of `request`.
-/

namespace MirrorCpp.Sync

open State

namespace Sys

/-- A worker waits in `request`. -/
def Waits (x : Sys) (i : Nat) : Prop := ∃ f p, x.pc i = .waiting f p

structure Handshake (x : Sys) : Prop where
  pcs_le : x.pcs.length ≤ x.state.actors.length
  pcs_len : x.state.cancelled = false → x.pcs.length = x.state.actors.length
  unborn : ∀ i, x.impl.workers.length ≤ i → x.pc i = .unborn
  thread : ∀ i t, (x.state.actor i).thread = some t → t = .worker i
  pending : ∀ i f p, x.pc i = .waiting f p → (x.state.actor i).pending = p
  closed : ∀ i, (x.state.actor i).finished = true ↔ x.pc i = .closed
  parked : x.state.cancelled = false → ∀ i, (x.state.actor i).parked = true → x.Waits i
  grant : x.state.cancelled = false → ∀ i, (x.state.actor i).grant = true →
    x.ctl = .granted i (x.state.actor i).version ∧ x.Waits i
  /-- All but the granted actor are parked or finished. -/
  rest : x.state.cancelled = false → x.ctl.started = true → ∀ i, i < x.state.actors.length →
    (∀ v, x.ctl ≠ .granted i v) → (x.state.actor i).parked = true ∨ (x.state.actor i).finished =
      true
  /-- So is the granted one when it has moved on. -/
  version : x.state.cancelled = false → ∀ i v, x.ctl = .granted i v →
    (x.state.actor i).version ≠ v → (x.state.actor i).parked = true ∨ (x.state.actor i).finished =
      true

namespace Handshake

variable {x : Sys} {t : State} {i j : Nat} {lib : JsonLib}

theorem pc_of_ge (h : x.pcs.length ≤ i) : x.pc i = .unborn := by
  simp [pc, List.getD_eq_getElem?_getD, List.getElem?_eq_none h]

/-- A worker outside its waits and its end is not parked, granted or finished. -/
theorem running (h : Handshake x) (hc : x.state.cancelled = false) (hw : ¬x.Waits i)
    (hcl : x.pc i ≠ .closed) :
    (x.state.actor i).parked = false ∧ (x.state.actor i).grant = false ∧
      (x.state.actor i).finished = false := by
  refine ⟨?_, ?_, ?_⟩
  · exact Bool.eq_false_iff.mpr fun hp => hw (h.parked hc i hp)
  · exact Bool.eq_false_iff.mpr fun hg => hw (h.grant hc i hg).2
  · exact Bool.eq_false_iff.mpr fun hf => hcl ((h.closed i).mp hf)

/-- Behind the barrier only the granted actor's worker runs. -/
theorem granted_of_running (h : Handshake x) (hc : x.state.cancelled = false)
    (hs : x.ctl.started = true) (hi : i < x.pcs.length) (hw : ¬x.Waits i)
    (hcl : x.pc i ≠ .closed) : ∃ v, x.ctl = .granted i v := by
  obtain ⟨hp, -, hf⟩ := h.running hc hw hcl
  by_contra hng
  have hr := h.rest hc hs i (lt_of_lt_of_le hi h.pcs_le) fun v hv => hng ⟨v, hv⟩
  simp [hp, hf] at hr

/-! ## Changes by one worker -/

end Handshake

/-- A change that worker `i` makes, of the records of the actors its own one at most. -/
structure Own (i : Nat) (s t : State) : Prop where
  length : t.actors.length = s.actors.length
  others : ∀ j, j ≠ i → t.actor j = s.actor j
  cancelled : t.cancelled = false → s.cancelled = false

theorem own_of_quiet {s t : State} (h : Quiet s t) (i : Nat) : Own i s t :=
  ⟨by rw [h.actors], fun j _ => h.actor j, h.cancelled⟩

theorem Own.trans {i : Nat} {s t u : State} (h : Own i s t) (h' : Own i t u) : Own i s u :=
  ⟨h'.length.trans h.length, fun j hj => (h'.others j hj).trans (h.others j hj),
    fun hc => h.cancelled (h'.cancelled hc)⟩

theorem own_setActor (s : State) (i : Nat) (a : Actor) : Own i s (s.setActor i a) :=
  ⟨by simp [setActor], fun _ hj => actor_setActor_ne s a hj, id⟩

theorem own_modifyResource (s : State) (i : Nat) (r : String) (e : Effect) (f : Owned → Owned) :
    Own i s (s.modifyResource r e f) := ⟨rfl, fun _ _ => rfl, id⟩

theorem own_takeEffect (s : State) (i : Nat) (p : Pending) : Own i s (s.takeEffect i p).2 := by
  unfold takeEffect
  split
  · exact own_modifyResource ..
  · exact own_modifyResource ..
  · exact own_modifyResource ..
  · exact own_modifyResource ..
  · exact own_of_quiet (.refl s) i

@[simp] theorem actors_takeEffect (s : State) (i : Nat) (p : Pending) :
    (s.takeEffect i p).2.actors = s.actors := by
  unfold takeEffect; split <;> rfl

@[simp] theorem actors_unwindRelease (s : State) (i : Nat) (r : String) :
    (s.unwindRelease i r).actors = s.actors := by
  unfold unwindRelease
  split
  · rfl
  · split <;> rfl

@[simp] theorem cancelled_unwindRelease (s : State) (i : Nat) (r : String) :
    (s.unwindRelease i r).cancelled = s.cancelled := by
  unfold unwindRelease
  split
  · rfl
  · split <;> rfl

theorem own_unwindRelease (s : State) (i : Nat) (r : String) : Own i s (s.unwindRelease i r) :=
  ⟨by simp, fun j _ => by simp [State.actor], by simp⟩

@[simp] theorem actors_releaseAll (s : State) (i : Nat) :
    (s.releaseAll i).actors = s.actors := by
  unfold releaseAll
  split
  · dsimp only
    split
    · rfl
    · exact (quiet_fail _ _ _).actors
  · rfl

theorem cancelled_releaseAll (s : State) (i : Nat) (h : (s.releaseAll i).cancelled = false) :
    s.cancelled = false := by
  unfold releaseAll at h
  split at h
  · dsimp only at h
    split at h
    · exact h
    · exact absurd h (by simp)
  · exact h

theorem own_finishWorker (s : State) (i : Nat) : Own i s (s.finishWorker i) := by
  refine Own.trans (t := s.releaseAll i) ?_ (own_setActor _ i _)
  exact ⟨by simp, fun j _ => by simp [State.actor], cancelled_releaseAll s i⟩

/-! ## The wake-up -/

/-- The state in which a woken request takes effect. -/
def woken (s : State) (i : Nat) : State :=
  s.setActor i { s.actor i with grant := false, parked := false }

/-- A woken request throws on a cancellation; else its operation takes effect and the result is
logged or refused. -/
theorem requestWake_cases (lib : JsonLib) (s : State) (i : Nat) (p : Pending) :
    (s.cancelled = true ∧ s.requestWake lib i p = (none, s)) ∨
      (s.cancelled = false ∧ ∃ v t, s.requestWake lib i p = (v, t) ∧
        Quiet ((woken s i).takeEffect i p).2 t) := by
  by_cases hc : s.cancelled = true
  · exact .inl ⟨hc, by simp [requestWake, hc]⟩
  · refine .inr ⟨by simpa using hc, ?_⟩
    simp only [requestWake, if_neg hc]
    split
    · exact ⟨_, _, rfl, .refl _⟩
    · rename_i ev
      exact ⟨_, _, rfl, quiet_event ev⟩

theorem own_requestWake (lib : JsonLib) (s : State) (i : Nat) (p : Pending) :
    Own i s (s.requestWake lib i p).2 := by
  rcases requestWake_cases lib s i p with ⟨-, h⟩ | ⟨-, v, t, h, hq⟩
  · rw [h]; exact own_of_quiet (.refl s) i
  · rw [h]
    exact ((own_setActor s i _).trans (own_takeEffect _ i p)).trans (own_of_quiet hq i)

namespace Handshake

variable {x : Sys} {t : State} {i j : Nat} {lib : JsonLib}

/-- A worker that runs changes its own record only: what is left to check of the invariant is
what it says of that worker. -/
theorem own_step (h : Handshake x) (hi : i < x.pcs.length) (ho : Own i x.state t) (p' : Pc)
    (hborn : x.pc i ≠ .unborn)
    (hthread : ∀ τ, (t.actor i).thread = some τ → τ = .worker i)
    (hpending : ∀ f p, p' = .waiting f p → (t.actor i).pending = p)
    (hclosed : (t.actor i).finished = true ↔ p' = .closed)
    (hparked : t.cancelled = false → (t.actor i).parked = true → ∃ f p, p' = .waiting f p)
    (hgrant : t.cancelled = false → (t.actor i).grant = false)
    (hturn : t.cancelled = false → x.ctl.started = true → ∃ v, x.ctl = .granted i v)
    (hversion : t.cancelled = false → ∀ v, x.ctl = .granted i v → (t.actor i).version ≠ v →
      (t.actor i).parked = true ∨ (t.actor i).finished = true) :
    Handshake ({ x with state := t }.setPc i p') := by
  have hpc : ∀ j, j ≠ i → ({ x with state := t }.setPc i p').pc j = x.pc j := fun j hj =>
    pc_setPc_ne _ p' hj
  have hpi : ({ x with state := t }.setPc i p').pc i = p' := pc_setPc_self _ p' hi
  constructor
  · simpa [ho.length] using h.pcs_le
  · intro hc
    simpa [ho.length] using h.pcs_len (ho.cancelled hc)
  · intro j hj
    have hu := h.unborn j hj
    rw [hpc j (by rintro rfl; exact hborn hu)]
    exact hu
  · intro j τ hτ
    by_cases hj : j = i
    · subst hj; exact hthread τ hτ
    · exact h.thread j τ (by simpa [ho.others j hj] using hτ)
  · intro j f p hw
    by_cases hj : j = i
    · subst hj; rw [hpi] at hw; exact hpending f p hw
    · rw [hpc j hj] at hw
      simpa [ho.others j hj] using h.pending j f p hw
  · intro j
    by_cases hj : j = i
    · subst hj; rw [hpi]; exact hclosed
    · rw [hpc j hj]; simpa [ho.others j hj] using h.closed j
  · intro hc j hp
    by_cases hj : j = i
    · subst hj; obtain ⟨f, p, rfl⟩ := hparked hc hp; exact ⟨f, p, hpi⟩
    · obtain ⟨f, p, hw⟩ := h.parked (ho.cancelled hc) j (by simpa [ho.others j hj] using hp)
      exact ⟨f, p, by rw [hpc j hj, hw]⟩
  · intro hc j hg
    by_cases hj : j = i
    · subst hj; exact absurd hg (by simp [hgrant hc])
    · simp only [state_setPc, ho.others j hj] at hg ⊢
      obtain ⟨hctl, f, p, hw⟩ := h.grant (ho.cancelled hc) j hg
      exact ⟨hctl, f, p, by rw [hpc j hj, hw]⟩
  · intro hc hs j hjl hj
    obtain ⟨v, hv⟩ := hturn hc hs
    have hji : j ≠ i := by rintro rfl; exact hj v hv
    simp only [state_setPc, ho.others j hji]
    exact h.rest (ho.cancelled hc) hs j (by simpa [ho.length] using hjl) hj
  · intro hc j v hv hne
    by_cases hj : j = i
    · subst hj; exact hversion hc v hv hne
    · simp only [state_setPc, ho.others j hj] at hne ⊢
      exact h.version (ho.cancelled hc) j v hv hne

/-- The same for a worker that runs and goes on running, its record unchanged. -/
theorem run_step (h : Handshake x) (hi : i < x.pcs.length) (ho : Own i x.state t) (p' : Pc)
    (hborn : x.pc i ≠ .unborn) (hw : ¬x.Waits i) (hcl : x.pc i ≠ .closed)
    (hw' : ∀ f p, p' ≠ .waiting f p) (hcl' : p' ≠ .closed)
    (hthread : ∀ τ, (t.actor i).thread = some τ → τ = .worker i)
    (hrec : { t.actor i with thread := (x.state.actor i).thread } = x.state.actor i) :
    Handshake ({ x with state := t }.setPc i p') := by
  have hparked : (t.actor i).parked = (x.state.actor i).parked := (congrArg Actor.parked hrec :)
  have hgrant : (t.actor i).grant = (x.state.actor i).grant := (congrArg Actor.grant hrec :)
  have hfin : (t.actor i).finished = (x.state.actor i).finished := (congrArg Actor.finished hrec :)
  have hver : (t.actor i).version = (x.state.actor i).version := (congrArg Actor.version hrec :)
  refine h.own_step hi ho p' hborn hthread (fun f p e => absurd e (hw' f p)) ?_ ?_ ?_ ?_ ?_
  · rw [hfin, h.closed i]
    exact ⟨fun e => absurd e hcl, fun e => absurd e hcl'⟩
  · intro hc hp
    rw [hparked, (h.running (ho.cancelled hc) hw hcl).1] at hp; cases hp
  · intro hc
    rw [hgrant, (h.running (ho.cancelled hc) hw hcl).2.1]
  · exact fun hc hs => h.granted_of_running (ho.cancelled hc) hs hi hw hcl
  · intro hc v hv hne
    rw [hparked, hfin]
    exact h.version (ho.cancelled hc) i v hv (by rwa [hver] at hne)

/-! ## The steps -/

/-- The controller: no grant survives the end of its wait. -/
theorem control_step {y : Sys} (h : Handshake x) (hr : Releases x y)
    (hleave : ∀ i v, x.ctl = .granted i v → y.state.cancelled = false →
      (x.state.actor i).version ≠ v)
    (hbarrier : x.ctl.started = false → y.state.cancelled = false → x.state.allParked = true) :
    Handshake y := by
  have hpc : ∀ i, y.pc i = x.pc i := fun i => by simp [pc, hr.pcs]
  have hw : ∀ i, y.Waits i ↔ x.Waits i := fun i => by simp [Waits, hpc]
  have hact := hr.quiet.actor
  have hcan := hr.quiet.cancelled
  constructor
  · simpa [hr.pcs, hr.quiet.actors] using h.pcs_le
  · simpa [hr.pcs, hr.quiet.actors] using fun hc => h.pcs_len (hcan hc)
  · simpa [hr.workers, hpc] using h.unborn
  · simpa [hact] using h.thread
  · simpa [hact, hpc] using h.pending
  · simpa [hact, hpc] using h.closed
  · exact fun hc i hp => (hw i).mpr (h.parked (hcan hc) i (by rwa [hact i] at hp))
  · intro hc i hg
    have hg := h.grant (hcan hc) i (by rwa [hact i] at hg)
    exact absurd rfl (hleave i _ hg.1 hc)
  · intro hc _ i hi _
    rw [hact i]
    rw [hr.quiet.actors] at hi
    cases hs : x.ctl.started with
    | false =>
      have hall := List.all_eq_true.mp (hbarrier hs hc)
      simpa using hall _ (actor_mem hi)
    | true =>
      by_cases hg : ∃ v, x.ctl = .granted i v
      · obtain ⟨v, hv⟩ := hg
        exact h.version (hcan hc) i v hv (hleave i v hv hc)
      · exact h.rest (hcan hc) hs i hi fun v hv => hg ⟨v, hv⟩
  · exact fun _ i v hv => absurd hv (hr.ctl i v)

/-- A foreign thread: it cannot park an actor. -/
theorem foreign_step (h : Handshake x) (ha : t.actors = x.state.actors)
    (hc : t.cancelled = false → x.state.cancelled = false) :
    Handshake { x with state := t } := by
  have hact : ∀ i, t.actor i = x.state.actor i := fun i => by simp [State.actor, ha]
  have hpc : ∀ i, { x with state := t }.pc i = x.pc i := fun _ => rfl
  have hw : ∀ i, { x with state := t }.Waits i = x.Waits i := fun _ => rfl
  constructor
  · simpa [ha] using h.pcs_le
  · simpa [ha] using fun hc' => h.pcs_len (hc hc')
  · exact h.unborn
  · simpa [hact] using h.thread
  · simpa [hact, hpc] using h.pending
  · simpa [hact, hpc] using h.closed
  · simpa [hact, hw] using fun hc' => h.parked (hc hc')
  · simpa [hact, hw] using fun hc' => h.grant (hc hc')
  · simpa [hact, ha] using fun hc' => h.rest (hc hc')
  · simpa [hact] using fun hc' => h.version (hc hc')

theorem spawn_step (h : Handshake x) (ctl : Ctl) (hctl : x.ctl = .spawning)
    (hctl' : ctl.started = false) :
    Handshake ⟨x.state, { x.impl with workers := x.impl.workers ++ [true] },
      x.pcs.set x.impl.workers.length .born, ctl⟩ := by
  set k := x.impl.workers.length with hk
  set y : Sys := ⟨x.state, { x.impl with workers := x.impl.workers ++ [true] },
    x.pcs.set k .born, ctl⟩ with hy
  have hun : x.pc k = .unborn := h.unborn k (le_of_eq hk.symm)
  have hpc : ∀ i, i ≠ k → y.pc i = x.pc i := fun i hi => pc_setPc_ne x .born hi
  have hpk : y.pc k = .born ∨ y.pc k = .unborn := by
    by_cases hlt : k < x.pcs.length
    · exact .inl (pc_setPc_self x .born hlt)
    · exact .inr (pc_of_ge (by simpa [hy] using hlt))
  have hnw : ¬y.Waits k := by
    rintro ⟨f, p, hw⟩
    rcases hpk with e | e <;> rw [e] at hw <;> cases hw
  have hncl : y.pc k ≠ .closed := by rcases hpk with e | e <;> simp [e]
  have hng : ∀ i v, ctl ≠ .granted i v := by rintro i v rfl; cases hctl'
  have hnw' : ∀ i, x.Waits i → i ≠ k := by
    rintro i ⟨f, p, hw⟩ rfl
    rw [hun] at hw; cases hw
  constructor
  · simpa [hy] using h.pcs_le
  · simpa [hy] using h.pcs_len
  · intro i hi
    have hi : k + 1 ≤ i := by simpa [hy, hk] using hi
    rw [hpc i (by omega)]
    exact h.unborn i (by omega)
  · exact h.thread
  · intro i f p hw
    have hik : i ≠ k := by rintro rfl; exact hnw ⟨f, p, hw⟩
    rw [hpc i hik] at hw
    exact h.pending i f p hw
  · intro i
    by_cases hik : i = k
    · rw [hik]
      refine ⟨fun hf => ?_, fun e => absurd e hncl⟩
      have := (h.closed k).mp hf
      rw [hun] at this; cases this
    · rw [hpc i hik]; exact h.closed i
  · intro hc i hp
    obtain ⟨f, p, hw⟩ := h.parked hc i hp
    exact ⟨f, p, by rw [hpc i (hnw' i ⟨f, p, hw⟩), hw]⟩
  · intro hc i hg
    have hg := (h.grant hc i hg).1
    rw [hctl] at hg; cases hg
  · intro _ hs
    exact absurd hs (by simp [hy, hctl'])
  · exact fun _ i v hv => absurd hv (hng i v)

theorem grant_step (h : Handshake x) (hctl : x.ctl = .idle) (hi : i < x.state.actors.length)
    (he : x.state.enabled i = true) (hq : Quiet x.state t) :
    Handshake ⟨t.setActor i { t.actor i with grant := true }, x.impl, x.pcs,
      .granted i (x.state.actor i).version⟩ := by
  have hlen : i < t.actors.length := by rwa [hq.actors]
  set u := t.setActor i { t.actor i with grant := true } with hu
  have hoth : ∀ j, j ≠ i → u.actor j = x.state.actor j := fun j hj => by
    rw [hu, actor_setActor_ne t _ hj, hq.actor]
  have hself : u.actor i = { x.state.actor i with grant := true } := by
    rw [hu, actor_setActor_self t _ hlen, hq.actor]
  have hcan : u.cancelled = false → x.state.cancelled = false := hq.cancelled
  have hulen : u.actors.length = x.state.actors.length := by simp [hu, setActor, hq.actors]
  have hpk : (x.state.actor i).parked = true := by
    by_contra hp
    simp [State.enabled, hp] at he
  have hst : x.ctl.started = true := by simp [hctl, Ctl.started]
  have hng : ∀ j v, x.ctl ≠ .granted j v := by simp [hctl]
  constructor
  · simpa [hulen] using h.pcs_le
  · simpa [hulen] using fun hc => h.pcs_len (hcan hc)
  · exact h.unborn
  · intro j τ hτ
    by_cases hj : j = i
    · subst hj; exact h.thread j τ (by simpa [hself] using hτ)
    · exact h.thread j τ (by simpa [hoth j hj] using hτ)
  · intro j f p hw
    by_cases hj : j = i
    · subst hj; simpa [hself] using h.pending j f p hw
    · simpa [hoth j hj] using h.pending j f p hw
  · intro j
    by_cases hj : j = i
    · subst hj
      simp only [hself]
      exact h.closed j
    · simp only [hoth j hj]
      exact h.closed j
  · intro hc j hp
    by_cases hj : j = i
    · subst hj; exact h.parked (hcan hc) j hpk
    · exact h.parked (hcan hc) j (by simpa [hoth j hj] using hp)
  · intro hc j hg
    by_cases hj : j = i
    · subst hj; exact ⟨by simp [hself], h.parked (hcan hc) j hpk⟩
    · have hg := h.grant (hcan hc) j (by simpa [hoth j hj] using hg)
      exact absurd hg.1 (hng j _)
  · intro hc _ j hj hne
    have hji : j ≠ i := by rintro rfl; exact hne _ rfl
    simp only [hoth j hji]
    exact h.rest (hcan hc) hst j (by simpa [hulen] using hj) fun v hv => hng j v hv
  · intro _ j v hv hne
    cases hv
    exact absurd (by simp [hself]) hne

theorem pc_ne_waiting (hw : ∀ f p, x.pc i ≠ .waiting f p) : ¬x.Waits i :=
  fun ⟨f, p, h⟩ => hw f p h

/-- Only the place of a running worker changes. -/
theorem pc_step (h : Handshake x) (hi : i < x.pcs.length) (p' : Pc) (hborn : x.pc i ≠ .unborn)
    (hw : ¬x.Waits i) (hcl : x.pc i ≠ .closed) (hw' : ∀ f p, p' ≠ .waiting f p)
    (hcl' : p' ≠ .closed) : Handshake (x.setPc i p') :=
  h.run_step (t := x.state) hi (own_of_quiet (.refl _) i) p' hborn hw hcl hw' hcl' (h.thread i) rfl

/-- A worker that runs, and a state changed outside its record. -/
theorem quiet_step (h : Handshake x) (hi : i < x.pcs.length) (ha : t.actors = x.state.actors)
    (hc : t.cancelled = false → x.state.cancelled = false) (p' : Pc) (hborn : x.pc i ≠ .unborn)
    (hw : ¬x.Waits i) (hcl : x.pc i ≠ .closed) (hw' : ∀ f p, p' ≠ .waiting f p)
    (hcl' : p' ≠ .closed) : Handshake ({ x with state := t }.setPc i p') := by
  have hact : ∀ j, t.actor j = x.state.actor j := fun j => by simp [State.actor, ha]
  refine h.run_step hi ⟨by rw [ha], fun j _ => hact j, hc⟩ p' hborn hw hcl hw' hcl' ?_ ?_
  · rw [hact]; exact h.thread i
  · rw [hact]

theorem onThrow_ne (f : Frame) : (∀ g p, f.onThrow ≠ .waiting g p) ∧ f.onThrow ≠ .closed := by
  cases f <;> simp [Frame.onThrow]

theorem onReturn_ne (f : Frame) (v : Int) :
    (∀ g p, f.onReturn v ≠ .waiting g p) ∧ f.onReturn v ≠ .closed := by
  cases f <;> simp [Frame.onReturn]

theorem callPc_ne (c : Call) : (∀ g p, c.pc ≠ .waiting g p) ∧ c.pc ≠ .closed := by
  cases c with
  | checkpoint name => simp only [Call.pc]; split <;> simp
  | _ => simp [Call.pc]

theorem request_step (h : Handshake x) (hi : i < x.pcs.length) {f : Frame} {p : Pending}
    (hpc : x.pc i = .calling f p) :
    Handshake ({ x with state := (x.state.requestEnter (.worker i) i p).2 }.setPc i
      (if (x.state.requestEnter (.worker i) i p).1 then .waiting f p else f.onThrow)) := by
  have hw : ¬x.Waits i := pc_ne_waiting (by simp [hpc])
  have hil : i < x.state.actors.length := lt_of_lt_of_le hi h.pcs_le
  rcases requestEnter_cases x.state (.worker i) i p with ⟨e, hc, hth, -⟩ | ⟨t, e, hq, hc⟩
  · rw [e]
    have hself : (x.state.park i p).actor i = { x.state.actor i with
        pending := p, parked := true, grant := false, version := (x.state.actor i).version + 1 } :=
      actor_setActor_self _ _ hil
    obtain ⟨-, -, hf⟩ := h.running hc hw (by simp [hpc])
    refine h.own_step (t := x.state.park i p) hi (own_setActor _ i _) (.waiting f p)
      (by simp [hpc]) ?_ ?_ ?_ ?_ ?_ ?_ ?_
    · intro τ hτ; exact h.thread i τ (by simpa [hself] using hτ)
    · rintro g q e; cases e; simp [hself]
    · simp [hself, hf]
    · exact fun _ _ => ⟨f, p, rfl⟩
    · simp [hself]
    · exact fun _ hs => h.granted_of_running hc hs hi hw (by simp [hpc])
    · simp [hself]
  · rw [e]
    exact h.quiet_step hi hq.actors hq.cancelled _ (by simp [hpc]) hw (by simp [hpc])
      (onThrow_ne f).1 (onThrow_ne f).2

theorem wake_step (h : Handshake x) (hi : i < x.pcs.length) {f : Frame} {p : Pending}
    (hpc : x.pc i = .waiting f p) (hwk : x.state.canWake i = true) :
    Handshake ({ x with state := (x.state.requestWake lib i p).2 }.setPc i
      (match (x.state.requestWake lib i p).1 with
        | some v => f.onReturn v
        | none => f.onThrow)) := by
  have hil : i < x.state.actors.length := lt_of_lt_of_le hi h.pcs_le
  have hnf : (x.state.actor i).finished = false :=
    Bool.eq_false_iff.mpr fun hf => by rw [h.closed i, hpc] at hf; cases hf
  have hp' : ∀ o : Option Int, (∀ (g : Frame) (q : Pending), (match o with
      | some v => f.onReturn v
      | none => f.onThrow) ≠ Pc.waiting g q) ∧ (match o with
      | some v => f.onReturn v
      | none => f.onThrow) ≠ Pc.closed := by
    rintro (_ | v)
    · exact onThrow_ne f
    · exact onReturn_ne f v
  have ho := own_requestWake lib x.state i p
  rcases requestWake_cases lib x.state i p with ⟨hc, e⟩ | ⟨hc, v, t, e, hq⟩
  · rw [e]
    refine h.own_step (t := x.state) hi (own_of_quiet (.refl _) i) _ (by simp [hpc]) (h.thread i)
      (fun g q e => absurd e ((onThrow_ne f).1 g q)) ?_ ?_ ?_ ?_ ?_
    · simp [hnf, (onThrow_ne f).2]
    all_goals exact fun hc' => absurd hc (by simp [hc'])
  · rw [e] at ho ⊢
    have hg : (x.state.actor i).grant = true := by simpa [canWake, hc] using hwk
    have hgr := (h.grant hc i hg).1
    have hself : t.actor i = { x.state.actor i with grant := false, parked := false } := by
      rw [hq.actor]
      simp [State.actor, woken, setActor, hil]
    refine h.own_step (t := t) hi ho _ (by simp [hpc]) ?_
      (fun g q e => absurd e ((hp' v).1 g q)) ?_ ?_ ?_ ?_ ?_
    · intro τ hτ; exact h.thread i τ (by simpa [hself] using hτ)
    · simpa [hself, hnf] using (hp' v).2
    · simp [hself]
    · simp [hself]
    · exact fun _ _ => ⟨_, hgr⟩
    · intro _ w hv hne
      rw [hgr] at hv; cases hv
      exact absurd (by simp [hself]) hne

theorem register_step (h : Handshake x) (hi : i < x.pcs.length) (hpc : x.pc i = .born) :
    Handshake ({ x with state := x.state.registerThread i }.setPc i
      (.calling .start ⟨.start, "", 0⟩)) := by
  have hil : i < x.state.actors.length := lt_of_lt_of_le hi h.pcs_le
  have hself : (x.state.registerThread i).actor i =
      { x.state.actor i with thread := some (.worker i) } := actor_setActor_self _ _ hil
  refine h.run_step (t := x.state.registerThread i) hi (own_setActor _ i _) _ (by simp [hpc])
    (pc_ne_waiting (by simp [hpc])) (by simp [hpc]) (by simp) (by simp) ?_ (by rw [hself])
  intro τ hτ
  rw [hself] at hτ
  exact (Option.some.inj hτ).symm

theorem close_step (h : Handshake x) (hi : i < x.pcs.length) (hpc : x.pc i = .closing) :
    Handshake ({ x with state := x.state.finishWorker i }.setPc i .closed) := by
  have hil : i < x.state.actors.length := lt_of_lt_of_le hi h.pcs_le
  have hw : ¬x.Waits i := pc_ne_waiting (by simp [hpc])
  have ho := own_finishWorker x.state i
  have hself : (x.state.finishWorker i).actor i = { x.state.actor i with
      finished := true, parked := false, version := (x.state.actor i).version + 1 } := by
    simp [State.actor, finishWorker, setActor, hil]
  refine h.own_step hi ho .closed (by simp [hpc]) ?_ (by simp) (by simp [hself]) (by simp [hself])
    ?_ ?_ (by simp [hself])
  · intro τ hτ; exact h.thread i τ (by simpa [hself] using hτ)
  · intro hc
    simpa [hself] using (h.running (ho.cancelled hc) hw (by simp [hpc])).2.1
  · exact fun hc hs => h.granted_of_running (ho.cancelled hc) hs hi hw (by simp [hpc])

/-- **The handshake is kept by every step.** -/
theorem step {y : Sys} {c : Choice} (h : Handshake x) (hs : x.step lib c = some y) :
    Handshake y := by
  cases step_moves hs with
  | control hr hleave hbarrier => exact h.control_step hr hleave hbarrier
  | spawn ctl hctl hctl' => exact h.spawn_step ctl hctl hctl'
  | grant i hctl hi he hq hc => exact h.grant_step hctl hi he hq
  | register i hi hpc => exact h.register_step hi hpc
  | request i f p hi hpc => exact h.request_step hi hpc
  | wake i f p hi hpc hw => exact h.wake_step hi hpc hw
  | user i r c hi hpc =>
    exact h.pc_step hi _ (by simp [hpc]) (pc_ne_waiting (by simp [hpc])) (by simp [hpc])
      (callPc_ne c).1 (callPc_ne c).2
  | asked i hi hpc =>
    exact h.pc_step hi _ (by simp [hpc]) (pc_ne_waiting (by simp [hpc])) (by simp [hpc])
      (by simp) (by simp)
  | dropped i r u hi hpc =>
    refine h.pc_step hi _ (by simp [hpc]) (pc_ne_waiting (by simp [hpc])) (by simp [hpc]) ?_ ?_ <;>
      split <;> simp
  | release i r hi hpc =>
    exact h.quiet_step hi (by simp) (by simp) _ (by simp [hpc]) (pc_ne_waiting (by simp [hpc]))
      (by simp [hpc]) (by simp) (by simp)
  | caught i hi hpc =>
    have hq := quiet_workerThrew x.state
    exact h.quiet_step hi hq.actors hq.cancelled _ (by simp [hpc])
      (pc_ne_waiting (by simp [hpc])) (by simp [hpc]) (by simp) (by simp)
  | close i hi hpc => exact h.close_step hi hpc
  | foreignRequest i k p hi =>
    rcases requestEnter_cases x.state (.other k) i p with ⟨-, -, hth, -⟩ | ⟨t, e, hq, -⟩
    · exact absurd (h.thread i _ hth) (by simp)
    · rw [e]; exact h.foreign_step hq.actors hq.cancelled
  | foreignRelease i r hi => exact h.foreign_step (by simp) (by simp)

theorem init (h : Initial x) : Handshake x := by
  have hact := h.fresh.actor
  have hpc : ∀ i, x.pc i = .unborn := by
    intro i
    rcases h.start with ⟨-, -, hp, -⟩ | ⟨-, -, -, -, hp, -⟩
    · simp [pc, hp]
    · by_cases hi : i < x.state.actors.length <;>
        simp [pc, hp, List.getD_eq_getElem?_getD, hi]
  have hfield : ∀ i, (x.state.actor i).thread = none ∧ (x.state.actor i).parked = false ∧
      (x.state.actor i).grant = false ∧ (x.state.actor i).finished = false := by
    intro i; rw [hact i]; exact ⟨rfl, rfl, rfl, rfl⟩
  constructor
  · rcases h.start with ⟨-, -, hp, -⟩ | ⟨-, -, -, -, hp, -⟩ <;> simp [hp]
  · intro hc
    rcases h.start with ⟨hc', -⟩ | ⟨-, -, -, -, hp, -⟩
    · rw [hc] at hc'; cases hc'
    · simp [hp]
  · exact fun i _ => hpc i
  · intro i τ hτ; rw [(hfield i).1] at hτ; cases hτ
  · intro i f p hw; rw [hpc i] at hw; cases hw
  · simp [hpc, hfield]
  · intro _ i hp; rw [(hfield i).2.1] at hp; cases hp
  · intro _ i hg; rw [(hfield i).2.2.1] at hg; cases hg
  · intro hc hs
    rcases h.start with ⟨hc', -⟩ | ⟨-, -, -, -, -, hctl⟩
    · rw [hc] at hc'; cases hc'
    · rw [hctl] at hs; cases hs
  · intro hc i v hctl
    rcases h.start with ⟨hc', -⟩ | ⟨-, -, -, -, -, hctl'⟩
    · rw [hc] at hc'; cases hc'
    · rw [hctl'] at hctl; cases hctl

theorem reach (h : (lts lib).Reach x) : Handshake x :=
  h.inv (fun _ hi => init (initial_of_init hi)) fun _ _ _ h _ hs => h.step hs

end Handshake

end Sys

end MirrorCpp.Sync
