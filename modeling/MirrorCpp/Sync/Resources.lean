import MirrorCpp.Lib.JsonCompact
import MirrorCpp.Sync.Handshake

/-!
# The resources along every run

The monitor of `Lib/Monitor.lean` says what mutexes and bounded queues are for. Here the
coordinator refines it: the effects it records are a lawful history, and the resources are the
store this history leads to (`Accounted`). The handshake supplies what an effect needs: an
operation was enabled when it was granted, and until it takes effect nobody but its actor can
take anything from it (`Ready`).
-/

namespace MirrorCpp.Sync

open Monitor

namespace State

/-- The resources as a store of the monitor. -/
def store (s : State) : Store Nat String Int where
  owner r := (s.resource? r).bind (·.owner)
  queue r := ((s.resource? r).map (·.queue)).getD []

/-- The declared capacity. -/
def capacity (s : State) (r : String) : Nat :=
  ((s.resource? r).map (·.declaration.capacity)).getD 0

/-- The recorded effects were allowed, and lead to the resources. -/
structure Accounted (s : State) : Prop where
  lawful : Lawful s.capacity .empty s.hist
  store_eq : run .empty s.hist = s.store

variable {s t : State} {i j : Nat} {r : String} {o : Owned}

theorem store_quiet (h : Quiet s t) : t.store = s.store := by
  ext <;> simp [store, h.resource?]

theorem capacity_quiet (h : Quiet s t) : t.capacity = s.capacity := by
  funext r; simp [capacity, h.resource?]

theorem Accounted.quiet (h : Accounted s) (hq : Quiet s t) : Accounted t :=
  ⟨by rw [hq.hist, capacity_quiet hq]; exact h.lawful,
    by rw [hq.hist, store_quiet hq]; exact h.store_eq⟩

theorem Accounted.congr (h : Accounted s) (hr : t.resources = s.resources)
    (hh : t.hist = s.hist) : Accounted t := by
  have hres : ∀ r, t.resource? r = s.resource? r := fun r => by simp [resource?, hr]
  refine ⟨?_, ?_⟩
  · have : t.capacity = s.capacity := by funext r; simp [capacity, hres]
    rw [hh, this]; exact h.lawful
  · have : t.store = s.store := by ext <;> simp [store, hres]
    rw [hh, this]; exact h.store_eq

/-! ## Changes of a resource -/

theorem capacity_modifyResource (s : State) (r : String) (e : Effect) {f : Owned → Owned}
    (hf : ∀ o, (f o).declaration = o.declaration) :
    (s.modifyResource r e f).capacity = s.capacity := by
  funext q
  simp only [capacity, resource?_modifyResource s r q e hf]
  by_cases hq : q = r
  · subst hq; simp [Option.map_map, Function.comp_def, hf]
  · simp [hq]

/-- One recorded effect: it must have been allowed, and the store must be the one it gives. -/
theorem Accounted.modify (h : Accounted s) {e : Effect} {f : Owned → Owned}
    (hf : ∀ o, (f o).declaration = o.declaration) (he : e.Allowed s.capacity s.store)
    (hs : (s.modifyResource r e f).store = e.apply s.store) :
    Accounted (s.modifyResource r e f) := by
  have hh : (s.modifyResource r e f).hist = s.hist ++ [e] := rfl
  refine ⟨?_, ?_⟩
  · rw [capacity_modifyResource s r e hf, hh]
    exact h.lawful.concat (by rw [h.store_eq]; exact he)
  · rw [hh, run_append, h.store_eq, hs]; rfl

theorem store_setOwner (ho : s.resource? r = some o) (e : Effect) (w : Option Nat) :
    (s.modifyResource r e fun o => { o with owner := w }).store =
      { s.store with owner := Function.update s.store.owner r w } := by
  have hm := fun q => resource?_modifyResource s r q e (f := fun o => { o with owner := w })
    fun _ => rfl
  refine Store.ext (funext fun q => ?_) (funext fun q => ?_) <;> simp only [store, hm]
  all_goals
    by_cases hq : q = r
    · subst hq; simp [ho]
    · simp [hq]

theorem store_setQueue (ho : s.resource? r = some o) (e : Effect) (g : List Int → List Int) :
    (s.modifyResource r e fun o => { o with queue := g o.queue }).store =
      { s.store with queue := Function.update s.store.queue r (g (s.store.queue r)) } := by
  have hm := fun q => resource?_modifyResource s r q e (f := fun o => { o with queue := g o.queue })
    fun _ => rfl
  refine Store.ext (funext fun q => ?_) (funext fun q => ?_) <;> simp only [store, hm]
  all_goals
    by_cases hq : q = r
    · subst hq; simp [ho]
    · simp [hq]

theorem store_owner (ho : s.resource? r = some o) : s.store.owner r = o.owner := by
  simp [store, ho]

theorem store_queue (ho : s.resource? r = some o) : s.store.queue r = o.queue := by
  simp [store, ho]

/-- What a granted operation needs to take effect. -/
def Ready (s : State) (i : Nat) (p : Pending) : Prop :=
  p.op.onResource = true → ∃ o, s.resource? p.resource = some o ∧
    match p.op with
    | .lock => o.owner = none
    | .unlock => o.owner = none ∨ o.owner = some i
    | .send => o.queue.length < o.declaration.capacity
    | .receive => o.queue ≠ []
    | _ => True

theorem ready_of_enabled (h : s.enabled i = true) : Ready s i (s.actor i).pending := by
  intro hop
  simp only [enabled] at h
  split at h
  · cases h
  split at h
  · rename_i hn; exact absurd hop (by simpa using hn)
  split at h
  · cases h
  · rename_i o ho
    refine ⟨o, ho, ?_⟩
    cases hp : (s.actor i).pending.op <;> simp_all

/-- The granted operation takes effect. -/
theorem Accounted.takeEffect (h : Accounted s) {p : Pending} (hr : Ready s i p) :
    Accounted (s.takeEffect i p).2 := by
  unfold State.takeEffect
  cases hop : p.op with
  | lock =>
    obtain ⟨o, ho, hfree⟩ := hr (by simp [hop, Op.onResource])
    simp only [hop] at hfree
    refine h.modify (fun _ => rfl) ?_ (store_setOwner ho _ _)
    simpa [Effect.Allowed, store_owner ho] using hfree
  | unlock =>
    obtain ⟨o, ho, hown⟩ := hr (by simp [hop, Op.onResource])
    simp only [hop] at hown
    refine h.modify (fun _ => rfl) ?_ (store_setOwner ho _ _)
    simpa [Effect.Allowed, store_owner ho] using hown
  | send =>
    obtain ⟨o, ho, hroom⟩ := hr (by simp [hop, Op.onResource])
    simp only [hop] at hroom
    refine h.modify (fun _ => rfl) ?_ (store_setQueue ho _ (· ++ [p.value]))
    simpa [Effect.Allowed, store_queue ho, capacity, ho] using hroom
  | receive =>
    obtain ⟨o, ho, hne⟩ := hr (by simp [hop, Op.onResource])
    simp only [hop] at hne
    refine h.modify (fun _ => rfl) ?_ (store_setQueue ho _ List.tail)
    obtain ⟨v, rest, hq⟩ := List.exists_cons_of_ne_nil hne
    exact ⟨rest, by simp [store_queue ho, hq, ho]⟩
  | _ => exact h

theorem Accounted.unwindRelease (h : Accounted s) (i : Nat) (r : String) :
    Accounted (s.unwindRelease i r) := by
  unfold State.unwindRelease
  split
  · exact h
  · rename_i o ho
    split
    · rename_i hown
      refine h.modify (fun _ => rfl) ?_ (store_setOwner ho _ _)
      simpa [Effect.Allowed, store_owner ho] using hown
    · exact h

theorem resource?_clear (s : State) (i : Nat) (h : List Effect) (r : String) :
    ({ s with resources := s.resources.map (clearOwner i), hist := h } : State).resource? r =
      (s.resource? r).map (clearOwner i) :=
  find?_map_owned (clearOwner_declaration i) _ _

theorem Accounted.clear (h : Accounted s) (i : Nat) :
    Accounted { s with
      resources := s.resources.map (clearOwner i)
      hist := s.hist ++ [.terminate i] } := by
  set t : State := { s with
    resources := s.resources.map (clearOwner i)
    hist := s.hist ++ [.terminate i] } with ht
  have hres : ∀ r, t.resource? r = (s.resource? r).map (clearOwner i) :=
    resource?_clear s i _
  have hcap : t.capacity = s.capacity := by
    funext r
    simp [capacity, hres, Option.map_map, Function.comp_def, clearOwner_declaration]
  refine ⟨?_, ?_⟩
  · rw [hcap]
    exact h.lawful.concat (e := .terminate i) trivial
  · change run .empty (s.hist ++ [.terminate i]) = t.store
    rw [run_append, h.store_eq]
    ext r w
    · cases ho : s.resource? r with
      | none => simp [store, hres, ho, run, Effect.apply]
      | some o => simp [store, hres, ho, run, Effect.apply, clearOwner_owner]
    · cases ho : s.resource? r <;>
        simp [store, hres, ho, run, Effect.apply, clearOwner_queue]

theorem releaseAll_eq (s : State) (i : Nat) :
    s.releaseAll i = s ∨ ∃ t, Quiet s t ∧ s.releaseAll i = { t with
      resources := t.resources.map (clearOwner i)
      hist := t.hist ++ [.terminate i] } := by
  unfold releaseAll
  split
  · refine .inr ?_
    by_cases hc : s.cancelled = true
    · exact ⟨s, .refl s, by simp only [hc, if_true]; rfl⟩
    · exact ⟨_, quiet_fail s .resourceMisuse "actor completed holding mutex",
        by simp only [hc]; rfl⟩
  · exact .inl rfl

theorem Accounted.finishWorker (h : Accounted s) (i : Nat) : Accounted (s.finishWorker i) := by
  have hr : Accounted (s.releaseAll i) := by
    rcases releaseAll_eq s i with e | ⟨t, hq, e⟩
    · rw [e]; exact h
    · rw [e]; exact (h.quiet hq).clear i
  exact hr.congr rfl rfl

/-! ## What others may do to a granted operation -/

/-- Declarations and queues stay, an owner can only go. -/
def Frees (s t : State) : Prop :=
  ∀ r o, s.resource? r = some o → ∃ o', t.resource? r = some o' ∧ o'.declaration = o.declaration ∧
    o'.queue = o.queue ∧ (o'.owner = o.owner ∨ o'.owner = none)

theorem frees_quiet (h : Quiet s t) : Frees s t := fun r o ho =>
  ⟨o, by rw [h.resource?, ho], rfl, rfl, .inl rfl⟩

theorem frees_congr (h : t.resources = s.resources) : Frees s t := fun r o ho =>
  ⟨o, by simpa [resource?, h] using ho, rfl, rfl, .inl rfl⟩

theorem frees_unwindRelease (s : State) (i : Nat) (r : String) : Frees s (s.unwindRelease i r) := by
  unfold unwindRelease
  split
  · exact frees_congr rfl
  split
  · intro q o ho
    have hm := resource?_modifyResource s r q (.unwind i r) (f := fun o => { o with owner := none })
      fun _ => rfl
    by_cases hq : q = r
    · subst hq
      exact ⟨{ o with owner := none }, by rw [hm, if_pos rfl, ho]; rfl, rfl, rfl, .inr rfl⟩
    · exact ⟨o, by rw [hm, if_neg hq, ho], rfl, rfl, .inl rfl⟩
  · exact frees_congr rfl

theorem frees_finishWorker (s : State) (i : Nat) : Frees s (s.finishWorker i) := by
  intro r o ho
  have hres : (s.finishWorker i).resource? r = (s.releaseAll i).resource? r := rfl
  rw [hres]
  rcases releaseAll_eq s i with e | ⟨t, hq, e⟩
  · exact ⟨o, by rw [e, ho], rfl, rfl, .inl rfl⟩
  · refine ⟨clearOwner i o, ?_, clearOwner_declaration i o, clearOwner_queue i o, ?_⟩
    · rw [e, resource?_clear, hq.resource?, ho]; rfl
    · rw [clearOwner_owner]; split
      · exact .inr rfl
      · exact .inl rfl

theorem Ready.frees {p : Pending} (h : Ready s i p) (hf : Frees s t) : Ready t i p := by
  intro hop
  obtain ⟨o, ho, hp⟩ := h hop
  obtain ⟨o', ho', hd, hqu, hown⟩ := hf _ _ ho
  refine ⟨o', ho', ?_⟩
  cases hpo : p.op <;> simp only [hpo] at hp ⊢
  · rcases hown with e | e
    · rw [e]; exact hp
    · exact e
  · rcases hown with e | e
    · rw [e]; exact hp
    · exact .inl e
  · rw [hd, hqu]; exact hp
  · rw [hqu]; exact hp

/-- The declarations, in the order of their ids. -/
def declarations (s : State) : List Resource := s.resources.map (·.declaration)

theorem declarations_modifyResource (s : State) (r : String) (e : Effect) {f : Owned → Owned}
    (hf : ∀ o, (f o).declaration = o.declaration) :
    (s.modifyResource r e f).declarations = s.declarations := by
  simp only [declarations, modifyResource, List.map_map]
  refine List.map_congr_left fun o _ => ?_
  simp only [Function.comp_apply]
  split <;> simp [hf]

theorem declarations_quiet (h : Quiet s t) : t.declarations = s.declarations := by
  simp [declarations, h.resources]

@[simp] theorem declarations_takeEffect (s : State) (i : Nat) (p : Pending) :
    (s.takeEffect i p).2.declarations = s.declarations := by
  unfold State.takeEffect
  split
  · exact declarations_modifyResource _ _ _ fun _ => rfl
  · exact declarations_modifyResource _ _ _ fun _ => rfl
  · exact declarations_modifyResource _ _ _ fun _ => rfl
  · exact declarations_modifyResource _ _ _ fun _ => rfl
  · rfl

@[simp] theorem declarations_unwindRelease (s : State) (i : Nat) (r : String) :
    (s.unwindRelease i r).declarations = s.declarations := by
  unfold State.unwindRelease
  split
  · rfl
  split
  · exact declarations_modifyResource _ _ _ fun _ => rfl
  · rfl

@[simp] theorem declarations_finishWorker (s : State) (i : Nat) :
    (s.finishWorker i).declarations = s.declarations := by
  have hr : (s.finishWorker i).declarations = (s.releaseAll i).declarations := rfl
  rw [hr]
  rcases releaseAll_eq s i with e | ⟨t, hq, e⟩
  · rw [e]
  · rw [e, ← declarations_quiet hq]
    simp [declarations, Function.comp_def, clearOwner_declaration]

end State

namespace Sys

open State

/-- The resources are accounted for, and a granted operation can take effect. -/
structure Safe (x : Sys) : Prop where
  ids : (x.state.declarations.map (·.id)).Nodup
  accounted : x.state.Accounted
  ready : x.state.cancelled = false → ∀ i, (x.state.actor i).grant = true →
    Ready x.state i (x.state.actor i).pending

namespace Safe

variable {x y : Sys} {t : State} {i : Nat} {lib : JsonLib}

theorem init (h : Initial x) : Safe x where
  ids := by simpa [declarations, Function.comp_def] using h.fresh.resourceIds
  accounted := by
    have hstore : x.state.store = .empty := by
      refine Store.ext (funext fun r => ?_) (funext fun r => ?_)
      · cases ho : x.state.resource? r with
        | none => simp [store, Store.empty, ho]
        | some o =>
          simp [store, Store.empty, ho, (h.fresh.resources o (mem_of_resource? ho)).1]
      · cases ho : x.state.resource? r with
        | none => simp [store, Store.empty, ho]
        | some o =>
          simp [store, Store.empty, ho, (h.fresh.resources o (mem_of_resource? ho)).2.1]
    exact ⟨by rw [h.fresh.hist]; trivial, by rw [h.fresh.hist, hstore]; rfl⟩
  ready _ i hg := by rw [h.fresh.actor i] at hg; cases hg

/-- A change that frees at most, by a worker that holds no grant. -/
theorem frees_step (h : Safe x) (hd : t.declarations = x.state.declarations)
    (ha : Accounted t) (hf : Frees x.state t)
    (hc : t.cancelled = false → x.state.cancelled = false)
    (hact : t.cancelled = false → ∀ j, (t.actor j).grant = true →
      (x.state.actor j).grant = true ∧ (t.actor j).pending = (x.state.actor j).pending)
    (hy : y.state = t) : Safe y := by
  subst hy
  refine ⟨by rw [hd]; exact h.ids, ha, fun hcy j hg => ?_⟩
  obtain ⟨hg, hp⟩ := hact hcy j hg
  rw [hp]
  exact (h.ready (hc hcy) j hg).frees hf

/-- The records of the actors did not change. -/
theorem quiet_step (h : Safe x) (hd : t.declarations = x.state.declarations)
    (ha : Accounted t) (hf : Frees x.state t)
    (hc : t.cancelled = false → x.state.cancelled = false) (hact : t.actors = x.state.actors)
    (hy : y.state = t) : Safe y := by
  have hact : ∀ j, t.actor j = x.state.actor j := fun j => by simp [State.actor, hact]
  exact h.frees_step hd ha hf hc (fun _ j hg => by rw [hact j] at hg ⊢; exact ⟨hg, rfl⟩) hy

theorem grant_of_setActor {s : State} {a : Actor}
    (ha : a.grant = true → (s.actor i).grant = true ∧ a.pending = (s.actor i).pending) (j : Nat)
    (hg : ((s.setActor i a).actor j).grant = true) :
    (s.actor j).grant = true ∧ ((s.setActor i a).actor j).pending = (s.actor j).pending := by
  rw [actor_setActor] at hg ⊢
  split
  · rename_i hj
    rw [if_pos hj] at hg
    rw [hj.1]
    exact ha hg
  · rename_i hj
    rw [if_neg hj] at hg
    exact ⟨hg, rfl⟩

/-- **The resources are kept safe by every step.** -/
theorem step {c : Choice} (H : Handshake x) (h : Safe x) (hs : x.step lib c = some y) :
    Safe y := by
  have H' := H.step hs
  have keep : ∀ {y : Sys} {t : State}, Quiet x.state t → y.state = t → Safe y := fun hq hy =>
    h.quiet_step (declarations_quiet hq) (h.accounted.quiet hq) (frees_quiet hq) hq.cancelled
      hq.actors hy
  cases step_moves hs with
  | control hr _ _ => exact keep hr.quiet rfl
  | spawn => exact keep (.refl _) rfl
  | @grant t i hctl hi he hq hc =>
    refine ⟨?_, ?_, fun hcy j hg => ?_⟩
    · exact (declarations_quiet hq).symm ▸ h.ids
    · exact (h.accounted.quiet hq).congr rfl rfl
    · -- the grant goes to an enabled actor, and no other grant is open
      obtain ⟨hj, -⟩ := H'.grant hcy j hg
      obtain rfl : i = j := by simpa using (Ctl.granted.inj hj).1
      have hlen := hi
      rw [← hq.actors] at hlen
      have hr := (ready_of_enabled he).frees (frees_quiet hq)
      change Ready _ i ((t.setActor i _).actor i).pending
      rw [actor_setActor_self t _ hlen]
      simp only [hq.actor]
      exact hr.frees (frees_congr rfl)
  | register i hi hpc =>
    exact h.frees_step (t := x.state.registerThread i) rfl (h.accounted.congr rfl rfl)
      (frees_congr rfl) id (fun _ => grant_of_setActor fun hg => ⟨hg, rfl⟩) rfl
  | request i f p hi hpc =>
    rcases requestEnter_cases x.state (.worker i) i p with ⟨e, hc, -, -⟩ | ⟨t, e, hq, -⟩
    · rw [e]
      exact h.frees_step (t := x.state.park i p) rfl (h.accounted.congr rfl rfl)
        (frees_congr rfl) id (fun _ => grant_of_setActor nofun) rfl
    · rw [e]; exact keep hq rfl
  | wake i f p hi hpc hw =>
    rcases requestWake_cases lib x.state i p with ⟨hc, e⟩ | ⟨hc, v, t, e, hq⟩
    · rw [e]; exact keep (.refl _) rfl
    · have hg : (x.state.actor i).grant = true := by simpa [canWake, hc] using hw
      have hpend := H.pending i f p hpc
      have hr : Ready (woken x.state i) i p :=
        (hpend ▸ h.ready hc i hg).frees (frees_congr rfl)
      have hacc : Accounted (woken x.state i) := h.accounted.congr rfl rfl
      have hgr := (H.grant hc i hg).1
      have hil : i < x.state.actors.length := lt_of_lt_of_le hi H.pcs_le
      rw [e] at H' ⊢
      refine ⟨?_, (hacc.takeEffect hr).quiet hq, fun hcy j hgj => ?_⟩
      · exact (declarations_quiet hq).symm ▸ (declarations_takeEffect _ i p).symm ▸ h.ids
      · -- a grant still open would be this one, which is taken
        have hj := (H'.grant hcy j hgj).1
        change x.ctl = _ at hj
        rw [hgr] at hj
        obtain rfl : i = j := (Ctl.granted.inj hj).1
        change (t.actor i).grant = true at hgj
        rw [hq.actor] at hgj
        simp [State.actor, woken, setActor, hil] at hgj
  | user => exact keep (.refl _) rfl
  | asked => exact keep (.refl _) rfl
  | dropped => exact keep (.refl _) rfl
  | release i r hi hpc =>
    exact h.quiet_step (by simp) (h.accounted.unwindRelease i r) (frees_unwindRelease _ i r)
      (by simp) (by simp) rfl
  | caught i hi hpc => exact keep (quiet_workerThrew _) rfl
  | close i hi hpc =>
    have ho := own_finishWorker x.state i
    refine h.frees_step (by simp) (h.accounted.finishWorker i) (frees_finishWorker _ i)
      ho.cancelled (fun hc j hg => ?_) rfl
    by_cases hj : j = i
    · subst hj
      obtain ⟨f, p, hw⟩ := (H'.grant hc j hg).2
      rw [pc_setPc_self { x with state := x.state.finishWorker j } _ hi] at hw; cases hw
    · rw [ho.others j hj] at hg ⊢; exact ⟨hg, rfl⟩
  | foreignRequest i k p hi =>
    rcases requestEnter_cases x.state (.other k) i p with ⟨-, -, hth, -⟩ | ⟨t, e, hq, -⟩
    · exact absurd (H.thread i _ hth) (by simp)
    · rw [e]; exact keep hq rfl
  | foreignRelease i r hi =>
    exact h.quiet_step (by simp) (h.accounted.unwindRelease i r) (frees_unwindRelease _ i r)
      (by simp) (by simp) rfl

theorem reach (h : (lts lib).Reach x) : Safe x :=
  h.inv_of (fun _ hr => Handshake.reach hr) (fun _ hi => init (initial_of_init hi))
    fun _ _ _ H h _ hs => h.step H hs

end Safe

theorem resource?_of_mem {s : State} (hn : (s.declarations.map (·.id)).Nodup) {o : Owned}
    (ho : o ∈ s.resources) : s.resource? o.declaration.id = some o := by
  simp only [declarations, List.map_map] at hn
  unfold resource?
  generalize s.resources = os at hn ho
  induction os with
  | nil => cases ho
  | cons o' os ih =>
    simp only [List.map_cons, List.nodup_cons, Function.comp_apply] at hn
    rcases List.mem_cons.mp ho with rfl | ho
    · simp
    · have hne : o'.declaration.id ≠ o.declaration.id := fun e =>
        hn.1 (List.mem_map.mpr ⟨o, ho, by simpa using e.symm⟩)
      rw [List.find?_cons_of_neg (by simpa using hne)]
      exact ih hn.2 ho

/-- **Controlled resources are safe.** In every reachable state a queue is within its declared
capacity and first-in first-out, the owner of a mutex is the actor whose lock is not yet undone,
and no receive or lock ever took effect on an empty queue or an owned mutex. -/
theorem resources_safe {lib : JsonLib} {x : Sys} (h : (lts lib).Reach x) {o : Owned}
    (ho : o ∈ x.state.resources) :
    o.queue.length ≤ o.declaration.capacity ∧
      sent o.declaration.id x.state.hist = received o.declaration.id x.state.hist ++ o.queue ∧
      o.owner = holder o.declaration.id x.state.hist ∧
      (∀ h₁ i v h₂, x.state.hist = h₁ ++ .receive i o.declaration.id v :: h₂ →
        ∃ rest, sent o.declaration.id h₁ = received o.declaration.id h₁ ++ v :: rest) ∧
      ∀ h₁ i h₂, x.state.hist = h₁ ++ .lock i o.declaration.id :: h₂ →
        holder o.declaration.id h₁ = none := by
  have hs := Safe.reach h
  have hr := resource?_of_mem hs.ids ho
  obtain ⟨hl, hst⟩ := hs.accounted
  have hq : (run .empty x.state.hist).queue o.declaration.id = o.queue := by
    rw [hst, store_queue hr]
  refine ⟨?_, ?_, ?_, fun h₁ i v h₂ e => ?_, fun h₁ i h₂ e => ?_⟩
  · have hb := hl.bounded o.declaration.id
    simpa [hq, capacity, hr] using hb
  · rw [hl.fifo, hq]
  · rw [← hl.owner_eq_holder, hst, store_owner hr]
  · rw [e] at hl; exact hl.receive_oldest
  · rw [e] at hl; exact hl.lock_free

/-! ## A run -/

/-- A digest. -/
def zeros : String := "0000000000000000000000000000000000000000000000000000000000000000"

/-- Two actors, a mutex and a queue with room for one value. -/
def sampleAdapter : Adapter where
  identity := ⟨zeros, zeros, zeros⟩
  actors := ["a", "b"]
  resources := [⟨"m", .mutex, 0⟩, ⟨"q", .queue, 1⟩]
  factory := .returns ⟨[("a", true), ("b", true)], true, true⟩

def sampleStart : Sys := construct sampleAdapter {} false false

/-- Start both threads, pass the barrier and take the first observation. -/
def opening : List Choice :=
  [.spawn true, .spawn true, .register 0, .request 0, .register 1, .request 1,
    .barrier false false, .observe false, .observed (some (.obj [])) false false false]

/-- Grant `actor`, whose worker `i` then makes these steps, and observe. -/
def turn (actor : String) (i : Nat) (steps : List Choice) : List Choice :=
  [.advance actor false, .wake i] ++ steps ++
    [.granted false false false, .observe false, .observed (some (.obj [])) false false false]

/-- A run of the sample; empty where a choice is not possible. -/
def sampleRun (choices : List Choice) : Option Sys :=
  (lts Compact.lib).exec (fun _ _ => true) choices sampleStart

theorem reach_sampleRun {choices : List Choice} {x : Sys} (h : sampleRun choices = some x) :
    (lts Compact.lib).Reach x :=
  .exec (fun _ _ _ => trivial) (.init ⟨sampleAdapter, {}, false, false, rfl⟩) h

/-- `a` locks the mutex and sends a value, `b` receives it. -/
def passing : List Choice :=
  opening ++ turn "a" 0 [.user 0 (.lock "m"), .request 0] ++
    turn "a" 0 [.user 0 (.send "q" 7), .request 0] ++
    turn "a" 0 [.user 0 (.unlock "m"), .request 0] ++
    turn "b" 1 [.user 1 (.receive "q"), .request 1] ++
    turn "b" 1 [.user 1 (.lock "m"), .request 1]

theorem passing_effects : (sampleRun passing).map (fun x => (x.state.hist, x.state.resources)) =
    some ([.lock 0 "m", .send 0 "q" 7, .receive 1 "q" 7],
      [⟨⟨"m", .mutex, 0⟩, some 0, []⟩, ⟨⟨"q", .queue, 1⟩, none, []⟩]) := by decide +kernel

theorem resources_safe_passing : ∃ x, sampleRun passing = some x ∧
    ∀ o ∈ x.state.resources, o.queue.length ≤ o.declaration.capacity := by
  obtain ⟨x, hx, -⟩ := Option.map_eq_some_iff.mp passing_effects
  exact ⟨x, hx, fun o ho => (resources_safe (reach_sampleRun hx) ho).1⟩

end Sys

end MirrorCpp.Sync
