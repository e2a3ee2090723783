import MirrorCpp.Sync.Book

/-!
# The evidence log and the resources

Replaying the results of the log (`replay`) must lead to the owners and queues of the state.
Every granted operation is logged where it takes effect; a guard dropped while an exception is
in flight is not. `Recorded` holds of every live run in which no such release frees a mutex.
-/

namespace MirrorCpp.Sync

open State
open Monitor (run)

/-- What a result row says was done. -/
def Event.effect? (e : Event) : Option (Monitor.Effect String String Int) :=
  if e.isGrant then none
  else match e.operation with
    | .lock => some (.lock e.actor e.resource)
    | .unlock => some (.unlock e.actor e.resource)
    | .send => some (.send e.actor e.resource e.value)
    | .receive => some (.receive e.actor e.resource e.value)
    | _ => none

/-- The resources a log leads to from empty ones. -/
def replay (es : List Event) : Monitor.Store String String Int :=
    run .empty (es.filterMap Event.effect?)

/-- What a granted operation of actor `i` does, given the value its call returns. -/
def Pending.effects (p : Pending) (i : Nat) (value : Int) : List Effect :=
  match p.op with
  | .lock => [.lock i p.resource]
  | .unlock => [.unlock i p.resource]
  | .send => [.send i p.resource p.value]
  | .receive => [.receive i p.resource value]
  | _ => []

namespace State

def name (s : State) (i : Nat) : String := (s.actor i).id

theorem name_eq (s : State) (i : Nat) : s.name i = s.actorIds.getD i "" := by
  simp only [name, State.actor, actorIds, List.getD_eq_getElem?_getD, List.getElem?_map]
  cases s.actors[i]? <;> rfl

/-- The log has every change of a resource. -/
structure Recorded (s : State) : Prop where
  granted : ∀ e ∈ s.hist, e.granted = true
  rows : s.hist.map (Monitor.Effect.rename s.name) = s.events.filterMap Event.effect?

variable {s t : State} {i : Nat}

theorem Recorded.congr (h : Recorded s) (hh : t.hist = s.hist)
    (he : t.events.filterMap Event.effect? = s.events.filterMap Event.effect?)
    (ha : t.actorIds = s.actorIds) : Recorded t := by
  have hn : t.name = s.name := funext fun i => by rw [name_eq, name_eq, ha]
  exact ⟨by rw [hh]; exact h.granted, by rw [hh, hn, h.rows, he]⟩

theorem hist_takeEffect (s : State) (i : Nat) (p : Pending) :
    (s.takeEffect i p).2.hist = s.hist ++ p.effects i (s.takeEffect i p).1 := by
  unfold takeEffect Pending.effects
  cases p.op <;> simp [modifyResource]

/-- A call returns its own value, but for a receive. -/
theorem value_takeEffect (s : State) (i : Nat) (p : Pending) (h : p.op ≠ .receive) :
    (s.takeEffect i p).1 = p.value := by
  unfold takeEffect
  split
  · rfl
  · rfl
  · rfl
  · rename_i hop; exact absurd hop h
  · rfl

/-- A granted operation and its result. -/
theorem Recorded.resultOf (h : Recorded s) (p : Pending) : Recorded (s.resultOf i p).2 := by
  have hids : (s.resultOf i p).2.actorIds = s.actorIds := by
    change ((Sys.woken s i).takeEffect i p).2.actors.map (·.id) = _
    rw [Sys.actors_takeEffect]
    exact actorIds_setActor s i _ rfl
  have hn : (s.resultOf i p).2.name = s.name := funext fun j => by rw [name_eq, name_eq, hids]
  have hh : (s.resultOf i p).2.hist = s.hist ++ p.effects i (s.resultOf i p).1 :=
    hist_takeEffect (Sys.woken s i) i p
  have he : (s.resultOf i p).2.events = s.events ++ [s.resultRow i p (s.resultOf i p).1] :=
    congrArg (· ++ _) (Sys.events_takeEffect s i p).1
  have hv : p.op ≠ .receive → (s.resultOf i p).1 = p.value :=
    value_takeEffect (Sys.woken s i) i p
  generalize (s.resultOf i p).1 = v at hh he hv
  constructor
  · intro e hmem
    rw [hh] at hmem
    rcases List.mem_append.mp hmem with hmem | hmem
    · exact h.granted e hmem
    · unfold Pending.effects at hmem
      split at hmem <;> simp at hmem <;> subst hmem <;> rfl
  · rw [hn, hh, he, List.map_append, List.filterMap_append, h.rows]
    congr 1
    unfold Pending.effects
    split <;> rename_i hop <;>
      simp_all [resultRow, Event.effect?, Event.isGrant, Monitor.Effect.rename, name]

end State

namespace Sys

variable {lib : JsonLib} {x y : Sys} {s t : State} {i j : Nat} {c : Choice}

/-- No release outside the handshake frees a mutex of a live run. -/
def KeepsOwner (x : Sys) : Choice → Prop
  | .release i => x.state.cancelled = false → ∀ r o, x.pc i = .releasing r →
      x.state.resource? r = some o → o.owner ≠ some i
  | .foreignRelease i r => x.state.cancelled = false → ∀ o, x.state.resource? r = some o →
      o.owner ≠ some i
  | _ => True

theorem unwindRelease_other {r : String} (h : ∀ o, s.resource? r = some o → o.owner ≠ some i) :
    s.unwindRelease i r = s := by
  unfold unwindRelease
  split
  · rfl
  · rename_i o ho
    rw [if_neg (h o ho)]

theorem recorded_init (h : Initial x) : Recorded x.state :=
  ⟨by simp [h.fresh.hist], by simp [h.fresh.hist, h.fresh.events]⟩

theorem recorded_live (hr : (lts lib).Reach x) (hcx : x.state.cancelled = false)
    (h : Recorded x.state) (hC : KeepsOwner x c) (hst : x.step lib c = some y)
    (hs : LiveStep lib x c y) : Recorded y.state := by
  have hids := (step_same hst).actorIds
  cases hs with
  | grant i actor late hch hctl hi he hd hrow =>
    exact h.congr rfl (by simp [grantTo, grantRow, Event.effect?, Event.isGrant, setActor]) hids
  | result i f p hi hpc hg hrow => exact h.resultOf p
  | unlogged i f p hi hpc hg hbad => exact absurd hbad (logged hr hcx hi hpc _)
  | release i r hi hpc hch =>
    rw [hch] at hC
    change Recorded (x.state.unwindRelease i r)
    rw [unwindRelease_other (hC hcx r · hpc)]
    exact h
  | foreignRelease i r hi hch =>
    rw [hch] at hC
    change Recorded (x.state.unwindRelease i r)
    rw [unwindRelease_other (hC hcx)]
    exact h
  | _ => exact h.congr rfl rfl hids

theorem recorded_reach (h : (lts lib).ReachBy KeepsOwner x)
    (hx : x.state.cancelled = true → x.state.report.outcome = .completed ∧
      x.state.report.finished = true) : Recorded x.state := by
  induction h with
  | init hi => exact recorded_init (initial_of_init hi)
  | @step x y c hr hC hs ih =>
    have hreach := hr.reach
    cases hc : y.state.cancelled with
    | false =>
      have hcx := step_cancelled hs hc
      exact recorded_live hreach hcx (ih (by simp [hcx])) hC hs (live_of_reach hreach hs hc)
    | true =>
      obtain ⟨ho, hf⟩ := hx hc
      have hdr := drain_of_reach hreach hs ho hc
      rw [hdr.report.2.1] at hf
      rw [hdr.report.1] at ho
      have hk := hdr.kept (allFinished_of_finished hreach ho hf)
      exact (ih fun _ => ⟨ho, hf⟩).congr hk.hist (by rw [hk.events])
        (by simp [actorIds, hk.actors])

/-- **The log is faithful to the resources.** While nothing failed and the client holds control,
replaying the results gives every owner and every queue, and each was granted. -/
theorem replay_faithful (h : (lts lib).ReachBy KeepsOwner x) (hctl : x.ctl = .idle)
    (hout : x.state.report.outcome = .completed) :
    FullLog x.state ∧ ∀ o ∈ x.state.resources,
      (replay x.state.events).owner o.declaration.id = o.owner.map x.state.name ∧
        (replay x.state.events).queue o.declaration.id = o.queue := by
  have hb := book_reach h.reach
  have hdead : x.state.cancelled = true → x.state.report.finished = true := fun hc =>
    ((hb.2 hc hout).idle hctl).1
  have hfull : FullLog x.state := by
    cases hc : x.state.cancelled with
    | false => exact (hb.1 hc).full (Book.no_grant (Handshake.reach h.reach) hc (by simp [hctl]))
    | true => exact ((hb.2 hc hout).closed (hdead hc)).full
  have hrec := recorded_reach h fun hc => ⟨hout, hdead hc⟩
  have hsafe := Safe.reach h.reach
  have hrun : replay x.state.events = x.state.store.rename x.state.name := by
    rw [replay, ← hrec.rows, ← Monitor.Store.rename_empty x.state.name,
      Monitor.run_rename hrec.granted, hsafe.accounted.2]
  refine ⟨hfull, fun o ho => ?_⟩
  have hres := resource?_of_mem hsafe.ids ho
  rw [hrun]
  exact ⟨congrArg (Option.map _) (store_owner hres), store_queue hres⟩

/-! ## Two runs -/

/-- `a` locks the mutex by a guard, throws out of its scope and catches the exception. -/
def unwinding : List Choice :=
  opening ++ turn "a" 0 [.user 0 (.lock "m"), .request 0] ++
    turn "a" 0 [.user 0 (.dropGuard "m" true), .stop 0, .release 0, .user 0 (.checkpoint "caught"),
      .request 0]

theorem unwinding_drops : (sampleRun unwinding).map (fun x =>
      (x.ctl, x.state.report.outcome, x.state.resources, (replay x.state.events).owner "m")) =
    some (.idle, .completed, [⟨⟨"m", .mutex, 0⟩, none, []⟩, ⟨⟨"q", .queue, 1⟩, none, []⟩],
      some "a") := by decide +kernel

/-- The mutex is free, but the log still has it locked. -/
theorem replay_faithful_unwinding : ¬∀ x, (lts Compact.lib).Reach x → x.ctl = .idle →
    x.state.report.outcome = .completed → ∀ o ∈ x.state.resources,
      (replay x.state.events).owner o.declaration.id = o.owner.map x.state.name := by
  intro h
  obtain ⟨x, hx, e⟩ := Option.map_eq_some_iff.mp unwinding_drops
  simp only [Prod.mk.injEq] at e
  obtain ⟨hctl, hout, hres, hrep⟩ := e
  have hm : ⟨⟨"m", .mutex, 0⟩, none, []⟩ ∈ x.state.resources := by
    rw [hres]; exact List.mem_cons_self
  have := h x (reach_sampleRun hx) hctl hout _ hm
  rw [show (replay x.state.events).owner "m" = some "a" from hrep] at this
  cases this

/-- No guard is dropped while an exception is in flight. -/
def guarded (_ : Sys) : Choice → Bool
  | .release _ | .foreignRelease _ _ => false
  | _ => true

theorem keepsOwner_of_guarded (x : Sys) (c : Choice) (h : guarded x c = true) : KeepsOwner x c := by
  cases c <;> trivial

theorem passing_replay : ((lts Compact.lib).exec guarded passing sampleStart).map
      (fun x => (x.ctl, x.state.report.outcome, x.state.resources)) =
    some (.idle, .completed, [⟨⟨"m", .mutex, 0⟩, some 0, []⟩, ⟨⟨"q", .queue, 1⟩, none, []⟩]) := by
  decide +kernel

theorem replay_faithful_passing : ∃ x : Sys, x.ctl = .idle ∧
    ⟨⟨"m", .mutex, 0⟩, some 0, []⟩ ∈ x.state.resources ∧
      (replay x.state.events).owner "m" = some (x.state.name 0) := by
  obtain ⟨x, hx, e⟩ := Option.map_eq_some_iff.mp passing_replay
  simp only [Prod.mk.injEq] at e
  obtain ⟨hctl, hout, hres⟩ := e
  have hr : (lts Compact.lib).ReachBy KeepsOwner x :=
    .exec keepsOwner_of_guarded (.init ⟨sampleAdapter, {}, false, false, rfl⟩) hx
  have hm : ⟨⟨"m", .mutex, 0⟩, some 0, []⟩ ∈ x.state.resources := by
    rw [hres]; exact List.mem_cons_self
  exact ⟨x, hctl, hm, ((replay_faithful hr hctl hout).2 _ hm).1⟩

end Sys

end MirrorCpp.Sync
