import MirrorCpp.Sync.Live
import MirrorCpp.Sync.Resources

/-!
# Declarations stay, and rows serialise

Names are checked when they are declared (`Static`), and an operation on no resource carries a
checked name too. So every row a live run logs is valid UTF-8: `event` never throws
(`Texts`), and of an observation only its own state can fail to serialise.
-/

namespace MirrorCpp.Sync

open State

namespace State

def actorIds (s : State) : List String := s.actors.map (·.id)

theorem actorIds_quiet {s t : State} (h : Quiet s t) : t.actorIds = s.actorIds := by
  simp [actorIds, h.actors]

theorem id_actor_mem {s : State} {i : Nat} (hi : i < s.actors.length) :
    (s.actor i).id ∈ s.actorIds := List.mem_map.mpr ⟨s.actor i, actor_mem hi, rfl⟩

theorem actorIds_setActor (s : State) (i : Nat) (a : Actor) (ha : a.id = (s.actor i).id) :
    (s.setActor i a).actorIds = s.actorIds := by
  simp only [actorIds, setActor, List.map_set]
  by_cases hi : i < s.actors.length
  · have hi' : i < (s.actors.map (·.id)).length := by simpa using hi
    have hget : a.id = (s.actors.map (·.id))[i] := by
      simp [ha, State.actor, List.getD_eq_getElem?_getD, List.getElem?_eq_getElem hi]
    rw [hget, List.set_getElem_self]
  · exact List.set_eq_of_length_le (by simpa using hi)

end State

namespace Sys

variable {lib : JsonLib} {x y : Sys} {i : Nat}

/-- No step changes what was declared. -/
structure Same (x y : Sys) : Prop where
  actorIds : y.state.actorIds = x.state.actorIds
  declarations : y.state.declarations = x.state.declarations

theorem same_quiet {t : State} (h : Quiet x.state t) (hy : y.state = t) : Same x y := by
  subst hy
  exact ⟨actorIds_quiet h, declarations_quiet h⟩

theorem same_setActor {a : Actor} (hy : y.state = x.state.setActor i a)
    (ha : a.id = (x.state.actor i).id) : Same x y :=
  ⟨by rw [hy, actorIds_setActor _ i a ha], by rw [hy]; rfl⟩

theorem step_same {c : Choice} (h : x.step lib c = some y) : Same x y := by
  cases step_moves h with
  | control hr _ _ => exact same_quiet hr.quiet rfl
  | spawn => exact same_quiet (.refl _) rfl
  | @grant t i hctl hi he hq hc =>
    have ha : { t.actor i with grant := true }.id = (t.actor i).id := rfl
    exact ⟨(actorIds_setActor t i _ ha).trans (actorIds_quiet hq),
      (declarations_quiet hq : t.declarations = _)⟩
  | register i hi hpc => exact same_setActor rfl rfl
  | request i f p hi hpc =>
    rcases requestEnter_cases x.state (.worker i) i p with ⟨e, -, -, -⟩ | ⟨t, e, hq, -⟩
    · rw [e]; exact same_setActor rfl rfl
    · rw [e]; exact same_quiet hq rfl
  | wake i f p hi hpc hw =>
    rcases requestWake_cases lib x.state i p with ⟨-, e⟩ | ⟨-, v, t, e, hq⟩
    · rw [e]; exact same_quiet (.refl _) rfl
    · rw [e]
      refine ⟨?_, ?_⟩
      · change t.actorIds = _
        rw [actorIds_quiet hq, actorIds, actors_takeEffect]
        exact actorIds_setActor x.state i _ rfl
      · change t.declarations = _
        rw [declarations_quiet hq, declarations_takeEffect]; rfl
  | user => exact same_quiet (.refl _) rfl
  | asked => exact same_quiet (.refl _) rfl
  | dropped => exact same_quiet (.refl _) rfl
  | release i r hi hpc => exact ⟨by simp [actorIds], by simp⟩
  | caught i hi hpc => exact same_quiet (quiet_workerThrew _) rfl
  | close i hi hpc =>
    refine ⟨?_, by simp⟩
    refine (actorIds_setActor (x.state.releaseAll i) i _ ?_).trans (by simp [actorIds])
    rfl
  | foreignRequest i k p hi =>
    rcases requestEnter_cases x.state (.other k) i p with ⟨e, -, -, -⟩ | ⟨t, e, hq, -⟩
    · rw [e]; exact same_setActor rfl rfl
    · rw [e]; exact same_quiet hq rfl
  | foreignRelease i r hi => exact ⟨by simp [actorIds], by simp⟩

/-- What the constructor checked. -/
structure Static (x : Sys) : Prop where
  actors : ∀ id ∈ x.state.actorIds, identifier id = true
  actorsNodup : x.state.actorIds.Nodup
  resources : ∀ d ∈ x.state.declarations, d.valid = true

theorem Static.init (h : Initial x) : Static x where
  actors id hid := by
    obtain ⟨a, ha, rfl⟩ := List.mem_map.mp hid
    exact (h.fresh.actors a ha).2
  actorsNodup := h.fresh.actorIds
  resources d hd := by
    obtain ⟨o, ho, rfl⟩ := List.mem_map.mp hd
    exact (h.fresh.resources o ho).2.2

theorem Static.step {c : Choice} (h : Static x) (hs : x.step lib c = some y) : Static y := by
  have hsame := step_same hs
  exact ⟨by rw [hsame.actorIds]; exact h.actors, by rw [hsame.actorIds]; exact h.actorsNodup,
    by rw [hsame.declarations]; exact h.resources⟩

theorem Static.reach (h : (lts lib).Reach x) : Static x :=
  h.inv (fun _ hi => init (initial_of_init hi)) fun _ _ _ h _ hs => h.step hs

theorem identifier_ascii {id : String} (h : identifier id = true) : Text.ascii id = true :=
  boundedName_ascii rfl h

theorem Static.ascii_resource (h : Static x) {r : String} {o : Owned}
    (ho : x.state.resource? r = some o) : Text.ascii r = true := by
  have hd := h.resources o.declaration (List.mem_map.mpr ⟨o, mem_of_resource? ho, rfl⟩)
  simp only [Resource.valid, Bool.and_eq_true] at hd
  rw [← id_of_resource? ho]
  exact identifier_ascii hd.1

/-! ## Live runs -/

/-- A live run is not in `cleanup` or the destructor. -/
theorem ending_reach (h : (lts lib).Reach x) : x.state.cancelled = false → x.ctl.ending =
    false := by
  refine h.inv_of (P := fun x => x.state.cancelled = false → x.ctl.ending = false)
    (fun _ hr => Handshake.reach hr) ?_ ?_
  · intro s hi _
    rcases (initial_of_init hi).start with ⟨-, -, -, hctl⟩ | ⟨-, -, -, -, -, hctl⟩ <;>
      simp [hctl, Ctl.ending]
  · intro _ c t H ih _ hs hc
    have hcs := step_cancelled hs hc
    cases live_step H (ih hcs) hs hc with
    | stay => exact ih hcs
    | spawn ctl hctl hctl' => cases ctl <;> first | rfl | cases hctl'
    | unserialised k => cases k <;> rfl
    | register | park | result | unlogged | user | asked | dropped | release | close
    | foreignRelease => exact ih hcs
    | _ => rfl

theorem live_of_reach {c : Choice} (hr : (lts lib).Reach x) (hs : x.step lib c = some y)
    (hc : y.state.cancelled = false) : LiveStep lib x c y :=
  live_step (Handshake.reach hr) (ending_reach hr (step_cancelled hs hc)) hs hc

structure Texts (x : Sys) : Prop where
  events : ∀ e ∈ x.state.events, e.toJson.utf8 = true
  observations : ∀ o ∈ x.state.observations, o.toJson.utf8 = true
  calling : ∀ i f p, x.pc i = .calling f p → p.op.onResource = false → Text.ascii p.resource = true
  waiting : ∀ i f p, x.pc i = .waiting f p → Text.ascii p.resource = true

theorem opName_ascii (op : Op) : Text.ascii op.name = true := by
  cases op <;> simp [Op.name, Text.ascii, Text.asciiChar]

theorem resultRow_utf8 (h : Static x) (hi : i < x.state.actors.length) {p : Pending}
    (hp : Text.ascii p.resource = true) (v : Int) : (x.state.resultRow i p v).toJson.utf8 =
      true := by
  have hid := Text.utf8_of_ascii (identifier_ascii (h.actors _ (id_actor_mem hi)))
  have hop := Text.utf8_of_ascii (opName_ascii p.op)
  have hr := Text.utf8_of_ascii hp
  have hkeys : Text.utf8 "actor" ∧ Text.utf8 "kind" ∧ Text.utf8 "result" ∧ Text.utf8 "operation" ∧
      Text.utf8 "ordinal" ∧ Text.utf8 "resource" ∧ Text.utf8 "value" := by decide
  simp [resultRow, Event.toJson, Json.utf8Members, hid, hop, hr, hkeys]

theorem observation_utf8 (n : Nat) (v : Json) : (Observation.toJson ⟨n, v⟩).utf8 = v.utf8 := by
  have hkeys : Text.utf8 "afterDecisions" ∧ Text.utf8 "state" := by decide
  simp [Observation.toJson, Json.utf8Members, hkeys]

/-- `evidence_fits` throws on no row that serialises. -/
theorem Texts.fits (h : Texts x) {first : Bool} {row : Json} (hrow : row.utf8 = true) :
    x.state.evidenceFits lib first row ≠ none := by
  have he : (Json.arr (x.state.events.map Event.toJson)).utf8 = true := by
    simpa [Json.utf8Elems_iff] using h.events
  have ho : (Json.arr (x.state.observations.map Observation.toJson)).utf8 = true := by
    simpa [Json.utf8Elems_iff] using h.observations
  simp [evidenceFits, lib.dumpSize_eq_some he, lib.dumpSize_eq_some ho, lib.dumpSize_eq_some hrow]

theorem Texts.init (h : Initial x) : Texts x := by
  have hpc : ∀ i, x.pc i = .unborn := by
    intro i
    rcases h.start with ⟨-, -, hp, -⟩ | ⟨-, -, -, -, hp, -⟩
    · simp [pc, hp]
    · by_cases hi : i < x.state.actors.length <;>
        simp [pc, hp, List.getD_eq_getElem?_getD, hi]
  refine ⟨by simp [h.fresh.events], by simp [h.fresh.observations], ?_, ?_⟩ <;>
    intro i f p hp <;> rw [hpc i] at hp <;> cases hp

/-- Where a worker's place changes, it comes to no operation of an unchecked name. -/
theorem Texts.move {t : State} {p' : Pc} (h : Texts x)
    (he : ∀ e ∈ t.events, e ∈ x.state.events ∨ e.toJson.utf8 = true)
    (ho : t.observations = x.state.observations)
    (hcall : ∀ f p, p' = .calling f p → p.op.onResource = false → Text.ascii p.resource = true)
    (hwait : ∀ f p, p' = .waiting f p → Text.ascii p.resource = true) :
    Texts ({ x with state := t }.setPc i p') := by
  refine ⟨fun e hm => (he e hm).elim (h.events e) id, by simpa [ho] using h.observations, ?_, ?_⟩
  · intro j f p hj
    rw [pc_setPc] at hj
    split at hj
    · exact hcall f p hj
    · exact h.calling j f p hj
  · intro j f p hj
    rw [pc_setPc] at hj
    split at hj
    · exact hwait f p hj
    · exact h.waiting j f p hj

/-- Where no worker's place changes. -/
theorem Texts.keep (h : Texts x) (hp : y.pcs = x.pcs)
    (he : ∀ e ∈ y.state.events, e ∈ x.state.events ∨ e.toJson.utf8 = true)
    (ho : ∀ o ∈ y.state.observations, o ∈ x.state.observations ∨ o.toJson.utf8 = true) :
    Texts y := by
  have hpc : ∀ i, y.pc i = x.pc i := fun i => by simp [pc, hp]
  exact ⟨fun e hm => (he e hm).elim (h.events e) id, fun o hm => (ho o hm).elim (h.observations o)
    id,
    fun i f p => by rw [hpc]; exact h.calling i f p,
    fun i f p => by rw [hpc]; exact h.waiting i f p⟩

theorem callPc_named (c : Call) (f : Frame) (p : Pending) (h : c.pc = .calling f p)
    (hop : p.op.onResource = false) : Text.ascii p.resource = true := by
  cases c with
  | checkpoint name =>
    simp only [Call.pc] at h
    split at h
    · rename_i hid; cases h; exact identifier_ascii hid
    · cases h
  | return_ => cases h; decide
  | _ => cases h <;> cases hop

theorem events_takeEffect (s : State) (i : Nat) (p : Pending) :
    ((woken s i).takeEffect i p).2.events = s.events ∧
      ((woken s i).takeEffect i p).2.observations = s.observations := by
  unfold State.takeEffect; split <;> exact ⟨rfl, rfl⟩

theorem logs_unwindRelease (s : State) (i : Nat) (r : String) :
    (s.unwindRelease i r).events = s.events ∧
      (s.unwindRelease i r).observations = s.observations := by
  unfold State.unwindRelease
  split
  · exact ⟨rfl, rfl⟩
  · split <;> exact ⟨rfl, rfl⟩

theorem Texts.step {c : Choice} (S : Static x) (h : Texts x) (hs : LiveStep lib x c y) :
    Texts y := by
  cases hs with
  | stay => exact h
  | spawn ctl hctl hctl' =>
    have hm : Texts ({ x with state := x.state }.setPc x.impl.workers.length .born) :=
      h.move (fun _ he => .inl he) rfl (by simp) (by simp)
    obtain ⟨he, ho, hc, hw⟩ := hm
    exact ⟨he, ho, hc, hw⟩
  | barrier | enter | unserialised | leave | toJoin | joined =>
    exact h.keep rfl (fun _ he => .inl he) fun _ ho => .inl ho
  | retain k v hctl hobj hinert hv =>
    refine h.keep rfl (fun _ he => .inl he) fun o ho => ?_
    rcases List.mem_append.mp ho with ho | ho
    · exact .inl ho
    · obtain rfl := List.mem_singleton.mp ho
      exact .inr ((observation_utf8 _ v).trans hv)
  | grant i actor late hch hctl hi he hd hrow =>
    refine h.keep rfl (fun e hm => ?_) fun _ ho => .inl ho
    rcases List.mem_append.mp hm with hm | hm
    · exact .inl hm
    · obtain rfl := List.mem_singleton.mp hm
      exact .inr hrow
  | register i hi hpc =>
    exact h.move (i := i) (fun _ he => .inl he) rfl (by rintro f p ⟨⟩ _; decide) (by simp)
  | park i f p hi hpc hres =>
    refine h.move (i := i) (fun _ he => .inl he) rfl (by simp) ?_
    rintro g q ⟨⟩
    cases hop : p.op.onResource with
    | true =>
      obtain ⟨o, ho, -⟩ := hres hop
      exact S.ascii_resource ho
    | false => exact h.calling i f p hpc hop
  | result i f p hi hpc hg hrow =>
    refine h.move (i := i) (fun e hm => ?_) (events_takeEffect x.state i p).2 ?_ ?_
    · simp only [resultOf, (events_takeEffect x.state i p).1] at hm
      rcases List.mem_append.mp hm with hm | hm
      · exact .inl hm
      · obtain rfl := List.mem_singleton.mp hm
        exact .inr hrow
    · intro g q e; cases f <;> cases e
    · intro g q e; cases f <;> cases e
  | unlogged i f p hi hpc hg hbad =>
    refine h.move (i := i) (fun e hm => ?_) (events_takeEffect x.state i p).2 ?_ ?_
    · rw [(events_takeEffect x.state i p).1] at hm; exact .inl hm
    · intro g q e; cases f <;> cases e
    · intro g q e; cases f <;> cases e
  | user i r call hi hpc =>
    refine h.move (t := x.state) (i := i) (fun _ he => .inl he) rfl (callPc_named call)
      fun f p e => ?_
    exact absurd e ((Handshake.callPc_ne call).1 f p)
  | asked i hi hpc =>
    exact h.move (t := x.state) (i := i) (fun _ he => .inl he) rfl (by simp) (by simp)
  | dropped i r u hi hpc =>
    refine h.move (t := x.state) (i := i) (fun _ he => .inl he) rfl ?_ ?_
    · intro f p e hop
      cases u
      · cases e; cases hop
      · cases e
    · intro f p e; cases u <;> cases e
  | release i r hi hpc hch =>
    obtain ⟨he, ho⟩ := logs_unwindRelease x.state i r
    exact h.move (i := i) (fun _ hm => .inl (he ▸ hm)) ho (by simp) (by simp)
  | close i hi hpc hfree => exact h.move (i := i) (fun _ he => .inl he) rfl (by simp) (by simp)
  | foreignRelease i r hi hch =>
    obtain ⟨he, ho⟩ := logs_unwindRelease x.state i r
    exact h.keep rfl (fun _ hm => .inl (he ▸ hm)) fun _ hm => .inl (ho ▸ hm)

theorem Texts.reach (h : (lts lib).Reach x) : x.state.cancelled = false → Texts x := by
  induction h with
  | init hi => exact fun _ => init (initial_of_init hi)
  | step hr _ hs ih =>
    intro hc
    exact (ih (step_cancelled hs hc)).step (Static.reach hr) (live_of_reach hr hs hc)

/-- So a result is always logged. -/
theorem logged (hr : (lts lib).Reach x) (hc : x.state.cancelled = false) (hi : i < x.pcs.length)
    {f : Frame} {p : Pending} (hpc : x.pc i = .waiting f p) (v : Int) :
    x.state.evidenceFits lib x.state.events.isEmpty (x.state.resultRow i p v).toJson ≠ none := by
  have ht := Texts.reach hr hc
  have hil := lt_of_lt_of_le hi (Handshake.reach hr).pcs_le
  exact ht.fits (resultRow_utf8 (Static.reach hr) hil (ht.waiting i f p hpc) v)

/-- And an observation that cannot be logged is itself no valid UTF-8. -/
theorem unserialised_state (hr : (lts lib).Reach x) (hc : x.state.cancelled = false) {v : Json}
    (hbad : x.state.evidenceFits lib x.state.observations.isEmpty
      (Observation.toJson ⟨x.state.report.decisions, v⟩) = none) : v.utf8 = false := by
  by_contra hv
  exact (Texts.reach hr hc).fits ((observation_utf8 _ v).trans (by simpa using hv)) hbad

end Sys

end MirrorCpp.Sync
