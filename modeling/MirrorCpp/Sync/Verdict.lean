import MirrorCpp.Sync.Sticky
import MirrorCpp.Sync.Drive
import MirrorCpp.Sync.Evidence

/-!
# Enabled choices and deadlocks

What `enabled` promises of `advance` and of the worker that is granted: nothing moves between
the grant and the wake-up (`held_step`), so the operation finds the resource as the controller
saw it, unless an unwinding guard frees the mutex (`KeepsOwner`). A deadlock is reported by
`enabled` alone, and the graph it records stays.
-/

namespace MirrorCpp.Sync

open State

namespace State

/-- The operation `p` of actor `i` violates no resource. -/
def Legal (s : State) (i : Nat) (p : Pending) : Prop :=
  p.op.onResource = true → ∃ o, s.resource? p.resource = some o ∧
    match p.op with
    | .lock => o.owner = none
    | .unlock => o.owner = some i
    | .send => o.queue.length < o.declaration.capacity
    | .receive => o.queue ≠ []
    | _ => False

/-- A call of the client at this point is answered: the run goes on, and is in time. -/
structure Open (s : State) (late : Bool) : Prop where
  live : s.cancelled = false
  inTime : late = false ∨ s.executionEnded = true

variable {s t : State} {i j : Nat} {late : Bool}

theorem legal_of_enabled (h : s.enabled i = true) : Legal s i (s.actor i).pending := by
  intro hop
  simp only [enabled] at h
  split at h
  · cases h
  split at h
  · rename_i hn; exact absurd hop (by simpa using hn)
  split at h
  · cases h
  · rename_i o ho
    refine ⟨o, ho, ?_⟩
    cases hp : (s.actor i).pending.op <;> simp_all

theorem Legal.congr {p : Pending} (h : Legal s i p) (hr : t.resources = s.resources) :
    Legal t i p := fun hop => by
  obtain ⟨o, ho, hp⟩ := h hop
  exact ⟨o, by simpa [resource?, hr] using ho, hp⟩

theorem Open.prompt (h : s.Open late) (w : String) : s.executionExpired late w = (false, s) := by
  rcases h.inTime with e | e <;> simp [executionExpired, e]

end State

namespace Sys

variable {lib : JsonLib} {x y z : Sys} {i j : Nat} {c : Choice} {actor : String} {late : Bool}

/-! ## Between a grant and its effect -/

/-- Until it wakes, the granted actor's operation and all resources are as at the grant. -/
structure Held (x : Sys) (i : Nat) (z : Sys) : Prop where
  pending : (z.state.actor i).pending = (x.state.actor i).pending
  resources : z.state.resources = x.state.resources

theorem held_step (hr : (lts lib).Reach y) (hs : y.step lib c = some z) (hctl : y.ctl ≠ .idle)
    (hk : KeepsOwner y c) (hc : z.state.cancelled = false)
    (h : (y.state.actor i).grant = true → Held x i y) (hg : (z.state.actor i).grant = true) :
    Held x i z := by
  have H := Handshake.reach hr
  have hcy := step_cancelled hs hc
  -- a worker that runs is the granted one, which waits
  have asleep : ∀ {k}, k < y.pcs.length → (∀ f p, y.pc k ≠ .waiting f p) → y.pc k ≠ .closed →
      (y.state.actor i).grant = true → False := fun hk hw hcl hgi => by
    obtain ⟨hgc, hwait⟩ := H.grant hcy i hgi
    obtain ⟨v, hv⟩ := H.granted_of_running hcy (by rw [hgc]; rfl) hk (Handshake.pc_ne_waiting hw)
      hcl
    rw [hgc] at hv
    obtain rfl := (Ctl.granted.inj hv).1
    exact Handshake.pc_ne_waiting hw hwait
  -- so are two granted ones
  have alone : ∀ {k}, (y.state.actor k).grant = true → (y.state.actor i).grant = true → i = k :=
    fun hk hgi => (Ctl.granted.inj ((H.grant hcy i hgi).1.symm.trans (H.grant hcy _ hk).1)).1
  have keep : ∀ {w : Sys}, (w.state.actor i).grant = true →
      ((w.state.actor i).grant = true →
        (y.state.actor i).grant = true ∧
          (w.state.actor i).pending = (y.state.actor i).pending) →
      w.state.resources = y.state.resources → Held x i w := fun hgw hback hres => by
    obtain ⟨hgy, hp⟩ := hback hgw
    exact ⟨hp.trans (h hgy).pending, hres.trans (h hgy).resources⟩
  -- an effect takes the grant
  have taken : ∀ {k : Nat} {t : State}, k < y.pcs.length → (y.state.actor k).grant = true →
      (t.actor k).grant = false → Own k y.state t → (t.actor i).grant = true → False :=
    fun {k t} hk hgk hoff hown hgt => by
      by_cases hik : i = k
      · rw [hik, hoff] at hgt; cases hgt
      · rw [hown.others i hik] at hgt
        exact hik (alone hgk hgt)
  cases live_of_reach hr hs hc with
  | stay => exact h hg
  | spawn | barrier | enter | retain | unserialised | leave | toJoin | joined | user | asked
  | dropped => exact ⟨(h hg).pending, (h hg).resources⟩
  | grant k actor late hch hidle => exact absurd hidle hctl
  | register k hk hpc =>
    exact keep hg (Safe.grant_of_setActor (s := y.state) (i := k)
      (a := { y.state.actor k with thread := some (.worker k) }) (fun hk => ⟨hk, rfl⟩) i) rfl
  | park k f p hk hpc hres =>
    -- parking clears the grant
    let a := y.state.actor k
    exact keep hg (Safe.grant_of_setActor (s := y.state) (i := k)
      (a := { a with pending := p, parked := true, grant := false, version := a.version + 1 })
      (fun hk => by cases hk) i) rfl
  | result k f p hk hpc hgk hrow =>
    have hkl := lt_of_lt_of_le hk H.pcs_le
    refine (taken (t := (y.state.resultOf k p).2) hk hgk ?_ ?_ hg).elim
    · rw [actor_resultOf hkl, if_pos rfl]
    · exact ((own_setActor y.state k _).trans (own_takeEffect _ k p)).trans
        ⟨rfl, fun _ _ => rfl, id⟩
  | unlogged k f p hk hpc hgk hbad =>
    have hkl := lt_of_lt_of_le hk H.pcs_le
    refine (taken (t := ((woken y.state k).takeEffect k p).2) hk hgk ?_ ?_ hg).elim
    · simp [State.actor, woken, setActor, hkl]
    · exact (own_setActor y.state k _).trans (own_takeEffect _ k p)
  | release k r hk hpc hch =>
    have hact : (y.state.unwindRelease k r).actor i = y.state.actor i := by simp [State.actor]
    refine (asleep hk (by simp [hpc]) (by simp [hpc]) ?_).elim
    rw [← hact]; exact hg
  | close k hk hpc hfree =>
    let a := y.state.actor k
    have hgy := (Safe.grant_of_setActor (s := y.state) (i := k)
      (a := { a with finished := true, parked := false, version := a.version + 1 })
      (fun hk => ⟨hk, rfl⟩) i hg).1
    exact (asleep hk (by simp [hpc]) (by simp [hpc]) hgy).elim
  | foreignRelease k r hk hch =>
    subst hch
    have e : y.state.unwindRelease k r = y.state := unwindRelease_other (hk hcy)
    have hgy : (y.state.actor i).grant = true := by rw [← e]; exact hg
    refine ⟨?_, ?_⟩
    · change ((y.state.unwindRelease k r).actor i).pending = _
      rw [e]; exact (h hgy).pending
    · change (y.state.unwindRelease k r).resources = _
      rw [e]; exact (h hgy).resources

/-- The operation a granted worker waits in takes effect. -/
structure TakesEffect (lib : JsonLib) (z : Sys) (i : Nat) (p : Pending) : Prop where
  legal : Legal z.state i p
  effect : ∃ w, z.step lib (.wake i) = some w ∧
    w.state.resources = (z.state.takeEffect i p).2.resources ∧
    w.state.hist = (z.state.takeEffect i p).2.hist

theorem takeEffect_woken (s : State) (i : Nat) (p : Pending) :
    ((woken s i).takeEffect i p).2.resources = (s.takeEffect i p).2.resources ∧
      ((woken s i).takeEffect i p).2.hist = (s.takeEffect i p).2.hist := by
  unfold takeEffect
  cases p.op <;> exact ⟨rfl, rfl⟩

theorem wakes (hr : (lts lib).Reach z) (hc : z.state.cancelled = false)
    (hg : (z.state.actor i).grant = true) (hl : Legal z.state i (z.state.actor i).pending) :
    TakesEffect lib z i (z.state.actor i).pending := by
  have H := Handshake.reach hr
  obtain ⟨-, f, p, hpc⟩ := H.grant hc i hg
  have hp := H.pending i f p hpc
  have hi : i < z.pcs.length := by
    by_contra hge
    rw [Handshake.pc_of_ge (by omega)] at hpc; cases hpc
  rcases requestWake_cases lib z.state i p with ⟨hcx, -⟩ | ⟨-, v, t, e, hq⟩
  · rw [hc] at hcx; cases hcx
  · obtain ⟨hres, hhist⟩ := takeEffect_woken z.state i p
    refine ⟨hl, _, by simp [step, workerStep, hi, hpc, canWake, hg, e]; rfl, ?_, ?_⟩
    · rw [hp]; exact hq.resources.trans hres
    · rw [hp]; exact hq.hist.trans hhist

/-- The grant itself. -/
theorem granted_held {v : Nat} (hctl : x.ctl = .idle)
    (h : (x.advance lib actor late).ctl = .granted i v) :
    x.state.enabled i = true ∧ Held x i (x.advance lib actor late) ∧
      (x.advance lib actor late).state.cancelled = false ∧
      ((x.advance lib actor late).state.actor i).grant = true := by
  have hidle : ∀ j w, x.ctl ≠ .granted j w := by simp [hctl]
  simp only [advance] at h ⊢
  rcases executionExpired_cases x.state late "execution deadline before decision" with
    e | ⟨t, e, -, -⟩
  · simp only [e, Bool.false_or] at h ⊢
    split at h
    · exact absurd h (hidle _ _)
    rename_i hc
    split at h
    · exact absurd h (hidle _ _)
    rename_i hfind
    split at h
    · exact absurd h (hidle _ _)
    rename_i hd
    split at h
    · exact absurd h (hidle _ _)
    · exact absurd h (hidle _ _)
    rename_i s hev
    have hq := quiet_event hev
    obtain ⟨rfl, -⟩ := Ctl.granted.inj h
    simp only [Bool.or_eq_true, decide_eq_true_eq, Bool.not_eq_true', not_or,
      Bool.not_eq_false] at hfind
    have hle : find x.state actor ≤ x.state.actors.length := List.findIdx_le_length
    have hlt : find x.state actor < s.actors.length := by
      rw [hq.actors]
      exact lt_of_le_of_ne hle hfind.1
    have hcs : s.cancelled = false := by
      rcases event_cases hev with ⟨hb, -⟩ | ⟨-, rfl⟩
      · cases hb
      · simpa using hc
    have hp : (s.actor (find x.state actor)).pending =
        (x.state.actor (find x.state actor)).pending := by rw [hq.actor]
    simp only [hc, hfind, hd, decide_false, Bool.not_true, Bool.or_self, Bool.false_eq_true,
      if_false]
    refine ⟨trivial, ⟨?_, hq.resources⟩, hcs, ?_⟩
    · change ((State.setActor _ _ _).actor _).pending = _
      rw [actor_setActor]
      split <;> exact hp
    · rw [actor_setActor, if_pos ⟨rfl, hlt⟩]
  · simp only [e, Bool.true_or, if_true] at h
    exact absurd h (hidle _ _)

/-! ## What is listed -/

theorem find_eq {s : State} (hn : s.actorIds.Nodup) (hi : i < s.actors.length) :
    find s (s.actor i).id = i := by
  have hact : s.actor i = s.actors[i] := by
    simp [State.actor, List.getD_eq_getElem?_getD, List.getElem?_eq_getElem hi]
  refine (List.findIdx_eq hi).mpr ⟨by simp [hact], fun j hji => ?_⟩
  have hj : j < s.actors.length := by omega
  refine beq_eq_false_iff_ne.mpr fun e => ?_
  have hj' : j < s.actorIds.length := by simpa [actorIds] using hj
  have hi' : i < s.actorIds.length := by simpa [actorIds] using hi
  have hget : s.actorIds[j] = s.actorIds[i] := by simpa [actorIds, hact] using e
  have hinj := hn.getElem_inj_iff.mp hget
  omega

/-- An actor is enabled where `advance` finds it so. -/
theorem mem_enabledIds_iff {s : State} (hn : s.actorIds.Nodup) :
    actor ∈ s.enabledIds ↔ find s actor < s.actors.length ∧ s.enabled (find s actor) = true := by
  refine ⟨fun h => ?_, fun ⟨hlt, he⟩ => ?_⟩
  · obtain ⟨i, hmem, rfl⟩ := List.mem_map.mp h
    obtain ⟨hi, he⟩ := List.mem_filter.mp hmem
    have hi := List.mem_range.mp hi
    rw [find_eq hn hi]
    exact ⟨hi, he⟩
  · have hid : (s.actor (find s actor)).id = actor := by
      rw [State.actor, List.getD_eq_getElem?_getD, List.getElem?_eq_getElem hlt]
      exact beq_iff_eq.mp (List.findIdx_getElem (w := hlt))
    have := mem_enabledIds hlt he
    rwa [hid] at this

theorem advance_disabled_iff (ho : x.state.report.outcome = .completed) (hop : x.state.Open late) :
    (x.advance lib actor late).state.report.outcome = .disabledChoice ↔
      ¬(find x.state actor < x.state.actors.length ∧
        x.state.enabled (find x.state actor) = true) := by
  have hle : find x.state actor ≤ x.state.actors.length := List.findIdx_le_length
  have hfail : ∀ o w, (x.state.fail o w).report.outcome = o := fun o w => by
    simp [State.fail, ho]
  simp only [advance, hop.prompt, hop.live, Bool.or_self, Bool.false_eq_true, if_false]
  split
  · rename_i hbad
    simp only [Bool.or_eq_true, decide_eq_true_eq, Bool.not_eq_true'] at hbad
    simp only [hfail, true_iff]
    rintro ⟨hlt, he⟩
    rcases hbad with e | e
    · omega
    · rw [he] at e; cases e
  rename_i hgood
  simp only [Bool.or_eq_true, decide_eq_true_eq, Bool.not_eq_true', not_or, Bool.not_eq_false]
    at hgood
  have hyes : find x.state actor < x.state.actors.length ∧
      x.state.enabled (find x.state actor) = true := ⟨by omega, hgood.2⟩
  simp only [hyes, and_self, not_true_eq_false, iff_false]
  split
  · rw [hfail]; simp
  split
  · rw [ho]; simp
  · rename_i hev
    rcases event_cases hev with ⟨-, rfl⟩ | ⟨hb, -⟩
    · rw [hfail]; simp
    · cases hb
  · rename_i hev
    rcases event_cases hev with ⟨hb, -⟩ | ⟨-, rfl⟩
    · cases hb
    · change x.state.report.outcome ≠ _
      rw [ho]; simp

theorem queryEnabled_open (ho : x.state.report.outcome = .completed) (hop : x.state.Open late) :
    (queryEnabled x.state late).1 = x.state.enabledIds := by
  simp only [queryEnabled, hop.prompt, hop.live, ho, Bool.or_self, bne_self_eq_false,
    Bool.false_eq_true, if_false]
  split <;> rfl

theorem over_of_not_open {s : State} (hn : ¬s.Open late) (w : String) :
    ((s.executionExpired late w).1 || (s.executionExpired late w).2.cancelled) = true := by
  rcases executionExpired_cases s late w with e | ⟨t, e, -, -⟩
  · rw [e]
    by_contra hlive
    simp only [Bool.false_or, Bool.not_eq_true] at hlive
    refine hn ⟨hlive, ?_⟩
    by_contra hl
    simp only [not_or, Bool.not_eq_false, Bool.not_eq_true] at hl
    simp [executionExpired, hl.1, hl.2] at e
  · rw [e]; rfl

/-- Where the run is over, or out of time, nothing is listed and nothing granted. -/
theorem not_open (hctl : x.ctl = .idle) (hn : ¬x.state.Open late) :
    (queryEnabled x.state late).1 = [] ∧ ∀ actor, (x.advance lib actor late).ctl = .idle := by
  refine ⟨?_, fun actor => ?_⟩
  · simp only [queryEnabled, over_of_not_open hn, Bool.true_or, if_true]
  · simp only [advance, over_of_not_open hn, if_true]
    exact hctl

/-! ## The verdict of a deadlock -/

/-- At a live idle point every actor waits or has finished. -/
theorem allParked_of_idle (h : (lts lib).Reach x) (hc : x.state.cancelled = false)
    (hctl : x.ctl = .idle) : x.state.allParked = true := by
  have H := Handshake.reach h
  refine List.all_eq_true.mpr fun a ha => ?_
  obtain ⟨i, hi, rfl⟩ := List.getElem_of_mem ha
  have := H.rest hc (by rw [hctl]; rfl) i hi (by simp [hctl])
  simpa [State.actor, List.getD_eq_getElem?_getD, List.getElem?_eq_getElem hi] using this

/-- No actor can be chosen, and one has not finished. -/
structure Stuck (s : State) : Prop where
  unfinished : s.allFinished = false
  disabled : ∀ i < s.actors.length, s.enabled i = false

theorem stuck_iff {s : State} :
    Stuck s ↔ (s.enabledIds.isEmpty && !s.allFinished) = true := by
  simp only [State.enabledIds, Bool.and_eq_true, List.isEmpty_iff, List.map_eq_nil_iff,
    List.filter_eq_nil_iff, List.mem_range, Bool.not_eq_true, Bool.not_eq_eq_eq_not, Bool.not_true]
  exact ⟨fun h => ⟨h.disabled, h.unfinished⟩, fun h => ⟨h.2, h.1⟩⟩

/-- A query reports a deadlock where it is answered and the run is stuck, and records the graph. -/
theorem queryEnabled_deadlock (hpark : x.state.cancelled = false → x.state.allParked = true)
    (ho : x.state.report.outcome = .completed) :
    ((queryEnabled x.state late).2.report.outcome = .controlledDeadlock ↔
      x.state.Open late ∧ Stuck x.state) ∧
    ((queryEnabled x.state late).2.report.outcome = .controlledDeadlock →
      (queryEnabled x.state late).2.failureGraph = some x.state.graph) := by
  by_cases hop : x.state.Open late
  · simp only [queryEnabled, hop.prompt, hop.live, ho, Bool.or_self, bne_self_eq_false,
      Bool.false_eq_true, if_false, hpark hop.live, Bool.and_true, hop, true_and, stuck_iff]
    split
    · rename_i hstuck
      simp [State.fail, ho, hstuck]
    · rename_i hn
      simp [ho, hn]
  · have hno : (queryEnabled x.state late).2.report.outcome ≠ .controlledDeadlock := by
      have hover : ((x.state.executionExpired late "execution deadline before enabled query").1 ||
          (x.state.executionExpired late "execution deadline before enabled query").2.cancelled) =
            true := over_of_not_open hop _
      simp only [queryEnabled, hover, Bool.true_or, if_true]
      intro hd
      have := (Candid.executionExpired (d := false) x.state late _).deadlock rfl hd
      rw [ho] at this; cases this
    exact ⟨⟨fun hd => absurd hd hno, fun hd => absurd hd.1 hop⟩, fun hd => absurd hd hno⟩

/-- The waits of a graph taken where nobody runs. -/
theorem waits_of_allParked {s : State} (h : s.allParked = true) :
    s.graph.waits = (s.actors.filter fun a => !a.finished).map fun a =>
      ⟨a.id, a.pending.op, a.pending.resource⟩ := by
  simp only [State.graph]
  congr 1
  refine List.filter_congr fun a ha => ?_
  have hp := List.all_eq_true.mp h a ha
  cases hf : a.finished
  · simpa [hf] using hp
  · rfl

/-- The end of a run reports other failures. -/
structure Ended (s t : State) : Prop where
  outcome : t.report.outcome = s.report.outcome ∨ t.report.outcome = .timedOut ∨
    t.report.outcome = .cancelled

namespace Ended

variable {s t u : State}

theorem of_eq (h : t.report.outcome = s.report.outcome) : Ended s t := ⟨.inl h⟩

theorem trans (h : Ended s t) (h' : Ended t u) : Ended s u := by
  rcases h'.outcome with e | e
  · exact ⟨e ▸ h.outcome⟩
  · exact ⟨.inr e⟩

theorem fail (s : State) {o : Outcome} (w : String) (ho : o = .timedOut ∨ o = .cancelled) :
    Ended s (s.fail o w) := by
  by_cases hs : s.report.outcome = .completed
  · refine ⟨.inr ?_⟩
    simpa [State.fail, hs] using ho
  · exact of_eq (by simp [State.fail, hs])

theorem executionExpired (s : State) (late : Bool) (w : String) :
    Ended s (s.executionExpired late w).2 := by
  unfold State.executionExpired
  split
  · exact of_eq rfl
  · refine trans ?_ (fail _ _ (.inl rfl))
    exact of_eq rfl

theorem cleanupExpired (s : State) : Ended s s.cleanupExpired := by
  refine trans ?_ (fail _ _ (.inl rfl))
  exact of_eq rfl

theorem cleanupNext (x : Sys) (late : Bool) : Ended x.state (x.cleanupNext late).state := by
  have hexp : Ended x.state (setCleanup x.state.cleanupExpired .incomplete) :=
    (cleanupExpired _).trans (of_eq rfl)
  unfold Sys.cleanupNext
  split
  · split
    · exact hexp
    · exact of_eq rfl
  split
  · split
    · exact hexp
    · exact of_eq rfl
  · exact of_eq rfl

theorem step (hc : c.ends = true) (h : x.step lib c = some y) : Ended x.state y.state := by
  cases c <;> simp only [Choice.ends, Bool.false_eq_true] at hc <;> simp only [Sys.step] at h
  case cleanupJoined l₁ l₂ =>
    split at h
    · simp only [Option.ite_none_right_eq_some, Option.some.injEq] at h
      obtain ⟨-, rfl⟩ := h
      cases l₁
      · exact cleanupNext (x.joined _) _
      · exact (cleanupExpired x.state).trans
          (cleanupNext { x.joined _ with state := x.state.cleanupExpired } _)
    · cases h
  all_goals
    simp only [Option.ite_none_right_eq_some, Option.some.injEq] at h
    obtain ⟨-, rfl⟩ := h
  case cleanup late =>
    have hexp := executionExpired x.state late "execution deadline before cleanup"
    unfold Sys.cleanup
    dsimp only
    split
    · exact of_eq rfl
    split
    · split
      · exact (hexp.trans (fail _ _ (.inr rfl))).trans (of_eq rfl)
      · exact hexp.trans (of_eq rfl)
    · exact of_eq rfl
  case destroy | destroyJoin | destroyTorn => exact of_eq rfl
  case cleanupWake timeout late =>
    unfold Sys.cleanupWake
    split
    · exact (cleanupExpired _).trans (of_eq rfl)
    · exact cleanupNext _ _
  case cleanupTorn threw late =>
    have hs : (if x.impl.program.teardown then x.tornDown threw else x).state = x.state := by
      split <;> rfl
    simp only [Sys.cleanupTorn]
    cases late with
    | false => exact of_eq (congrArg (·.report.outcome) hs)
    | true => exact hs ▸ (cleanupExpired _).trans (of_eq rfl)
  case destroyEnd =>
    unfold Sys.destroyEnd
    split <;> exact of_eq rfl

end Ended

/-- Nothing but `enabled` reports a deadlock. -/
theorem deadlock_step (h : x.step lib c = some y)
    (hd : y.state.report.outcome = .controlledDeadlock) :
    x.state.report.outcome = .controlledDeadlock ∨ c.queries = true := by
  cases hends : c.ends with
  | true =>
    rcases (Ended.step hends h).outcome with e | e | e
    · exact .inl (e.symm.trans hd)
    · rw [hd] at e; cases e
    · rw [hd] at e; cases e
  | false =>
    cases hq : c.queries with
    | true => exact .inr rfl
    | false => exact .inl ((hq ▸ candid_step hends h).deadlock rfl hd)

/-! ## Exactness -/

/-- `advance` does not refuse the actor, and the operation it grants takes effect, whatever that
meets `K` happens before. -/
structure Serves (K : Sys → Choice → Prop) (lib : JsonLib) (x : Sys) (actor : String)
    (late : Bool) : Prop where
  accepted : (x.advance lib actor late).state.report.outcome ≠ .disabledChoice
  granted : ∀ i v, (x.advance lib actor late).ctl = .granted i v → (x.state.actor i).id = actor ∧
    (x.advance lib actor late).state.cancelled = false ∧
    ((x.advance lib actor late).state.actor i).grant = true
  effect : ∀ i v z, (x.advance lib actor late).ctl = .granted i v →
    (lts lib).Path (fun s c => s.ctl ≠ .idle ∧ K s c) (x.advance lib actor late) z →
    z.state.cancelled = false → (z.state.actor i).grant = true →
      TakesEffect lib z i (x.state.actor i).pending

theorem serves (h : (lts lib).Reach x) (hctl : x.ctl = .idle)
    (hacc : (x.advance lib actor late).state.report.outcome ≠ .disabledChoice) :
    Serves KeepsOwner lib x actor late := by
  refine ⟨hacc, fun i v hg => ?_, fun i v z hg hp hc hgz => ?_⟩
  · obtain ⟨-, -, hc, hgr⟩ := granted_held hctl hg
    exact ⟨advance_granted hctl hg, hc, hgr⟩
  · obtain ⟨he, hheld, -, -⟩ := granted_held hctl hg
    have hs : x.step lib (.advance actor late) = some (x.advance lib actor late) := by
      simp [step, hctl]
    have hy : (lts lib).Reach (x.advance lib actor late) :=
      .step (a := .advance actor late) h trivial hs
    have main : (lts lib).Reach z ∧
        (z.state.cancelled = false → (z.state.actor i).grant = true → Held x i z) := by
      refine hp.inv (P := fun z => (lts lib).Reach z ∧
        (z.state.cancelled = false → (z.state.actor i).grant = true → Held x i z))
        ⟨hy, fun _ _ => hheld⟩ ?_
      rintro s c t ⟨hr, ih⟩ ⟨hidle, hk⟩ hst
      exact ⟨.step hr trivial hst, fun hct => held_step hr hst hidle hk hct
        (ih (step_cancelled hst hct))⟩
    obtain ⟨hr, hz⟩ := main
    obtain ⟨hpend, hres⟩ := hz hc hgz
    rw [← hpend]
    exact wakes hr hc hgz (hpend ▸ (legal_of_enabled he).congr hres)

/-- **Enabled choices and deadlocks are exact.** At an idle point of a run that has not failed, a
query in time lists the actors that `advance` does not refuse, and the operation one of them is
granted finds its resource as the query saw it, as long as no unwinding guard drops a mutex; where
the run is over nothing is listed or granted. A query in time reports a deadlock just where the run
is stuck, nothing else does, and the graph it records stays. -/
theorem enabled_exact (h : (lts lib).Reach x) :
    (x.ctl = .idle → x.state.report.outcome = .completed →
      (∀ late, x.state.Open late → ∀ actor, actor ∈ (queryEnabled x.state late).1 ↔
        Serves KeepsOwner lib x actor late) ∧
      (∀ late, ¬x.state.Open late → (queryEnabled x.state late).1 = [] ∧
        ∀ actor, (x.advance lib actor late).ctl = .idle) ∧
      ∀ late y, x.step lib (.enabled late) = some y →
        (y.state.report.outcome = .controlledDeadlock ↔ x.state.Open late ∧ Stuck x.state) ∧
        (y.state.report.outcome = .controlledDeadlock →
          ∀ z, (lts lib).Path (fun _ _ => True) y z →
            z.state.report.outcome = .controlledDeadlock ∧
            z.state.failureGraph = some {
              owners := x.state.resources.map fun o => (o.declaration.id, o.owner)
              waits := (x.state.actors.filter fun a => !a.finished).map fun a =>
                ⟨a.id, a.pending.op, a.pending.resource⟩
              contents := x.state.resources.map fun o => (o.declaration.id, o.queue) })) ∧
    ((lts lib).init x → x.state.report.outcome ≠ .controlledDeadlock) ∧
    ∀ c y, x.step lib c = some y → y.state.report.outcome = .controlledDeadlock →
      x.state.report.outcome = .controlledDeadlock ∨ c.queries = true := by
  refine ⟨fun hctl ho => ⟨fun late hop actor => ?_, fun late hn => not_open hctl hn,
    fun late y hs => ?_⟩, fun hi => not_deadlock (.init hi), fun c y hs => deadlock_step hs⟩
  · rw [queryEnabled_open ho hop, mem_enabledIds_iff (Static.reach h).actorsNodup]
    have hiff := @advance_disabled_iff lib x actor late ho hop
    refine ⟨fun hyes => serves h hctl fun hd => hiff.mp hd hyes, fun hsv => ?_⟩
    by_contra hno
    exact hsv.accepted (hiff.mpr hno)
  · have hpark := fun hc => allParked_of_idle h hc hctl
    simp only [step, Option.ite_none_right_eq_some, Option.some.injEq] at hs
    obtain ⟨-, rfl⟩ := hs
    obtain ⟨hiff, hgraph⟩ := @queryEnabled_deadlock x late hpark ho
    refine ⟨hiff, fun hd z hp => ?_⟩
    obtain ⟨hout, hg⟩ := (sticky_path hp).failure (by rw [hd]; simp)
    refine ⟨hout.trans hd, ?_⟩
    rw [hg, hgraph hd, ← waits_of_allParked (hpark (hiff.mp hd).1.live)]
    rfl

/-! ## Two runs -/

/-- Both actors wait for a value nobody sends. -/
def stalled : List Choice :=
  opening ++ turn "a" 0 [.user 0 (.receive "q"), .request 0] ++
    turn "b" 1 [.user 1 (.receive "q"), .request 1]

/-- `a` holds the mutex and is about to unlock it. -/
def unlocking : List Choice :=
  opening ++ turn "a" 0 [.user 0 (.lock "m"), .request 0] ++
    turn "a" 0 [.user 0 (.unlock "m"), .request 0]

theorem stalled_late : (sampleRun stalled).map (fun x =>
      (x.ctl, x.state.report.outcome, x.state.enabledIds.isEmpty && !x.state.allFinished,
        (queryEnabled x.state true).2.report.outcome)) =
    some (.idle, .completed, true, .timedOut) := by decide +kernel

theorem unlocking_listed : (sampleRun unlocking).map (fun x =>
      (x.ctl, x.state.report.outcome, (x.state.actor 0).pending,
        decide ("a" ∈ (queryEnabled x.state false).1), (x.advance Compact.lib "a" false).ctl)) =
    some (.idle, .completed, ⟨.unlock, "m", 0⟩, true, .granted 0 3) := by decide +kernel

theorem unlocking_freed : (sampleRun unlocking).bind (fun x =>
      ((x.advance Compact.lib "a" false).step Compact.lib (.foreignRelease 0 "m")).map fun z =>
        (z.state.cancelled, (z.state.actor 0).grant, (z.state.resource? "m").map (·.owner))) =
    some (false, true, some none) := by decide +kernel

/-- A query of a stuck run out of time reports no deadlock, and a guard that another thread drops
while it unwinds takes the mutex from under a granted unlock. -/
theorem enabled_inexact :
    (¬∀ x late y, (lts Compact.lib).Reach x → x.ctl = .idle → x.state.report.outcome = .completed →
      x.step Compact.lib (.enabled late) = some y →
        (y.state.report.outcome = .controlledDeadlock ↔ Stuck x.state)) ∧
    ¬∀ x late actor, (lts Compact.lib).Reach x → x.ctl = .idle →
      x.state.report.outcome = .completed → actor ∈ (queryEnabled x.state late).1 →
        Serves (fun _ _ => True) Compact.lib x actor late := by
  refine ⟨fun h => ?_, fun h => ?_⟩
  · obtain ⟨x, hx, e⟩ := Option.map_eq_some_iff.mp stalled_late
    simp only [Prod.mk.injEq] at e
    obtain ⟨hctl, ho, hstuck, hlate⟩ := e
    have hs : x.step Compact.lib (.enabled true) =
        some { x with state := (queryEnabled x.state true).2 } := by simp only [step, hctl, if_true]
    have hd := (h x true _ (reach_sampleRun hx) hctl ho hs).mpr (stuck_iff.mpr hstuck)
    rw [show (queryEnabled x.state true).2.report.outcome = .controlledDeadlock from hd] at hlate
    cases hlate
  · obtain ⟨x, hx, e⟩ := Option.map_eq_some_iff.mp unlocking_listed
    simp only [Prod.mk.injEq, decide_eq_true_eq] at e
    obtain ⟨hctl, ho, hpend, hmem, hg⟩ := e
    obtain ⟨x', hx', e⟩ := Option.bind_eq_some_iff.mp unlocking_freed
    obtain rfl := Option.some.inj (hx.symm.trans hx')
    obtain ⟨z, hz, e⟩ := Option.map_eq_some_iff.mp e
    simp only [Prod.mk.injEq] at e
    obtain ⟨hc, hgz, hown⟩ := e
    obtain ⟨o, hr, hlegal⟩ := ((h x false "a" (reach_sampleRun hx) hctl ho hmem).effect 0 3 z hg
      (.single (a := .foreignRelease 0 "m") ⟨by rw [hg]; simp, trivial⟩ hz) hc hgz).legal
      (by rw [hpend]; rfl)
    rw [hpend] at hr hlegal
    rw [show z.state.resource? "m" = some o from hr, Option.map_some,
      show o.owner = some 0 from hlegal] at hown
    cases hown

theorem stalled_graph : (sampleRun stalled).map (fun x => (x.ctl, x.state.report.outcome,
      x.state.cancelled, x.state.enabledIds.isEmpty && !x.state.allFinished)) =
    some (.idle, .completed, false, true) := by decide +kernel

/-- In time the deadlock is reported. -/
theorem enabled_exact_stalled : ∃ x y : Sys, x.step Compact.lib (.enabled false) = some y ∧
    y.state.report.outcome = .controlledDeadlock ∧
    y.state.failureGraph.map (·.waits) =
      some ((x.state.actors.filter fun a => !a.finished).map fun a =>
        ⟨a.id, a.pending.op, a.pending.resource⟩) := by
  obtain ⟨x, hx, e⟩ := Option.map_eq_some_iff.mp stalled_graph
  simp only [Prod.mk.injEq] at e
  obtain ⟨hctl, ho, hc, hstuck⟩ := e
  have hs : x.step Compact.lib (.enabled false) =
      some { x with state := (queryEnabled x.state false).2 } := by simp only [step, hctl, if_true]
  obtain ⟨hiff, hgraph⟩ := ((enabled_exact (reach_sampleRun hx)).1 hctl ho).2.2 false _ hs
  have hd := hiff.mpr ⟨⟨hc, .inl rfl⟩, stuck_iff.mpr hstuck⟩
  refine ⟨x, _, hs, hd, ?_⟩
  rw [(hgraph hd _ .refl).2]
  rfl

end Sys

end MirrorCpp.Sync
