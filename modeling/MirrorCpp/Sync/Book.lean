import MirrorCpp.Sync.Settled

/-!
# What a passing report means

As long as a run lives its books are in order (`Book`): a grant and a result for every decision,
an observation for every decision and one before the first, `finished` only where every actor
is. A cancelled run that did not fail was ended by `cleanup` or the destructor, which keep what
the books say and count the teardown (`Dead`).
-/

namespace MirrorCpp.Sync

open State

/-- A decision as the log records it. -/
structure Decision where
  actor : String
  operation : Op
  resource : String
  enabled : List String
  value : Int
  deriving DecidableEq, Repr

namespace Decision

def grant (d : Decision) (ordinal : Nat) : Event :=
  ⟨ordinal, d.actor, d.operation, d.resource, some d.enabled, 0⟩

def result (d : Decision) (ordinal : Nat) : Event :=
  ⟨ordinal, d.actor, d.operation, d.resource, none, d.value⟩

/-- The two rows of decision `k`. -/
def rows (d : Decision) (k : Nat) : List Event := [d.grant (2 * k), d.result (2 * k + 1)]

def log (ds : List Decision) : List Event := ds.zipIdx.flatMap fun (d, k) => d.rows k

theorem log_concat (ds : List Decision) (d : Decision) :
    log (ds ++ [d]) = log ds ++ d.rows ds.length := by
  simp [log, List.zipIdx_append]

theorem length_log (ds : List Decision) : (log ds).length = 2 * ds.length := by
  simp [log, rows, List.length_flatMap]
  omega

end Decision

namespace Sys

variable {lib : JsonLib} {x y : Sys} {s t : State} {i j : Nat} {c : Choice}

/-- One grant and one result for every decision, each to an enabled actor. -/
def FullLog (s : State) : Prop :=
  ∃ ds, s.events = Decision.log ds ∧ ds.length = s.report.decisions ∧
    ∀ d ∈ ds, d.actor ∈ d.enabled

/-- The same, but for the result of the last decision, granted to actor `i`. -/
def OpenLog (s : State) (i : Nat) : Prop :=
  ∃ ds ids, s.events = Decision.log ds ++ [⟨2 * ds.length, (s.actor i).id,
      (s.actor i).pending.op, (s.actor i).pending.resource, some ids, 0⟩] ∧
    ds.length + 1 = s.report.decisions ∧ (∀ d ∈ ds, d.actor ∈ d.enabled) ∧
    (s.actor i).id ∈ ids

theorem FullLog.congr (h : FullLog s) (he : t.events = s.events)
    (hd : t.report.decisions = s.report.decisions) : FullLog t := by
  obtain ⟨ds, h1, h2, h3⟩ := h
  exact ⟨ds, he.trans h1, h2.trans hd.symm, h3⟩

theorem OpenLog.congr (h : OpenLog s i) (he : t.events = s.events)
    (hd : t.report.decisions = s.report.decisions) (ha : t.actor i = s.actor i) :
    OpenLog t i := by
  obtain ⟨ds, ids, h1, h2, h3, h4⟩ := h
  exact ⟨ds, ids, by rw [he, ha, h1], h2.trans hd.symm, h3, by rwa [ha]⟩

theorem mem_enabledIds (hi : i < s.actors.length) (he : s.enabled i = true) :
    (s.actor i).id ∈ s.enabledIds :=
  List.mem_map.mpr ⟨i, List.mem_filter.mpr ⟨List.mem_range.mpr hi, he⟩, rfl⟩

/-- A grant opens a decision. -/
theorem FullLog.grantTo (h : FullLog s) (hi : i < s.actors.length) (he : s.enabled i = true) :
    OpenLog (s.grantTo i) i := by
  obtain ⟨ds, h1, h2, h3⟩ := h
  have ha : (s.grantTo i).actor i = { s.actor i with grant := true } :=
    actor_setActor_self _ _ hi
  have hlen : s.events.length = 2 * ds.length := by rw [h1, Decision.length_log]
  refine ⟨ds, s.enabledIds, ?_, ?_, h3, ?_⟩
  · rw [ha]
    change s.events ++ [s.grantRow i] = _
    rw [grantRow, hlen, h1]
  · change _ = s.report.decisions + 1
    omega
  · rw [ha]
    exact mem_enabledIds hi he

theorem report_takeEffect (s : State) (i : Nat) (p : Pending) :
    ((woken s i).takeEffect i p).2.report = s.report := by
  unfold State.takeEffect; split <;> rfl

theorem report_unwindRelease (s : State) (i : Nat) (r : String) :
    (s.unwindRelease i r).report = s.report := by
  unfold State.unwindRelease
  split
  · rfl
  · split <;> rfl

theorem actor_resultOf (hi : i < s.actors.length) (p : Pending) (j : Nat) :
    (s.resultOf i p).2.actor j =
      if j = i then { s.actor i with grant := false, parked := false } else s.actor j := by
  have ha : ((woken s i).takeEffect i p).2.actor j = (woken s i).actor j := by
    simp [State.actor]
  refine ha.trans ((actor_setActor s i j _).trans ?_)
  simp [hi]

/-- A result closes it. -/
theorem OpenLog.resultOf {p : Pending} (h : OpenLog s i) (hp : (s.actor i).pending = p) :
    FullLog (s.resultOf i p).2 := by
  obtain ⟨ds, ids, h1, h2, h3, h4⟩ := h
  refine ⟨ds ++ [⟨(s.actor i).id, p.op, p.resource, ids, (s.resultOf i p).1⟩], ?_, ?_, ?_⟩
  · have hlen : s.events.length = 2 * ds.length + 1 := by simp [h1, Decision.length_log]
    rw [Decision.log_concat]
    change ((woken s i).takeEffect i p).2.events ++ [s.resultRow i p _] = _
    rw [(events_takeEffect s i p).1, resultRow, hlen, h1, hp]
    simp [Decision.rows, Decision.grant, Decision.result]
    rfl
  · change _ = ((woken s i).takeEffect i p).2.report.decisions
    rw [report_takeEffect, ← h2]
    simp
  · intro d hd
    rcases List.mem_append.mp hd with hd | hd
    · exact h3 d hd
    · obtain rfl := List.mem_singleton.mp hd
      exact h4

/-! ## Live runs -/

/-- What nothing but `cleanup` and the destructor changes. -/
structure Untouched (x : Sys) : Prop where
  cleanup : x.state.report.cleanup = .notStarted
  acquired : x.impl.acquired = true
  teardown : x.impl.program.teardown = true
  attempted : x.impl.teardownAttempted = false
  teardowns : x.impl.teardowns = []

structure Book (x : Sys) : Prop where
  full : (∀ i, (x.state.actor i).grant = false) → FullLog x.state
  opened : ∀ i, (x.state.actor i).grant = true → OpenLog x.state i
  finished : x.state.report.finished = true → x.state.allFinished = true
  untouched : Untouched x

namespace Book

/-- Steps that decide and log nothing and change no granted actor. -/
theorem keep (h : Book x) (he : y.state.events = x.state.events)
    (hd : y.state.report.decisions = x.state.report.decisions)
    (ha : ∀ i, (y.state.actor i).grant = true ∨ (x.state.actor i).grant = true →
      y.state.actor i = x.state.actor i)
    (hf : y.state.report.finished = true → y.state.allFinished = true)
    (hu : Untouched y) : Book y where
  full hg := (h.full fun i => Bool.eq_false_iff.mpr fun hi => by
    have := hg i
    rw [ha i (.inr hi), hi] at this; cases this).congr he hd
  opened i hi := by
    have hi' := ha i (.inl hi)
    exact (h.opened i (by rwa [← hi'])).congr he hd hi'
  finished := hf
  untouched := hu

/-- The sections of a worker that holds no grant. -/
theorem worker (h : Book x) {p' : Pc} (hi : i < x.pcs.length) (H : Handshake x)
    (hcl : x.pc i ≠ .closed) (ho : Own i x.state t) (he : t.events = x.state.events)
    (hrep : t.report = x.state.report)
    (hg : (x.state.actor i).grant = false) (hg' : (t.actor i).grant = false) :
    Book ({ x with state := t }.setPc i p') := by
  refine h.keep he (by rw [← hrep]; rfl) (fun j hj => ?_) (fun hf => ?_) ?_
  · by_cases hji : j = i
    · subst hji
      rcases hj with hj | hj
      · change (t.actor j).grant = true at hj
        rw [hg'] at hj; cases hj
      · rw [hg] at hj; cases hj
    · exact ho.others j hji
  · -- a worker that moves has not ended
    change t.report.finished = true at hf
    rw [hrep] at hf
    have hall := h.finished hf
    exact absurd ((H.closed i).mp (allFinished_iff.mp hall i (lt_of_lt_of_le hi H.pcs_le))) hcl
  · obtain ⟨h1, h2, h3, h4, h5⟩ := h.untouched
    exact ⟨by change t.report.cleanup = _; rw [hrep]; exact h1, h2, h3, h4, h5⟩

theorem no_grant (H : Handshake x) (hc : x.state.cancelled = false)
    (hctl : ∀ i v, x.ctl ≠ .granted i v) (i : Nat) : (x.state.actor i).grant = false :=
  Bool.eq_false_iff.mpr fun hg => hctl i _ (H.grant hc i hg).1

theorem init (h : Initial x) (hc : x.state.cancelled = false) : Book x := by
  obtain ⟨hf, hd, hcl⟩ := h.fresh.report
  obtain ⟨ha, ht, -⟩ := h.untorn
  rcases h.start with ⟨hcx, -⟩ | ⟨-, -, hacq, htear, -, -⟩
  · rw [hc] at hcx; cases hcx
  refine ⟨fun _ => ⟨[], by rw [h.fresh.events]; rfl, by simp [hd], by simp⟩, fun i hg => ?_,
    fun hx => ?_, ⟨hcl, hacq, htear, ha, ht⟩⟩
  · rw [h.fresh.actor i] at hg; cases hg
  · rw [hf] at hx; cases hx

theorem step (hr : (lts lib).Reach x) (hcx : x.state.cancelled = false) (h : Book x)
    (hs : LiveStep lib x c y) : Book y := by
  have H := Handshake.reach hr
  have hu := h.untouched
  obtain ⟨hu1, hu2, hu3, hu4, hu5⟩ := hu
  -- a running worker holds no grant
  have running : ∀ {i}, (∀ f p, x.pc i ≠ .waiting f p) → x.pc i ≠ .closed →
      (x.state.actor i).grant = false := fun hw hcl =>
    (H.running hcx (Handshake.pc_ne_waiting hw) hcl).2.1
  cases hs with
  | stay => exact h
  | spawn | barrier | enter | retain | unserialised | toJoin =>
    exact h.keep rfl rfl (fun _ _ => rfl) h.finished ⟨hu1, hu2, hu3, hu4, hu5⟩
  | grant i actor late hch hctl hi he hd hrow =>
    have hg := no_grant H hcx (by simp [hctl])
    refine ⟨fun hn => ?_, fun j hj => ?_, fun hf => ?_, ⟨hu1, hu2, hu3, hu4, hu5⟩⟩
    · have := hn i
      rw [actor_grantTo hi, if_pos rfl] at this; cases this
    · by_cases hji : j = i
      · subst hji
        exact (h.full hg).grantTo hi he
      · rw [actor_grantTo hi, if_neg hji, hg j] at hj; cases hj
    · -- an enabled actor has not finished
      have hfin := allFinished_iff.mp (h.finished hf) i hi
      simp [State.enabled, hfin] at he
  | leave | joined =>
    exact h.keep rfl rfl (fun _ _ => rfl) id ⟨hu1, hu2, hu3, hu4, hu5⟩
  | register i hi hpc =>
    have hg := running (i := i) (by simp [hpc]) (by simp [hpc])
    refine h.worker hi H (by simp [hpc]) (own_setActor _ i _) rfl rfl hg ?_
    rw [actor_registerThread (lt_of_lt_of_le hi H.pcs_le)]
    exact hg
  | park i f p hi hpc hres =>
    have hg := running (i := i) (by simp [hpc]) (by simp [hpc])
    refine h.worker hi H (by simp [hpc]) (own_setActor _ i _) rfl rfl hg ?_
    rw [actor_park (lt_of_lt_of_le hi H.pcs_le)]
  | result i f p hi hpc hg hrow =>
    have hil := lt_of_lt_of_le hi H.pcs_le
    have hact : ∀ j, (x.state.resultOf i p).2.actor j =
        if j = i then { x.state.actor i with grant := false, parked := false }
        else x.state.actor j := actor_resultOf hil p
    have hrep : (x.state.resultOf i p).2.report = x.state.report := report_takeEffect x.state i p
    have hnone : ∀ j, ((x.state.resultOf i p).2.actor j).grant = false := by
      intro j
      rw [hact]
      split
      · rfl
      · rename_i hj
        refine Bool.eq_false_iff.mpr fun hgj => hj ?_
        have := (H.grant hcx j hgj).1.symm.trans (H.grant hcx i hg).1
        exact (Ctl.granted.inj this).1
    refine ⟨fun _ => (h.opened i hg).resultOf (H.pending i f p hpc), fun j hj => ?_,
      fun hf => ?_, ⟨by rw [← hu1]; exact congrArg _ hrep, hu2, hu3, hu4, hu5⟩⟩
    · have := hnone j
      rw [show ((x.state.resultOf i p).2.actor j).grant = true from hj] at this; cases this
    · change (x.state.resultOf i p).2.report.finished = true at hf
      rw [hrep] at hf
      have hfin := (H.closed i).mp (allFinished_iff.mp (h.finished hf) i hil)
      rw [hpc] at hfin; cases hfin
  | unlogged i f p hi hpc hg hbad => exact absurd hbad (logged hr hcx hi hpc _)
  | user i r call hi hpc =>
    have hg := running (i := i) (by simp [hpc]) (by simp [hpc])
    exact h.worker (t := x.state) hi H (by simp [hpc]) (own_of_quiet (.refl _) i) rfl rfl hg hg
  | asked i hi hpc =>
    have hg := running (i := i) (by simp [hpc]) (by simp [hpc])
    exact h.worker (t := x.state) hi H (by simp [hpc]) (own_of_quiet (.refl _) i) rfl rfl hg hg
  | dropped i r u hi hpc =>
    have hg := running (i := i) (by simp [hpc]) (by simp [hpc])
    exact h.worker (t := x.state) hi H (by simp [hpc]) (own_of_quiet (.refl _) i) rfl rfl hg hg
  | release i r hi hpc hch =>
    have hg := running (i := i) (by simp [hpc]) (by simp [hpc])
    exact h.worker hi H (by simp [hpc]) (own_unwindRelease _ i r) (logs_unwindRelease x.state i r).1
      (report_unwindRelease _ i r) hg (by simpa [State.actor] using hg)
  | close i hi hpc hfree =>
    have hg := running (i := i) (by simp [hpc]) (by simp [hpc])
    refine h.worker hi H (by simp [hpc]) (own_setActor _ i _) rfl rfl hg ?_
    rw [actor_finish (lt_of_lt_of_le hi H.pcs_le)]
    exact hg
  | foreignRelease i r hi hch =>
    have hrep := report_unwindRelease x.state i r
    refine h.keep (logs_unwindRelease x.state i r).1 (by rw [hrep])
      (fun j _ => by simp [State.actor]) ?_
      ⟨by rw [hrep]; exact hu1, hu2, hu3, hu4, hu5⟩
    intro hf
    rw [hrep] at hf
    simpa [allFinished] using h.finished hf

end Book

/-! ## Runs that were ended -/

/-- What the books say of a finished run. -/
structure Closed (s : State) : Prop where
  all : s.allFinished = true
  full : FullLog s

/-- A cancelled run that did not fail. -/
structure Dead (x : Sys) : Prop where
  phase : x.ctl = .idle ∨ x.ctl.ending = true
  closed : x.state.report.finished = true → Closed x.state
  acquired : x.impl.acquired = true
  teardown : x.impl.program.teardown = true
  confirmed : x.state.report.cleanup = .confirmed → x.state.report.finished = true ∧
    x.impl.teardownAttempted = true ∧ x.impl.teardowns = [true] ∧ x.impl.workers.all (!·) = true
  cleaning : (x.ctl = .cleaning ∨ ∃ i, x.ctl = .cleanupJoin i) →
    x.state.report.finished = true ∧ x.state.report.cleanup = .notStarted ∧
      x.impl.teardownAttempted = false ∧ x.impl.teardowns = []
  tearing : x.ctl = .tearing → x.state.report.finished = true ∧
    x.impl.teardownAttempted = true ∧ x.impl.teardowns = [] ∧ x.impl.workers.all (!·) = true
  idle : x.ctl = .idle → x.state.report.finished = true ∧
    (x.state.report.cleanup = .confirmed ∨ x.state.report.cleanup = .teardownFailed)
  destroyTearing : x.ctl = .destroyTearing → x.state.report.cleanup ≠ .confirmed

namespace Book

theorem closed (H : Handshake x) (hc : x.state.cancelled = false) (h : Book x)
    (hctl : x.ctl = .idle) (hf : x.state.report.finished = true) : Closed x.state := by
  exact ⟨h.finished hf, h.full (no_grant H hc (by simp [hctl]))⟩

end Book

namespace Dead

/-- The client ends a live run. -/
theorem of_book (H : Handshake x) (hc : x.state.cancelled = false)
    (hend : x.ctl.ending = false) (h : Book x) (hs : Drain x y)
    (hcy : y.state.cancelled = true) : Dead y := by
  obtain ⟨hu1, hu2, hu3, hu4, hu5⟩ := h.untouched
  cases hs with
  | stay => rw [hc] at hcy; cases hcy
  | begin_ hctl hf hcl =>
    obtain ⟨hall, hfull⟩ := h.closed H hc hctl hf
    exact ⟨.inr rfl, fun _ => ⟨hall, hfull⟩, hu2, hu3, by simp [hu1],
      fun _ => ⟨hf, hu1, hu4, hu5⟩, nofun, nofun, nofun⟩
  | destroy hctl =>
    refine ⟨.inr rfl, fun hf => ?_, hu2, hu3, fun hcl => ?_, ?_, nofun, nofun, nofun⟩
    · obtain ⟨hall, hfull⟩ := h.closed H hc hctl hf
      exact ⟨hall, hfull⟩
    · rw [show x.state.report.cleanup = .confirmed from hcl] at hu1; cases hu1
    · rintro (hd | ⟨i, hd⟩) <;> cases hd
  | wake hctl | torn threw hctl | destroyEnd hctl | destroyTorn threw hctl
  | joined i hctl | destroyJoin i hctl => rw [hctl] at hend; cases hend
  | worker hf hctl himpl hcx hrep => rw [hc] at hcx; cases hcx

/-- Behind `cleanup`'s joins. -/
theorem cleanupNext (hall : x.state.report.finished = true → Closed x.state)
    (hacq : x.impl.acquired = true) (htear : x.impl.program.teardown = true)
    (hf : x.state.report.finished = true) (hcl : x.state.report.cleanup = .notStarted)
    (hat : x.impl.teardownAttempted = false) (hts : x.impl.teardowns = []) :
    Dead (x.cleanupNext false) := by
  obtain ⟨h1, h2⟩ := hall hf
  unfold Sys.cleanupNext
  split
  · exact ⟨.inr rfl, fun _ => ⟨h1, h2⟩, hacq, htear, by simp [hcl],
      fun _ => ⟨hf, hcl, hat, hts⟩, nofun, nofun, nofun⟩
  · rename_i hw
    have hw : x.impl.workers.all (!·) = true := by
      simpa [List.findIdx?_eq_none_iff] using hw
    simp only [hacq, hat, Bool.not_false, Bool.and_self, if_true, Bool.false_eq_true, if_false]
    refine ⟨.inr rfl, fun _ => ⟨h1, h2⟩, rfl, htear, by simp [hcl], ?_,
      fun _ => ⟨hf, rfl, hts, hw⟩, nofun, nofun⟩
    rintro (hd | ⟨i, hd⟩) <;> cases hd

theorem step (h : Dead x) (hs : Drain x y) : Dead y := by
  have hacq := h.acquired
  have htear := h.teardown
  cases hs with
  | stay => exact h
  | begin_ hctl hf hcl =>
    rcases (h.idle hctl).2 with e | e
    · exact absurd e hcl.1
    · exact absurd e hcl.2
  | wake hctl =>
    obtain ⟨hf, hcl, hat, hts⟩ := h.cleaning (.inl hctl)
    exact cleanupNext h.closed hacq htear hf hcl hat hts
  | joined i hctl =>
    obtain ⟨hf, hcl, hat, hts⟩ := h.cleaning (.inr ⟨i, hctl⟩)
    exact cleanupNext (x := x.joined i) h.closed hacq htear hf hcl hat hts
  | torn threw hctl =>
    obtain ⟨hf, hat, hts, hw⟩ := h.tearing hctl
    obtain ⟨h1, h2⟩ := h.closed hf
    unfold cleanupTorn cleanupEnd tornDown
    cases threw <;>
      simp only [htear, hacq, if_true, Bool.not_true,
        Bool.or_false, Bool.false_eq_true, if_false, Bool.not_false]
    · refine ⟨.inl rfl, fun _ => ⟨h1, h2⟩, rfl, htear, fun _ => ⟨hf, hat, ?_, hw⟩, ?_, nofun,
        fun _ => ⟨hf, .inl rfl⟩, nofun⟩
      · simp [hts]
      · rintro (hd | ⟨i, hd⟩) <;> cases hd
    · refine ⟨.inl rfl, fun _ => ⟨h1, h2⟩, rfl, htear, nofun, ?_, nofun,
        fun _ => ⟨hf, .inr rfl⟩, nofun⟩
      rintro (hd | ⟨i, hd⟩) <;> cases hd
  | destroy hctl =>
    refine ⟨.inr rfl, fun hf => ?_, hacq, htear, h.confirmed, ?_, nofun, nofun, nofun⟩
    · obtain ⟨h1, h2⟩ := h.closed hf
      exact ⟨h1, h2⟩
    · rintro (hd | ⟨i, hd⟩) <;> cases hd
  | destroyJoin i hctl =>
    refine ⟨.inr (by rw [show (x.joined i).ctl = _ from hctl]; rfl),
      h.closed, hacq, htear, fun hcl => ?_, ?_,
      ?_, ?_, ?_⟩
    · obtain ⟨hf, hat, hts, hw⟩ := h.confirmed hcl
      refine ⟨hf, hat, hts, ?_⟩
      simp only [List.all_eq_true, Bool.not_eq_true'] at hw ⊢
      intro b hb
      rcases List.mem_or_eq_of_mem_set hb with hb | rfl
      · exact hw b hb
      · rfl
    all_goals
      intro hd
      unfold joined at hd
      simp [hctl] at hd
  | destroyEnd hctl =>
    unfold destroyEnd
    split
    · rename_i hat
      simp only [Bool.and_eq_true, Bool.not_eq_true'] at hat
      have hcl : x.state.report.cleanup ≠ .confirmed := fun hcl => by
        rw [(h.confirmed hcl).2.1] at hat; simp at hat
      refine ⟨.inr rfl, h.closed, hacq, htear,
        fun e => absurd e hcl, ?_, nofun, nofun, fun _ => hcl⟩
      rintro (hd | ⟨i, hd⟩) <;> cases hd
    · refine ⟨.inr rfl, h.closed, hacq, htear,
        h.confirmed, ?_, nofun, nofun, nofun⟩
      rintro (hd | ⟨i, hd⟩) <;> cases hd
  | destroyTorn threw hctl =>
    have hcl := h.destroyTearing hctl
    refine ⟨.inr rfl, h.closed, hacq, htear,
      fun e => absurd e hcl, ?_, nofun, nofun, nofun⟩
    rintro (hd | ⟨i, hd⟩) <;> cases hd
  | worker hf hctl himpl hcx hrep =>
    -- some worker runs, so the run has not finished
    have hfin : x.state.report.finished = false := Bool.eq_false_iff.mpr fun hx => by
      rw [(h.closed hx).all] at hf; cases hf
    refine ⟨by rw [hctl]; exact h.phase, fun hx => ?_, by rw [himpl]; exact hacq,
      by rw [himpl]; exact htear, fun hcl => ?_, fun hd => ?_, fun hd => ?_, fun hd => ?_,
      fun hd => ?_⟩
    · rw [hrep, hfin] at hx; cases hx
    · rw [hrep] at hcl
      rw [(h.confirmed hcl).1] at hfin; cases hfin
    · rw [hctl] at hd
      rw [(h.cleaning hd).1] at hfin; cases hfin
    · rw [hctl] at hd
      rw [(h.tearing hd).1] at hfin; cases hfin
    · rw [hctl] at hd
      rw [hrep]; exact h.idle hd
    · rw [hctl] at hd
      rw [hrep]; exact h.destroyTearing hd

end Dead

theorem book_reach (h : (lts lib).Reach x) :
    (x.state.cancelled = false → Book x) ∧
      (x.state.cancelled = true → x.state.report.outcome = .completed → Dead x) := by
  induction h with
  | init hi =>
    have hI := initial_of_init hi
    refine ⟨Book.init hI, fun hc ho => ?_⟩
    rcases hI.start with ⟨-, hne, -⟩ | ⟨hcx, -⟩
    · exact absurd ho hne
    · rw [hc] at hcx; cases hcx
  | @step x y c hr _ hs ih =>
    have H := Handshake.reach hr
    refine ⟨fun hc => ?_, fun hc ho => ?_⟩
    · have hcx := step_cancelled hs hc
      exact (ih.1 hcx).step hr hcx (live_of_reach hr hs hc)
    · have hdr := drain_step H (Holding.reach hr) (fun hcx hox => (ih.2 hcx hox).phase) hs ho hc
      cases hcx : x.state.cancelled with
      | false => exact .of_book H hcx (ending_reach hr hcx) (ih.1 hcx) hdr hc
      | true => exact (ih.2 hcx (hdr.report.1.symm.trans ho)).step hdr

/-- A step to a cancelled state that did not fail. -/
theorem drain_of_reach (h : (lts lib).Reach x) (hs : x.step lib c = some y)
    (ho : y.state.report.outcome = .completed) (hc : y.state.cancelled = true) : Drain x y :=
  drain_step (Handshake.reach h) (Holding.reach h) (fun hcx hox => ((book_reach h).2 hcx hox).phase)
    hs ho hc

theorem allFinished_of_finished (h : (lts lib).Reach x) (ho : x.state.report.outcome = .completed)
    (hf : x.state.report.finished = true) : x.state.allFinished = true := by
  cases hc : x.state.cancelled with
  | false => exact ((book_reach h).1 hc).finished hf
  | true => exact (((book_reach h).2 hc ho).closed hf).all

/-! ## Observations -/

/-- An observation `advance` is about to retain is valid UTF-8. -/
def TextObserved (x : Sys) : Choice → Prop
  | .observed (some v) late₁ _ _ =>
    x.ctl = .observer .advance → x.state.cancelled = false →
      late₁ = false ∨ x.state.executionEnded = true → v.isObj = true → inertJson v = true →
        v.utf8 = true
  | _ => True

/-- Observations still to be made of the decisions so far. -/
def due : Ctl → Nat
  | .idle => 0
  | _ => 1

theorem counted_live (hr : (lts lib).Reach x) (hcx : x.state.cancelled = false)
    (h : x.state.observations.length + due x.ctl = x.state.report.decisions + 1)
    (hC : TextObserved x c) (hs : LiveStep lib x c y) :
    y.state.observations.length + due y.ctl = y.state.report.decisions + 1 := by
  cases hs with
  | spawn ctl hctl hctl' =>
    rw [hctl] at h
    cases ctl <;> simp [Ctl.started] at hctl' <;> exact h
  | barrier hctl | enter k hctl | leave i v hctl | toJoin i v hctl | joined i hctl =>
    rw [hctl] at h; exact h
  | retain k v hctl hobj hinert hv =>
    rw [hctl] at h
    simpa [due, observed] using h
  | unserialised k v l₁ l₂ l₃ hctl hch hl hobj hinert hbad =>
    cases k with
    | constructor => rw [hctl] at h; exact h
    | advance =>
      rw [hch] at hC
      have hv := hC hctl hcx hl hobj hinert
      rw [unserialised_state hr hcx hbad] at hv; cases hv
  | grant i actor late hch hctl hi he hd hrow =>
    rw [hctl] at h
    change x.state.observations.length + 1 = x.state.report.decisions + 1 + 1
    simp only [due] at h
    omega
  | result i f p hi hpc hg hrow =>
    change ((woken x.state i).takeEffect i p).2.observations.length + due x.ctl =
      ((woken x.state i).takeEffect i p).2.report.decisions + 1
    rw [(events_takeEffect x.state i p).2, report_takeEffect]
    exact h
  | unlogged i f p hi hpc hg hbad => exact absurd hbad (logged hr hcx hi hpc _)
  | release i r hi hpc hch | foreignRelease i r hi hch =>
    change (x.state.unwindRelease i r).observations.length + due x.ctl =
      (x.state.unwindRelease i r).report.decisions + 1
    rw [(logs_unwindRelease x.state i r).2, report_unwindRelease]
    exact h
  | _ => exact h

theorem counted_reach (h : (lts lib).ReachBy TextObserved x) :
    (x.state.cancelled = false →
      x.state.observations.length + due x.ctl = x.state.report.decisions + 1) ∧
    (x.state.cancelled = true → x.state.report.outcome = .completed →
      x.state.report.finished = true →
        x.state.observations.length = x.state.report.decisions + 1) := by
  induction h with
  | init hi =>
    have hI := initial_of_init hi
    obtain ⟨hf, hd, -⟩ := hI.fresh.report
    refine ⟨fun hc => ?_, fun _ _ hx => ?_⟩
    · rcases hI.start with ⟨hcx, -⟩ | ⟨-, -, -, -, -, hctl⟩
      · rw [hc] at hcx; cases hcx
      · simp [hI.fresh.observations, hd, hctl, due]
    · rw [hf] at hx; cases hx
  | @step x y c hr hC hs ih =>
    refine ⟨fun hc => ?_, fun hc ho hf => ?_⟩
    · have hcx := step_cancelled hs hc
      exact counted_live hr.reach hcx (ih.1 hcx) hC (live_of_reach hr.reach hs hc)
    · have hdr := drain_of_reach hr.reach hs ho hc
      rw [hdr.report.2.1] at hf
      have hk := hdr.kept (allFinished_of_finished hr.reach (hdr.report.1.symm.trans ho) hf)
      rw [hk.observations, hdr.report.2.2]
      cases hcx : x.state.cancelled with
      | false =>
        have := ih.1 hcx
        rw [hdr.idle hcx (ending_reach hr.reach hcx) hc] at this
        exact this
      | true => exact ih.2 hcx (hdr.report.1.symm.trans ho) hf

/-! ## The claims of a report -/

/-- Neither parked nor finished. -/
def Unparked (x : Sys) (i : Nat) : Prop :=
  i < x.state.actors.length ∧ (x.state.actor i).parked = false ∧ (x.state.actor i).finished = false

theorem Unparked.granted (H : Handshake x) (hst : x.ctl.started = true)
    (hc : x.state.cancelled = false) (h : x.Unparked i) : ∃ v, x.ctl = .granted i v := by
  obtain ⟨hi, hp, hf⟩ := h
  by_contra hn
  rcases H.rest hc hst i hi fun v hv => hn ⟨v, hv⟩ with h | h
  · rw [hp] at h; cases h
  · rw [hf] at h; cases h

/-- Only an actor that was granted its turn publishes an operation. -/
theorem pending_live (H : Handshake x) (hcx : x.state.cancelled = false)
    (hst : x.ctl.started = true) (hs : LiveStep lib x c y) (j : Nat) :
    (y.state.actor j).pending = (x.state.actor j).pending ∨ ∃ v, x.ctl = .granted j v := by
  cases hs with
  | grant i actor late hch hctl hi he hd hrow =>
    left
    rw [actor_grantTo hi]
    split
    · rename_i hj; rw [hj]
    · rfl
  | register i hi hpc =>
    left
    by_cases hj : j = i
    · subst hj
      change ((x.state.registerThread j).actor j).pending = _
      rw [actor_registerThread (lt_of_lt_of_le hi H.pcs_le)]
    · exact congrArg _ (actor_setActor_ne _ _ hj)
  | park i f p hi hpc hres =>
    by_cases hj : j = i
    · subst hj
      exact .inr (H.granted_of_running hcx hst hi (Handshake.pc_ne_waiting (by simp [hpc]))
        (by simp [hpc]))
    · exact .inl (congrArg _ (actor_setActor_ne _ _ hj))
  | result i f p hi hpc hg hrow =>
    left
    change ((x.state.resultOf i p).2.actor j).pending = _
    rw [actor_resultOf (lt_of_lt_of_le hi H.pcs_le)]
    split
    · rename_i hj; rw [hj]
    · rfl
  | unlogged i f p hi hpc hg hbad =>
    left
    by_cases hj : j = i
    · subst hj
      change (((woken x.state j).takeEffect j p).2.actor j).pending = _
      simp [State.actor, woken, setActor, lt_of_lt_of_le hi H.pcs_le]
    · exact congrArg _ (((own_setActor x.state i _).trans (own_takeEffect _ i p)).others j hj)
  | release i r hi hpc hch | foreignRelease i r hi hch =>
    left
    change ((x.state.unwindRelease i r).actor j).pending = _
    simp [State.actor]
  | close i hi hpc hfree =>
    left
    by_cases hj : j = i
    · subst hj
      change ((x.state.finish j).actor j).pending = _
      rw [actor_finish (lt_of_lt_of_le hi H.pcs_le)]
    · exact congrArg _ (actor_setActor_ne _ _ hj)
  | _ => exact .inl rfl

/-- The initial barrier stays behind. -/
theorem started_live (hs : LiveStep lib x c y) (hst : x.ctl.started = true) :
    y.ctl.started = true := by
  cases hs with
  | spawn ctl h | barrier h => rw [h] at hst; cases hst
  | unserialised k => cases k <;> rfl
  | enter | retain | grant | leave | toJoin | joined => rfl
  | _ => exact hst

/-- Inside a call the controller waits for no other actor than it did. -/
theorem granted_live (hs : LiveStep lib x c y) (hst : x.ctl.started = true) (hctl : x.ctl ≠ .idle)
    {k v : Nat} (h : y.ctl = .granted k v) : x.ctl = .granted k v := by
  cases hs with
  | spawn ctl hc | barrier hc => rw [hc] at hst; cases hst
  | grant i actor late hch hc => exact absurd hc hctl
  | unserialised k => cases k <;> cases h
  | enter | retain | leave | toJoin | joined => cases h
  | _ => exact h

theorem advance_granted {actor : String} {late : Bool} {v : Nat} (hctl : x.ctl = .idle)
    (h : (x.advance lib actor late).ctl = .granted i v) : (x.state.actor i).id = actor := by
  have hq := quiet_executionExpired x.state late "execution deadline before decision"
  simp only [advance] at h
  generalize x.state.executionExpired late "execution deadline before decision" = e at h hq
  split at h
  · rw [hctl] at h; cases h
  split at h
  · rw [hctl] at h; cases h
  rename_i hi
  split at h
  · rw [hctl] at h; cases h
  split at h
  · rw [hctl] at h; cases h
  · rw [hctl] at h; cases h
  · obtain ⟨rfl, -⟩ := Ctl.granted.inj h
    simp only [Bool.or_eq_true, decide_eq_true_eq, not_or] at hi
    have hlt : find e.2 actor < e.2.actors.length := lt_of_le_of_ne List.findIdx_le_length hi.1
    rw [← hq.actor, State.actor, List.getD_eq_getElem?_getD, List.getElem?_eq_getElem hlt]
    exact beq_iff_eq.mp (List.findIdx_getElem (w := hlt))

/-- A state of the turn of actor `i`, in which actor `j` is still to do `p`. -/
structure InTurn (lib : JsonLib) (i j : Nat) (p : Pending) (z : Sys) : Prop where
  reach : (lts lib).Reach z
  started : z.ctl.started = true
  granted : ∀ k v, z.ctl = .granted k v → k = i
  pending : (z.state.actor j).pending = p

/-- An accepted `advance` publishes no other actor's operation. -/
theorem advance_pending {actor : String} {late : Bool} {z : Sys} {v : Nat} (h : (lts lib).Reach x)
    (hst : x.ctl.started = true) (hs : x.step lib (.advance actor late) = some y)
    (hg : y.ctl = .granted i v) (hp : (lts lib).Path (fun s _ => s.ctl ≠ .idle) y z)
    (hc : z.state.cancelled = false) (hj : (x.state.actor j).id ≠ actor) :
    (z.state.actor j).pending = (x.state.actor j).pending := by
  have hctl : x.ctl = .idle ∧ x.advance lib actor late = y := by
    simpa [Sys.step] using hs
  have hij : j ≠ i := by
    rintro rfl
    exact hj (advance_granted hctl.1 (by rw [hctl.2]; exact hg))
  have hy : (lts lib).Reach y := .step (a := .advance actor late) h trivial hs
  have main : z.state.cancelled = false → InTurn lib i j (x.state.actor j).pending z := by
    refine hp.inv (P := fun z => z.state.cancelled = false → InTurn lib i j _ z)
      (fun hcy => ⟨hy, by rw [hg]; rfl, ?_, ?_⟩) ?_
    · intro k w hk
      rw [hg] at hk
      exact (Ctl.granted.inj hk).1.symm
    · have hcx := step_cancelled hs hcy
      rcases pending_live (Handshake.reach h) hcx hst (live_of_reach h hs hcy) j with e | ⟨w, e⟩
      · exact e
      · rw [hctl.1] at e; cases e
    · intro s a t ih hidle hst' hct
      obtain ⟨hr, hstart, hk, hpend⟩ := ih (step_cancelled hst' hct)
      have hlive := live_of_reach hr hst' hct
      refine ⟨.step hr trivial hst', started_live hlive hstart,
        fun k w e => hk k w (granted_live hlive hstart hidle e), ?_⟩
      rcases pending_live (Handshake.reach hr) (step_cancelled hst' hct) hstart hlive j with e |
        ⟨w, e⟩
      · rw [e, hpend]
      · exact absurd (hk j w e) hij
  exact (main hc).pending

/-- **What a passing report means.** Until a failure or a cancellation one actor runs at most,
and an accepted `advance` publishes no operation of another. A report that passes is that of a
run whose actors all finished and were joined, that holds no mutex, was torn down once, and
logged every decision and every observation. -/
theorem passing_report (h : (lts lib).ReachBy TextObserved x) :
    (x.ctl.started = true → x.state.cancelled = false →
      ∀ i j, x.Unparked i → x.Unparked j → i = j) ∧
    (x.ctl.started = true → ∀ actor late y i v z, x.step lib (.advance actor late) = some y →
      y.ctl = .granted i v → (lts lib).Path (fun s _ => s.ctl ≠ .idle) y z →
      z.state.cancelled = false → ∀ j, (x.state.actor j).id ≠ actor →
        (z.state.actor j).pending = (x.state.actor j).pending) ∧
    (x.state.report.passed = true →
      (∀ i, i < x.state.actors.length →
        (x.state.actor i).finished = true ∧ x.impl.workers[i]? = some false) ∧
      (∀ o ∈ x.state.resources, o.owner = none) ∧ x.impl.teardowns = [true] ∧
      FullLog x.state ∧ x.state.observations.length = x.state.report.decisions + 1) := by
  have H := Handshake.reach h.reach
  refine ⟨fun hst hc i j hi hj => ?_, fun hst actor late y i v z hs hg hp hc j hj =>
    advance_pending h.reach hst hs hg hp hc hj, fun hpass => ?_⟩
  · obtain ⟨v, hv⟩ := hi.granted H hst hc
    obtain ⟨w, hw⟩ := hj.granted H hst hc
    rw [hv] at hw
    exact (Ctl.granted.inj hw).1
  · simp only [Report.passed, Bool.and_eq_true, beq_iff_eq] at hpass
    obtain ⟨⟨⟨⟨ho, hf⟩, hcl⟩, -⟩, -⟩ := hpass
    have hb := book_reach h.reach
    cases hc : x.state.cancelled with
    | false =>
      rw [(hb.1 hc).untouched.cleanup] at hcl; cases hcl
    | true =>
      have hd := hb.2 hc ho
      obtain ⟨-, -, hts, hw⟩ := hd.confirmed hcl
      obtain ⟨hall, hfull⟩ := hd.closed hf
      refine ⟨fun i hi => ?_, fun o hmem => free_of_finished H (Holding.reach h.reach) hall hmem,
        hts,
        hfull, (counted_reach h).2 hc ho hf⟩
      have hfin := allFinished_iff.mp hall i hi
      refine ⟨hfin, ?_⟩
      have hlt : i < x.impl.workers.length := by
        by_contra hge
        have hcl := (H.closed i).mp hfin
        rw [H.unborn i (by omega)] at hcl; cases hcl
      have hfalse := List.all_eq_true.mp hw _ (List.getElem_mem hlt)
      rw [List.getElem?_eq_getElem hlt]
      simpa using hfalse

/-! ## Two runs -/

/-- Grant `actor` its last operation, join its worker `i` and observe `v`. -/
def lastTurn (actor : String) (i : Nat) (v : Json) : List Choice :=
  [.advance actor false, .wake i, .close i, .granted false false false, .joined false,
    .observe false, .observed (some v) false false false]

/-- Both actors return at once, `v` is observed behind the first, and the run is cleaned up. -/
def returning (v : Json) : List Choice :=
  opening ++ turn "a" 0 [.user 0 .return_, .request 0] ++ lastTurn "a" 0 v ++
    turn "b" 1 [.user 1 .return_, .request 1] ++ lastTurn "b" 1 (.obj []) ++
    [.cleanup false, .cleanupWake false false, .cleanupTorn false false]

/-- An object with a text that is no UTF-8. -/
def mojibake : Json := .obj [("x", .str "\xff")]

theorem returning_mojibake : (sampleRun (returning mojibake)).map (fun x =>
      (x.state.report.passed, x.state.report.decisions, x.state.observations.length)) =
    some (true, 4, 4) := by decide +kernel

/-- With that observation the report passes without it. -/
theorem passing_report_unobserved : ¬∀ x, (lts Compact.lib).Reach x → x.state.report.passed = true →
    x.state.observations.length = x.state.report.decisions + 1 := by
  intro h
  obtain ⟨x, hx, e⟩ := Option.map_eq_some_iff.mp returning_mojibake
  simp only [Prod.mk.injEq] at e
  obtain ⟨hp, hd, ho⟩ := e
  have := h x (reach_sampleRun hx) hp
  rw [hd, ho] at this
  cases this

/-- All observations a run makes are valid UTF-8. -/
def utf8Observed (_ : Sys) : Choice → Bool
  | .observed (some v) _ _ _ => v.utf8
  | _ => true

theorem textObserved_of_utf8 (x : Sys) (c : Choice) (h : utf8Observed x c = true) :
    TextObserved x c := by
  unfold TextObserved
  split
  · exact fun _ _ _ _ _ => h
  · trivial

theorem returning_passes : (((lts Compact.lib).exec utf8Observed (returning (.obj []))
    sampleStart).map
      fun x => (x.state.report.passed, x.state.report.decisions)) = some (true, 4) := by
  decide +kernel

theorem passing_report_returning : ∃ x : Sys, x.state.report.passed = true ∧
    x.state.report.decisions = 4 ∧ x.impl.teardowns = [true] ∧ x.state.observations.length = 5 := by
  obtain ⟨x, hx, e⟩ := Option.map_eq_some_iff.mp returning_passes
  simp only [Prod.mk.injEq] at e
  have hr : (lts Compact.lib).ReachBy TextObserved x :=
    .exec textObserved_of_utf8 (.init ⟨sampleAdapter, {}, false, false, rfl⟩) hx
  obtain ⟨-, -, h⟩ := passing_report hr
  obtain ⟨-, -, ht, -, ho⟩ := h e.1
  exact ⟨x, e.1, e.2, ht, by rw [ho, e.2]⟩

end Sys

end MirrorCpp.Sync
