import MirrorCpp.Sync.Book

/-!
# What an execution never takes back

The first failure, its failure graph and the two budget flags stay (`Sticky`); nothing is granted
behind a failure or behind `cleanup`; and the teardown runs once, behind the last join (`Torn`).
All of it holds across any sequence of client calls and any interleaving.
-/

namespace MirrorCpp.Sync

open State

/-- What is recorded of a failure stays recorded, and a failure cancels. -/
structure Sticky (s t : State) : Prop where
  failure : s.report.outcome ≠ .completed →
    t.report.outcome = s.report.outcome ∧ t.failureGraph = s.failureGraph
  execution : s.report.executionBudgetExceeded = true → t.report.executionBudgetExceeded = true
  cleanup : s.report.cleanupBudgetExceeded = true → t.report.cleanupBudgetExceeded = true
  cancelled : s.cancelled = true → t.cancelled = true
  cancels : t.report.outcome ≠ .completed → s.report.outcome ≠ .completed ∨ t.cancelled = true

namespace Sticky

variable {s t u : State} {d : Bool}

theorem of_report (ho : t.report.outcome = s.report.outcome) (hg : t.failureGraph = s.failureGraph)
    (he : s.report.executionBudgetExceeded = true → t.report.executionBudgetExceeded = true)
    (hc : s.report.cleanupBudgetExceeded = true → t.report.cleanupBudgetExceeded = true)
    (hx : s.cancelled = true → t.cancelled = true) : Sticky s t :=
  ⟨fun _ => ⟨ho, hg⟩, he, hc, hx, fun h => .inl (ho ▸ h)⟩

theorem refl (s : State) : Sticky s s := of_report rfl rfl id id id

theorem trans (h : Sticky s t) (h' : Sticky t u) : Sticky s u where
  failure hs := by
    obtain ⟨ho, hg⟩ := h.failure hs
    obtain ⟨ho', hg'⟩ := h'.failure (ho ▸ hs)
    exact ⟨ho'.trans ho, hg'.trans hg⟩
  execution hs := h'.execution (h.execution hs)
  cleanup hs := h'.cleanup (h.cleanup hs)
  cancelled hs := h'.cancelled (h.cancelled hs)
  cancels hu := by
    rcases h'.cancels hu with ht | hc
    · exact (h.cancels ht).imp_right h'.cancelled
    · exact .inr hc

theorem fail (s : State) (o : Outcome) (w : String) : Sticky s (s.fail o w) := by
  refine ⟨fun hs => ?_, fun hs => ?_, fun hs => ?_, fun _ => rfl, fun _ => .inr rfl⟩ <;>
    unfold State.fail <;> dsimp only
  · rw [if_neg hs]; exact ⟨rfl, rfl⟩
  all_goals
    split
    · exact hs
    · exact hs

theorem steady : Steady d Sticky where
  same h := of_report h.outcome h.failureGraph (fun hs => h.execution.trans hs)
    (fun hs => h.cleanup.trans hs) fun hs => h.cancelled.trans hs
  trans h h' := h.trans h'
  fail s _ w _ := fail s _ w
  budget _ := of_report rfl rfl (fun _ => rfl) id id

theorem cleanupExpired (s : State) : Sticky s s.cleanupExpired :=
  trans (t := { s with report := { s.report with cleanupBudgetExceeded := true } })
    (of_report rfl rfl id (fun _ => rfl) id) (fail _ _ _)

theorem setCleanup (s : State) (c : Cleanup) : Sticky s (Sys.setCleanup s c) :=
  of_report rfl rfl id id id

theorem cleanupCall (x : Sys) (late : Bool) : Sticky x.state (x.cleanup late).state := by
  have hexp := (steady (d := true)).executionExpired x.state late
    "execution deadline before cleanup"
  have hcancel : ∀ s : State, Sticky s { s with cancelled := true } := fun s =>
    of_report rfl rfl id id fun _ => rfl
  simp only [Sys.cleanup]
  split
  · exact refl _
  split
  · split
    · exact (hexp.trans (fail _ _ _)).trans (hcancel _)
    · exact hexp.trans (hcancel _)
  · exact hcancel _

theorem cleanupNext (x : Sys) (late : Bool) : Sticky x.state (x.cleanupNext late).state := by
  have hexp := (cleanupExpired x.state).trans (setCleanup _ .incomplete)
  unfold Sys.cleanupNext
  split
  · split
    · exact hexp
    · exact refl _
  split
  · split
    · exact hexp
    · exact refl _
  · exact setCleanup _ _

theorem cleanupJoined (x : Sys) (i : Nat) (l₁ l₂ : Bool) :
    Sticky x.state (x.cleanupJoined i l₁ l₂).state := by
  cases l₁ with
  | false => exact cleanupNext (x.joined i) l₂
  | true =>
    exact (cleanupExpired x.state).trans
      (cleanupNext { x.joined i with state := x.state.cleanupExpired } l₂)

theorem cleanupTorn (x : Sys) (threw late : Bool) :
    Sticky x.state (x.cleanupTorn threw late).state := by
  have hs : (if x.impl.program.teardown then x.tornDown threw else x).state = x.state := by
    split <;> rfl
  simp only [Sys.cleanupTorn]
  cases late with
  | false => exact hs ▸ setCleanup _ _
  | true => exact hs ▸ (cleanupExpired _).trans (setCleanup _ _)

end Sticky

/-- In the program's teardown. -/
def Ctl.tears : Ctl → Bool
  | .tearing | .destroyTearing => true
  | _ => false

/-- In the constructor's thread loop, or in or behind the destructor's teardown. -/
def Ctl.marked : Ctl → Bool
  | .spawning | .destroyTearing | .destroyed => true
  | _ => false

namespace Sys

variable {lib : JsonLib} {x y z : Sys} {i j : Nat} {c : Choice}

/-! ## The failure -/

theorem sticky_step (h : x.step lib c = some y) : Sticky x.state y.state := by
  cases hc : c.ends with
  | false => exact steady_step Sticky.steady hc h
  | true =>
    cases c <;> simp only [Choice.ends, Bool.false_eq_true] at hc <;>
      simp only [step] at h
    case cleanupJoined l₁ l₂ =>
      split at h
      · simp only [Option.ite_none_right_eq_some, Option.some.injEq] at h
        obtain ⟨-, rfl⟩ := h
        exact .cleanupJoined _ _ _ _
      · cases h
    all_goals
      simp only [Option.ite_none_right_eq_some, Option.some.injEq] at h
      obtain ⟨-, rfl⟩ := h
    case cleanup late => exact .cleanupCall _ _
    case destroy => exact .of_report rfl rfl id id fun _ => rfl
    case cleanupWake timeout late =>
      unfold cleanupWake
      split
      · exact (Sticky.cleanupExpired _).trans (.setCleanup _ _)
      · exact .cleanupNext _ _
    case cleanupTorn threw late => exact .cleanupTorn _ _ _
    case destroyJoin i => exact .refl _
    case destroyEnd =>
      unfold destroyEnd
      split <;> exact .refl _
    case destroyTorn threw => exact .refl _

theorem sticky_path {C : Sys → Choice → Prop} (h : (lts lib).Path C x y) :
    Sticky x.state y.state := by
  induction h with
  | refl => exact .refl _
  | tail _ _ hs ih => exact ih.trans (sticky_step hs)

/-- What has failed is cancelled. -/
theorem cancelled_of_failed (h : (lts lib).Reach x) (ho : x.state.report.outcome ≠ .completed) :
    x.state.cancelled = true := by
  refine h.inv (P := fun x => x.state.report.outcome ≠ .completed → x.state.cancelled = true)
    (fun s hi hs => ?_) (fun s c t ih _ hs ht => ?_) ho
  · rcases (initial_of_init hi).start with ⟨hc, -, -, -⟩ | ⟨-, ho, -⟩
    · exact hc
    · exact absurd ho hs
  · have hst := sticky_step hs
    rcases hst.cancels ht with h' | h'
    · exact hst.cancelled (ih h')
    · exact h'

/-- `cleanup` cancels, or finds the run cancelled. -/
theorem cancelled_of_cleanup (h : (lts lib).Reach x) {late : Bool}
    (hs : x.step lib (.cleanup late) = some y) : y.state.cancelled = true := by
  simp only [step, Option.ite_none_right_eq_some, Option.some.injEq] at hs
  obtain ⟨-, rfl⟩ := hs
  unfold cleanup
  dsimp only
  split
  · rename_i hcl
    -- the report of a live run has no cleanup yet
    cases hc : x.state.cancelled with
    | true => rfl
    | false =>
      have := ((book_reach h).1 hc).untouched.cleanup
      rw [this] at hcl
      rcases hcl with hcl | hcl <;> cases hcl
  · rfl

/-- A cancelled run is granted nothing. -/
theorem advance_refused {actor : String} {late : Bool} (hc : x.state.cancelled = true)
    (hs : x.step lib (.advance actor late) = some y) :
    y.ctl = .idle ∧ y.state.events = x.state.events ∧
      y.state.report.decisions = x.state.report.decisions := by
  simp only [step, Option.ite_none_right_eq_some, Option.some.injEq] at hs
  obtain ⟨hctl, rfl⟩ := hs
  have hexp : ∀ {b t}, x.state.executionExpired late "execution deadline before decision" = (b, t) →
      t.cancelled = true ∧ t.events = x.state.events ∧
        t.report.decisions = x.state.report.decisions := by
    intro b t e
    unfold executionExpired at e
    split at e
    · cases e; exact ⟨hc, rfl, rfl⟩
    · cases e
      refine ⟨rfl, ?_, ?_⟩ <;> unfold State.fail <;> dsimp only <;> split <;> rfl
  simp only [advance]
  generalize he : x.state.executionExpired late "execution deadline before decision" = e
  obtain ⟨b, t⟩ := e
  obtain ⟨ht, hev, hdec⟩ := hexp he
  simp only [ht, Bool.or_true, if_true]
  exact ⟨hctl, hev, hdec⟩

/-! ## The teardown -/

/-- Where the teardown stands. -/
structure Torn (x : Sys) : Prop where
  spawning : x.ctl = .spawning → x.impl.teardownAttempted = false
  untouched : x.impl.teardownAttempted = false → x.impl.teardowns = [] ∧ x.ctl.tears = false
  joined : x.impl.teardownAttempted = true → x.impl.workers.all (!·) = true
  running : x.ctl.tears = true → x.impl.teardowns = []
  present : x.ctl = .destroyTearing → x.impl.program.teardown = true
  ran : x.impl.teardownAttempted = true → x.ctl.tears = false →
    x.impl.program.teardown = true → x.impl.teardowns.length = 1
  once : x.impl.teardowns.length ≤ 1
  destroyed : x.ctl = .destroyed → x.impl.acquired = true → x.impl.program.teardown = true →
    x.impl.teardownAttempted = true

/-- A worker's section is none of the controller's. -/
theorem worker_frame (h : x.workerStep lib i c = some y) : y.impl = x.impl ∧ y.ctl = x.ctl := by
  unfold workerStep at h
  split at h
  · split at h <;> cases h; exact ⟨rfl, rfl⟩
  · split at h <;> cases h; exact ⟨rfl, rfl⟩
  · split at h
    · split at h <;> cases h; exact ⟨rfl, rfl⟩
    · cases h
  · split at h <;> cases h; exact ⟨rfl, rfl⟩
  · split at h <;> cases h <;> exact ⟨rfl, rfl⟩
  · split at h <;> cases h; exact ⟨rfl, rfl⟩
  · split at h <;> cases h; exact ⟨rfl, rfl⟩
  · split at h <;> cases h; exact ⟨rfl, rfl⟩
  · cases h

/-- `advance` leaves the controller where it is, or waiting for the granted actor. -/
theorem advance_frame (x : Sys) (actor : String) (late : Bool) :
    (x.advance lib actor late).impl = x.impl ∧ ((x.advance lib actor late).ctl = x.ctl ∨
      ∃ i v, (x.advance lib actor late).ctl = .granted i v) := by
  simp only [Sys.advance]
  split
  · exact ⟨rfl, .inl rfl⟩
  split
  · exact ⟨rfl, .inl rfl⟩
  split
  · exact ⟨rfl, .inl rfl⟩
  split
  · exact ⟨rfl, .inl rfl⟩
  · exact ⟨rfl, .inl rfl⟩
  · exact ⟨rfl, .inr ⟨_, _, rfl⟩⟩

/-- The step is none of the teardown's. -/
structure Keeps (x y : Sys) : Prop where
  program : y.impl.program = x.impl.program
  acquired : y.impl.acquired = x.impl.acquired
  attempted : y.impl.teardownAttempted = x.impl.teardownAttempted
  teardowns : y.impl.teardowns = x.impl.teardowns
  workers : x.ctl ≠ .spawning → x.impl.workers.all (!·) = true → y.impl.workers.all (!·) = true
  tears : y.ctl.tears = x.ctl.tears
  marked : y.ctl.marked = true → y.ctl = x.ctl

namespace Keeps

theorem of_impl (hi : y.impl = x.impl) (ht : y.ctl.tears = x.ctl.tears)
    (hm : y.ctl.marked = true → y.ctl = x.ctl) : Keeps x y where
  program := hi ▸ rfl
  acquired := hi ▸ rfl
  attempted := hi ▸ rfl
  teardowns := hi ▸ rfl
  workers _ h := hi ▸ h
  tears := ht
  marked := hm

theorem same (hi : y.impl = x.impl) (hc : y.ctl = x.ctl) : Keeps x y :=
  of_impl hi (by rw [hc]) fun _ => hc

/-- Between two places that are neither in a teardown nor marked. -/
theorem plain (hi : y.impl = x.impl) (hx : x.ctl.tears = false)
    (hy : y.ctl.tears = false ∧ y.ctl.marked = false) : Keeps x y :=
  of_impl hi (hy.1.trans hx.symm) fun h => by rw [hy.2] at h; cases h

theorem plain_ite {c d : Ctl} {p : Prop} [Decidable p] (hc : c.tears = false ∧ c.marked = false)
    (hd : d.tears = false ∧ d.marked = false) :
    (if p then c else d).tears = false ∧ (if p then c else d).marked = false := by
  split <;> assumption

/-- Joining a thread. -/
theorem joined (x : Sys) (i : Nat) : Keeps x (x.joined i) where
  program := rfl
  acquired := rfl
  attempted := rfl
  teardowns := rfl
  workers _ h := by
    simp only [List.all_eq_true] at h ⊢
    intro b hb
    rcases List.mem_or_eq_of_mem_set hb with hb | rfl
    · exact h b hb
    · rfl
  tears := rfl
  marked _ := rfl

theorem trans (h : Keeps x y) (h' : Keeps y z) (hy : y.ctl ≠ .spawning) : Keeps x z where
  program := h'.program.trans h.program
  acquired := h'.acquired.trans h.acquired
  attempted := h'.attempted.trans h.attempted
  teardowns := h'.teardowns.trans h.teardowns
  workers hx hw := h'.workers hy (h.workers hx hw)
  tears := h'.tears.trans h.tears
  marked hm := by
    have e := h'.marked hm
    exact e.trans (h.marked (e ▸ hm))

theorem spawn (hctl : x.ctl = .spawning) (created : Bool) : Keeps x (x.spawn created) := by
  unfold Sys.spawn
  cases created with
  | false => exact plain rfl (by rw [hctl]; rfl) ⟨rfl, rfl⟩
  | true =>
    dsimp only [if_true]
    by_cases hlast : x.impl.workers.length + 1 = x.state.actors.length
    · simp only [hlast, if_true]
      exact ⟨rfl, rfl, rfl, rfl, fun hn => absurd hctl hn, by rw [hctl]; rfl, fun h => by cases h⟩
    · simp only [hlast, if_false]
      exact ⟨rfl, rfl, rfl, rfl, fun hn => absurd hctl hn, by rw [hctl]; rfl, fun _ => hctl.symm⟩

theorem advance (hctl : x.ctl = .idle) (actor : String) (late : Bool) :
    Keeps x (x.advance lib actor late) := by
  obtain ⟨hi, hc | ⟨i, v, hc⟩⟩ := @advance_frame lib x actor late
  · exact same hi hc
  · exact of_impl hi (by rw [hc, hctl]; rfl) (by rw [hc]; simp [Ctl.marked])

theorem worker (h : x.workerStep lib i c = some y) : Keeps x y :=
  same (worker_frame h).1 (worker_frame h).2

theorem step (hc : c.ends = false) (h : x.step lib c = some y) : Keeps x y := by
  cases c with
  | cleanup | destroy | cleanupWake | cleanupJoined | cleanupTorn | destroyJoin | destroyEnd
  | destroyTorn => cases hc
  | register i | request i | wake i | user i c | stop i | release i | caught i | close i =>
    simp only [Sys.step, Option.ite_none_right_eq_some] at h
    exact worker h.2
  | enabled late | foreignRequest i k p | foreignRelease i r =>
    simp only [Sys.step, Option.ite_none_right_eq_some, Option.some.injEq] at h
    obtain ⟨-, rfl⟩ := h
    exact same rfl rfl
  | advance actor late =>
    simp only [Sys.step, Option.ite_none_right_eq_some, Option.some.injEq] at h
    obtain ⟨hctl, rfl⟩ := h
    exact advance hctl _ _
  | spawn created =>
    simp only [Sys.step, Option.ite_none_right_eq_some, Option.some.injEq] at h
    obtain ⟨hctl, rfl⟩ := h
    exact spawn hctl created
  | barrier timeout late =>
    simp only [Sys.step, Option.ite_none_right_eq_some, Option.some.injEq] at h
    obtain ⟨⟨hctl, -⟩, rfl⟩ := h
    exact plain rfl (by rw [hctl]; rfl) (plain_ite ⟨rfl, rfl⟩ ⟨rfl, rfl⟩)
  | observe late =>
    simp only [Sys.step] at h
    split at h
    · rename_i k hctl
      cases h
      unfold observeEnter
      dsimp only
      split <;> refine ⟨rfl, rfl, rfl, rfl, fun _ h => h, ?_, ?_⟩ <;>
        simp [hctl, Ctl.tears, Ctl.marked]
    · cases h
  | observed value l₁ l₂ l₃ =>
    simp only [Sys.step] at h
    split at h
    · rename_i k hctl
      cases h
      unfold observeLeave
      dsimp only
      split
      · refine ⟨rfl, rfl, rfl, rfl, fun _ h => h, ?_, ?_⟩ <;> simp [hctl, Ctl.tears, Ctl.marked]
      · refine ⟨rfl, rfl, rfl, rfl, fun _ h => h, ?_, ?_⟩ <;> cases k <;>
          simp [hctl, Ctl.tears, Ctl.marked, Caller.onThrow]
    · cases h
  | granted timeout l₁ l₂ =>
    simp only [Sys.step] at h
    split at h
    · rename_i j v hctl
      simp only [Option.ite_none_right_eq_some, Option.some.injEq] at h
      obtain ⟨-, rfl⟩ := h
      have hx : x.ctl.tears = false := by rw [hctl]; rfl
      simp only [advanceWake]
      generalize (if timeout then x.state.fail .timedOut
        "actor did not reach resource boundary" else x.state) = s₀
      split
      · exact plain rfl hx ⟨rfl, rfl⟩
      split
      · exact plain rfl hx (plain_ite ⟨rfl, rfl⟩ ⟨rfl, rfl⟩)
      · exact plain rfl hx ⟨rfl, rfl⟩
    · cases h
  | joined late =>
    simp only [Sys.step] at h
    split at h
    · rename_i j hctl
      simp only [Option.ite_none_right_eq_some, Option.some.injEq] at h
      obtain ⟨-, rfl⟩ := h
      have hj := joined x j
      have hctl' : (x.joined j).ctl = .joining j := hctl
      exact hj.trans (plain rfl (by rw [hctl']; rfl) (plain_ite ⟨rfl, rfl⟩ ⟨rfl, rfl⟩))
        (by simp [hctl'])
    · cases h

end Keeps

namespace Torn

theorem keep (h : Torn x) (k : Keeps x y) : Torn y where
  spawning hy := by
    have e := k.marked (hy ▸ rfl)
    exact k.attempted.trans (h.spawning (e ▸ hy))
  untouched ha := by
    have := h.untouched (k.attempted ▸ ha)
    exact ⟨k.teardowns.trans this.1, k.tears.trans this.2⟩
  joined ha := by
    have hx := k.attempted ▸ ha
    exact k.workers (fun hctl => by rw [h.spawning hctl] at hx; cases hx) (h.joined hx)
  running ht := k.teardowns.trans (h.running (k.tears ▸ ht))
  present hy := by
    have e := k.marked (hy ▸ rfl)
    exact k.program ▸ h.present (e ▸ hy)
  ran ha ht hp := by
    rw [k.teardowns]
    exact h.ran (k.attempted ▸ ha) (k.tears ▸ ht) (k.program ▸ hp)
  once := k.teardowns ▸ h.once
  destroyed hy hacq hp := by
    have e := k.marked (hy ▸ rfl)
    exact k.attempted.trans (h.destroyed (e ▸ hy) (k.acquired ▸ hacq) (k.program ▸ hp))

theorem init (hi : (lts lib).init x) : Torn x := by
  have H := initial_of_init hi
  obtain ⟨ha, ht, -⟩ := H.untorn
  have hctl : x.ctl = .idle ∨ x.ctl = .spawning :=
    H.start.imp (fun h => h.2.2.2) fun h => h.2.2.2.2.2
  have htears : x.ctl.tears = false := by rcases hctl with h | h <;> rw [h] <;> rfl
  have hmarked : x.ctl ≠ .destroyTearing ∧ x.ctl ≠ .destroyed := by
    rcases hctl with h | h <;> rw [h] <;> simp
  exact {
    spawning := fun _ => ha
    untouched := fun _ => ⟨ht, htears⟩
    joined := fun h => by rw [ha] at h; cases h
    running := fun _ => ht
    present := fun h => absurd h hmarked.1
    ran := fun h => by rw [ha] at h; cases h
    once := by rw [ht]; simp
    destroyed := fun h => absurd h hmarked.2 }

/-- `cleanup` between two released locks: it may enter the teardown, behind the last join. -/
theorem cleanupNext (h : Torn x) (ht : x.ctl.tears = false) (late : Bool) :
    Torn (x.cleanupNext late) := by
  have hkeep : ∀ {y : Sys}, y.impl = x.impl → y.ctl.tears = false → y.ctl.marked = false →
      Torn y := fun hi h₁ h₂ => h.keep (.of_impl hi (h₁.trans ht.symm) (by simp [h₂]))
  unfold Sys.cleanupNext
  split
  · split
    · exact hkeep rfl rfl rfl
    · exact hkeep rfl rfl rfl
  rename_i hw
  split
  · rename_i hacq
    simp only [Bool.and_eq_true, Bool.not_eq_true'] at hacq
    split
    · exact hkeep rfl rfl rfl
    have hnone := (h.untouched hacq.2).1
    have hall : x.impl.workers.all (!·) = true := by
      simp only [List.findIdx?_eq_none_iff, id_eq] at hw
      simpa using hw
    exact {
      spawning := fun e => by cases e
      untouched := fun e => by cases e
      joined := fun _ => hall
      running := fun _ => hnone
      present := fun e => by cases e
      ran := fun _ e => by cases e
      once := by rw [show _ = [] from hnone]; simp
      destroyed := fun e => by cases e }
  · exact hkeep rfl rfl rfl

/-- The destructor behind its joins: it enters the teardown unless that has been tried. -/
theorem destroyEnd (h : Torn x) (ht : x.ctl.tears = false)
    (hall : x.impl.workers.all (!·) = true) : Torn x.destroyEnd := by
  unfold Sys.destroyEnd
  split
  · rename_i hacq
    simp only [Bool.and_eq_true, Bool.not_eq_true'] at hacq
    have hnone := (h.untouched hacq.1.2).1
    exact {
      spawning := fun e => by cases e
      untouched := fun e => by cases e
      joined := fun _ => hall
      running := fun _ => hnone
      present := fun _ => hacq.2
      ran := fun _ e => by cases e
      once := by rw [show _ = [] from hnone]; simp
      destroyed := fun e => by cases e }
  · rename_i hacq
    exact {
      spawning := fun e => by cases e
      untouched := fun ha => ⟨(h.untouched ha).1, rfl⟩
      joined := h.joined
      running := fun e => by cases e
      present := fun e => by cases e
      ran := fun ha _ hp => h.ran ha ht hp
      once := h.once
      destroyed := fun _ hq hp => by
        cases ha : x.impl.teardownAttempted with
        | true => rfl
        | false => exact absurd (by simp [show x.impl.acquired = true from hq, ha,
            show x.impl.program.teardown = true from hp]) hacq }

/-- The teardown has returned, or was missing. -/
theorem torn (h : Torn x) (ht : x.ctl.tears = true) {impl : Impl} {ctl : Ctl} {s : State}
    (hi : impl.acquired = x.impl.acquired ∧ impl.program = x.impl.program ∧
      impl.teardownAttempted = x.impl.teardownAttempted ∧ impl.workers = x.impl.workers)
    (hts : impl.teardowns.length = if x.impl.program.teardown then 1 else 0)
    (hc : ctl = .idle ∨ ctl = .destroyed) : Torn ⟨s, impl, x.pcs, ctl⟩ := by
  obtain ⟨-, hp, ha, hw⟩ := hi
  have hat : x.impl.teardownAttempted = true := by
    cases hat : x.impl.teardownAttempted with
    | true => rfl
    | false => rw [(h.untouched hat).2] at ht; cases ht
  have hctl : ctl.tears = false := by rcases hc with rfl | rfl <;> rfl
  exact {
    spawning := fun e => by rcases hc with rfl | rfl <;> cases e
    untouched := fun e => by rw [show impl.teardownAttempted = _ from ha, hat] at e; cases e
    joined := fun _ => by rw [show impl.workers = _ from hw]; exact h.joined hat
    running := fun e => by rw [show ctl.tears = _ from hctl] at e; cases e
    present := fun e => by rcases hc with rfl | rfl <;> cases e
    ran := fun _ _ e => by
      rw [show impl.program.teardown = _ from congrArg _ hp] at e
      rw [show impl.teardowns.length = _ from hts, if_pos e]
    once := by rw [show impl.teardowns.length = _ from hts]; split <;> omega
    destroyed := fun _ _ _ => ha.trans hat }

theorem step (h : Torn x) (hs : x.step lib c = some y) : Torn y := by
  cases c with
  | cleanup late =>
    simp only [Sys.step, Option.ite_none_right_eq_some, Option.some.injEq] at hs
    obtain ⟨hctl, rfl⟩ := hs
    refine h.keep ?_
    unfold Sys.cleanup
    dsimp only
    split
    · exact .same rfl rfl
    · exact .plain rfl (by rw [hctl]; rfl) ⟨rfl, rfl⟩
  | destroy =>
    simp only [Sys.step, Option.ite_none_right_eq_some, Option.some.injEq] at hs
    obtain ⟨hctl, rfl⟩ := hs
    exact h.keep (.plain rfl (by rw [hctl]; rfl) ⟨rfl, rfl⟩)
  | cleanupWake timeout late =>
    simp only [Sys.step, Option.ite_none_right_eq_some, Option.some.injEq] at hs
    obtain ⟨⟨hctl, -⟩, rfl⟩ := hs
    unfold Sys.cleanupWake
    split
    · exact h.keep (.plain rfl (by rw [hctl]; rfl) ⟨rfl, rfl⟩)
    · exact h.cleanupNext (by rw [hctl]; rfl) late
  | cleanupJoined l₁ l₂ =>
    simp only [Sys.step] at hs
    split at hs
    · rename_i j hctl
      simp only [Option.ite_none_right_eq_some, Option.some.injEq] at hs
      obtain ⟨-, rfl⟩ := hs
      have ht : (x.joined j).ctl.tears = false := by rw [show (x.joined j).ctl = _ from hctl]; rfl
      have hj := h.keep (.joined x j)
      cases l₁ with
      | false => exact hj.cleanupNext ht l₂
      | true =>
        have hj' : Torn { x.joined j with state := x.state.cleanupExpired } :=
          hj.keep (.same rfl rfl)
        exact hj'.cleanupNext ht l₂
    · cases hs
  | cleanupTorn threw late =>
    simp only [Sys.step, Option.ite_none_right_eq_some, Option.some.injEq] at hs
    obtain ⟨hctl, rfl⟩ := hs
    have hnone := h.running (by rw [hctl]; rfl)
    have ht : x.ctl.tears = true := by rw [hctl]; rfl
    unfold Sys.cleanupTorn Sys.cleanupEnd
    cases hp : x.impl.program.teardown <;> cases late <;>
      exact h.torn ht ⟨rfl, rfl, rfl, rfl⟩ (by simp [tornDown, hnone, hp]) (.inl rfl)
  | destroyJoin i =>
    simp only [Sys.step, Option.ite_none_right_eq_some, Option.some.injEq] at hs
    obtain ⟨-, rfl⟩ := hs
    exact h.keep (.joined x i)
  | destroyEnd =>
    simp only [Sys.step, Option.ite_none_right_eq_some, Option.some.injEq] at hs
    obtain ⟨⟨hctl, hall⟩, rfl⟩ := hs
    exact h.destroyEnd (by rw [hctl]; rfl) hall
  | destroyTorn threw =>
    simp only [Sys.step, Option.ite_none_right_eq_some, Option.some.injEq] at hs
    obtain ⟨hctl, rfl⟩ := hs
    have hnone := h.running (by rw [hctl]; rfl)
    exact h.torn (by rw [hctl]; rfl) ⟨rfl, rfl, rfl, rfl⟩
      (by simp [tornDown, hnone, h.present hctl]) (.inr rfl)
  | _ => exact h.keep (.step rfl hs)

theorem reach (h : (lts lib).Reach x) : Torn x :=
  h.inv (fun _ hi => init hi) fun _ _ _ ih _ hs => ih.step hs

end Torn

/-! ## The whole lifecycle -/

/-- **A failure stays.** Behind a recorded failure neither the outcome nor the captured graph
changes and the report never passes; the budget flags stay; an advance behind a failure or behind
a call of `cleanup` is refused without an event; the teardown runs at most once, while no thread is
left to join, and has run once an execution whose program has one is destroyed. -/
theorem failure_sticky (h : (lts lib).Reach x) (hp : (lts lib).Path (fun _ _ => True) x y) :
    (x.state.report.outcome ≠ .completed →
      y.state.report.outcome = x.state.report.outcome ∧
        y.state.failureGraph = x.state.failureGraph ∧ y.state.report.passed = false) ∧
    (x.state.report.executionBudgetExceeded = true →
      y.state.report.executionBudgetExceeded = true) ∧
    (x.state.report.cleanupBudgetExceeded = true →
      y.state.report.cleanupBudgetExceeded = true) ∧
    ((x.state.report.outcome ≠ .completed ∨
        ∃ w late, (lts lib).Reach w ∧ w.step lib (.cleanup late) = some x) →
      ∀ actor late z, y.step lib (.advance actor late) = some z →
        z.ctl = .idle ∧ z.state.events = y.state.events ∧
          z.state.report.decisions = y.state.report.decisions) ∧
    y.impl.teardowns.length + (if y.ctl.tears then 1 else 0) ≤ 1 ∧
    (y.impl.teardowns ≠ [] ∨ y.ctl.tears = true → y.impl.workers.all (!·) = true) ∧
    (y.ctl = .destroyed → y.impl.acquired = true → y.impl.program.teardown = true →
      y.impl.teardowns.length = 1) := by
  have hy := h.path hp
  have hst := sticky_path hp
  have ht := Torn.reach hy
  refine ⟨fun ho => ?_, hst.execution, hst.cleanup, fun hc actor late z hs => ?_, ?_,
    fun hw => ?_, fun hctl hacq hprog => ?_⟩
  · obtain ⟨ho', hg⟩ := hst.failure ho
    exact ⟨ho', hg, by simp [Report.passed, ho', ho]⟩
  · have hcx : x.state.cancelled = true := by
      rcases hc with ho | ⟨w, l, hw, hs⟩
      · exact cancelled_of_failed h ho
      · exact cancelled_of_cleanup hw hs
    exact advance_refused (hst.cancelled hcx) hs
  · split
    · rename_i htears
      rw [ht.running htears]
      simp
    · exact ht.once
  · cases ha : y.impl.teardownAttempted with
    | true => exact ht.joined ha
    | false =>
      obtain ⟨hnone, htears⟩ := ht.untouched ha
      rw [hnone, htears] at hw
      simp at hw
  · exact ht.ran (ht.destroyed hctl hacq hprog) (by rw [hctl]; rfl) hprog

/-- A decision for an actor that was never declared fails the run. -/
def refused : List Choice := opening ++ [.advance "c" false]

/-- `cleanup` gives up on the workers; the destructor joins them and calls the teardown. -/
def winding : List Choice :=
  [.cleanup false, .cleanupWake true false, .destroy, .wake 0, .wake 1, .caught 0, .close 0,
    .caught 1, .close 1, .destroyJoin 0, .destroyJoin 1, .destroyEnd, .destroyTorn false]

theorem refused_winding : (sampleRun refused).bind (fun x =>
      ((lts Compact.lib).exec (fun _ _ => true) winding x).map fun y =>
        (x.state.report.outcome, y.ctl, y.state.report.cleanup, y.impl.acquired,
          y.impl.program.teardown)) =
    some (.disabledChoice, .destroyed, .incomplete, true, true) := by decide +kernel

theorem failure_sticky_refused : ∃ x y : Sys, x.state.report.outcome = .disabledChoice ∧
    (lts Compact.lib).Path (fun _ _ => True) x y ∧ y.ctl = .destroyed ∧
    y.state.report.cleanup = .incomplete ∧ y.state.report.outcome = .disabledChoice ∧
    y.impl.teardowns.length = 1 := by
  obtain ⟨x, hx, e⟩ := Option.bind_eq_some_iff.mp refused_winding
  obtain ⟨y, hy, e⟩ := Option.map_eq_some_iff.mp e
  simp only [Prod.mk.injEq] at e
  obtain ⟨ho, hctl, hcleanup, hacq, hprog⟩ := e
  have hp : (lts Compact.lib).Path (fun _ _ => True) x y := .exec (fun _ _ _ => trivial) hy
  obtain ⟨hfail, -, -, -, -, -, hone⟩ := failure_sticky (reach_sampleRun hx) hp
  exact ⟨x, y, ho, hp, hctl, hcleanup, (hfail (by rw [ho]; simp)).1.trans ho,
    hone hctl hacq hprog⟩

end Sys

end MirrorCpp.Sync
