import MirrorCpp.Sync.Book
import MirrorCpp.Sync.Receipt

/-!
# Driving an execution by a prefix of decisions

What a client sees of one execution of a factory's program (`Maker`): `Settles` are the sections
until a call returns, `Driven` is the loop over a prefix, `Replay` a prefix replayed in full, and
`Attempted` one execution from its construction to its receipt. At a live idle point nothing
moves, so what the client asks one call after another is about one state (`Attempted.visit`).
-/

namespace MirrorCpp.Sync

open State

universe u

/-- A call of the client. -/
def Choice.call : Choice → Bool
  | .enabled _ | .advance _ _ | .cleanup _ | .destroy => true
  | _ => false

/-- A factory: the adapters it returns, with the state their programs begin in, the sections a
program allows next, and what a section does to its state. -/
structure Maker (U : Type u) where
  makes : Adapter → U → Prop
  plays : U → Sys → Choice → Prop
  next : U → Sys → Choice → U

/-- The executions of its programs. -/
def Maker.lts (lib : JsonLib) {U : Type u} (M : Maker U) : Lts (Sys × U) Choice where
  init k := ∃ a p l₁ l₂, M.makes a k.2 ∧ k.1 = Sys.construct a p l₁ l₂
  step k c := (k.1.step lib c).map fun x => (x, M.next k.2 k.1 c)

/-- What `explore` reads of one execution. -/
structure Ran where
  /-- The exploration's clock ran out before the receipt. -/
  late : Bool
  enabled : List String
  primary : Report
  cleanup : Report
  receipt : Json
  /-- It ran out while the row was retained. -/
  lateRow : Bool

namespace Sys

/-- The section does not leave its call by an exception. -/
def Returns (lib : JsonLib) (x : Sys) (c : Choice) : Prop :=
  ∀ v l₁ l₂ l₃, c = .observed v l₁ l₂ l₃ → retain lib x.state v l₁ l₂ l₃ ≠ none

/-- A section inside a call that returns, of neither `cleanup` nor the destructor. -/
structure Within (lib : JsonLib) (x : Sys) (c : Choice) : Prop where
  call : c.call = false
  ends : c.ends = false
  returns : Returns lib x c

variable (lib : JsonLib) {U : Type u} (M : Maker U) (policy : Policy)

/-- Until the client holds control. -/
def Settles (k m : Sys × U) : Prop :=
  (M.lts lib).Path (fun k c => M.plays k.2 k.1 c ∧ Within lib k.1 c) k m ∧ m.1.ctl = .idle

/-- The client makes a call. -/
def Calls (k : Sys × U) (c : Choice) (m : Sys × U) : Prop :=
  M.plays k.2 k.1 c ∧ (M.lts lib).step k c = some m

/-- The loop over a prefix, left early behind a failure and (`late`) where time is up. -/
inductive Driven (late : Bool) : Sys × U → List String → Sys × U → Prop where
  | done {k : Sys × U} : Driven late k [] k
  | cut {k : Sys × U} {p : List String} : late = true → Driven late k p k
  | failed {k : Sys × U} {p : List String} :
      k.1.state.report.outcome ≠ .completed → Driven late k p k
  | next {k m n o q : Sys × U} {actor : String} {p : List String} {l : Bool} :
      k.1.state.report.outcome = .completed → Settles lib M k m →
      Calls lib M m (.advance actor l) n → Settles lib M n o → Driven late o p q →
      Driven late k (actor :: p) q

/-- A prefix all of whose decisions were made. -/
inductive Replayed : Sys × U → List String → Sys × U → Prop where
  | done {k : Sys × U} : Replayed k [] k
  | next {k m n o q : Sys × U} {actor : String} {p : List String} {l : Bool} :
      Settles lib M k m → Calls lib M m (.advance actor l) n → Settles lib M n o →
      Replayed o p q → Replayed k (actor :: p) q

/-- One execution as `explore` drives it; `cleanup` may be at any of its exits. -/
inductive Attempted (p : List String) : Ran → Prop where
  | mk {a : Adapter} {u : U} {k₁ k₂ k₃ k₄ k₅ k₆ k₇ k₈ : Sys × U}
      {l₁ l₂ l₃ l₄ late lateRow : Bool} {id : String} :
      M.makes a u → Settles lib M (construct a policy l₁ l₂, u) k₁ → Driven lib M late k₁ p k₂ →
      Settles lib M k₂ k₃ → Calls lib M k₃ (.enabled l₃) k₄ → Settles lib M k₄ k₅ →
      Settles lib M k₅ k₆ → Calls lib M k₆ (.cleanup l₄) k₇ →
      (M.lts lib).Path (fun k c => M.plays k.2 k.1 c ∧ c.call = false) k₇ k₈ → k₈.1.ctl = .idle →
      Attempted p ⟨late, (queryEnabled k₃.1.state l₃).1, k₅.1.state.report, k₈.1.state.report,
        k₈.1.state.receipt a.identity id, lateRow⟩

/-- A fresh execution that made the decisions `p` and has not failed. -/
def Replay (p : List String) (x : Sys) : Prop :=
  x.state.report.outcome = .completed ∧ ∃ a u v l₁ l₂ k m, M.makes a u ∧
    Settles lib M (construct a policy l₁ l₂, u) k ∧ Replayed lib M k p m ∧
    Settles lib M m (x, v)

end Sys

namespace Sys

variable {lib : JsonLib} {x y z : Sys} {i j : Nat} {c : Choice} {s : State}

/-! ## Outcomes -/

/-- What is cancelled before `cleanup` and the destructor has failed. -/
theorem live_of_completed (h : (lts lib).ReachBy (fun _ c => c.ends = false) x)
    (ho : x.state.report.outcome = .completed) : x.state.cancelled = false := by
  induction h with
  | init hi =>
    rcases (initial_of_init hi).start with ⟨-, hne, -⟩ | ⟨hc, -⟩
    · exact absurd ho hne
    · exact hc
  | step _ hc hs ih =>
    obtain ⟨hox, hcx⟩ := (candid_step hc hs).completed ho
    exact hcx.trans (ih hox)

theorem candid_construct (a : Adapter) (p : Policy) (l₁ l₂ : Bool) :
    Candid false (declared a p).2 (construct a p l₁ l₂).state := by
  unfold construct
  generalize declared a p = ad
  obtain ⟨_ | detail, s⟩ := ad
  · dsimp only
    have h : Candid false s _ := .executionExpired s l₁ "execution deadline before factory"
    split
    · exact h
    cases a.factory with
    | returns prog =>
      have h' := h.trans (.executionExpired _ l₂ "execution deadline during factory")
      dsimp only
      split
      · exact h'
      split
      · exact h'.trans (.fail _ _ (by simp))
      · exact h'
    | missing | throws =>
      have hf := h.trans (.fail (o := .applicationFailed) _ "factory threw" (by simp))
      have h' := hf.trans (.executionExpired _ l₂ "execution deadline during factory")
      dsimp only
      split
      · exact h'
      split
      · exact h'.trans (.fail _ _ (by simp))
      · exact h'
  · exact .fail _ _ (by simp)

theorem executionExpired_prompt (s : State) (late : Bool) (w : String) :
    s.executionExpired late w = (false, s) ∨
      ∃ t, s.executionExpired late w = (true, t) ∧ t.report.outcome ≠ .completed := by
  cases e : s.executionExpired late w with
  | mk b t =>
    cases b
    · rcases executionExpired_cases s late w with e' | ⟨u, e', -⟩
      · exact .inl (e.symm.trans e')
      · rw [e] at e'; cases e'
    · exact .inr ⟨t, rfl, (outcome_executionExpired e).2⟩

/-- What the constructor did not refuse it took in time. -/
theorem construct_prompt {a : Adapter} {p : Policy} {l₁ l₂ : Bool}
    (ho : (construct a p l₁ l₂).state.report.outcome = .completed) :
    construct a p l₁ l₂ = construct a p false false := by
  have prompt : ∀ s w, State.executionExpired s false w = (false, s) := by simp [executionExpired]
  simp only [construct] at ho ⊢
  generalize declared a p = ad at ho ⊢
  obtain ⟨_ | detail, s⟩ := ad
  swap
  · rfl
  dsimp only at ho ⊢
  rw [prompt]
  rcases executionExpired_prompt s l₁ "execution deadline before factory" with e | ⟨t, e, ht⟩
  swap
  · rw [e] at ho
    exact absurd ho ht
  rw [e] at ho ⊢
  cases hf : a.factory
  all_goals
    simp only [hf] at ho ⊢
    rw [prompt]
    rcases executionExpired_prompt _ l₂ "execution deadline during factory" with e | ⟨t, e, ht⟩
    · rw [e]
    · rw [e] at ho
      exact absurd ho ht

/-- Only a query reports a deadlock. -/
theorem not_deadlock (h : (lts lib).ReachBy (fun _ c => c.ends = false ∧ c.queries = false) x) :
    x.state.report.outcome ≠ .controlledDeadlock := by
  induction h with
  | init hi =>
    obtain ⟨a, p, l₁, l₂, rfl⟩ := hi
    intro h
    have := (candid_construct a p l₁ l₂).deadlock rfl h
    rw [(declared_live a p).1] at this; cases this
  | step _ hc hs ih =>
    intro h
    have hcd := candid_step hc.1 hs
    rw [hc.2] at hcd
    exact ih (hcd.deadlock rfl h)

/-! ## Nothing moves at a live idle point -/

theorem idle_step (H : Handshake x) (hcx : x.state.cancelled = false) (hctl : x.ctl = .idle)
    (hcall : c.call = false) (hs : LiveStep lib x c y) :
    y.state.report = x.state.report ∧ y.state.actors = x.state.actors ∧ y.ctl = .idle := by
  have hst : x.ctl.started = true := by rw [hctl]; rfl
  -- behind the barrier a worker runs in a granted turn only
  have still : ∀ {i}, i < x.pcs.length → (∀ f p, x.pc i ≠ .waiting f p) → x.pc i ≠ .closed →
      False := fun hi hw hcl => by
    obtain ⟨v, hv⟩ := H.granted_of_running hcx hst hi (Handshake.pc_ne_waiting hw) hcl
    rw [hctl] at hv; cases hv
  have asleep : ∀ {i}, (x.state.actor i).grant = true → False := fun hg => by
    have := (H.grant hcx _ hg).1
    rw [hctl] at this; cases this
  cases hs with
  | stay => exact ⟨rfl, rfl, hctl⟩
  | foreignRelease i r hi hch => exact ⟨report_unwindRelease _ i r, by simp, hctl⟩
  | grant i actor late hch => rw [hch] at hcall; cases hcall
  | spawn ctl h | barrier h | enter k h | retain k v h | unserialised k v l₁ l₂ l₃ h
  | leave i v h | toJoin i v h | joined i h => rw [hctl] at h; cases h
  | register i hi hpc | park i f p hi hpc | user i r call hi hpc | asked i hi hpc
  | dropped i r u hi hpc | release i r hi hpc | close i hi hpc =>
    exact (still hi (by simp [hpc]) (by simp [hpc])).elim
  | result i f p hi hpc hg | unlogged i f p hi hpc hg => exact (asleep hg).elim

/-! ## Forgetting the program -/

section

variable {U : Type u} {M : Maker U} {k m n : Sys × U}

theorem step_of_step (h : (M.lts lib).step k c = some m) : k.1.step lib c = some m.1 := by
  obtain ⟨x, hx, rfl⟩ := Option.map_eq_some_iff.mp h
  exact hx

theorem Settles.path (h : Settles lib M k m) : (lts lib).Path (Within lib) k.1 m.1 :=
  h.1.lift Prod.fst fun _ _ _ hc hs => .single hc.2 (step_of_step hs)

/-- What the client reads at a live idle point stays as it was. -/
theorem Settles.idle (h : (lts lib).Reach k.1) (hctl : k.1.ctl = .idle) (hs : Settles lib M k m)
    (hc : m.1.state.cancelled = false) :
    m.1.state.report = k.1.state.report ∧ m.1.state.actors = k.1.state.actors := by
  have main : m.1.state.cancelled = false → (lts lib).Reach m.1 ∧ m.1.ctl = .idle ∧
      m.1.state.report = k.1.state.report ∧ m.1.state.actors = k.1.state.actors := by
    refine hs.path.inv (P := fun y => y.state.cancelled = false → (lts lib).Reach y ∧ y.ctl =
      .idle ∧
      y.state.report = k.1.state.report ∧ y.state.actors = k.1.state.actors)
      (fun _ => ⟨h, hctl, rfl, rfl⟩) ?_
    intro u c v ih hcall huv hcv
    have hcu := step_cancelled huv hcv
    obtain ⟨hr, hi, hrep, hact⟩ := ih hcu
    obtain ⟨h1, h2, h3⟩ := idle_step (Handshake.reach hr) hcu hi hcall.call
      (live_of_reach hr huv hcv)
    exact ⟨.step (a := c) hr trivial huv, h3, h1.trans hrep, h2.trans hact⟩
  exact (main hc).2.2

end

/-! ## The report says when all actors have finished -/

/-- Where a worker can stand before the barrier. -/
def early : Pc → Bool
  | .unborn | .born | .calling _ _ | .waiting _ _ => true
  | _ => false

/-- `report.finished` is up to date but while a granted turn lasts. -/
structure Told (x : Sys) : Prop where
  nonempty : 0 < x.state.actors.length
  early : x.ctl.started = false → ∀ i, early (x.pc i) = true
  finished : x.ctl.started = true → (∀ i v, x.ctl ≠ .granted i v) → (∀ i, x.ctl ≠ .joining i) →
    x.state.allFinished = true → x.state.report.finished = true

namespace Told

theorem init (h : Initial x) (hc : x.state.cancelled = false) : Told x := by
  rcases h.start with ⟨hcx, -⟩ | ⟨-, -, -, -, hp, hctl⟩
  · rw [hc] at hcx; cases hcx
  refine ⟨h.nonempty hc, fun _ i => ?_, fun hst => ?_⟩
  · by_cases hi : i < x.state.actors.length <;>
      simp [pc, hp, List.getD_eq_getElem?_getD, hi, Sys.early]
  · rw [hctl] at hst; cases hst

/-- A worker's section: behind the barrier it is that of the granted actor. -/
theorem worker {t : State} {p' : Pc} (h : Told x) (hl : t.actors.length = x.state.actors.length)
    (hearly : x.ctl.started = false → Sys.early p' = true)
    (hst : x.ctl.started = true → ∃ v, x.ctl = .granted i v) :
    Told ({ x with state := t }.setPc i p') where
  nonempty := hl.symm ▸ h.nonempty
  early hs j := by
    rw [pc_setPc]
    split
    · exact hearly hs
    · exact h.early hs j
  finished hs hg := by
    obtain ⟨v, hv⟩ := hst hs
    exact absurd hv (hg i v)

theorem step (H : Handshake x) (hcx : x.state.cancelled = false) (h : Told x)
    (hs : LiveStep lib x c y) : Told y := by
  -- behind the barrier a worker runs in its granted turn
  have turn : ∀ {i}, i < x.pcs.length → (∀ f p, x.pc i ≠ .waiting f p) → x.pc i ≠ .closed →
      x.ctl.started = true → ∃ v, x.ctl = .granted i v := fun hi hw hcl hst =>
    H.granted_of_running hcx hst hi (Handshake.pc_ne_waiting hw) hcl
  -- before it no worker is that far
  have never : ∀ {i}, Sys.early (x.pc i) = false → x.ctl.started = false → False :=
    fun he hst => by rw [h.early hst] at he; cases he
  cases hs with
  | stay => exact h
  | spawn ctl hctl hctl' =>
    refine ⟨h.nonempty, fun _ j => ?_, fun hst => ?_⟩
    · change Sys.early ((x.setPc x.impl.workers.length .born).pc j) = true
      rw [pc_setPc]
      split
      · rfl
      · exact h.early (by rw [hctl]; rfl) j
    · rw [hctl'] at hst; cases hst
  | barrier hctl hall =>
    refine ⟨h.nonempty, by rintro ⟨⟩, fun _ _ _ hf => ?_⟩
    have hcl := (H.closed 0).mp (allFinished_iff.mp hf 0 h.nonempty)
    exact (never (by rw [hcl]; rfl) (by rw [hctl]; rfl)).elim
  | enter k hctl => exact ⟨h.nonempty, by rintro ⟨⟩, fun _ _ _ =>
      h.finished (by simp [hctl, Ctl.started]) (by simp [hctl]) (by simp [hctl])⟩
  | retain k v hctl => exact ⟨h.nonempty, by rintro ⟨⟩, fun _ _ _ =>
      h.finished (by simp [hctl, Ctl.started]) (by simp [hctl]) (by simp [hctl])⟩
  | unserialised k v l₁ l₂ l₃ hctl =>
    refine ⟨h.nonempty, fun hst => ?_, fun _ _ _ =>
      h.finished (by simp [hctl, Ctl.started]) (by simp [hctl]) (by simp [hctl])⟩
    cases k <;> cases hst
  | grant i actor late hch hctl hi he =>
    refine ⟨by simpa [grantTo, setActor] using h.nonempty, by rintro ⟨⟩, fun _ hg => ?_⟩
    exact absurd rfl (hg i _)
  | leave | joined => exact ⟨h.nonempty, by rintro ⟨⟩, fun _ _ _ hf => hf⟩
  | toJoin i => exact ⟨h.nonempty, by rintro ⟨⟩, fun _ _ hj => absurd rfl (hj i)⟩
  | register i hi hpc =>
    exact h.worker (by simp [registerThread, setActor]) (fun _ => rfl)
      (turn hi (by simp [hpc]) (by simp [hpc]))
  | park i f p hi hpc =>
    exact h.worker (by simp [State.park, setActor]) (fun _ => rfl)
      (turn hi (by simp [hpc]) (by simp [hpc]))
  | result i f p hi hpc hg =>
    refine h.worker ?_ (fun hst => ?_) fun _ => ⟨_, (H.grant hcx i hg).1⟩
    · change ((woken x.state i).takeEffect i p).2.actors.length = _
      simp [woken, setActor]
    · rw [(H.grant hcx i hg).1] at hst; cases hst
  | unlogged i f p hi hpc hg =>
    refine h.worker ?_ (fun hst => ?_) fun _ => ⟨_, (H.grant hcx i hg).1⟩
    · simp [woken, setActor]
    · rw [(H.grant hcx i hg).1] at hst; cases hst
  | user i r call hi hpc =>
    exact h.worker (t := x.state) rfl (fun hst => (never (by rw [hpc]; rfl) hst).elim)
      (turn hi (by simp [hpc]) (by simp [hpc]))
  | asked i hi hpc =>
    exact h.worker (t := x.state) rfl (fun hst => (never (by rw [hpc]; rfl) hst).elim)
      (turn hi (by simp [hpc]) (by simp [hpc]))
  | dropped i r u hi hpc =>
    exact h.worker (t := x.state) rfl (fun hst => (never (by rw [hpc]; rfl) hst).elim)
      (turn hi (by simp [hpc]) (by simp [hpc]))
  | release i r hi hpc =>
    exact h.worker (by simp) (fun hst => (never (by rw [hpc]; rfl) hst).elim)
      (turn hi (by simp [hpc]) (by simp [hpc]))
  | close i hi hpc =>
    exact h.worker (by simp [finish, setActor]) (fun hst => (never (by rw [hpc]; rfl) hst).elim)
      (turn hi (by simp [hpc]) (by simp [hpc]))
  | foreignRelease i r hi =>
    refine ⟨by simpa using h.nonempty, h.early, fun hst hg hj hf => ?_⟩
    change (x.state.unwindRelease i r).report.finished = true
    rw [report_unwindRelease]
    exact h.finished hst hg hj (by simpa [allFinished] using hf)

theorem reach (h : (lts lib).Reach x) : x.state.cancelled = false → Told x := by
  induction h with
  | init hi => exact init (initial_of_init hi)
  | step hr _ hs ih =>
    intro hc
    have hcx := step_cancelled hs hc
    exact (ih hcx).step (Handshake.reach hr) hcx (live_of_reach hr hs hc)

end Told

/-- At a live idle point the report is up to date. -/
theorem finished_iff (h : (lts lib).Reach x) (hc : x.state.cancelled = false)
    (hctl : x.ctl = .idle) : x.state.report.finished = true ↔ x.state.allFinished = true :=
  ⟨((book_reach h).1 hc).finished,
    (Told.reach h hc).finished (by rw [hctl]; rfl) (by simp [hctl]) (by simp [hctl])⟩

/-! ## One attempt -/

/-- Whose turn it can be. -/
def enabledAt (x : Sys) : List String := (queryEnabled x.state false).1

/-- A query reports a deadlock. -/
def DeadlockedAt (x : Sys) : Prop :=
  (queryEnabled x.state false).2.report.outcome = .controlledDeadlock

theorem enabledIds_of_finished (h : s.allFinished = true) : s.enabledIds = [] := by
  simp only [State.enabledIds, List.map_eq_nil_iff, List.filter_eq_nil_iff, List.mem_range]
  intro i hi
  simp [State.enabled, allFinished_iff.mp h i hi]

theorem enabledAt_of_finished (h : x.state.allFinished = true) : enabledAt x = [] := by
  have hids := enabledIds_of_finished h
  simp only [enabledAt, queryEnabled, executionExpired, Bool.not_false, Bool.or_true, if_true,
    Bool.false_or, hids, h]
  split
  · rfl
  · simp

theorem enabledAt_of_deadlocked (ho : x.state.report.outcome = .completed)
    (h : DeadlockedAt x) : enabledAt x = [] ∧ x.state.allFinished = false := by
  simp only [DeadlockedAt, enabledAt, queryEnabled, executionExpired, Bool.not_false,
    Bool.or_true, if_true, Bool.false_or] at h ⊢
  split at h
  · rw [ho] at h; cases h
  rename_i h1
  rw [if_neg h1]
  split at h
  · rename_i h2
    rw [if_pos h2]
    simp only [Bool.and_eq_true, List.isEmpty_iff, Bool.not_eq_true'] at h2
    exact ⟨h2.1.1, h2.1.2⟩
  · rw [ho] at h; cases h

theorem enabledIds_nodup (h : s.actorIds.Nodup) : s.enabledIds.Nodup := by
  refine (List.nodup_range.filter _).map_on ?_
  intro i hi j hj hij
  simp only [List.mem_filter, List.mem_range] at hi hj
  have hlen : s.actorIds.length = s.actors.length := by simp [actorIds]
  have hget : ∀ k (hk : k < s.actorIds.length), (s.actor k).id = s.actorIds[k] := fun k hk => by
    rw [hlen] at hk
    simp [State.actor, actorIds, List.getD_eq_getElem?_getD, hk]
  rw [hget i (hlen ▸ hi.1), hget j (hlen ▸ hj.1)] at hij
  exact (h.getElem_inj_iff).mp hij

theorem enabledAt_nodup (h : (lts lib).Reach x) : (enabledAt x).Nodup := by
  have hids := enabledIds_nodup (Static.reach h).actorsNodup
  simp only [enabledAt, queryEnabled, executionExpired, Bool.not_false, Bool.or_true, if_true,
    Bool.false_or]
  split
  · exact .nil
  split <;> exact hids

/-- Sections of one call do not query. -/
theorem queries_of_call (h : c.call = false) : c.queries = false := by
  cases c <;> first | rfl | cases h

/-- Runs before the first query. -/
abbrev Unqueried (_ : Sys) (c : Choice) : Prop := c.ends = false ∧ c.queries = false

variable {U : Type u} {M : Maker U} {k m n : Sys × U}

theorem Settles.reach (h : (lts lib).ReachBy Unqueried k.1) (hs : Settles lib M k m) :
    (lts lib).ReachBy Unqueried m.1 :=
  h.path (hs.path.mono fun _ _ hc => ⟨hc.ends, queries_of_call hc.call⟩)

theorem Calls.reach {actor : String} {l : Bool} (h : (lts lib).ReachBy Unqueried k.1)
    (hs : Calls lib M k (.advance actor l) m) : (lts lib).ReachBy Unqueried m.1 :=
  .step (a := .advance actor l) h ⟨rfl, rfl⟩ (step_of_step hs.2)

theorem Driven.reach {late : Bool} {p : List String} (h : (lts lib).ReachBy Unqueried k.1)
    (hd : Driven lib M late k p m) : (lts lib).ReachBy Unqueried m.1 := by
  induction hd with
  | done | cut | failed => exact h
  | next _ hs ha hs' _ ih => exact ih (hs'.reach (ha.reach (hs.reach h)))

theorem Settles.candid (hs : Settles lib M k m) : Candid false k.1.state m.1.state := by
  refine hs.path.inv (P := fun y => Candid false k.1.state y.state) (.refl _) ?_
  intro u c v ih hc huv
  have h := candid_step hc.ends huv
  rw [queries_of_call hc.call] at h
  exact ih.trans h

theorem Replayed.candid {p : List String} (hd : Replayed lib M k p m) :
    Candid false k.1.state m.1.state := by
  induction hd with
  | done => exact .refl _
  | @next _ _ _ _ _ actor _ l hs ha hs' _ ih =>
    have h : Candid (Choice.advance actor l).queries _ _ := candid_step rfl (step_of_step ha.2)
    exact hs.candid.trans (h.trans (hs'.candid.trans ih))

/-- A prefix that did not fail was replayed in full. -/
theorem Driven.replayed {p : List String} (hd : Driven lib M false k p m)
    (ho : m.1.state.report.outcome = .completed) : Replayed lib M k p m := by
  induction hd with
  | done => exact .done
  | cut h => cases h
  | failed h => exact absurd ho h
  | next _ hs ha hs' _ ih => exact .next hs ha hs' (ih ho)

/-- A query that is not too late is one in time. -/
theorem queryEnabled_late {late : Bool} (ho : s.report.outcome = .completed) :
    queryEnabled s late = queryEnabled s false ∨
      (queryEnabled s late).2.report.outcome = .timedOut := by
  by_cases hl : s.executionEnded || !late
  · left
    simp only [queryEnabled, executionExpired, hl, Bool.not_false, Bool.or_true, if_true]
  · right
    simp only [queryEnabled, executionExpired, if_neg hl, Bool.true_or, if_true]
    simp [State.fail, ho]

variable {policy : Policy} {p : List String} {r : Ran}

/-- **An attempt that counts** is about one live idle state, reached by the whole prefix. -/
theorem Attempted.visit (h : Attempted lib M policy p r) (hlate : r.late = false)
    (ho : r.primary.outcome = .completed ∨ r.primary.outcome = .controlledDeadlock) :
    ∃ x, (lts lib).Reach x ∧ Replay lib M policy p x ∧ r.enabled = enabledAt x ∧
      (r.primary.outcome = .controlledDeadlock ↔ DeadlockedAt x) ∧
      (r.primary.outcome = .completed →
        (r.primary.finished = true ↔ x.state.allFinished = true)) := by
  obtain ⟨ha, h01, h12, h23, hcall, h45, -, -, -, -⟩ := h
  rename_i a u k₁ k₂ k₃ k₄ k₅ k₆ k₇ k₈ l₁ l₂ l₃ l₄ late lateRow id
  dsimp only at hlate ho ⊢
  subst hlate
  have h34 := step_of_step hcall.2
  have hr2 := Driven.reach (Settles.reach (.init ⟨a, policy, l₁, l₂, rfl⟩) h01) h12
  have hr3 := h23.reach hr2
  have hq := h34
  simp only [step, Option.ite_none_right_eq_some, Option.some.injEq] at hq
  obtain ⟨hctl3, hx4⟩ := hq
  have hc34 := candid_step rfl h34
  have hc45 := h45.candid
  -- a failure before the query would show in the report
  have ho3 : k₃.1.state.report.outcome = .completed := by
    by_contra hne
    have hk := (hc45.kept (by rw [hc34.kept hne]; exact hne)).trans (hc34.kept hne)
    rcases ho with ho | ho
    · exact hne (hk.symm.trans ho)
    · exact not_deadlock hr3 (hk.symm.trans ho)
  have hcx3 := live_of_completed (hr3.mono fun _ _ hc => hc.1) ho3
  -- so would a query that came too late
  have hql : queryEnabled k₃.1.state l₃ = queryEnabled k₃.1.state false := by
    rcases @queryEnabled_late k₃.1.state l₃ ho3 with hl | hl
    · exact hl
    · have hx4o : k₄.1.state.report.outcome = .timedOut := by rw [← hx4]; exact hl
      have hk := hc45.kept (by rw [hx4o]; simp)
      rw [hx4o] at hk
      rw [hk] at ho
      rcases ho with ho | ho <;> cases ho
  have hs4 : k₄.1.state = (queryEnabled k₃.1.state false).2 := by rw [← hx4, hql]
  have hx4r : (lts lib).Reach k₄.1 := .step (a := .enabled l₃) hr3.reach trivial h34
  have hrep : Replay lib M policy p k₃.1 := ⟨ho3, a, u, k₃.2, l₁, l₂, k₁, k₂, ha, h01,
    h12.replayed (h23.candid.completed ho3).1, h23⟩
  refine ⟨k₃.1, hr3.reach, hrep, by rw [hql]; rfl, ⟨fun hd => ?_, fun hd => ?_⟩, fun ho5 => ?_⟩
  · rw [DeadlockedAt, ← hs4]
    exact hc45.deadlock rfl hd
  · rw [DeadlockedAt, ← hs4] at hd
    rw [hc45.kept (by rw [hd]; simp), hd]
  · obtain ⟨ho4, hc54⟩ := hc45.completed ho5
    have hcx4 : k₄.1.state.cancelled = false :=
      (hc34.completed ho4).2.trans hcx3
    have hs43 : k₄.1.state = k₃.1.state := by
      rw [hs4] at hcx4 ⊢
      exact queryEnabled_live hcx4
    have hctl4 : k₄.1.ctl = .idle := by rw [← hx4]; exact hctl3
    obtain ⟨hrep, -⟩ := h45.idle hx4r hctl4 (hc54.trans hcx4)
    rw [hrep, hs43]
    exact finished_iff hr3.reach hcx3 hctl3

end Sys

end MirrorCpp.Sync
