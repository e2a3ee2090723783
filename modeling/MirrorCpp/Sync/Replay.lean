import MirrorCpp.Sync.Book

/-!
# Replay determinism

`App` is a program whose workers and observer are functions of their own state, of what their
calls return and of the state they share; `Config` is one of its executions, driven by the
client's calls still to come. `Act` picks the party whose critical section is next. Behind the
initial barrier a live execution has one party to pick (`Sys.turn`), before it the workers only
park (`Opening`), and behind a failure the client's view is frozen, so the view an idle client
has is a function of the calls it made.
-/

namespace MirrorCpp.Sync

open State
open Relation (ReflTransGen)

universe u v

/-- User code: worker `i` from what its last call returned to its next call, and the observer. -/
structure App (L : Type u) (S : Type v) where
  next : Nat → Ret → L → S → Call × L × S
  observe : S → Option Json × S

/-- The client's calls. -/
inductive Query where
  | enabled
  | advance (actor : String)
  deriving DecidableEq, Repr

def Query.choice : Query → Choice
  | .enabled => .enabled false
  | .advance actor => .advance actor false

/-- Whose critical section comes next. -/
inductive Act where
  | client
  | spawn
  | barrier
  | observe
  | observed
  | granted
  | joined
  | worker (i : Nat)
  deriving DecidableEq, Repr

structure Config (L : Type u) (S : Type v) where
  sys : Sys
  locals : Nat → L
  shared : S
  todo : List Query

namespace App

variable {L : Type u} {S : Type v} (app : App L S)

/-- What the party does: no deadline passes, threads are created, user code is `app`'s. -/
def choice (k : Config L S) : Act → Option Choice
  | .client => k.todo.head?.map Query.choice
  | .spawn => some (.spawn true)
  | .barrier => some (.barrier false false)
  | .observe => some (.observe false)
  | .observed => some (.observed (app.observe k.shared).1 false false false)
  | .granted => some (.granted false false false)
  | .joined => some (.joined false)
  | .worker i =>
    match k.sys.pc i with
    | .unborn => none
    | .born => some (.register i)
    | .calling _ _ => some (.request i)
    | .waiting _ _ => some (.wake i)
    | .user r => some (.user i (app.next i r (k.locals i) k.shared).1)
    | .asking => some (.stop i)
    | .dropping _ _ => some (.stop i)
    | .releasing _ => some (.release i)
    | .caught => some (.caught i)
    | .closing => some (.close i)
    | .closed => none

/-- The effect on the client's script and the program's own state. -/
def play (k : Config L S) (x : Sys) : Act → Config L S
  | .client => { k with sys := x, todo := k.todo.tail }
  | .observed => { k with sys := x, shared := (app.observe k.shared).2 }
  | .worker i =>
    match k.sys.pc i with
    | .user r =>
      let (_, l, s) := app.next i r (k.locals i) k.shared
      { k with sys := x, locals := Function.update k.locals i l, shared := s }
    | _ => { k with sys := x }
  | _ => { k with sys := x }

def step (lib : JsonLib) (k : Config L S) (a : Act) : Option (Config L S) :=
  (app.choice k a).bind fun c => (k.sys.step lib c).map fun x => app.play k x a

/-- The execution of an adapter, about to be driven by a script. -/
def start (a : Adapter) (p : Policy) (locals : Nat → L) (shared : S) (todo : List Query) :
    Config L S := ⟨Sys.construct a p false false, locals, shared, todo⟩

/-- The executions of `app` from `k`, under every interleaving. -/
def lts (lib : JsonLib) (k : Config L S) : Lts (Config L S) Act where
  init := (· = k)
  step := app.step lib

end App

/-- What the client can see. -/
structure View where
  enabled : List String
  outcome : Outcome
  detail : String
  failureGraph : Option FailureGraph
  events : List Event
  observations : List Observation

def State.view (s : State) : View :=
  ⟨(Sys.queryEnabled s false).1, s.report.outcome, s.report.detail, s.failureGraph, s.events,
    s.observations⟩

namespace App

variable {L : Type u} {S : Type v} {app : App L S} {lib : JsonLib} {k k' k₀ : Config L S} {a : Act}

theorem sys_play (k : Config L S) (x : Sys) (a : Act) : (app.play k x a).sys = x := by
  unfold play
  split
  · rfl
  · rfl
  · split <;> rfl
  · rfl

theorem todo_play (k : Config L S) (x : Sys) (a : Act) :
    (app.play k x a).todo = if a = .client then k.todo.tail else k.todo := by
  unfold play
  split
  · rfl
  · rfl
  · split <;> rfl
  · rename_i h _ _; rw [if_neg h]

theorem step_cases (h : app.step lib k a = some k') :
    ∃ c, app.choice k a = some c ∧ k.sys.step lib c = some k'.sys ∧ k' = app.play k k'.sys a := by
  obtain ⟨c, hc, h⟩ := Option.bind_eq_some_iff.mp h
  obtain ⟨x, hx, rfl⟩ := Option.map_eq_some_iff.mp h
  exact ⟨c, hc, by rw [sys_play]; exact hx, by rw [sys_play]⟩

/-- A party of the program is one of any program. -/
theorem reach_sys (hk : (Sync.lts lib).Reach k₀.sys) (h : (app.lts lib k₀).Reach k) :
    (Sync.lts lib).Reach k.sys := by
  induction h with
  | init h => cases h; exact hk
  | step _ _ hs ih =>
    obtain ⟨c, -, hc, -⟩ := step_cases hs
    exact .step (a := c) ih trivial hc

/-- No choice of a party is an end of the run. -/
theorem choice_ends {c : Choice} (h : app.choice k a = some c) : c.ends = false := by
  cases a with
  | client =>
    obtain ⟨q, -, rfl⟩ := Option.map_eq_some_iff.mp h
    cases q <;> rfl
  | worker i =>
    simp only [choice] at h
    split at h <;> cases h <;> rfl
  | _ => cases h; rfl

/-! ## A live execution has one party to pick -/

/-- Who is next behind the initial barrier. -/
def turn (x : Sys) : Act :=
  match x.ctl with
  | .observing _ => .observe
  | .observer _ => .observed
  | .joining _ => .joined
  | .granted i v => if (x.state.actor i).version = v then .worker i else .granted
  | _ => .client

theorem turn_worker {i : Nat} {x : Sys} {v : Nat} (hctl : x.ctl = .granted i v)
    (hv : (x.state.actor i).version = v) : turn x = .worker i := by
  simp [turn, hctl, hv]

/-- A worker that runs is the granted one and has not moved on. -/
theorem turn_of_running {x : Sys} {i : Nat} (H : Sys.Handshake x) (hc : x.state.cancelled = false)
    (hst : x.ctl.started = true) (hi : i < x.pcs.length) (hw : ∀ f p, x.pc i ≠ .waiting f p)
    (hcl : x.pc i ≠ .closed) : turn x = .worker i := by
  have hw := Sys.Handshake.pc_ne_waiting hw
  obtain ⟨v, hv⟩ := H.granted_of_running hc hst hi hw hcl
  obtain ⟨hp, -, hf⟩ := H.running hc hw hcl
  refine turn_worker hv ?_
  by_contra hne
  rcases H.version hc i v hv hne with h | h
  · rw [hp] at h; cases h
  · rw [hf] at h; cases h

/-- **Only one party can move.** -/
theorem act_eq_turn (H : Sys.Handshake k.sys) (hc : k.sys.state.cancelled = false)
    (hst : k.sys.ctl.started = true) (h : app.step lib k a = some k') : a = turn k.sys := by
  obtain ⟨c, hch, hs, -⟩ := step_cases h
  cases a with
  | client =>
    obtain ⟨q, -, rfl⟩ := Option.map_eq_some_iff.mp hch
    have hctl : k.sys.ctl = .idle := by
      cases q <;>
        (simp only [Query.choice, Sys.step, Option.ite_none_right_eq_some] at hs; exact hs.1)
    simp [turn, hctl]
  | spawn =>
    cases hch
    simp only [Sys.step, Option.ite_none_right_eq_some] at hs
    rw [hs.1] at hst; cases hst
  | barrier =>
    cases hch
    simp only [Sys.step, Option.ite_none_right_eq_some] at hs
    rw [hs.1.1] at hst; cases hst
  | observe | observed | joined =>
    cases hch
    simp only [Sys.step] at hs
    split at hs
    · rename_i hctl; simp [turn, hctl]
    · cases hs
  | granted =>
    cases hch
    simp only [Sys.step] at hs
    split at hs
    · rename_i i v hctl
      simp only [Option.ite_none_right_eq_some] at hs
      have hv : (k.sys.state.actor i).version ≠ v := by simpa [Sys.canReturn, hc] using hs.1
      simp [turn, hctl, hv]
    · cases hs
  | worker i =>
    symm
    simp only [choice] at hch
    split at hch
    case h_1 | h_11 => cases hch
    case h_4 f p hpc =>
      cases hch
      simp only [Sys.step, Sys.workerStep, hpc, Option.ite_none_right_eq_some] at hs
      have hg : (k.sys.state.actor i).grant = true := by simpa [State.canWake, hc] using hs.2.1
      exact turn_worker (H.grant hc i hg).1 rfl
    all_goals
      rename_i hpc
      cases hch
      simp only [Sys.step, Option.ite_none_right_eq_some] at hs
      exact turn_of_running H hc hst hs.1 (by simp [hpc]) (by simp [hpc])

/-! ## A failed execution is frozen -/

end App

/-- A cancelled execution shows its client the same. -/
structure Frozen (s t : State) : Prop where
  cancelled : t.cancelled = true
  outcome : t.report.outcome = s.report.outcome
  detail : t.report.detail = s.report.detail
  failureGraph : t.failureGraph = s.failureGraph
  events : t.events = s.events
  observations : t.observations = s.observations

namespace Frozen

variable {s t u : State} {lib : JsonLib} {i : Nat}

theorem refl (h : s.cancelled = true) : Frozen s s := ⟨h, rfl, rfl, rfl, rfl, rfl⟩

theorem trans (h : Frozen s t) (h' : Frozen t u) : Frozen s u :=
  ⟨h'.cancelled, h'.outcome.trans h.outcome, h'.detail.trans h.detail,
    h'.failureGraph.trans h.failureGraph, h'.events.trans h.events,
    h'.observations.trans h.observations⟩

theorem view (hs : s.cancelled = true) (h : Frozen s t) : t.view = s.view := by
  have hq : ∀ s : State, s.cancelled = true → (Sys.queryEnabled s false).1 = [] := by
    intro s hs
    simp [Sys.queryEnabled, executionExpired, hs]
  simp only [State.view, hq s hs, hq t h.cancelled, h.outcome, h.detail, h.failureGraph, h.events,
    h.observations]

/-- A second failure does not replace the first. -/
theorem fail (ho : s.report.outcome ≠ .completed) (o : Outcome) (d : String) :
    Frozen s (s.fail o d) := by
  simp only [State.fail, if_neg ho]
  exact ⟨rfl, rfl, rfl, rfl, rfl, rfl⟩

theorem requestEnter (hc : s.cancelled = true) (ho : s.report.outcome ≠ .completed)
    (self : ThreadId) (p : Pending) : Frozen s (s.requestEnter self i p).2 := by
  unfold State.requestEnter
  split
  · exact fail ho _ _
  · exact refl hc

theorem unwindRelease (hc : s.cancelled = true) (r : String) : Frozen s (s.unwindRelease i r) := by
  unfold State.unwindRelease
  split
  · exact refl hc
  · split
    · exact ⟨hc, rfl, rfl, rfl, rfl, rfl⟩
    · exact refl hc

theorem finishWorker (hc : s.cancelled = true) : Frozen s (s.finishWorker i) := by
  have h : Frozen s (s.releaseAll i) := by
    unfold State.releaseAll
    split
    · exact ⟨hc, rfl, rfl, rfl, rfl, rfl⟩
    · exact refl hc
  exact ⟨h.cancelled, h.outcome, h.detail, h.failureGraph, h.events, h.observations⟩

theorem retain (hc : s.cancelled = true) (ho : s.report.outcome ≠ .completed)
    (value : Option Json) :
    ∃ t, Sys.retain lib s value false false false = some t ∧ Frozen s t := by
  cases value with
  | none =>
    exact ⟨_, by simp [Sys.retain, executionExpired], fail ho .observationFailed "observer threw"⟩
  | some v => exact ⟨s, by simp [Sys.retain, executionExpired, hc], refl hc⟩

end Frozen

namespace App

variable {L : Type u} {S : Type v} {app : App L S} {lib : JsonLib} {k k' k₀ : Config L S} {a : Act}

theorem frozen_worker {x y : Sys} {i : Nat} {c : Choice} (hc : x.state.cancelled = true)
    (ho : x.state.report.outcome ≠ .completed) (h : x.workerStep lib i c = some y) :
    Frozen x.state y.state := by
  have hrefl := Frozen.refl hc
  unfold Sys.workerStep at h
  split at h
  · split at h
    · cases h; exact ⟨hc, rfl, rfl, rfl, rfl, rfl⟩
    · cases h
  · split at h
    · cases h; exact .requestEnter hc ho _ _
    · cases h
  · split at h
    · split at h
      · simp only [State.requestWake, hc, if_true] at h
        cases h; exact hrefl
      · cases h
    · cases h
  · split at h
    · cases h; exact hrefl
    · cases h
  · split at h
    · cases h; exact hrefl
    · cases h; exact hrefl
    · cases h
  · split at h
    · cases h; exact .unwindRelease hc _
    · cases h
  · split at h
    · simp only [State.workerThrew, hc, if_true] at h
      cases h; exact hrefl
    · cases h
  · split at h
    · cases h; exact .finishWorker hc
    · cases h
  · cases h

theorem frozen_step (hc : k.sys.state.cancelled = true)
    (ho : k.sys.state.report.outcome ≠ .completed) (h : app.step lib k a = some k') :
    Frozen k.sys.state k'.sys.state := by
  obtain ⟨c, hch, hs, -⟩ := step_cases h
  have hrefl := Frozen.refl hc
  have hexp : ∀ w, k.sys.state.executionExpired false w = (false, k.sys.state) := fun w => by
    simp [executionExpired]
  cases a with
  | client =>
    obtain ⟨q, -, rfl⟩ := Option.map_eq_some_iff.mp hch
    cases q <;>
    · simp only [Query.choice, Sys.step, Option.ite_none_right_eq_some, Option.some.injEq] at hs
      rw [← hs.2]
      simpa [Sys.queryEnabled, Sys.advance, hexp, hc] using hrefl
  | spawn =>
    cases hch
    simp only [Sys.step, Option.ite_none_right_eq_some, Option.some.injEq] at hs
    rw [← hs.2]
    exact hrefl
  | barrier =>
    cases hch
    simp only [Sys.step, Option.ite_none_right_eq_some, Option.some.injEq] at hs
    rw [← hs.2]
    simpa [Sys.passBarrier, hexp] using hrefl
  | observe =>
    cases hch
    simp only [Sys.step] at hs
    split at hs
    · rw [← Option.some.inj hs]
      simpa [Sys.observeEnter, hexp, hc] using hrefl
    · cases hs
  | observed =>
    cases hch
    simp only [Sys.step] at hs
    split at hs
    · rw [← Option.some.inj hs]
      obtain ⟨t, ht, hf⟩ := @Frozen.retain k.sys.state lib hc ho (app.observe k.shared).1
      simpa [Sys.observeLeave, ht] using hf
    · cases hs
  | granted =>
    cases hch
    simp only [Sys.step] at hs
    split at hs
    · simp only [Option.ite_none_right_eq_some, Option.some.injEq] at hs
      rw [← hs.2]
      simpa [Sys.advanceWake, hexp, hc] using hrefl
    · cases hs
  | joined =>
    cases hch
    simp only [Sys.step] at hs
    split at hs
    · simp only [Option.ite_none_right_eq_some, Option.some.injEq] at hs
      rw [← hs.2]
      simp only [Sys.advanceJoined, Sys.joined, executionExpired, Bool.not_false, Bool.or_true,
        if_true]
      exact ⟨hc, rfl, rfl, rfl, rfl, rfl⟩
    · cases hs
  | worker i =>
    simp only [choice] at hch
    split at hch <;> cases hch <;>
    · simp only [Sys.step, Option.ite_none_right_eq_some] at hs
      exact frozen_worker hc ho hs.2

/-! ## The initial barrier -/

end App

/-- The operation a worker begins with. -/
def Pending.start : Pending := ⟨.start, "", 0⟩

/-- An actor on its way to the barrier, from its declaration `a`. -/
inductive Entry (a : Actor) (i : Nat) : Pc → Actor → Prop where
  | unborn : Entry a i .unborn a
  | born : Entry a i .born a
  | calling : Entry a i (.calling .start .start) { a with thread := some (.worker i) }
  | waiting : Entry a i (.waiting .start .start) { a with
      thread := some (.worker i), pending := .start, parked := true, grant := false,
      version := a.version + 1 }

theorem Entry.of_unborn {a b : Actor} {i : Nat} (h : Entry a i .unborn b) : b = a := by cases h; rfl

variable {L : Type u} {S : Type v}

/-- An execution before its barrier. -/
structure Opening (k₀ k : Config L S) : Prop where
  program : k = { k₀ with sys := k.sys }
  started : k.sys.ctl.started = false
  state : k.sys.state = { k₀.sys.state with actors := k.sys.state.actors }
  length : k.sys.state.actors.length = k₀.sys.state.actors.length
  pcs : k.sys.pcs.length = k₀.sys.state.actors.length
  impl : k.sys.impl =
    { k₀.sys.impl with workers := List.replicate k.sys.impl.workers.length true }
  full : k.sys.ctl = .barrier → k.sys.impl.workers.length = k₀.sys.state.actors.length
  entry : ∀ i, i < k₀.sys.state.actors.length →
    Entry (k₀.sys.state.actor i) i (k.sys.pc i) (k.sys.state.actor i)

namespace Opening

variable {app : App L S} {lib : JsonLib} {k k' k₀ : Config L S} {a : Act}

theorem actors_ext {s t : State} (hl : s.actors.length = t.actors.length)
    (h : ∀ i, i < s.actors.length → s.actor i = t.actor i) : s.actors = t.actors := by
  refine List.ext_getElem hl fun i hi hi' => ?_
  simpa [State.actor, List.getD_eq_getElem?_getD, hi, hi'] using h i hi

theorem pcs_ext {x y : Sys} (hl : x.pcs.length = y.pcs.length)
    (h : ∀ i, i < x.pcs.length → x.pc i = y.pc i) : x.pcs = y.pcs := by
  refine List.ext_getElem hl fun i hi hi' => ?_
  simpa [Sys.pc, List.getD_eq_getElem?_getD, hi, hi'] using h i hi

theorem init (h : Sys.Initial k₀.sys) (hc : k₀.sys.state.cancelled = false) : Opening k₀ k₀ := by
  rcases h.start with ⟨hcx, -⟩ | ⟨-, -, -, -, hp, hctl⟩
  · rw [hc] at hcx; cases hcx
  refine ⟨rfl, by simp [hctl, Ctl.started], rfl, rfl, by simp [hp], ?_, by simp [hctl],
    fun i hi => ?_⟩
  · simp [h.workers]
    rw [← h.workers]
  · rw [show k₀.sys.pc i = .unborn by simp [Sys.pc, hp, List.getD_eq_getElem?_getD, hi]]
    exact .unborn

/-- At the barrier every worker waits. -/
theorem waiting (h : Opening k₀ k) (hI : Sys.Initial k₀.sys) (hall : k.sys.state.allParked = true)
    {i : Nat} (hi : i < k₀.sys.state.actors.length) :
    k.sys.pc i = .waiting .start .start ∧ k.sys.state.actor i = { k₀.sys.state.actor i with
      thread := some (.worker i), pending := .start, parked := true, grant := false,
      version := (k₀.sys.state.actor i).version + 1 } := by
  have hp := List.all_eq_true.mp hall _ (actor_mem (h.length ▸ hi))
  have he := h.entry i hi
  generalize k.sys.pc i = pc at he ⊢
  generalize k.sys.state.actor i = act at he hp ⊢
  have hfresh := hI.fresh.actor i
  cases he with
  | waiting => exact ⟨rfl, rfl⟩
  | _ => rw [hfresh] at hp; simp at hp

/-- There is one way to be at the barrier. -/
theorem unique (hI : Sys.Initial k₀.sys) (h : Opening k₀ k) (h' : Opening k₀ k')
    (hctl : k.sys.ctl = .barrier) (hctl' : k'.sys.ctl = .barrier)
    (hall : k.sys.state.allParked = true) (hall' : k'.sys.state.allParked = true) : k = k' := by
  have ha : k.sys.state.actors = k'.sys.state.actors :=
    actors_ext (h.length.trans h'.length.symm) fun i hi => by
      rw [h.length] at hi
      rw [(h.waiting hI hall hi).2, (h'.waiting hI hall' hi).2]
  have hp : k.sys.pcs = k'.sys.pcs := pcs_ext (h.pcs.trans h'.pcs.symm) fun i hi => by
    rw [h.pcs] at hi
    rw [(h.waiting hI hall hi).1, (h'.waiting hI hall' hi).1]
  have hs : k.sys.state = k'.sys.state := by rw [h.state, h'.state, ha]
  have hw : k.sys.impl = k'.sys.impl := by rw [h.impl, h'.impl, h.full hctl, h'.full hctl']
  rw [h.program, h'.program]
  congr 1
  cases hk : k.sys
  cases hk' : k'.sys
  simp only [hk, hk'] at hs hw hp hctl hctl'
  simp only [hs, hw, hp, hctl, hctl']

/-- A worker moves towards the barrier. -/
theorem move (h : Opening k₀ k) {i : Nat} (hi : i < k₀.sys.state.actors.length) (act : Actor)
    (pc : Pc) (he : Entry (k₀.sys.state.actor i) i pc act) :
    Opening k₀ { k with sys := { k.sys with state := k.sys.state.setActor i act }.setPc i pc } where
  program := by rw [h.program]
  started := h.started
  state := by
    change k.sys.state.setActor i act = _
    rw [h.state]
    rfl
  length := by simpa [setActor] using h.length
  pcs := by simpa using h.pcs
  impl := h.impl
  full := h.full
  entry j hj := by
    by_cases hji : j = i
    · subst hji
      rw [Sys.pc_setPc_self _ _ (h.pcs.symm ▸ hj)]
      change Entry _ _ _ ((k.sys.state.setActor j act).actor j)
      rw [actor_setActor_self _ _ (h.length.symm ▸ hj)]
      exact he
    · rw [Sys.pc_setPc_ne _ _ hji]
      change Entry _ _ _ ((k.sys.state.setActor i act).actor j)
      rw [actor_setActor_ne _ _ hji]
      exact h.entry j hj

theorem spawn (h : Opening k₀ k) (hu : k.sys.pc k.sys.impl.workers.length = .unborn) :
    Opening k₀ { k with sys := k.sys.spawn true } := by
  refine ⟨by rw [h.program], ?_, h.state, h.length, by simpa [Sys.spawn] using h.pcs, ?_,
    fun hctl => ?_, fun j hj => ?_⟩
  · simp only [Sys.spawn, if_true]
    split <;> rfl
  · have himpl := h.impl
    simp only [Sys.spawn, if_true]
    generalize k.sys.impl.workers.length = n at himpl
    rw [himpl]
    simp [List.replicate_succ']
  · simp only [Sys.spawn, if_true] at hctl
    split at hctl
    · rename_i hn
      simpa [Sys.spawn, h.length] using hn
    · cases hctl
  · have hpc : (k.sys.spawn true).pc j =
        if j = k.sys.impl.workers.length ∧ k.sys.impl.workers.length < k.sys.pcs.length then .born
        else k.sys.pc j := Sys.pc_setPc k.sys _ j .born
    have he := h.entry j hj
    change Entry _ _ ((k.sys.spawn true).pc j) (k.sys.state.actor j)
    rw [hpc]
    split
    · rename_i hj'
      obtain ⟨rfl, -⟩ := hj'
      rw [hu] at he
      rw [he.of_unborn]
      exact .born
    · exact he

/-- Before the barrier the workers park and the controller starts them. -/
theorem step (hc : k₀.sys.state.cancelled = false) (H : Sys.Handshake k.sys) (h : Opening k₀ k)
    (hs : app.step lib k a = some k') :
    Opening k₀ k' ∨ a = .barrier ∧ k.sys.ctl = .barrier ∧ k.sys.state.allParked = true := by
  obtain ⟨c, hch, hstep, hk⟩ := App.step_cases hs
  have hst := h.started
  have hcx : k.sys.state.cancelled = false := by rw [h.state]; exact hc
  cases a with
  | client =>
    obtain ⟨q, -, rfl⟩ := Option.map_eq_some_iff.mp hch
    cases q <;>
    · simp only [Query.choice, Sys.step, Option.ite_none_right_eq_some] at hstep
      rw [hstep.1] at hst; cases hst
  | spawn =>
    cases hch
    simp only [Sys.step, Option.ite_none_right_eq_some, Option.some.injEq] at hstep
    left
    rw [hk, ← hstep.2]
    exact h.spawn (H.unborn _ le_rfl)
  | barrier =>
    cases hch
    simp only [Sys.step, Option.ite_none_right_eq_some] at hstep
    exact .inr ⟨rfl, hstep.1.1, by simpa [hcx] using hstep.1.2⟩
  | observe | observed | granted | joined =>
    cases hch
    simp only [Sys.step] at hstep
    split at hstep
    · rename_i hctl; rw [hctl] at hst; cases hst
    · cases hstep
  | worker i =>
    left
    have hi : i < k₀.sys.state.actors.length := by
      by_contra hge
      have hu : k.sys.pc i = .unborn := Sys.Handshake.pc_of_ge (by rw [h.pcs]; omega)
      simp [App.choice, hu] at hch
    have he := h.entry i hi
    simp only [App.choice] at hch
    simp only [App.play] at hk
    generalize hpc : k.sys.pc i = pc at he hch hk
    generalize hact : k.sys.state.actor i = act at he
    cases he with
    | unborn => cases hch
    | born =>
      cases hch
      simp only [Sys.step, Sys.workerStep, hpc, Option.ite_none_right_eq_some,
        Option.some.injEq] at hstep
      rw [hk, ← hstep.2]
      refine h.move hi _ _ ?_
      rw [hact]
      exact .calling
    | calling =>
      cases hch
      have hself : (k.sys.state.actor i).thread = some (.worker i) := by rw [hact]
      have henter : k.sys.state.requestEnter (.worker i) i .start =
          (true, k.sys.state.park i .start) := by
        simp [State.requestEnter, hself, hcx, Pending.start, Op.onResource]
      simp only [Sys.step, Sys.workerStep, hpc, henter, if_true, Option.ite_none_right_eq_some,
        Option.some.injEq] at hstep
      rw [hk, ← hstep.2]
      refine h.move hi _ _ ?_
      rw [hact]
      exact .waiting
    | waiting =>
      cases hch
      simp [Sys.step, Sys.workerStep, hpc, State.canWake, hcx, hact] at hstep

end Opening

/-! ## The runs of one script -/

namespace App

variable {app : App L S} {lib : JsonLib} {k k' k₀ b d d' : Config L S} {a : Act}

/-- The constructor refused, or will start the threads. -/
def Begun (k₀ : Config L S) : Prop := ∃ a p, k₀.sys = Sys.construct a p false false

theorem Begun.reach (h : Begun k₀) : (Sync.lts lib).Reach k₀.sys := by
  obtain ⟨a, p, h⟩ := h
  exact .init ⟨a, p, false, false, h⟩

theorem Begun.initial (h : Begun k₀) : Sys.Initial k₀.sys := by
  obtain ⟨a, p, h⟩ := h
  rw [h]
  exact Sys.initial_construct a p false false

theorem Begun.reach_sys (h : Begun k₀) (hk : (app.lts lib k₀).Reach k) :
    (Sync.lts lib).Reach k.sys := App.reach_sys h.reach hk

/-- What is cancelled here has failed. -/
theorem failed (hb : Begun k₀) (h : (app.lts lib k₀).Reach k)
    (hc : k.sys.state.cancelled = true) : k.sys.state.report.outcome ≠ .completed := by
  induction h with
  | init h =>
    cases h
    rcases hb.initial.start with ⟨-, ho, -⟩ | ⟨hcx, -⟩
    · exact ho
    · rw [hc] at hcx; cases hcx
  | @step k k' a _ _ hs ih =>
    intro ho
    obtain ⟨c, hch, hstep, -⟩ := step_cases hs
    obtain ⟨hox, hcx⟩ := (Sys.candid_step (choice_ends hch) hstep).completed ho
    exact ih (hcx.symm.trans hc) hox

/-- A step of a live execution behind its barrier. -/
def Next (app : App L S) (lib : JsonLib) (k₀ k k' : Config L S) : Prop :=
  (app.lts lib k₀).Reach k ∧ k.sys.state.cancelled = false ∧ k.sys.ctl.started = true ∧
    ∃ a, app.step lib k a = some k'

/-- There is one such step. -/
theorem next_rightUnique (hb : Begun k₀) : Relator.RightUnique (Next app lib k₀) := by
  rintro k k₁ k₂ ⟨hr, hc, hst, a, ha⟩ ⟨-, -, -, a', ha'⟩
  have H := Sys.Handshake.reach (hb.reach_sys hr)
  rw [act_eq_turn H hc hst ha] at ha
  rw [act_eq_turn H hc hst ha', ha] at ha'
  exact Option.some.inj ha'

theorem todo_step (h : app.step lib k a = some k') : k'.todo.length ≤ k.todo.length := by
  obtain ⟨-, -, -, hk⟩ := step_cases h
  rw [hk, todo_play]
  split
  · simp
  · exact le_rfl

/-- An idle client makes its next call. -/
theorem Next.todo_lt (hb : Begun k₀) (h : Next app lib k₀ k k') (hi : k.sys.ctl = .idle) :
    k'.todo.length < k.todo.length := by
  obtain ⟨hr, hc, hst, a, ha⟩ := h
  have hat : a = .client := by
    rw [act_eq_turn (Sys.Handshake.reach (hb.reach_sys hr)) hc hst ha]
    simp [turn, hi]
  subst hat
  obtain ⟨c, hch, -, hk⟩ := step_cases ha
  obtain ⟨q, hq, -⟩ := Option.map_eq_some_iff.mp hch
  rw [hk, todo_play, if_pos rfl]
  cases ht : k.todo with
  | nil => rw [ht] at hq; cases hq
  | cons q qs => simp

theorem todo_le_of_nexts (h : ReflTransGen (Next app lib k₀) k k') :
    k'.todo.length ≤ k.todo.length := by
  induction h with
  | refl => exact le_rfl
  | tail _ hn ih =>
    obtain ⟨-, -, -, a, ha⟩ := hn
    exact (todo_step ha).trans ih

/-- A live execution whose client waits, and one further on with as many calls to come. -/
theorem eq_of_nexts (hb : Begun k₀) (h : ReflTransGen (Next app lib k₀) k k')
    (hi : k.sys.ctl = .idle) (ht : k.todo.length ≤ k'.todo.length) : k = k' := by
  rcases h.cases_head with h | ⟨m, hn, hm⟩
  · exact h
  · have h1 := hn.todo_lt hb hi
    have h2 := todo_le_of_nexts hm
    omega

/-- The configuration behind the barrier. -/
def Opened (app : App L S) (lib : JsonLib) (k₀ b : Config L S) : Prop :=
  ∃ k, Opening k₀ k ∧ k.sys.ctl = .barrier ∧ k.sys.state.allParked = true ∧
    app.step lib k .barrier = some b

theorem Opened.unique (hI : Sys.Initial k₀.sys) (h : Opened app lib k₀ b)
    (h' : Opened app lib k₀ d) : b = d := by
  obtain ⟨k, ho, hctl, hall, hs⟩ := h
  obtain ⟨k', ho', hctl', hall', hs'⟩ := h'
  rw [ho.unique hI ho' hctl hctl' hall hall', hs'] at hs
  exact (Option.some.inj hs).symm

theorem Opened.live (hc : k₀.sys.state.cancelled = false) (h : Opened app lib k₀ b) :
    b.sys.state.cancelled = false ∧ b.sys.ctl.started = true := by
  obtain ⟨k, ho, hctl, -, hs⟩ := h
  have hcx : k.sys.state.cancelled = false := by rw [ho.state]; exact hc
  obtain ⟨c, hch, hstep, -⟩ := step_cases hs
  cases hch
  simp only [Sys.step, Option.ite_none_right_eq_some, Option.some.injEq] at hstep
  rw [← hstep.2]
  simp [Sys.passBarrier, executionExpired, hcx, Ctl.started]

/-- Behind the barrier an execution is on the one live path, or was when it failed. -/
structure Behind (app : App L S) (lib : JsonLib) (k₀ d k : Config L S) : Prop where
  path : ∃ b, Opened app lib k₀ b ∧ ReflTransGen (Next app lib k₀) b d
  view : (d = k ∧ k.sys.state.cancelled = false ∧ k.sys.ctl.started = true) ∨
    (d.sys.state.cancelled = true ∧ Frozen d.sys.state k.sys.state ∧
      k.todo.length ≤ d.todo.length)

theorem Behind.step (hb : Begun k₀) (hr : (app.lts lib k₀).Reach k) (h : Behind app lib k₀ d k)
    (hs : app.step lib k a = some k') : ∃ d', Behind app lib k₀ d' k' := by
  obtain ⟨b, hob, hp⟩ := h.path
  rcases h.view with ⟨rfl, hc, hst⟩ | ⟨hc, hf, ht⟩
  · have hp' := hp.tail ⟨hr, hc, hst, a, hs⟩
    refine ⟨k', ⟨b, hob, hp'⟩, ?_⟩
    cases hc' : k'.sys.state.cancelled with
    | false =>
      obtain ⟨c, -, hstep, -⟩ := step_cases hs
      exact .inl ⟨rfl, rfl,
        Sys.started_live (Sys.live_of_reach (hb.reach_sys hr) hstep hc') hst⟩
    | true => exact .inr ⟨rfl, .refl hc', le_rfl⟩
  · exact ⟨d, ⟨b, hob, hp⟩, .inr ⟨hc,
      hf.trans (frozen_step hf.cancelled (failed hb hr hf.cancelled) hs), (todo_step hs).trans ht⟩⟩

theorem opening_or_behind (hb : Begun k₀) (hc : k₀.sys.state.cancelled = false)
    (h : (app.lts lib k₀).Reach k) : Opening k₀ k ∨ ∃ d, Behind app lib k₀ d k := by
  induction h with
  | init h => cases h; exact .inl (.init hb.initial hc)
  | @step k k' a hr _ hs ih =>
    rcases ih with ho | ⟨d, hd⟩
    · rcases ho.step hc (Sys.Handshake.reach (hb.reach_sys hr)) hs with h | ⟨rfl, hctl, hall⟩
      · exact .inl h
      · have hob : Opened app lib k₀ k' := ⟨k, ho, hctl, hall, hs⟩
        obtain ⟨hc', hst'⟩ := hob.live hc
        exact .inr ⟨k', ⟨k', hob, .refl⟩, .inl ⟨rfl, hc', hst'⟩⟩
    · exact .inr (hd.step hb hr hs)

/-- An execution its constructor refused. -/
theorem frozen_of_refused (hb : Begun k₀) (hc : k₀.sys.state.cancelled = true)
    (h : (app.lts lib k₀).Reach k) : Frozen k₀.sys.state k.sys.state := by
  induction h with
  | init h => cases h; exact .refl hc
  | step hr _ hs ih =>
    exact ih.trans (frozen_step ih.cancelled (failed hb hr ih.cancelled) hs)

/-- No step leaves a cancelled point of the live path. -/
theorem Behind.last (h : d.sys.state.cancelled = true) (hd : ReflTransGen (Next app lib k₀) d d') :
    d = d' := by
  rcases hd.cases_head with h' | ⟨m, hn, -⟩
  · exact h'
  · rw [hn.2.1] at h; cases h

/-- An idle client behind a live point has made fewer calls than behind a later failure. -/
theorem Behind.view_eq (hb : Begun k₀) (h : Behind app lib k₀ d k) (h' : Behind app lib k₀ d' k')
    (hd : ReflTransGen (Next app lib k₀) d d') (hi : k.sys.ctl = .idle)
    (ht : k.todo.length ≤ k'.todo.length) : k'.sys.state.view = k.sys.state.view := by
  rcases h.view with ⟨rfl, hc, -⟩ | ⟨hc, hf, -⟩
  · rcases h'.view with ⟨rfl, -, -⟩ | ⟨hc', -, ht'⟩
    · rw [eq_of_nexts hb hd hi ht]
    · rw [← eq_of_nexts hb hd hi (ht.trans ht'), hc] at hc'; cases hc'
  · obtain rfl := Behind.last hc hd
    rcases h'.view with ⟨rfl, hc', -⟩ | ⟨-, hf', -⟩
    · rw [hc'] at hc; cases hc
    · rw [hf'.view hc, hf.view hc]

/-- An idle client is behind the barrier. -/
theorem behind_of_idle (hb : Begun k₀) (hc : k₀.sys.state.cancelled = false)
    (h : (app.lts lib k₀).Reach k) (hi : k.sys.ctl = .idle) : ∃ d, Behind app lib k₀ d k := by
  rcases opening_or_behind hb hc h with ho | hd
  · have := ho.started
    rw [hi] at this; cases this
  · exact hd

/-- Two idle executions are behind points of one live path. -/
theorem behind_both (hb : Begun k₀) (hc : k₀.sys.state.cancelled = false)
    (h : (app.lts lib k₀).Reach k) (h' : (app.lts lib k₀).Reach k') (hi : k.sys.ctl = .idle)
    (hi' : k'.sys.ctl = .idle) :
    ∃ d d', Behind app lib k₀ d k ∧ Behind app lib k₀ d' k' ∧
      (ReflTransGen (Next app lib k₀) d d' ∨ ReflTransGen (Next app lib k₀) d' d) := by
  obtain ⟨d, hd⟩ := behind_of_idle hb hc h hi
  obtain ⟨d', hd'⟩ := behind_of_idle hb hc h' hi'
  obtain ⟨b, hob, hp⟩ := hd.path
  obtain ⟨b', hob', hp'⟩ := hd'.path
  obtain rfl := hob.unique hb.initial hob'
  exact ⟨d, d', hd, hd', hp.total_of_right_unique (next_rightUnique hb) hp'⟩

/-- Two live executions whose clients have the same calls to come are one. -/
theorem eq_of_live (hb : Begun k₀) (h : (app.lts lib k₀).Reach k) (h' : (app.lts lib k₀).Reach k')
    (hc : k.sys.state.cancelled = false) (hc' : k'.sys.state.cancelled = false)
    (hi : k.sys.ctl = .idle) (hi' : k'.sys.ctl = .idle) (ht : k.todo = k'.todo) : k = k' := by
  cases hc₀ : k₀.sys.state.cancelled with
  | true => rw [(frozen_of_refused hb hc₀ h).cancelled] at hc; cases hc
  | false =>
    have live : ∀ {d k : Config L S}, Behind app lib k₀ d k → k.sys.state.cancelled = false → d =
      k := by
      intro d k hd hc
      rcases hd.view with ⟨h, -⟩ | ⟨-, hf, -⟩
      · exact h
      · rw [hf.cancelled] at hc; cases hc
    obtain ⟨d, d', hd, hd', hdd⟩ := behind_both hb hc₀ h h' hi hi'
    rw [live hd hc, live hd' hc'] at hdd
    rcases hdd with hdd | hdd
    · exact eq_of_nexts hb hdd hi (by rw [ht])
    · exact (eq_of_nexts hb hdd hi' (by rw [ht])).symm

/-- **Replay is deterministic.** Two executions of a deterministic program that are driven by the
same calls show an idle client the same, whatever the interleavings. -/
theorem replay_deterministic {a : Adapter} {p : Policy} {locals : Nat → L} {shared : S}
    {script : List Query} (h : (app.lts lib (start a p locals shared script)).Reach k)
    (h' : (app.lts lib (start a p locals shared script)).Reach k') (hi : k.sys.ctl = .idle)
    (hi' : k'.sys.ctl = .idle) (ht : k.todo = k'.todo) :
    k.sys.state.view = k'.sys.state.view := by
  have hb : Begun (start a p locals shared script) := ⟨a, p, rfl⟩
  cases hc : (start a p locals shared script).sys.state.cancelled with
  | true => rw [(frozen_of_refused hb hc h).view hc, (frozen_of_refused hb hc h').view hc]
  | false =>
    obtain ⟨d, d', hd, hd', hdd⟩ := behind_both hb hc h h' hi hi'
    rcases hdd with hdd | hdd
    · exact (Behind.view_eq hb hd hd' hdd hi (by rw [ht])).symm
    · exact Behind.view_eq hb hd' hd hdd hi' (by rw [ht])

/-! ## Two interleavings -/

/-- `a` locks the mutex and sends the shared counter, `b` receives it. -/
def sample : App Nat Nat where
  next i _ step shared :=
    match i, step with
    | 0, 0 => (.lock "m", 1, shared + 1)
    | 0, 1 => (.send "q" shared, 2, shared)
    | 1, 0 => (.receive "q", 1, shared)
    | _, _ => (.return_, step, shared)
  observe shared := (some (.obj [("shared", .int shared)]), shared)

def sampleConfig : Config Nat Nat :=
  start Sys.sampleAdapter {} (fun _ => 0) 0 [.enabled, .advance "a", .enabled, .advance "a"]

/-- Both workers park one after the other, or in turns. -/
def parking (inTurns : Bool) : List Act :=
  if inTurns then [.spawn, .worker 0, .spawn, .worker 1, .worker 0, .worker 1]
  else [.spawn, .spawn, .worker 1, .worker 1, .worker 0, .worker 0]

/-- A decision for `a`. -/
def decision : List Act :=
  [.client, .client, .worker 0, .worker 0, .worker 0, .granted, .observe, .observed]

/-- Two decisions behind the initial barrier. -/
def schedule (inTurns : Bool) : List Act :=
  parking inTurns ++ [.barrier, .observe, .observed] ++ decision ++ decision

theorem schedule_ends (b : Bool) : ((sample.lts Compact.lib sampleConfig).exec (fun _ _ => true)
      (schedule b) sampleConfig).map (fun k => (k.sys.ctl, k.todo, k.sys.state.events.length)) =
    some (.idle, [], 4) := by
  cases b <;> decide +kernel

theorem replay_deterministic_sample : ∃ k k' : Config Nat Nat,
    k.sys.state.events.length = 4 ∧ k.sys.state.view = k'.sys.state.view := by
  obtain ⟨k, hk, e⟩ := Option.map_eq_some_iff.mp (schedule_ends true)
  obtain ⟨k', hk', e'⟩ := Option.map_eq_some_iff.mp (schedule_ends false)
  simp only [Prod.mk.injEq] at e e'
  have hr : ∀ {as : List Act} {k : Config Nat Nat},
      (sample.lts Compact.lib sampleConfig).exec (fun _ _ => true) as sampleConfig = some k →
        (sample.lts Compact.lib sampleConfig).Reach k :=
    fun h => .exec (fun _ _ _ => trivial) (.init rfl) h
  exact ⟨k, k', e.2.2,
    replay_deterministic (hr hk) (hr hk') e.1 e'.1 (e.2.1.trans e'.2.1.symm)⟩

end App

end MirrorCpp.Sync
