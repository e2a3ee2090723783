import MirrorCpp.Sync.Drive
import MirrorCpp.Sync.Replay

/-!
# Deterministic factories

What the executions of a factory offer behind a prefix of decisions, and when it is the same for
all of them. The factory of a deterministic program (`App.maker`) is deterministic.
-/

namespace MirrorCpp.Sync

open Relation (ReflTransGen)

universe u v

section

variable (lib : JsonLib) {U : Type u} (M : Maker U) (policy : Policy)

/-- An actor enabled behind the decisions `p`. -/
def Offered (p : List String) (actor : String) : Prop :=
  ∃ x, Sys.Replay lib M policy p x ∧ actor ∈ Sys.enabledAt x

/-- All actors finish with the decisions `p`. -/
def Terminal (p : List String) : Prop :=
  ∃ x, Sys.Replay lib M policy p x ∧ x.state.allFinished = true

/-- The decisions `p` end in a controlled deadlock. -/
def Deadlocked (p : List String) : Prop :=
  ∃ x, Sys.Replay lib M policy p x ∧ Sys.DeadlockedAt x

/-- Behind these decisions no actor is enabled. -/
def Leaf (p : List String) : Prop :=
  ∀ actor, ¬Offered lib M policy p actor

/-- Fresh executions that made the same decisions offer the same actors and end the same way. -/
def Deterministic : Prop :=
  ∀ p x x', Sys.Replay lib M policy p x → Sys.Replay lib M policy p x' →
    Sys.enabledAt x = Sys.enabledAt x' ∧
      (x.state.allFinished = true ↔ x'.state.allFinished = true) ∧
      (Sys.DeadlockedAt x ↔ Sys.DeadlockedAt x')

variable {lib M policy} {p : List String}

theorem Deterministic.offered (hdet : Deterministic lib M policy) {x : Sys}
    (hx : Sys.Replay lib M policy p x) (a : String) :
    a ∈ Sys.enabledAt x ↔ Offered lib M policy p a := by
  refine ⟨fun h => ⟨x, hx, h⟩, fun ⟨x', hx', h⟩ => ?_⟩
  rw [(hdet p x x' hx hx').1]
  exact h

theorem Deterministic.terminal (hdet : Deterministic lib M policy) {x : Sys}
    (hx : Sys.Replay lib M policy p x) :
    x.state.allFinished = true ↔ Terminal lib M policy p :=
  ⟨fun h => ⟨x, hx, h⟩, fun ⟨x', hx', h⟩ => (hdet p x x' hx hx').2.1.mpr h⟩

theorem Deterministic.deadlocked (hdet : Deterministic lib M policy) {x : Sys}
    (hx : Sys.Replay lib M policy p x) : Sys.DeadlockedAt x ↔ Deadlocked lib M policy p :=
  ⟨fun h => ⟨x, hx, h⟩, fun ⟨x', hx', h⟩ => (hdet p x x' hx hx').2.2.mpr h⟩

theorem Deterministic.leaf_of_terminal (hdet : Deterministic lib M policy)
    (h : Terminal lib M policy p) : Leaf lib M policy p := fun a ha => by
  obtain ⟨x, hx, hfin⟩ := h
  rw [← hdet.offered hx, Sys.enabledAt_of_finished hfin] at ha
  cases ha

theorem Deterministic.leaf_of_deadlocked (hdet : Deterministic lib M policy)
    (h : Deadlocked lib M policy p) : Leaf lib M policy p := fun a ha => by
  obtain ⟨x, hx, hd⟩ := h
  rw [← hdet.offered hx, (Sys.enabledAt_of_deadlocked hx.1 hd).1] at ha
  cases ha

end

/-! ## Deterministic programs -/

/-- No deadline passes, a thread is created, and no hook is misused. -/
def Choice.prompt : Choice → Bool
  | .enabled late | .advance _ late | .cleanup late | .observe late | .joined late => !late
  | .spawn created => created
  | .barrier timeout late => !timeout && !late
  | .observed _ l₁ l₂ l₃ => !l₁ && !l₂ && !l₃
  | .granted timeout l₁ l₂ => !timeout && !l₁ && !l₂
  | .foreignRequest _ _ _ | .foreignRelease _ _ => false
  | _ => true

namespace App

variable {L : Type u} {S : Type v} (app : App L S)

/-- The section is one of the program: its workers and its observer do as it says. -/
def plays (own : (Nat → L) × S) (x : Sys) : Choice → Prop
  | .user i call => ∃ r, x.pc i = .user r ∧ call = (app.next i r (own.1 i) own.2).1
  | .observed value _ _ _ => value = (app.observe own.2).1
  | _ => True

/-- What the section does to the program's state. -/
def after (own : (Nat → L) × S) (x : Sys) : Choice → (Nat → L) × S
  | .user i _ =>
    match x.pc i with
    | .user r =>
      let (_, l, s) := app.next i r (own.1 i) own.2
      (Function.update own.1 i l, s)
    | _ => own
  | .observed _ _ _ _ => (own.1, (app.observe own.2).2)
  | _ => own

/-- The factory of an adapter with this program, on a machine where no deadline passes. -/
def maker (a : Adapter) (own : (Nat → L) × S) : Maker ((Nat → L) × S) where
  makes a' own' := a' = a ∧ own' = own
  plays own x c := c.prompt = true ∧ app.plays own x c
  next := app.after

variable {app} {lib : JsonLib} {a : Adapter} {own : (Nat → L) × S} {policy : Policy}
  {k m : Sys × ((Nat → L) × S)} {c : Choice} {p : List String}

/-- The configuration with these calls to come. -/
def Config.of (k : Sys × ((Nat → L) × S)) (todo : List Query) : Config L S :=
  ⟨k.1, k.2.1, k.2.2, todo⟩

theorem step_act {act : Act} {todo : List Query} {x : Sys}
    (hch : app.choice (Config.of k todo) act = some c) (hx : k.1.step lib c = some x) :
    app.step lib (Config.of k todo) act = some (app.play (Config.of k todo) x act) := by
  have hx' : (Config.of k todo).sys.step lib c = some x := hx
  simp [App.step, hch, hx']

/-- A worker's section is the one its place asks for. -/
theorem choice_worker {i : Nat} {x : Sys} (todo : List Query) (hp : app.plays k.2 k.1 c)
    (hc : c = .register i ∨ c = .request i ∨ c = .wake i ∨ (∃ call, c = .user i call) ∨
      c = .stop i ∨ c = .release i ∨ c = .caught i ∨ c = .close i)
    (hx : k.1.workerStep lib i c = some x) :
    app.choice (Config.of k todo) (.worker i) = some c ∧
      app.play (Config.of k todo) x (.worker i) = Config.of (x, app.after k.2 k.1 c) todo := by
  have hpc : (Config.of k todo).sys.pc i = k.1.pc i := rfl
  unfold App.choice App.play
  dsimp only
  rw [hpc]
  rcases hc with rfl | rfl | rfl | ⟨call, rfl⟩ | rfl | rfl | rfl | rfl
  case inr.inr.inr.inl =>
    obtain ⟨r, hr, rfl⟩ := hp
    rw [hr]
    refine ⟨rfl, ?_⟩
    simp only [Config.of, after, hr]
  all_goals
    simp only [Sys.workerStep] at hx
    split at hx
    all_goals first
      | cases hx
        done
      | rename_i h
        rw [h]
        exact ⟨rfl, rfl⟩

/-- A section of the program's execution is one of the program. -/
theorem step_of_plays (hp : (maker app a own).plays k.2 k.1 c) (hcall : c.call = false)
    (hends : c.ends = false) (h : ((maker app a own).lts lib).step k c = some m)
    (todo : List Query) :
    ∃ act, app.step lib (Config.of k todo) act = some (Config.of m todo) := by
  obtain ⟨x, hx, rfl⟩ := Option.map_eq_some_iff.mp h
  obtain ⟨hprompt, hplays⟩ := hp
  change c.prompt = true at hprompt
  change app.plays k.2 k.1 c at hplays
  change ∃ act, app.step lib (Config.of k todo) act =
    some (Config.of (x, app.after k.2 k.1 c) todo)
  have worker : ∀ i, i < k.1.pcs.length ∧ k.1.workerStep lib i c = some x →
      (c = .register i ∨ c = .request i ∨ c = .wake i ∨ (∃ call, c = .user i call) ∨
        c = .stop i ∨ c = .release i ∨ c = .caught i ∨ c = .close i) →
      ∃ act, app.step lib (Config.of k todo) act =
        some (Config.of (x, app.after k.2 k.1 c) todo) := by
    intro i hi hc
    obtain ⟨hch, hplay⟩ := choice_worker todo hplays hc hi.2
    exact ⟨.worker i, by rw [step_act hch hx, hplay]⟩
  cases c with
  | enabled | advance | cleanup | destroy => cases hcall
  | cleanupWake | cleanupJoined | cleanupTorn | destroyJoin | destroyEnd | destroyTorn =>
    cases hends
  | foreignRequest | foreignRelease => cases hprompt
  | spawn created =>
    obtain rfl : created = true := hprompt
    exact ⟨.spawn, step_act rfl hx⟩
  | barrier timeout late =>
    simp only [Choice.prompt, Bool.and_eq_true, Bool.not_eq_true'] at hprompt
    obtain ⟨rfl, rfl⟩ := hprompt
    exact ⟨.barrier, step_act rfl hx⟩
  | observe late =>
    simp only [Choice.prompt, Bool.not_eq_true'] at hprompt
    subst hprompt
    exact ⟨.observe, step_act rfl hx⟩
  | observed value l₁ l₂ l₃ =>
    simp only [Choice.prompt, Bool.and_eq_true, Bool.not_eq_true'] at hprompt
    obtain ⟨⟨rfl, rfl⟩, rfl⟩ := hprompt
    obtain rfl : value = (app.observe k.2.2).1 := hplays
    exact ⟨.observed, step_act rfl hx⟩
  | granted timeout l₁ l₂ =>
    simp only [Choice.prompt, Bool.and_eq_true, Bool.not_eq_true'] at hprompt
    obtain ⟨⟨rfl, rfl⟩, rfl⟩ := hprompt
    exact ⟨.granted, step_act rfl hx⟩
  | joined late =>
    simp only [Choice.prompt, Bool.not_eq_true'] at hprompt
    subst hprompt
    exact ⟨.joined, step_act rfl hx⟩
  | register i | request i | wake i | user i call | stop i | release i | caught i | close i =>
    simp only [Sys.step, Option.ite_none_right_eq_some] at hx
    exact worker i hx (by simp)

/-- A decision of the client is a call of the script. -/
theorem step_of_advance {actor : String} {l : Bool}
    (hcalls : Sys.Calls lib (maker app a own) k (.advance actor l) m) (todo : List Query) :
    app.step lib (Config.of k (.advance actor :: todo)) .client = some (Config.of m todo) := by
  obtain ⟨⟨hprompt, -⟩, h⟩ := hcalls
  obtain ⟨x, hx, rfl⟩ := Option.map_eq_some_iff.mp h
  simp only [Choice.prompt, Bool.not_eq_true'] at hprompt
  subst hprompt
  exact step_act (c := .advance actor false) rfl hx

theorem path_of_settles (h : Sys.Settles lib (maker app a own) k m) (k₀ : Config L S)
    (todo : List Query) : (app.lts lib k₀).Path (fun _ _ => True) (Config.of k todo)
      (Config.of m todo) :=
  h.1.lift (Config.of · todo) fun _ _ _ hc hs => by
    obtain ⟨act, hact⟩ := step_of_plays hc.1 hc.2.call hc.2.ends hs todo
    exact .single trivial hact

theorem path_of_replayed (h : Sys.Replayed lib (maker app a own) k p m) (k₀ : Config L S) :
    (app.lts lib k₀).Path (fun _ _ => True) (Config.of k (p.map .advance)) (Config.of m []) := by
  induction h with
  | done => exact .refl
  | @next _ m n _ _ actor p _ hs hcalls hs' _ ih =>
    have hstep : (app.lts lib k₀).Path (fun _ _ => True)
        (Config.of m (.advance actor :: p.map .advance)) (Config.of n (p.map .advance)) :=
      .single (a := .client) trivial (step_of_advance hcalls _)
    exact ((path_of_settles hs k₀ _).trans hstep).trans ((path_of_settles hs' k₀ _).trans ih)

/-- **The factory of a deterministic program is deterministic.** -/
theorem deterministic (app : App L S) (a : Adapter) (own : (Nat → L) × S) (lib : JsonLib)
    (policy : Policy) : Deterministic lib (maker app a own) policy := by
  intro p x x' hx hx'
  -- both replays are runs of one script
  have run : ∀ {x : Sys}, Sys.Replay lib (maker app a own) policy p x →
      ∃ v, (app.lts lib (start a policy own.1 own.2 (p.map .advance))).Reach
        (Config.of (x, v) []) ∧ x.ctl = .idle ∧ x.state.cancelled = false := by
    rintro x ⟨ho, a', u, v, l₁, l₂, k, m, ⟨rfl, rfl⟩, h₁, h₂, h₃⟩
    have ho₀ := ((h₁.candid.trans (h₂.candid.trans h₃.candid)).completed ho).1
    rw [Sys.construct_prompt ho₀] at h₁
    have hr : (app.lts lib (start a' policy u.1 u.2 (p.map .advance))).Reach
      (Config.of (x, v) []) :=
      Lts.ReachBy.path (.init rfl) (((path_of_settles h₁ _ _).trans (path_of_replayed h₂ _)).trans
        (path_of_settles h₃ _ _))
    refine ⟨v, hr, h₃.2, ?_⟩
    cases hc : x.state.cancelled with
    | false => rfl
    | true => exact absurd ho (failed ⟨a', policy, rfl⟩ hr hc)
  obtain ⟨v, hr, hi, hc⟩ := run hx
  obtain ⟨v', hr', hi', hc'⟩ := run hx'
  have h := congrArg Config.sys (eq_of_live ⟨a, policy, rfl⟩ hr hr' hc hc' hi hi' rfl)
  obtain rfl : x = x' := h
  exact ⟨rfl, Iff.rfl, Iff.rfl⟩

end App

end MirrorCpp.Sync
