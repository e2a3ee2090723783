import Mathlib.Logic.Function.Basic
import Mathlib.Data.List.Basic

/-!
# Mutexes and bounded queues

The meaning of a monitor's resources: a `Store` gives every name an owner and a queue, an
`Effect` changes it. A history is `Lawful` when each effect was allowed where it happened: a
lock on a free mutex, a send below the capacity, a receive of the front value. Lawful
histories are first-in first-out and exclusive, whatever their order.
-/

namespace MirrorCpp.Monitor

universe u v w

inductive Effect (ι : Type u) (ρ : Type v) (α : Type w) where
  | lock (i : ι) (m : ρ)
  | unlock (i : ι) (m : ρ)
  /-- A release outside the handshake, while a scope is left. -/
  | unwind (i : ι) (m : ρ)
  /-- `i` ended; it owns nothing any more. -/
  | terminate (i : ι)
  | send (i : ι) (q : ρ) (x : α)
  | receive (i : ι) (q : ρ) (x : α)
  deriving DecidableEq, Repr

@[ext]
structure Store (ι : Type u) (ρ : Type v) (α : Type w) where
  owner : ρ → Option ι
  queue : ρ → List α

variable {ι : Type u} {ρ : Type v} {α : Type w}

/-- No owner, nothing queued. -/
def Store.empty : Store ι ρ α := ⟨fun _ => none, fun _ => []⟩

variable [DecidableEq ι] [DecidableEq ρ]

def Effect.apply (s : Store ι ρ α) : Effect ι ρ α → Store ι ρ α
  | .lock i m => { s with owner := Function.update s.owner m (some i) }
  | .unlock _ m => { s with owner := Function.update s.owner m none }
  | .unwind _ m => { s with owner := Function.update s.owner m none }
  | .terminate i => { s with owner := fun m => if s.owner m = some i then none else s.owner m }
  | .send _ q x => { s with queue := Function.update s.queue q (s.queue q ++ [x]) }
  | .receive _ q _ => { s with queue := Function.update s.queue q (s.queue q).tail }

def Effect.Allowed (cap : ρ → Nat) (s : Store ι ρ α) : Effect ι ρ α → Prop
  | .lock _ m => s.owner m = none
  | .unlock i m => s.owner m = none ∨ s.owner m = some i
  | .unwind i m => s.owner m = some i
  | .terminate _ => True
  | .send _ q _ => (s.queue q).length < cap q
  | .receive _ q x => ∃ rest, s.queue q = x :: rest

/-- The store a history leads to. -/
def run (s : Store ι ρ α) (h : List (Effect ι ρ α)) : Store ι ρ α := h.foldl Effect.apply s

def Lawful (cap : ρ → Nat) : Store ι ρ α → List (Effect ι ρ α) → Prop
  | _, [] => True
  | s, e :: h => e.Allowed cap s ∧ Lawful cap (e.apply s) h

/-! ## Reading a history -/

/-- The value an effect puts into `q`. -/
def Effect.sent (q : ρ) : Effect ι ρ α → Option α
  | .send _ q' x => if q' = q then some x else none
  | _ => none

/-- The value an effect takes out of `q`. -/
def Effect.received (q : ρ) : Effect ι ρ α → Option α
  | .receive _ q' x => if q' = q then some x else none
  | _ => none

def sent (q : ρ) (h : List (Effect ι ρ α)) : List α := h.filterMap (Effect.sent q)

def received (q : ρ) (h : List (Effect ι ρ α)) : List α := h.filterMap (Effect.received q)

/-- Who holds `m` after an effect: its locker, until its own unlock, unwinding or end. -/
def Effect.hold (m : ρ) (o : Option ι) : Effect ι ρ α → Option ι
  | .lock i m' => if m' = m then some i else o
  | .unlock i m' => if m' = m ∧ o = some i then none else o
  | .unwind i m' => if m' = m ∧ o = some i then none else o
  | .terminate i => if o = some i then none else o
  | .send _ _ _ => o
  | .receive _ _ _ => o

def holder (m : ρ) (h : List (Effect ι ρ α)) : Option ι := h.foldl (Effect.hold m) none

/-! ## Lawful histories -/

variable {cap : ρ → Nat} {s : Store ι ρ α} {e : Effect ι ρ α} {h h' : List (Effect ι ρ α)}

@[simp] theorem run_nil : run s [] = s := rfl

@[simp] theorem run_cons : run s (e :: h) = run (e.apply s) h := rfl

theorem run_append : run s (h ++ h') = run (run s h) h' := List.foldl_append

theorem lawful_append : Lawful cap s (h ++ h') ↔ Lawful cap s h ∧ Lawful cap (run s h) h' := by
  induction h generalizing s with
  | nil => simp [Lawful]
  | cons e h ih => simp [Lawful, ih, and_assoc]

/-- One more allowed effect. -/
theorem Lawful.concat (hl : Lawful cap s h) (he : e.Allowed cap (run s h)) :
    Lawful cap s (h ++ [e]) := lawful_append.mpr ⟨hl, he, trivial⟩

theorem Lawful.allowed_mid (hl : Lawful cap s (h ++ e :: h')) : e.Allowed cap (run s h) :=
  (lawful_append.mp hl).2.1

omit [DecidableEq ι] in
theorem sent_cons (q : ρ) : sent q (e :: h) = (e.sent q).toList ++ sent q h := by
  cases he : e.sent q <;> simp [sent, he]

omit [DecidableEq ι] in
theorem received_cons (q : ρ) : received q (e :: h) = (e.received q).toList ++ received q h := by
  cases he : e.received q <;> simp [received, he]

/-- What one effect puts in comes behind the queue, what it takes out was its front. -/
theorem Effect.Allowed.queue_eq (he : e.Allowed cap s) (q : ρ) :
    s.queue q ++ (e.sent q).toList = (e.received q).toList ++ (e.apply s).queue q := by
  cases e with
  | send i q' x =>
    by_cases hq : q' = q
    · subst hq
      simp [Effect.sent, Effect.received, Effect.apply]
    · simp [Effect.sent, Effect.received, Effect.apply, hq, Function.update_of_ne (Ne.symm hq)]
  | receive i q' x =>
    by_cases hq : q' = q
    · subst hq
      obtain ⟨rest, hr⟩ := he
      simp [Effect.sent, Effect.received, Effect.apply, hr]
    · simp [Effect.sent, Effect.received, Effect.apply, hq, Function.update_of_ne (Ne.symm hq)]
  | _ => simp [Effect.sent, Effect.received, Effect.apply]

/-- First in, first out, from any store on. -/
theorem Lawful.queue_eq (hl : Lawful cap s h) (q : ρ) :
    s.queue q ++ sent q h = received q h ++ (run s h).queue q := by
  induction h generalizing s with
  | nil => simp [sent, received]
  | cons e h ih =>
    obtain ⟨he, hl⟩ := hl
    rw [sent_cons, received_cons, run_cons, ← List.append_assoc, he.queue_eq q, List.append_assoc,
      ih hl, List.append_assoc]

theorem Effect.Allowed.queue_length_le (he : e.Allowed cap s) {q : ρ}
    (hs : (s.queue q).length ≤ cap q) : ((e.apply s).queue q).length ≤ cap q := by
  cases e with
  | send i q' x =>
    by_cases hq : q' = q
    · subst hq
      have he : (s.queue q').length < cap q' := he
      simpa [Effect.apply, Nat.succ_le_iff] using he
    · simpa [Effect.apply, Function.update_of_ne (Ne.symm hq)] using hs
  | receive i q' x =>
    by_cases hq : q' = q
    · subst hq
      simp only [Effect.apply, Function.update_self, List.length_tail]
      omega
    · simpa [Effect.apply, Function.update_of_ne (Ne.symm hq)] using hs
  | _ => exact hs

theorem Lawful.queue_length_le (hl : Lawful cap s h) {q : ρ} (hs : (s.queue q).length ≤ cap q) :
    ((run s h).queue q).length ≤ cap q := by
  induction h generalizing s with
  | nil => exact hs
  | cons e h ih => exact ih hl.2 (hl.1.queue_length_le hs)

theorem Effect.Allowed.owner_eq (he : e.Allowed cap s) (m : ρ) :
    (e.apply s).owner m = e.hold m (s.owner m) := by
  cases e with
  | lock i m' =>
    by_cases hm : m' = m
    · simp [Effect.apply, Effect.hold, hm]
    · simp [Effect.apply, Effect.hold, hm, Function.update_of_ne (Ne.symm hm)]
  | unlock i m' =>
    by_cases hm : m' = m
    · subst hm
      rcases he with he | he <;> simp [Effect.apply, Effect.hold, he]
    · simp [Effect.apply, Effect.hold, hm, Function.update_of_ne (Ne.symm hm)]
  | unwind i m' =>
    by_cases hm : m' = m
    · subst hm
      have he : s.owner m' = some i := he
      simp [Effect.apply, Effect.hold, he]
    · simp [Effect.apply, Effect.hold, hm, Function.update_of_ne (Ne.symm hm)]
  | _ => rfl

/-- The owner is the one whose lock has not been undone. -/
theorem Lawful.owner_eq (hl : Lawful cap s h) (m : ρ) :
    (run s h).owner m = h.foldl (Effect.hold m) (s.owner m) := by
  induction h generalizing s with
  | nil => rfl
  | cons e h ih => rw [run_cons, ih hl.2, List.foldl_cons, hl.1.owner_eq m]

section
variable (hl : Lawful cap Store.empty h)
include hl

theorem Lawful.fifo (q : ρ) : sent q h = received q h ++ (run Store.empty h).queue q := by
  simpa [Store.empty] using hl.queue_eq q

theorem Lawful.bounded (q : ρ) : ((run Store.empty h).queue q).length ≤ cap q :=
  hl.queue_length_le (Nat.zero_le _)

theorem Lawful.owner_eq_holder (m : ρ) : (run Store.empty h).owner m = holder m h :=
  hl.owner_eq m

end

/-- A lock takes effect only while nobody holds the mutex. -/
theorem Lawful.lock_free {i : ι} {m : ρ} (hl : Lawful cap Store.empty (h ++ .lock i m :: h')) :
    holder m h = none := by
  rw [← (lawful_append.mp hl).1.owner_eq_holder m]
  exact hl.allowed_mid

/-- A receive takes the oldest value that was sent and not yet received. -/
theorem Lawful.receive_oldest {i : ι} {q : ρ} {x : α}
    (hl : Lawful cap Store.empty (h ++ .receive i q x :: h')) :
    ∃ rest, sent q h = received q h ++ x :: rest := by
  obtain ⟨rest, hr⟩ := hl.allowed_mid
  exact ⟨rest, by rw [(lawful_append.mp hl).1.fifo q, hr]⟩

/-! ## Renaming actors -/

section
variable {κ : Type*} [DecidableEq κ]

/-- What a grant can do: anything but a release outside the handshake. -/
def Effect.granted : Effect ι ρ α → Bool
  | .unwind _ _ | .terminate _ => false
  | _ => true

def Effect.rename (f : ι → κ) : Effect ι ρ α → Effect κ ρ α
  | .lock i m => .lock (f i) m
  | .unlock i m => .unlock (f i) m
  | .unwind i m => .unwind (f i) m
  | .terminate i => .terminate (f i)
  | .send i q x => .send (f i) q x
  | .receive i q x => .receive (f i) q x

def Store.rename (f : ι → κ) (s : Store ι ρ α) : Store κ ρ α :=
  ⟨fun m => (s.owner m).map f, s.queue⟩

omit [DecidableEq ι] [DecidableEq ρ] [DecidableEq κ] in
@[simp] theorem Store.rename_empty (f : ι → κ) :
    (Store.empty : Store ι ρ α).rename f = .empty := rfl

theorem Effect.apply_rename {f : ι → κ} (he : e.granted = true) :
    (e.rename f).apply (s.rename f) = (e.apply s).rename f := by
  cases e with
  | lock i m | unlock i m =>
    refine Store.ext (funext fun m' => ?_) rfl
    by_cases hm : m' = m
    · subst hm; simp [Effect.rename, Effect.apply, Store.rename]
    · simp [Effect.rename, Effect.apply, Store.rename, Function.update_of_ne hm]
  | unwind i m | terminate i => cases he
  | send i q x | receive i q x => rfl

/-- Renaming the actors of a history renames the owners it leads to. -/
theorem run_rename {f : ι → κ} (hg : ∀ e ∈ h, e.granted = true) :
    run (s.rename f) (h.map (Effect.rename f)) = (run s h).rename f := by
  induction h generalizing s with
  | nil => rfl
  | cons e h ih =>
    rw [List.map_cons, run_cons, run_cons, Effect.apply_rename (hg e List.mem_cons_self)]
    exact ih fun e he => hg e (List.mem_cons_of_mem _ he)

end

end MirrorCpp.Monitor
