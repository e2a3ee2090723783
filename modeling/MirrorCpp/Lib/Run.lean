import Mathlib.Logic.Relation

/-!
# Labelled transition systems

Initial states and a partial step function, the label resolving every choice. `ReachBy C` are
the states reached by steps that all meet `C`; `Path C` are the segments of such runs. An
invariant is shown by its step (`ReachBy.inv`), relative to an invariant already known where
that helps (`ReachBy.inv_of`).
-/

namespace MirrorCpp

universe u v

structure Lts (σ : Type u) (α : Type v) where
  init : σ → Prop
  step : σ → α → Option σ

namespace Lts

variable {σ : Type u} {α : Type v} (L : Lts σ α)

/-- The states reached by steps `s --a--> t` with `C s a`. -/
inductive ReachBy (C : σ → α → Prop) : σ → Prop where
  | init {s : σ} : L.init s → ReachBy C s
  | step {s t : σ} {a : α} : ReachBy C s → C s a → L.step s a = some t → ReachBy C t

/-- The states of any run. -/
abbrev Reach : σ → Prop := L.ReachBy fun _ _ => True

/-- `t` is reached from `s` by steps that all meet `C`. -/
inductive Path (C : σ → α → Prop) (s : σ) : σ → Prop where
  | refl : Path C s s
  | tail {t u : σ} {a : α} : Path C s t → C t a → L.step t a = some u → Path C s u

/-- Follow the labels, as long as `ok` allows the next step. -/
def exec (ok : σ → α → Bool) : List α → σ → Option σ
  | [], s => some s
  | a :: as, s => if ok s a then (L.step s a).bind (exec ok as) else none

variable {L} {τ : Type*} {β : Type*} {K : Lts τ β} {C D : σ → α → Prop} {P Q : σ → Prop} {s t u : σ}

theorem ReachBy.mono (h : L.ReachBy C s) (hCD : ∀ s a, C s a → D s a) : L.ReachBy D s := by
  induction h with
  | init h => exact .init h
  | step _ hc hs ih => exact .step ih (hCD _ _ hc) hs

theorem ReachBy.reach (h : L.ReachBy C s) : L.Reach s := h.mono fun _ _ _ => trivial

/-- What holds initially and is kept by every step that meets `C` holds along the run. -/
theorem ReachBy.inv (hinit : ∀ s, L.init s → P s)
    (hstep : ∀ s a t, P s → C s a → L.step s a = some t → P t) (h : L.ReachBy C s) : P s := by
  induction h with
  | init h => exact hinit _ h
  | step _ hc hs ih => exact hstep _ _ _ ih hc hs

/-- The same, each step being taken from a state where `Q` is known to hold. -/
theorem ReachBy.inv_of (hQ : ∀ s, L.ReachBy C s → Q s) (hinit : ∀ s, L.init s → P s)
    (hstep : ∀ s a t, Q s → P s → C s a → L.step s a = some t → P t) (h : L.ReachBy C s) :
    P s := by
  induction h with
  | init h => exact hinit _ h
  | step hr hc hs ih => exact hstep _ _ _ (hQ _ hr) ih hc hs

theorem ReachBy.path (h : L.ReachBy C s) (hp : L.Path C s t) : L.ReachBy C t := by
  induction hp with
  | refl => exact h
  | tail _ hc hs ih => exact .step ih hc hs

theorem Path.trans (h : L.Path C s t) (h' : L.Path C t u) : L.Path C s u := by
  induction h' with
  | refl => exact h
  | tail _ hc hs ih => exact .tail ih hc hs

theorem Path.single {a : α} (hc : C s a) (hs : L.step s a = some t) : L.Path C s t :=
  .tail .refl hc hs

theorem Path.head {a : α} (hc : C s a) (hs : L.step s a = some t) (h : L.Path C t u) :
    L.Path C s u := (Path.single hc hs).trans h

theorem Path.mono (h : L.Path C s t) (hCD : ∀ s a, C s a → D s a) : L.Path D s t := by
  induction h with
  | refl => exact .refl
  | tail _ hc hs ih => exact .tail ih (hCD _ _ hc) hs

/-- A path of one system is a path of another where its steps are. -/
theorem Path.lift {E : τ → β → Prop} (f : σ → τ) (h : L.Path C s t)
    (hstep : ∀ s a t, C s a → L.step s a = some t → K.Path E (f s) (f t)) :
    K.Path E (f s) (f t) := by
  induction h with
  | refl => exact .refl
  | tail _ hc hs ih => exact ih.trans (hstep _ _ _ hc hs)

theorem Path.exec {ok : σ → α → Bool} (hok : ∀ s a, ok s a = true → C s a) {as : List α}
    (he : L.exec ok as s = some t) : L.Path C s t := by
  induction as generalizing s with
  | nil => cases he; exact .refl
  | cons a as ih =>
    simp only [Lts.exec] at he
    split at he
    · rename_i ha
      obtain ⟨u, hs, he⟩ := Option.bind_eq_some_iff.mp he
      exact .head (hok s a ha) hs (ih he)
    · cases he

theorem ReachBy.exec {ok : σ → α → Bool} (hok : ∀ s a, ok s a = true → C s a) {as : List α}
    (h : L.ReachBy C s) (he : L.exec ok as s = some t) : L.ReachBy C t :=
  h.path (.exec hok he)

theorem Path.inv (hp : L.Path C s t) (h : P s)
    (hstep : ∀ s a t, P s → C s a → L.step s a = some t → P t) : P t := by
  induction hp with
  | refl => exact h
  | tail _ hc hs ih => exact hstep _ _ _ ih hc hs

end Lts

end MirrorCpp
