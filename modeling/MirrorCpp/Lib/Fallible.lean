import Mathlib.Logic.Basic

/-!
# Computations that throw

How a result or an exception of a sequence in `Except` comes about.
-/

namespace MirrorCpp.Fallible

universe u v

variable {ε : Type u} {α β : Type v} {a : Except ε α} {e : ε} {y : β}

theorem bind_eq_ok {f : α → Except ε β} : a >>= f = .ok y ↔ ∃ x, a = .ok x ∧ f x = .ok y := by
  cases a <;> simp [bind, Except.bind]

/-- Behind a check. -/
theorem then_eq_ok {c : Except ε PUnit} {f : PUnit → Except ε β} :
    c >>= f = .ok y ↔ c = .ok ⟨⟩ ∧ f ⟨⟩ = .ok y := by
  cases c <;> simp [bind, Except.bind]

theorem bind_eq_error {f : α → Except ε β} :
    a >>= f = .error e ↔ a = .error e ∨ ∃ x, a = .ok x ∧ f x = .error e := by
  cases a <;> simp [bind, Except.bind]

theorem map_eq_ok {f : α → β} : f <$> a = .ok y ↔ ∃ x, a = .ok x ∧ f x = y := by
  cases a <;> simp [Functor.map, Except.map]

theorem map_eq_error {f : α → β} : f <$> a = .error e ↔ a = .error e := by
  cases a <;> simp [Functor.map, Except.map]

@[simp] theorem pure_eq (x : α) : (pure x : Except ε α) = .ok x := rfl

@[simp] theorem ok_bind (x : α) (f : α → Except ε β) : (Except.ok x : Except ε α) >>= f = f x := rfl

@[simp] theorem error_bind (e : ε) (f : α → Except ε β) :
    (Except.error e : Except ε α) >>= f = .error e := rfl

@[simp] theorem map_ok (f : α → β) (x : α) : f <$> (Except.ok x : Except ε α) = .ok (f x) := rfl

@[simp] theorem map_error (f : α → β) (e : ε) :
    f <$> (Except.error e : Except ε α) = .error e := rfl

/-! ## What a result satisfies -/

def Yields (P : α → Prop) (a : Except ε α) : Prop := ∀ x, a = .ok x → P x

variable {P : α → Prop} {Q : β → Prop}

theorem yields_ok {x : α} (h : P x) : Yields P (.ok x : Except ε α) := by
  rintro _ ⟨⟩
  exact h

theorem yields_bind {f : α → Except ε β} (h : ∀ x, a = .ok x → Yields Q (f x)) :
    Yields Q (a >>= f) := by
  intro y hy
  obtain ⟨x, hx, hf⟩ := bind_eq_ok.mp hy
  exact h x hx y hf

theorem yields_map {f : α → β} (h : ∀ x, Q (f x)) : Yields Q (f <$> a) := by
  intro y hy
  obtain ⟨x, -, rfl⟩ := map_eq_ok.mp hy
  exact h x

theorem yields_ite {p : Prop} [Decidable p] {b : Except ε α} (ha : p → Yields P a)
    (hb : ¬p → Yields P b) : Yields P (if p then a else b) := by
  split
  · exact ha ‹_›
  · exact hb ‹_›

end MirrorCpp.Fallible
