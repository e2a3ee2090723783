import Mathlib.Data.Int.Basic
import Mathlib.Logic.Function.Basic

/-!
# Descriptor tables

The open descriptors of a POSIX process and the calls that change them. A new descriptor takes
the lowest free number; `dup2` makes a copy that survives an `exec`, also of a descriptor onto
itself, as a file action of `posix_spawn` does; closing a number that is not open changes nothing.
-/

namespace MirrorCpp.Posix

universe u

/-- What a descriptor is open on, and whether an `exec` closes it. -/
structure Open (φ : Type u) where
  file : φ
  cloexec : Bool
  deriving DecidableEq, Repr

/-- The open descriptors: finitely many, none of them negative. -/
structure Table (φ : Type u) where
  entry : Int → Option (Open φ)
  bound : Nat
  closed : ∀ fd, fd < 0 ∨ bound ≤ fd → entry fd = none

namespace Table

variable {φ : Type u} (t : Table φ)

def isOpen (fd : Int) : Bool := (t.entry fd).isSome

def empty : Table φ where
  entry _ := none
  bound := 0
  closed _ _ := rfl

def install (n : Nat) (e : Open φ) : Table φ where
  entry := Function.update t.entry n (some e)
  bound := max t.bound (n + 1)
  closed fd h := by
    rw [Function.update_of_ne (by omega), t.closed fd (by omega)]

/-- `close`; what is not open stays so. -/
def close (fd : Int) : Table φ where
  entry := Function.update t.entry fd none
  bound := t.bound
  closed fd' h := by
    rw [Function.update_apply, t.closed fd' h, ite_self]

def lowestFree : Nat :=
  ((List.range t.bound).find? fun n : Nat => !t.isOpen n).getD t.bound

/-- A descriptor on `file` with the lowest free number. -/
def openLowest (file : φ) (cloexec : Bool) : Int × Table φ :=
  (t.lowestFree, t.install t.lowestFree ⟨file, cloexec⟩)

/-- A pipe: its read end, then its write end. -/
def pipe (ends : φ × φ) (cloexec : Bool) : (Int × Int) × Table φ :=
  let (read, t) := t.openLowest ends.1 cloexec
  let (write, t) := t.openLowest ends.2 cloexec
  ((read, write), t)

/-- `fcntl(fd, F_SETFD, FD_CLOEXEC)`. -/
def setCloexec (fd : Int) : Table φ where
  entry := Function.update t.entry fd ((t.entry fd).map fun e => { e with cloexec := true })
  bound := t.bound
  closed fd' h := by
    rw [Function.update_apply]
    split
    · next he =>
      subst he
      rw [t.closed _ h, Option.map_none]
    · exact t.closed fd' h

/-- `dup2`, which fails when `fd` is not open. -/
def dup2 (fd : Int) (n : Nat) : Option (Table φ) :=
  (t.entry fd).map fun e => t.install n { e with cloexec := false }

/-- What an `exec` leaves open. -/
def exec : Table φ where
  entry fd := (t.entry fd).filter fun e => !e.cloexec
  bound := t.bound
  closed fd h := by rw [t.closed fd h, Option.filter_none]

@[simp] theorem entry_install (n : Nat) (e : Open φ) (fd : Int) :
    (t.install n e).entry fd = if fd = n then some e else t.entry fd :=
  Function.update_apply ..

@[simp] theorem entry_close (fd fd' : Int) :
    (t.close fd).entry fd' = if fd' = fd then none else t.entry fd' :=
  Function.update_apply ..

@[simp] theorem entry_setCloexec (fd fd' : Int) : (t.setCloexec fd).entry fd' =
    if fd' = fd then (t.entry fd).map fun e => { e with cloexec := true } else t.entry fd' :=
  Function.update_apply ..

@[simp] theorem entry_exec (fd : Int) :
    t.exec.entry fd = (t.entry fd).filter fun e => !e.cloexec := rfl

theorem entry_lowestFree : t.entry t.lowestFree = none := by
  unfold lowestFree
  cases h : (List.range t.bound).find? fun n : Nat => !t.isOpen n with
  | none => exact t.closed _ (.inr (by simp))
  | some n =>
    rw [List.find?_range_eq_some] at h
    simpa [isOpen] using h.1

theorem isOpen_of_lt_lowestFree {n : Nat} (h : n < t.lowestFree) : t.isOpen n = true := by
  unfold lowestFree at h
  cases hf : (List.range t.bound).find? fun n : Nat => !t.isOpen n with
  | none =>
    rw [hf] at h
    rw [List.find?_range_eq_none] at hf
    simpa using hf n h
  | some m =>
    rw [hf] at h
    rw [List.find?_range_eq_some] at hf
    simpa using hf.2.2 n h

/-- The two ends of a pipe were free, and nothing lower was. -/
theorem pipe_spec (ends : φ × φ) (cloexec : Bool) : ∃ a b : Nat, a < b ∧
    (t.pipe ends cloexec).1 = ((a : Int), (b : Int)) ∧ t.entry a = none ∧ t.entry b = none ∧
    (∀ m < b, m ≠ a → t.isOpen (m : Nat) = true) ∧
    ∀ fd, (t.pipe ends cloexec).2.entry fd =
      if fd = b then some ⟨ends.2, cloexec⟩ else if fd = a then some ⟨ends.1, cloexec⟩
      else t.entry fd := by
  have hb := (t.install t.lowestFree ⟨ends.1, cloexec⟩).entry_lowestFree
  have hlow := fun n => (t.install t.lowestFree ⟨ends.1, cloexec⟩).isOpen_of_lt_lowestFree (n := n)
  generalize hbn : (t.install t.lowestFree ⟨ends.1, cloexec⟩).lowestFree = b at hb hlow
  have hfree := t.entry_lowestFree
  have hlow' := fun n => t.isOpen_of_lt_lowestFree (n := n)
  simp only [pipe, openLowest, hbn]
  generalize t.lowestFree = a at *
  rw [entry_install] at hb
  split at hb
  · cases hb
  · next hne =>
    have hlt : a < b := by
      by_contra hle
      have hba : b < a := by omega
      have := hlow' b hba
      simp [isOpen, hb] at this
    refine ⟨a, b, hlt, rfl, hfree, hb, fun m hm hma => ?_, fun fd => ?_⟩
    · have := hlow m hm
      rwa [isOpen, entry_install, if_neg (by omega)] at this
    · rw [entry_install, entry_install]

end Table

end MirrorCpp.Posix
