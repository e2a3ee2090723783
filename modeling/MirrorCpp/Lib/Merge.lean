import Mathlib.Data.List.Basic
import Mathlib.Data.List.Perm.Basic

/-!
# Merges

The lists that take every element of a family of chains once, each chain in its own order.
-/

namespace MirrorCpp

variable {α : Type*}

/-- At each step the head of some chain is next. -/
inductive Merge : List (List α) → List α → Prop
  | done {chains} (h : ∀ c ∈ chains, c = []) : Merge chains []
  | take {chains i x c xs} (hi : chains[i]? = some (x :: c)) (h : Merge (chains.set i c) xs) :
    Merge chains (x :: xs)

/-- Taking a head off one chain takes it off the family. -/
theorem perm_flatten_set {x : α} {c : List α} : ∀ {chains : List (List α)} {i : Nat},
    chains[i]? = some (x :: c) → (x :: (chains.set i c).flatten).Perm chains.flatten
  | [], _, h => by cases h
  | _ :: _, 0, h => by
    cases h
    exact .refl _
  | d :: chains, i + 1, h => by
    have ih := @perm_flatten_set _ _ chains i h
    rw [List.set_cons_succ, List.flatten_cons, List.flatten_cons]
    exact List.perm_middle.symm.trans (ih.append_left d)

theorem Merge.perm {chains : List (List α)} {xs : List α} (h : Merge chains xs) :
    xs.Perm chains.flatten := by
  induction h with
  | done h => rw [List.flatten_eq_nil_iff.mpr h]
  | take hi _ ih => exact (ih.cons _).trans (perm_flatten_set hi)

end MirrorCpp
