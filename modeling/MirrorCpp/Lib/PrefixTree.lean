import Mathlib.Data.List.Nodup
import Mathlib.Data.List.Induction
import Mathlib.Data.Set.Card

/-!
# Exploring a tree of choices

A tree is given by the choices `E p a` open at a path `p`. A worklist that replaces a path by
its children (`Frontier.visit`) visits every node, each once, when it runs empty
(`Frontier.complete`).
-/

namespace MirrorCpp.PrefixTree

universe u

variable {α : Type u} (E : List α → α → Prop)

/-- The paths all of whose choices were open. -/
inductive Node : List α → Prop where
  | nil : Node []
  | snoc {p : List α} {a : α} : Node p → E p a → Node (p ++ [a])

/-- Paths visited, and paths still to visit. -/
structure Frontier (visited todo : List (List α)) : Prop where
  nodup : (visited ++ todo).Nodup
  root : [] ∈ visited ++ todo
  parent : ∀ p a, p ++ [a] ∈ visited ++ todo → p ∈ visited ∧ E p a
  children : ∀ p ∈ visited, ∀ a, E p a → p ++ [a] ∈ visited ++ todo

variable {E} {visited todo : List (List α)} {p : List α}

theorem Frontier.init : Frontier E [] [[]] where
  nodup := by simp
  root := by simp
  parent p a h := by simp at h
  children p h := by simp at h

/-- Visit the first path and put its children in its place. -/
theorem Frontier.visit (h : Frontier E visited (p :: todo)) {as : List α} (hnd : as.Nodup)
    (has : ∀ a, a ∈ as ↔ E p a) :
    Frontier E (visited ++ [p]) (as.map (fun a => p ++ [a]) ++ todo) := by
  have hperm : (visited ++ [p] ++ (as.map (fun a => p ++ [a]) ++ todo)).Perm
      (as.map (fun a => p ++ [a]) ++ (visited ++ p :: todo)) := by
    have h1 : visited ++ [p] ++ (as.map (fun a => p ++ [a]) ++ todo) =
        (visited ++ [p]) ++ as.map (fun a => p ++ [a]) ++ todo := by simp
    have h2 : as.map (fun a => p ++ [a]) ++ (visited ++ p :: todo) =
        as.map (fun a => p ++ [a]) ++ (visited ++ [p]) ++ todo := by simp
    rw [h1, h2]
    exact List.perm_append_comm.append_right todo
  have hmem : ∀ q, q ∈ visited ++ [p] ++ (as.map (fun a => p ++ [a]) ++ todo) ↔
      (∃ a, E p a ∧ q = p ++ [a]) ∨ q ∈ visited ++ p :: todo := by
    intro q
    rw [hperm.mem_iff, List.mem_append, List.mem_map]
    simp only [has, eq_comm]
  -- a path is visited once, so its children are new
  have hnew : ∀ a, p ++ [a] ∉ visited ++ p :: todo := fun a hq => by
    have hp := (h.parent p a hq).1
    exact (List.nodup_append.mp h.nodup).2.2 p hp p List.mem_cons_self rfl
  refine ⟨?_, (hmem _).mpr (.inr h.root), fun q a hq => ?_, fun q hq a ha => ?_⟩
  · rw [hperm.nodup_iff, List.nodup_append]
    refine ⟨hnd.map fun a b hab => by simpa using hab, h.nodup, ?_⟩
    rintro q hq r hr rfl
    obtain ⟨a, -, rfl⟩ := List.mem_map.mp hq
    exact hnew a hr
  · rcases (hmem _).mp hq with ⟨b, hb, e⟩ | hq
    · obtain ⟨rfl, hab⟩ := List.append_inj' e rfl
      obtain rfl := List.singleton_injective hab
      exact ⟨by simp, hb⟩
    · obtain ⟨hq, ha⟩ := h.parent q a hq
      exact ⟨List.mem_append_left _ hq, ha⟩
  · rw [hmem]
    rcases List.mem_append.mp hq with hq | hq
    · exact .inr (h.children q hq a ha)
    · obtain rfl := List.mem_singleton.mp hq
      exact .inl ⟨a, ha, rfl⟩

/-- **With nothing left to visit, every node was visited once.** -/
theorem Frontier.complete (h : Frontier E visited []) :
    visited.Nodup ∧ ∀ p, p ∈ visited ↔ Node E p := by
  obtain ⟨hnd, hroot, hpar, hch⟩ := h
  simp only [List.append_nil] at hnd hroot hpar hch
  refine ⟨hnd, fun p => ⟨fun hp => ?_, fun hp => ?_⟩⟩
  · induction p using List.reverseRecOn with
    | nil => exact .nil
    | append_singleton p a ih =>
      obtain ⟨hp, ha⟩ := hpar p a hp
      exact .snoc (ih hp) ha
  · induction hp with
    | nil => exact hroot
    | snoc _ ha ih => exact hch _ ih _ ha

/-- Counting over the visited paths counts nodes. -/
theorem Frontier.ncard (h : Frontier E visited []) (P : List α → Prop) [DecidablePred P] :
    {p | Node E p ∧ P p}.ncard = visited.countP (fun p => P p) := by
  classical
  obtain ⟨hnd, hmem⟩ := h.complete
  have hset : {p | Node E p ∧ P p} = ((visited.filter fun p => P p).toFinset : Set (List α)) := by
    ext p
    simp [hmem]
  rw [hset, Set.ncard_coe_finset, List.toFinset_card_of_nodup (hnd.filter _),
    List.countP_eq_length_filter]

end MirrorCpp.PrefixTree
