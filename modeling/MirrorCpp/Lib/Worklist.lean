import Mathlib.Data.List.Infix
import Mathlib.Data.List.Perm.Subperm
import Mathlib.Logic.Relation

/-!
# Discovery by a worklist

A list that collects the elements of others, each where it occurs first, and the order in which a
breadth-first search discovers a graph: the elements take their turns in the order in which they
were discovered, and at its turn an element's successors are discovered in their order.
-/

namespace MirrorCpp.Worklist

variable {α : Type*} [DecidableEq α]

/-- Put `x` at the end, unless it is there. -/
def insert (seen : List α) (x : α) : List α := if x ∈ seen then seen else seen ++ [x]

def insertAll (seen xs : List α) : List α := xs.foldl insert seen

@[simp] theorem insertAll_nil (seen : List α) : insertAll seen [] = seen := rfl

@[simp] theorem insertAll_cons (seen : List α) (x : α) (xs : List α) :
    insertAll seen (x :: xs) = insertAll (insert seen x) xs := rfl

theorem insertAll_append (seen xs ys : List α) :
    insertAll seen (xs ++ ys) = insertAll (insertAll seen xs) ys := List.foldl_append

theorem mem_insert {seen : List α} {x y : α} : y ∈ insert seen x ↔ y ∈ seen ∨ y = x := by
  unfold insert
  split
  · rename_i h
    exact ⟨.inl, fun hy => hy.elim id fun e => e ▸ h⟩
  · simp

theorem mem_insertAll {xs : List α} : ∀ {seen : List α} {y : α},
    y ∈ insertAll seen xs ↔ y ∈ seen ∨ y ∈ xs := by
  induction xs with
  | nil => simp
  | cons x xs ih =>
    intro seen y
    rw [insertAll_cons, ih, mem_insert, List.mem_cons, or_assoc]

theorem nodup_insert {seen : List α} (x : α) (h : seen.Nodup) : (insert seen x).Nodup := by
  unfold insert
  split
  · exact h
  · rename_i hx
    rw [List.nodup_append]
    refine ⟨h, by simp, fun a ha b hb => ?_⟩
    rw [List.mem_singleton.mp hb]
    rintro rfl
    exact hx ha

theorem nodup_insertAll {xs : List α} : ∀ {seen : List α}, seen.Nodup →
    (insertAll seen xs).Nodup := by
  induction xs with
  | nil => exact id
  | cons x xs ih => exact fun h => ih (nodup_insert x h)

theorem prefix_insertAll {xs : List α} : ∀ seen : List α, seen <+: insertAll seen xs := by
  induction xs with
  | nil => exact fun seen => List.prefix_rfl
  | cons x xs ih =>
    intro seen
    refine List.IsPrefix.trans ?_ (ih (insert seen x))
    unfold insert
    split
    · exact List.prefix_rfl
    · exact List.prefix_append _ _

/-- The graph from `r`, in the order of its breadth-first discovery. -/
def BreadthFirst (succ : α → List α) (r : α) (order : List α) : Prop :=
  order = insertAll [r] (order.flatMap succ)

/-- What a search knows after the turns of the first `turn` elements. -/
structure Searched (succ : α → List α) (r : α) (found : List α) (turn : Nat) : Prop where
  found_eq : found = insertAll [r] ((found.take turn).flatMap succ)
  turn_le : turn ≤ found.length
  reached : ∀ c ∈ found, Relation.ReflTransGen (fun a b => b ∈ succ a) r c

section
variable {succ : α → List α} {r : α} {found : List α} {turn : Nat}

theorem Searched.start : Searched succ r [r] 0 where
  found_eq := rfl
  turn_le := Nat.zero_le _
  reached c hc := by rw [List.mem_singleton.mp hc]

theorem Searched.nodup (h : Searched succ r found turn) : found.Nodup := by
  rw [h.found_eq]
  exact nodup_insertAll (by simp)

/-- One turn. -/
theorem Searched.next (h : Searched succ r found turn) {c : α} (hc : found[turn]? = some c) :
    Searched succ r (insertAll found (succ c)) (turn + 1) := by
  obtain ⟨hlt, he⟩ := List.getElem?_eq_some_iff.mp hc
  have hpre := @prefix_insertAll _ _ (succ c) found
  have htake : (insertAll found (succ c)).take (turn + 1) = found.take turn ++ [c] := by
    obtain ⟨ys, hys⟩ := hpre
    rw [← hys, List.take_append_of_le_length hlt, List.take_add_one, hc]
    rfl
  refine ⟨?_, ?_, ?_⟩
  · rw [htake, List.flatMap_append, insertAll_append, ← h.found_eq]
    simp
  · have := hpre.length_le
    omega
  · intro d hd
    rcases mem_insertAll.mp hd with hd | hd
    · exact h.reached d hd
    · exact (h.reached c (List.mem_of_getElem? hc)).tail hd

/-- When every element has had its turn, the graph is found. -/
theorem Searched.done (h : Searched succ r found turn) (hd : found[turn]? = none) :
    BreadthFirst succ r found := by
  have := h.found_eq
  rwa [List.take_of_length_le (List.getElem?_eq_none_iff.mp hd)] at this

/-- The elements whose turn is over have their successors among the found. -/
theorem Searched.closed (h : Searched succ r found turn) (hd : found[turn]? = none) {c d : α}
    (hc : c ∈ found) (hs : d ∈ succ c) : d ∈ found := by
  have hb := h.done hd
  unfold BreadthFirst at hb
  rw [hb, mem_insertAll]
  exact .inr (List.mem_flatMap.mpr ⟨c, hc, hs⟩)

theorem Searched.mem_iff (h : Searched succ r found turn) (hd : found[turn]? = none) {c : α} :
    c ∈ found ↔ Relation.ReflTransGen (fun a b => b ∈ succ a) r c := by
  refine ⟨h.reached c, fun hr => ?_⟩
  induction hr with
  | refl =>
    rw [h.found_eq, mem_insertAll]
    exact .inl List.mem_cons_self
  | tail _ hs ih => exact h.closed hd ih hs

end

end MirrorCpp.Worklist
