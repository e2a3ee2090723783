import Mathlib.Data.List.Sort

/-!
# Maps in key order

A `std::map` as the list of its entries, strictly increasing in the key. `emplace` leaves an
entry that is already there; `tally` counts in a map of counters.
-/

namespace MirrorCpp.SortedMap

universe u v

variable {κ : Type u} {α : Type v}

section Entries

variable [LT κ] [DecidableEq κ] [DecidableLT κ] {k : κ} {v : α} {m : κ × α} {ms : List (κ × α)}

/-- `emplace(k, v)`. -/
def emplace (k : κ) (v : α) : List (κ × α) → List (κ × α)
  | [] => [(k, v)]
  | (l, w) :: ms =>
    if k = l then (l, w) :: ms
    else if k < l then (k, v) :: (l, w) :: ms
    else (l, w) :: emplace k v ms

theorem of_mem_emplace (h : m ∈ emplace k v ms) : m = (k, v) ∨ m ∈ ms := by
  induction ms with
  | nil => simpa [emplace] using h
  | cons n ms ih =>
    obtain ⟨l, w⟩ := n
    simp only [emplace] at h
    split_ifs at h
    · exact .inr h
    · simpa using h
    · rcases List.mem_cons.mp h with rfl | h
      · simp
      · exact (ih h).imp_right (List.mem_cons_of_mem _)

theorem mem_emplace_of_mem (h : m ∈ ms) : m ∈ emplace k v ms := by
  induction ms with
  | nil => cases h
  | cons n ms ih =>
    obtain ⟨l, w⟩ := n
    simp only [emplace]
    split_ifs
    · exact h
    · exact List.mem_cons_of_mem _ h
    · rcases List.mem_cons.mp h with rfl | h
      · simp
      · exact List.mem_cons_of_mem _ (ih h)

/-- The key is there afterwards. -/
theorem exists_mem_emplace (k : κ) (v : α) (ms : List (κ × α)) : ∃ w, (k, w) ∈ emplace k v ms := by
  induction ms with
  | nil => exact ⟨v, by simp [emplace]⟩
  | cons n ms ih =>
    obtain ⟨l, w⟩ := n
    simp only [emplace]
    split_ifs with h
    · exact ⟨w, by simp [h]⟩
    · exact ⟨v, by simp⟩
    · obtain ⟨w', h'⟩ := ih
      exact ⟨w', List.mem_cons_of_mem _ h'⟩

/-- `++m[k]`. -/
def tally (k : κ) : List (κ × Nat) → List (κ × Nat)
  | [] => [(k, 1)]
  | (l, n) :: ms =>
    if k = l then (l, n + 1) :: ms
    else if k < l then (k, 1) :: (l, n) :: ms
    else (l, n) :: tally k ms

theorem of_mem_map_tally {l : κ} {ns : List (κ × Nat)} (h : l ∈ (tally k ns).map Prod.fst) :
    l = k ∨ l ∈ ns.map Prod.fst := by
  induction ns with
  | nil => simpa [tally] using h
  | cons n ns ih =>
    obtain ⟨l', n⟩ := n
    simp only [tally] at h
    split_ifs at h
    · exact .inr h
    · simpa using h
    · rcases List.mem_cons.mp h with rfl | h
      · simp
      · exact (ih h).imp_right (List.mem_cons_of_mem _)

end Entries

/-- All that was counted. -/
def total : List (κ × Nat) → Nat
  | [] => 0
  | (_, n) :: ms => n + total ms

theorem total_tally [LT κ] [DecidableEq κ] [DecidableLT κ] (k : κ) (ms : List (κ × Nat)) :
    total (tally k ms) = total ms + 1 := by
  induction ms with
  | nil => rfl
  | cons m ms ih =>
    obtain ⟨l, n⟩ := m
    simp only [tally]
    split_ifs <;> simp only [total, ih] <;> omega

/-- The counter of a key; what was never counted is at 0. -/
def counter [DecidableEq κ] (k : κ) : List (κ × Nat) → Nat
  | [] => 0
  | (l, n) :: ms => if k = l then n else counter k ms

theorem counter_eq_zero [DecidableEq κ] {k : κ} {ms : List (κ × Nat)}
    (h : k ∉ ms.map Prod.fst) : counter k ms = 0 := by
  induction ms with
  | nil => rfl
  | cons m ms ih =>
    obtain ⟨l, n⟩ := m
    rw [List.map_cons, List.mem_cons, not_or] at h
    rw [counter, if_neg h.1, ih h.2]

def Sorted [LT κ] (ms : List (κ × α)) : Prop := (ms.map Prod.fst).Pairwise (· < ·)

theorem sorted_nil [LT κ] : Sorted ([] : List (κ × α)) := List.Pairwise.nil

section Order

variable [LT κ] [LE κ] [Std.IsLinearOrder κ] [Std.LawfulOrderLT κ] {ms ns : List (κ × α)}

/-- Maps with the same entries are the same. -/
theorem Sorted.eq_of_mem_iff (hm : Sorted ms) (hn : Sorted ns) (h : ∀ m, m ∈ ms ↔ m ∈ ns) :
    ms = ns := by
  rw [Sorted, List.pairwise_map] at hm hn
  exact List.Pairwise.eq_of_mem_iff hm hn h

theorem Sorted.emplace [DecidableEq κ] [DecidableLT κ] (h : Sorted ms) (k : κ) (v : α) :
    Sorted (emplace k v ms) := by
  induction ms with
  | nil => simp [SortedMap.emplace, Sorted]
  | cons n ms ih =>
    obtain ⟨l, w⟩ := n
    have hs := h
    rw [Sorted, List.map_cons, List.pairwise_cons] at hs
    obtain ⟨hlt, hms⟩ := hs
    simp only [SortedMap.emplace]
    split_ifs with he hl
    · exact h
    · refine List.pairwise_cons.mpr ⟨fun x hx => ?_, h⟩
      rcases List.mem_cons.mp hx with rfl | hx
      · exact hl
      · exact Std.lt_trans hl (hlt x hx)
    · refine List.pairwise_cons.mpr ⟨fun x hx => ?_, ih hms⟩
      obtain ⟨e, he', rfl⟩ := List.mem_map.mp hx
      rcases of_mem_emplace he' with rfl | he'
      · exact Std.lt_of_le_of_ne (Std.not_lt.mp hl) (Ne.symm he)
      · exact hlt _ (List.mem_map_of_mem he')

theorem Sorted.tally [DecidableEq κ] [DecidableLT κ] {ms : List (κ × Nat)} (h : Sorted ms)
    (k : κ) : Sorted (tally k ms) := by
  induction ms with
  | nil => simp [SortedMap.tally, Sorted]
  | cons n ms ih =>
    obtain ⟨l, n⟩ := n
    have hs := h
    rw [Sorted, List.map_cons, List.pairwise_cons] at hs
    obtain ⟨hlt, hms⟩ := hs
    simp only [SortedMap.tally]
    split_ifs with he hl
    · exact h
    · refine List.pairwise_cons.mpr ⟨fun x hx => ?_, h⟩
      rcases List.mem_cons.mp hx with rfl | hx
      · exact hl
      · exact Std.lt_trans hl (hlt x hx)
    · refine List.pairwise_cons.mpr ⟨fun x hx => ?_, ih hms⟩
      rcases of_mem_map_tally hx with rfl | hx
      · exact Std.lt_of_le_of_ne (Std.not_lt.mp hl) (Ne.symm he)
      · exact hlt x hx

/-- One counter has gone up. -/
theorem Sorted.counter_tally [DecidableEq κ] [DecidableLT κ] {ms : List (κ × Nat)}
    (h : Sorted ms) (k j : κ) :
    counter j (SortedMap.tally k ms) = counter j ms + if j = k then 1 else 0 := by
  induction ms with
  | nil => by_cases hj : j = k <;> simp [SortedMap.tally, counter, hj]
  | cons n ms ih =>
    obtain ⟨l, n⟩ := n
    rw [Sorted, List.map_cons, List.pairwise_cons] at h
    obtain ⟨hlt, hms⟩ := h
    unfold SortedMap.tally
    by_cases he : k = l
    · subst he
      rw [if_pos rfl]
      by_cases hj : j = k <;> simp [counter, hj]
    rw [if_neg he]
    by_cases hl : k < l
    · rw [if_pos hl]
      by_cases hj : j = k
      · subst hj
        have hnot : j ∉ ms.map Prod.fst := fun hm => Std.lt_irrefl (Std.lt_trans hl (hlt j hm))
        simp [counter, he, counter_eq_zero hnot]
      · simp [counter, hj]
    · rw [if_neg hl]
      by_cases hj : j = l
      · subst hj
        simp [counter, Ne.symm he]
      · simp only [counter, if_neg hj]
        exact ih hms

end Order

end MirrorCpp.SortedMap
