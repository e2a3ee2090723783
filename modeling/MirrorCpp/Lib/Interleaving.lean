import Mathlib.Data.List.Induction
import Mathlib.Data.List.Lex
import Mathlib.Data.List.Perm.Subperm

/-!
# Interleavings

A word of indices interleaves chains of the lengths `len` when it names every chain as often as
the chain is long. A switch leaves a chain before its end for another one. `listing` walks the
interleavings with at most `max` switches depth first: it has each of them once, in lexicographic
order.
-/

namespace MirrorCpp

namespace Interleaving

variable (len : Nat → Nat)

/-- No chain is named more often than it is long. -/
def Fits (u : List Nat) : Prop := ∀ i, u.count i ≤ len i

/-- Every chain is taken to its end. -/
def Complete (u : List Nat) : Prop := ∀ i, u.count i = len i

/-- Behind the choice at `k` an unfinished chain is left for another one. -/
def switchAt (u : List Nat) (k : Nat) : Bool :=
  match u[k]?, u[k + 1]? with
  | some i, some j => i != j && decide ((u.take (k + 1)).count i < len i)
  | _, _ => false

def switches (u : List Nat) : Nat := (List.range u.length).countP (switchAt len u)

/-- Whether it is a switch to choose `i` next. -/
def leaves (h : List Nat) (i : Nat) : Bool :=
  match h.getLast? with
  | none => false
  | some p => p != i && decide (h.count p < len p)

/-- The interleavings of `n` chains that begin with `h`, with `left` choices to make. -/
def listing (n max : Nat) : Nat → List Nat → List (List Nat)
  | 0, h => [h]
  | left + 1, h => (List.range n).flatMap fun i =>
    if len i ≤ h.count i ∨ max < switches len (h ++ [i]) then [] else listing n max left (h ++ [i])

variable {len} {n max left i k : Nat} {h u v w : List Nat}

/-! ## Switches -/

theorem switchAt_append (hk : k + 1 < h.length) :
    switchAt len (h ++ w) k = switchAt len h k := by
  have hk' : k < h.length := by omega
  simp only [switchAt, List.getElem?_append_left hk, List.getElem?_append_left hk',
    List.take_append_of_le_length (show k + 1 ≤ h.length by omega)]

/-- The last choice of a word is no switch. -/
theorem switchAt_last (hk : u.length ≤ k + 1) : switchAt len u k = false := by
  simp only [switchAt, List.getElem?_eq_none hk]
  cases u[k]? <;> rfl

theorem switchAt_snoc (g : List Nat) (p i : Nat) :
    switchAt len (g ++ [p] ++ [i]) g.length = leaves len (g ++ [p]) i := by
  have hl : (g ++ [p]).length = g.length + 1 := by simp
  have hp : (g ++ [p] ++ [i])[g.length]? = some p := by simp
  have hi : (g ++ [p] ++ [i])[g.length + 1]? = some i := by
    rw [List.getElem?_append_right (by omega), hl]
    simp
  have ht : (g ++ [p] ++ [i]).take (g.length + 1) = g ++ [p] := by rw [← hl, List.take_left]
  simp only [switchAt, leaves, hp, hi, ht, List.getLast?_concat]

theorem switches_snoc (h : List Nat) (i : Nat) :
    switches len (h ++ [i]) = switches len h + if leaves len h i then 1 else 0 := by
  rcases h.eq_nil_or_concat' with rfl | ⟨g, p, rfl⟩
  · rfl
  · have hfirst : (List.range g.length).countP (switchAt len (g ++ [p] ++ [i])) =
        (List.range g.length).countP (switchAt len (g ++ [p])) := by
      refine List.countP_congr fun k hk => ?_
      rw [switchAt_append (by simpa using hk)]
    have hlast := @switchAt_last len (g.length + 1) (g ++ [p] ++ [i]) (by simp)
    have hprior := @switchAt_last len g.length (g ++ [p]) (by simp)
    simp only [switches, List.length_append, List.length_singleton, List.range_succ,
      List.countP_append, List.countP_singleton, hfirst, hlast, hprior, switchAt_snoc]
    rfl

theorem switches_mono (h w : List Nat) : switches len h ≤ switches len (h ++ w) := by
  induction w using List.reverseRecOn with
  | nil => rw [List.append_nil]
  | append_singleton w i ih =>
    rw [← List.append_assoc, switches_snoc]
    omega

/-! ## Complete words -/

theorem Complete.fits (hu : Complete len u) : Fits len u := fun i => (hu i).le

theorem Complete.perm (hu : Complete len u) (hv : Complete len v) : u.Perm v :=
  List.perm_iff_count.mpr fun i => (hu i).trans (hv i).symm

/-- A word that fits is complete once it is as long as a complete one. -/
theorem Fits.complete (hu : Fits len u) (hv : Complete len v) (hl : v.length ≤ u.length) :
    Complete len u := by
  have hs : u.Subperm v := List.subperm_ext_iff.mpr fun i _ => (hu i).trans (hv i).ge
  exact fun i => (hs.perm_of_length_le hl).count_eq i |>.trans (hv i)

theorem Fits.snoc (hu : Fits len u) (hi : u.count i < len i) : Fits len (u ++ [i]) := by
  intro j
  have := hu j
  rw [List.count_append, List.count_singleton]
  split
  · rename_i hj
    rw [beq_iff_eq] at hj
    subst hj
    omega
  · omega

theorem Fits.of_prefix (hv : Fits len v) (h : u <+: v) : Fits len u :=
  fun i => (h.sublist.count_le i).trans (hv i)

/-- The chains one after the other. -/
def serial (len : Nat → Nat) (n : Nat) : List Nat :=
  (List.range n).flatMap fun i => List.replicate (len i) i

theorem count_serial (j : Nat) : ∀ n, (serial len n).count j = if j < n then len j else 0
  | 0 => rfl
  | n + 1 => by
    have ih := count_serial j n
    unfold serial at ih ⊢
    rw [List.range_succ, List.flatMap_append, List.count_append, ih, List.flatMap_singleton,
      List.count_replicate]
    by_cases hj : n = j
    · subst hj
      simp
    · simp only [beq_iff_eq, hj, if_false, Nat.add_zero]
      exact if_congr (by omega) rfl rfl

theorem complete_serial (hn : ∀ i, n ≤ i → len i = 0) : Complete len (serial len n) := by
  intro i
  rw [count_serial]
  split
  · rfl
  · exact (hn i (by omega)).symm

/-! ## The listing -/

theorem prefix_of_mem : ∀ {left : Nat} {h : List Nat}, u ∈ listing len n max left h → h <+: u
  | 0, h, hu => by
    obtain rfl := List.mem_singleton.mp hu
    exact List.prefix_refl _
  | left + 1, h, hu => by
    obtain ⟨i, -, hu⟩ := List.mem_flatMap.mp hu
    split at hu
    · cases hu
    · exact (List.prefix_append h [i]).trans (prefix_of_mem hu)

/-- The listing has the interleavings that switch at most `max` times. -/
theorem mem_listing (hv : Complete len v) (hn : ∀ i, n ≤ i → len i = 0) :
    ∀ {left : Nat} {h u : List Nat}, v.length = h.length + left → Fits len h →
      switches len h ≤ max →
      (u ∈ listing len n max left h ↔ h <+: u ∧ Complete len u ∧ switches len u ≤ max)
  | 0, h, u, hl, hf, hs => by
    have hc := hf.complete hv (by omega)
    rw [listing, List.mem_singleton]
    constructor
    · rintro rfl
      exact ⟨List.prefix_refl _, hc, hs⟩
    · rintro ⟨hp, hu, -⟩
      exact (hp.eq_of_length (hc.perm hu).length_eq).symm
  | left + 1, h, u, hl, hf, hs => by
    rw [listing, List.mem_flatMap]
    constructor
    · rintro ⟨i, hi, hu⟩
      split at hu
      · cases hu
      · rename_i hgo
        rw [not_or, not_le, not_lt] at hgo
        obtain ⟨hp, hc, hm⟩ := (@mem_listing hv hn left (h ++ [i]) _ (by simp; omega)
          (hf.snoc hgo.1) hgo.2).mp hu
        exact ⟨(List.prefix_append h [i]).trans hp, hc, hm⟩
    · rintro ⟨⟨w, rfl⟩, hc, hm⟩
      cases w with
      | nil =>
        -- a complete word has no choice left
        rw [List.append_nil] at hc
        have := (hc.perm hv).length_eq
        omega
      | cons i w =>
        have hword : h ++ i :: w = h ++ [i] ++ w := by simp
        have hp : h ++ [i] <+: h ++ i :: w := hword ▸ List.prefix_append _ _
        have hlt : h.count i < len i := by
          have := hc i
          rw [List.count_append, List.count_cons_self] at this
          omega
        have hsw : switches len (h ++ [i]) ≤ max := by
          have := @switches_mono len (h ++ [i]) w
          rw [hword] at hm
          omega
        have hi : i < n := by
          by_contra hge
          have := hn i (by omega)
          omega
        refine ⟨i, List.mem_range.mpr hi, ?_⟩
        rw [if_neg (by omega)]
        exact (@mem_listing hv hn left (h ++ [i]) _ (by simp; omega) (hf.snoc hlt) hsw).mpr
          ⟨hp, hc, hm⟩

/-- In lexicographic order, each once. -/
theorem sorted_listing : ∀ (left : Nat) (h : List Nat),
    (listing len n max left h).Pairwise (· < ·)
  | 0, _ => List.pairwise_singleton _ _
  | left + 1, h => by
    rw [listing, List.pairwise_flatMap]
    refine ⟨fun i _ => ?_, List.pairwise_lt_range.imp fun {i j} hij => ?_⟩
    · split
      · exact .nil
      · exact sorted_listing left (h ++ [i])
    · intro u hu v hv
      split at hu
      · cases hu
      split at hv
      · cases hv
      -- both words go on from `h`, one with `i`, the other with `j`
      obtain ⟨s, rfl⟩ := prefix_of_mem hu
      obtain ⟨t, rfl⟩ := prefix_of_mem hv
      rw [List.append_assoc, List.append_assoc]
      exact List.append_left_lt (List.Lex.rel hij)

end Interleaving

end MirrorCpp
