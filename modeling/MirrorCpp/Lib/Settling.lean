import MirrorCpp.Lib.Run

/-!
# Where runs settle

A path stays in a set of states or leaves it by a step (`Path.stays_or_leaves`). Where the states
of a set have one next state each, whatever the labels, all paths from one of them leave the set
at one state (`Determined.exit`): what follows that state is all they can differ in
(`Determined.settle`).
-/

namespace MirrorCpp.Lts

open Relation (ReflTransGen)

universe u v

variable {σ : Type u} {α : Type v} {L : Lts σ α} {C : σ → α → Prop} {P : σ → Prop} {s t t' : σ}

/-- A path from `P` stays there, or leaves it by a step. -/
theorem Path.stays_or_leaves (hp : L.Path C s t) (hs : P s) :
    (P t ∧ L.Path (fun u a => C u a ∧ P u) s t) ∨
      ∃ u a v, L.Path (fun u a => C u a ∧ P u) s u ∧ P u ∧ C u a ∧ L.step u a = some v ∧ ¬P v ∧
        L.Path C v t := by
  induction hp with
  | refl => exact .inl ⟨hs, .refl⟩
  | @tail t v a _ hc hstep ih =>
    rcases ih with ⟨ht, hp⟩ | ⟨u, b, w, hp, hu, hb, hw, hnot, hrest⟩
    · by_cases hv : P v
      · exact .inl ⟨hv, hp.tail ⟨hc, ht⟩ hstep⟩
      · exact .inr ⟨t, a, v, hp, ht, hc, hstep, hv, .refl⟩
    · exact .inr ⟨u, b, w, hp, hu, hb, hw, hnot, hrest.tail hc hstep⟩

/-- The step by which a path leaves `P`. -/
theorem Path.leaves (hp : L.Path C s t) (hs : P s) (ht : ¬P t) :
    ∃ u a v, L.Path (fun u a => C u a ∧ P u) s u ∧ P u ∧ C u a ∧ L.step u a = some v ∧ ¬P v ∧
      L.Path C v t :=
  (hp.stays_or_leaves hs).resolve_left fun h => ht h.1

/-- The reached states of `P` have one next state each, whatever the label. -/
def Determined (L : Lts σ α) (P : σ → Prop) : Prop :=
  ∀ s a b t u, L.Reach s → P s → L.step s a = some t → L.step s b = some u → t = u

/-- A step from a reached state of `P`. -/
def Next (L : Lts σ α) (P : σ → Prop) (s t : σ) : Prop :=
  L.Reach s ∧ P s ∧ ∃ a, L.step s a = some t

theorem Determined.rightUnique (h : L.Determined P) : Relator.RightUnique (L.Next P) := by
  rintro s t u ⟨hr, hs, a, ha⟩ ⟨-, -, b, hb⟩
  exact h s a b t u hr hs ha hb

theorem Path.nexts (hr : L.Reach s) (hp : L.Path (fun u a => C u a ∧ P u) s t) :
    ReflTransGen (L.Next P) s t := by
  induction hp with
  | refl => exact .refl
  | tail hp hc hs ih =>
    exact ih.tail ⟨hr.path (hp.mono fun _ _ _ => trivial), hc.2, _, hs⟩

/-- All paths through `P` leave it at one state. -/
theorem Determined.exit (h : L.Determined P) (hr : L.Reach s)
    (hp : L.Path (fun u a => C u a ∧ P u) s t) (hp' : L.Path (fun u a => C u a ∧ P u) s t')
    (ht : ¬P t) (ht' : ¬P t') : t = t' := by
  rcases (hp.nexts hr).total_of_right_unique h.rightUnique (hp'.nexts hr) with hq | hq
  · rcases hq.cases_head with he | ⟨u, hu, -⟩
    · exact he
    · exact absurd hu.2.1 ht
  · rcases hq.cases_head with he | ⟨u, hu, -⟩
    · exact he.symm
    · exact absurd hu.2.1 ht'

/-- Two paths out of `P` pass the state behind its one exit. -/
theorem Determined.settle (h : L.Determined P) (hr : L.Reach s) (hs : P s) (hp : L.Path C s t)
    (hp' : L.Path C s t') (ht : ¬P t) (ht' : ¬P t') :
    ∃ u a d, L.Reach u ∧ P u ∧ C u a ∧ L.step u a = some d ∧ ¬P d ∧ L.Path C d t ∧
      L.Path C d t' := by
  obtain ⟨u, a, d, hu, hPu, hc, hstep, hd, hrest⟩ := hp.leaves hs ht
  obtain ⟨u', a', d', hu', hPu', hc', hstep', hd', hrest'⟩ := hp'.leaves hs ht'
  obtain rfl := h.exit hr (hu.tail ⟨hc, hPu⟩ hstep) (hu'.tail ⟨hc', hPu'⟩ hstep') hd hd'
  exact ⟨u, a, d, hr.path (hu.mono fun _ _ _ => trivial), hPu, hc, hstep, hd, hrest, hrest'⟩

end MirrorCpp.Lts
