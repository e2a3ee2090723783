import MirrorCpp.Exploration.Attempts
import MirrorCpp.Exploration.CanonicalKey

/-!
# What the coverage is made of

`Covers c traces`: the states of `c` are those of the traces, each once, and its transitions count
the steps of the traces. Covering one more observation extends the last trace; the loop over the
observations of a run adds its trace, if nothing fails and there is room.
-/

namespace MirrorCpp.Exploration

open Schedule Itf Fallible SortedMap

instance : Std.IsLinearOrder Edge where
  le_refl a := .inr ⟨rfl, Nat.le_refl _⟩
  le_trans := by
    rintro ⟨a, a'⟩ ⟨b, b'⟩ ⟨c, c'⟩ (h | ⟨rfl, h⟩) (h' | ⟨rfl, h'⟩)
    · exact .inl (Nat.lt_trans h h')
    · exact .inl h
    · exact .inl h'
    · exact .inr ⟨rfl, Nat.le_trans h h'⟩
  le_antisymm := by
    rintro ⟨a, a'⟩ ⟨b, b'⟩ (h | ⟨h, h2⟩) (h' | ⟨h', h2'⟩) <;> simp only at h h' ⊢
    · omega
    · omega
    · omega
    · simp only at h2 h2'
      rw [h, Nat.le_antisymm h2 h2']
  le_total := by
    rintro ⟨a, a'⟩ ⟨b, b'⟩
    show (a < b ∨ a = b ∧ a' ≤ b') ∨ (b < a ∨ b = a ∧ b' ≤ a')
    omega

instance : Std.LawfulOrderLT Edge where
  lt_iff := by
    rintro ⟨a, a'⟩ ⟨b, b'⟩
    show (a < b ∨ a = b ∧ a' < b') ↔ (a < b ∨ a = b ∧ a' ≤ b') ∧ ¬(b < a ∨ b = a ∧ b' ≤ a')
    omega

variable {lib : Libraries} {space : FiniteSpace} {c c' : Coverage}

/-! ## Traces -/

/-- The transitions of a trace, by the numbers of its states. -/
def edges (states : List String) (trace : List String) : List Edge :=
  (trace.zip trace.tail).map fun p => ⟨states.idxOf p.1, states.idxOf p.2⟩

theorem edges_concat (states : List String) (t : String) : ∀ (trace : List String),
    edges states (trace ++ [t]) = edges states trace ++
      trace.getLast?.toList.map fun p => ⟨states.idxOf p, states.idxOf t⟩
  | [] => rfl
  | [a] => rfl
  | a :: b :: trace => by
    have ih := edges_concat states t (b :: trace)
    rw [List.getLast?_cons_cons]
    show _ :: edges states (b :: trace ++ [t]) = _
    rw [ih]
    rfl

/-- How a state is reported. -/
def stateRows (lib : Libraries) (states : List String) : List (Nat × Json) :=
  states.zipIdx.map fun p => (p.2, ((lib.parse p.1).map Doc.toJson).getD .null)

/-- The coverage is that of these traces. -/
structure Covers (lib : Libraries) (c : Coverage) (traces : List (List String)) : Prop where
  nodup : c.states.Nodup
  listed : c.listed = stateRows lib c.states
  states : ∀ t, t ∈ c.states ↔ ∃ trace ∈ traces, t ∈ trace
  sorted : Sorted c.transitions
  counts : ∀ e, counter e c.transitions = (traces.flatMap (edges c.states)).count e
  total : total c.transitions = (traces.flatMap (edges c.states)).length
  known : ∀ e ∈ c.transitions.map Prod.fst, e ∈ traces.flatMap (edges c.states)

theorem covers_empty : Covers lib {} [] where
  nodup := .nil
  listed := rfl
  states t := by simp
  sorted := sorted_nil
  counts _ := rfl
  total := rfl
  known e h := by cases h

/-- A run begins. -/
theorem Covers.begin {traces : List (List String)} (h : Covers lib c traces) :
    Covers lib c (traces ++ [[]]) where
  nodup := h.nodup
  listed := h.listed
  states t := by rw [h.states]; simp
  sorted := h.sorted
  counts e := by rw [h.counts]; simp [edges]
  total := by rw [h.total]; simp [edges]
  known e he := by simpa [edges] using h.known e he

/-- What entering a state does: the others keep their numbers. -/
structure Entered (lib : Libraries) (c c' : Coverage) (text : String) (id : Nat) : Prop where
  number : id = c'.states.idxOf text
  mem : text ∈ c'.states
  keeps : ∀ t ∈ c.states, t ∈ c'.states ∧ c'.states.idxOf t = c.states.idxOf t
  only : ∀ t ∈ c'.states, t ∈ c.states ∨ t = text
  transitions : c'.transitions = c.transitions
  nodup : c.states.Nodup → c'.states.Nodup
  listed : c.listed = stateRows lib c.states → c'.listed = stateRows lib c'.states

theorem entered {text : String} {id : Nat} {d : Doc} (hparse : lib.parse text = some d)
    (h : c.enter lib text = (c', .ok id)) : Entered lib c c' text id := by
  unfold Coverage.enter at h
  split at h
  · rename_i hmem
    cases h
    exact ⟨rfl, hmem, fun t ht => ⟨ht, rfl⟩, fun t ht => .inl ht, rfl, fun h => h, fun h => h⟩
  · rename_i hnew
    split at h
    · cases h
    · rw [hparse] at h
      cases h
      refine ⟨?_, by simp, fun t ht => ?_, fun t ht => by simpa using ht, rfl, fun hn => ?_,
        fun hl => ?_⟩
      · rw [List.idxOf_append_of_notMem hnew]
        simp
      · exact ⟨List.mem_append_left _ ht, List.idxOf_append_of_mem ht⟩
      · refine List.nodup_append.mpr ⟨hn, List.nodup_singleton _, ?_⟩
        rintro a ha b hb rfl
        exact hnew (List.mem_singleton.mp hb ▸ ha)
      · show c.listed ++ [(c.states.length, d.toJson)] = stateRows lib (c.states ++ [text])
        rw [hl, stateRows, stateRows, List.zipIdx_append, List.map_append]
        simp [hparse]

theorem Entered.edges {text : String} {id : Nat} (h : Entered lib c c' text id)
    {traces : List (List String)} (ht : ∀ t, t ∈ c.states ↔ ∃ trace ∈ traces, t ∈ trace) :
    traces.flatMap (edges c'.states) = traces.flatMap (edges c.states) := by
  refine List.flatMap_congr fun trace htrace => List.map_congr_left fun p hp => ?_
  obtain ⟨h1, h2⟩ := List.of_mem_zip hp
  have hmem : ∀ t ∈ trace, t ∈ c.states := fun t hm => (ht t).mpr ⟨trace, htrace, hm⟩
  rw [(h.keeps p.1 (hmem _ h1)).2, (h.keeps p.2 (hmem _ (List.mem_of_mem_tail h2))).2]

theorem take_cases {prior : Option Nat} {id : Nat} (h : c.take prior id = (c', .ok ())) :
    (prior = none ∧ c' = c) ∨ ∃ p, prior = some p ∧ c'.states = c.states ∧ c'.listed = c.listed ∧
      c'.transitions = tally ⟨p, id⟩ c.transitions := by
  unfold Coverage.take at h
  split at h
  · cases h
    exact .inl ⟨rfl, rfl⟩
  · rename_i p
    dsimp only at h
    split at h
    · cases h
      exact .inr ⟨p, rfl, rfl, rfl, rfl⟩
    · split at h
      · cases h
      · cases h
        exact .inr ⟨p, rfl, rfl, rfl, rfl⟩

/-- The last trace goes on to a state. -/
theorem Covers.visit {c₁ : Coverage} {traces : List (List String)} {trace : List String}
    {text : String} {id : Nat} {prior : Option Nat} (h : Covers lib c (traces ++ [trace]))
    (he : Entered lib c c₁ text id) (hp : prior = trace.getLast?.map c.states.idxOf)
    (ht : c₁.take prior id = (c', .ok ())) :
    Covers lib c' (traces ++ [trace ++ [text]]) ∧
      some id = (trace ++ [text]).getLast?.map c'.states.idxOf := by
  have hkept : c'.states = c₁.states ∧ c'.listed = c₁.listed := by
    rcases take_cases ht with ⟨-, rfl⟩ | ⟨p, -, hs, hl, -⟩
    · exact ⟨rfl, rfl⟩
    · exact ⟨hs, hl⟩
  -- the transitions of the longer trace
  have hedges : (traces ++ [trace ++ [text]]).flatMap (edges c'.states) =
      (traces ++ [trace]).flatMap (edges c.states) ++ prior.toList.map (⟨·, id⟩) := by
    have hold := he.edges h.states
    rw [List.flatMap_append, List.flatMap_singleton] at hold ⊢
    rw [hkept.1, edges_concat, ← List.append_assoc, hold, hp, he.number]
    congr 1
    cases hl : trace.getLast? with
    | none => rfl
    | some p =>
      have hmem : p ∈ c.states :=
        (h.states p).mpr ⟨trace, by simp, List.mem_of_getLast? hl⟩
      simp [(he.keeps p hmem).2]
  have htransitions : (∀ e, counter e c'.transitions =
      counter e c.transitions + (prior.toList.map (Edge.mk · id)).count e) ∧
      SortedMap.total c'.transitions = SortedMap.total c.transitions + prior.toList.length ∧
      Sorted c'.transitions ∧
      ∀ e ∈ c'.transitions.map Prod.fst,
        e ∈ c.transitions.map Prod.fst ∨ e ∈ prior.toList.map (Edge.mk · id) := by
    rcases take_cases ht with ⟨rfl, rfl⟩ | ⟨p, rfl, -, -, htally⟩
    · rw [he.transitions]
      exact ⟨fun e => rfl, rfl, h.sorted, fun e hm => .inl hm⟩
    · rw [htally, he.transitions]
      refine ⟨fun e => ?_, total_tally _ _, h.sorted.tally _, fun e hm => ?_⟩
      · rw [h.sorted.counter_tally]
        by_cases heq : e = ⟨p, id⟩
        · simp [heq]
        · have hne : (⟨p, id⟩ : Edge) ≠ e := fun h => heq h.symm
          simp [heq, hne]
      · rcases of_mem_map_tally hm with rfl | hm
        · exact .inr (by simp)
        · exact .inl hm
  obtain ⟨hcounts, htotal, hsorted, hknown⟩ := htransitions
  refine ⟨⟨?_, ?_, fun t => ?_, hsorted, fun e => ?_, ?_, fun e hm => ?_⟩, ?_⟩
  · exact hkept.1 ▸ he.nodup h.nodup
  · rw [hkept.2, hkept.1]
    exact he.listed h.listed
  · rw [hkept.1]
    constructor
    · intro hm
      rcases he.only t hm with hm | rfl
      · obtain ⟨tr, htr, hmem⟩ := (h.states t).mp hm
        rcases List.mem_append.mp htr with htr | htr
        · exact ⟨tr, by simp [htr], hmem⟩
        · exact ⟨trace ++ [text], by simp, by simp [List.mem_singleton.mp htr ▸ hmem]⟩
      · exact ⟨trace ++ [t], by simp, by simp⟩
    · rintro ⟨tr, htr, hmem⟩
      rcases List.mem_append.mp htr with htr | htr
      · exact (he.keeps t ((h.states t).mpr ⟨tr, by simp [htr], hmem⟩)).1
      · rw [List.mem_singleton.mp htr] at hmem
        rcases List.mem_append.mp hmem with hmem | hmem
        · exact (he.keeps t ((h.states t).mpr ⟨trace, by simp, hmem⟩)).1
        · exact List.mem_singleton.mp hmem ▸ he.mem
  · rw [hedges, List.count_append, hcounts, h.counts]
  · rw [hedges, List.length_append, List.length_map, htotal, h.total]
  · rw [hedges]
    rcases hknown e hm with hm | hm
    · exact List.mem_append_left _ (h.known e hm)
    · exact List.mem_append_right _ hm
  · rw [List.getLast?_concat, Option.map_some, hkept.1, he.number]

/-! ## Room -/

/-- The states with one more, unless it is there. -/
def withState (states : List String) (text : String) : List String :=
  if text ∈ states then states else states ++ [text]

/-- The bytes of a state that is not there. -/
def stateSize (states : List String) (text : String) : Nat :=
  if text ∈ states then 0 else text.length + 128

def withEdge (transitions : List (Edge × Nat)) (id : Nat) : Option Nat → List (Edge × Nat)
  | none => transitions
  | some p => tally ⟨p, id⟩ transitions

def edgeSize (transitions : List (Edge × Nat)) (id : Nat) : Option Nat → Nat
  | none => 0
  | some p => if ⟨p, id⟩ ∈ transitions.map Prod.fst then 0 else 128

/-- The bytes of a trace: its new states and its new transitions. -/
def growth : List String → List (Edge × Nat) → Option Nat → List String → Nat
  | _, _, _, [] => 0
  | states, transitions, prior, text :: trace =>
    let states' := withState states text
    let id := states'.idxOf text
    stateSize states text + edgeSize transitions id prior +
      growth states' (withEdge transitions id prior) (some id) trace

theorem enter_fits {text : String} {d : Doc} (hparse : lib.parse text = some d)
    (h : c.bytes + stateSize c.states text ≤ maxCoverageBytes) :
    ∃ c₁, c.enter lib text = (c₁, .ok ((withState c.states text).idxOf text)) ∧
      c₁.states = withState c.states text ∧ c₁.transitions = c.transitions ∧
      c₁.bytes = c.bytes + stateSize c.states text := by
  unfold Coverage.enter withState
  unfold stateSize at h ⊢
  by_cases hm : text ∈ c.states
  · simp only [if_pos hm]
    exact ⟨c, rfl, rfl, rfl, rfl⟩
  · simp only [if_neg hm] at h ⊢
    rw [if_neg (by omega), hparse]
    have hid : (c.states ++ [text]).idxOf text = c.states.length := by
      rw [List.idxOf_append_of_notMem hm]
      simp
    rw [hid]
    exact ⟨_, rfl, rfl, rfl, Nat.add_assoc _ _ _⟩

theorem enter_full (lib : Libraries) (text : String) (hb : c.bytes ≤ maxCoverageBytes)
    (h : maxCoverageBytes < c.bytes + stateSize c.states text) :
    c.enter lib text = (c, .error coverageExceeded) := by
  unfold stateSize at h
  unfold Coverage.enter
  by_cases hm : text ∈ c.states
  · rw [if_pos hm] at h
    omega
  · rw [if_neg hm] at h
    rw [if_neg hm, if_pos (by omega)]

theorem take_fits (prior : Option Nat) (id : Nat)
    (h : c.bytes + edgeSize c.transitions id prior ≤ maxCoverageBytes) :
    ∃ c', c.take prior id = (c', .ok ()) ∧ c'.states = c.states ∧
      c'.transitions = withEdge c.transitions id prior ∧
      c'.bytes = c.bytes + edgeSize c.transitions id prior := by
  cases prior with
  | none => exact ⟨c, rfl, rfl, rfl, rfl⟩
  | some p =>
    unfold edgeSize at h ⊢
    unfold Coverage.take
    dsimp only at h ⊢
    by_cases hm : (⟨p, id⟩ : Edge) ∈ c.transitions.map Prod.fst
    · simp only [if_pos hm]
      exact ⟨_, rfl, rfl, rfl, rfl⟩
    · simp only [if_neg hm] at h ⊢
      rw [if_neg (by omega)]
      exact ⟨_, rfl, rfl, rfl, rfl⟩

theorem take_full (prior : Option Nat) (id : Nat) (hb : c.bytes ≤ maxCoverageBytes)
    (h : maxCoverageBytes < c.bytes + edgeSize c.transitions id prior) :
    c.take prior id = (c, .error coverageExceeded) := by
  cases prior with
  | none => exact absurd h (Nat.not_lt.mpr hb)
  | some p =>
    unfold edgeSize at h
    unfold Coverage.take
    dsimp only at h ⊢
    by_cases hm : (⟨p, id⟩ : Edge) ∈ c.transitions.map Prod.fst
    · rw [if_pos hm] at h
      omega
    · rw [if_neg hm] at h
      rw [if_neg hm, if_pos (by omega)]

/-! ## The observations of a run -/

/-- The canonical texts of the last `left` observations, up to the first that is not read. -/
def trace (lib : Libraries) (space : FiniteSpace) (observations : Json) : Nat → Nat → List String
  | 0, _ => []
  | left + 1, i =>
    match observed lib space observations i with
    | .error _ => []
    | .ok text => text :: trace lib space observations left (i + 1)

theorem parse_observed {observations : Json} {i : Nat} {text : String}
    (h : observed lib space observations i = .ok text) : ∃ d, lib.parse text = some d := by
  unfold observed at h
  simp only [bind_eq_ok] at h
  obtain ⟨_, _, _, _, _, _, _, _, _, _, _, _, _, _, h⟩ := h
  exact parse_canonicalState h

section
variable {observations : Json} (left : Nat) {i : Nat} {prior : Option Nat}

/-- An observation with room is covered, and the loop goes on. -/
theorem cover_fits {text : String} (hobs : observed lib space observations i = .ok text)
    (h : c.bytes + (stateSize c.states text + edgeSize c.transitions
      ((withState c.states text).idxOf text) prior) ≤ maxCoverageBytes) :
    ∃ c' : Coverage, c.cover lib space observations (left + 1) i prior =
        c'.cover lib space observations left (i + 1)
          (some ((withState c.states text).idxOf text)) ∧
      c'.states = withState c.states text ∧
      c'.transitions = withEdge c.transitions ((withState c.states text).idxOf text) prior ∧
      c'.bytes = c.bytes + (stateSize c.states text + edgeSize c.transitions
        ((withState c.states text).idxOf text) prior) := by
  obtain ⟨d, hparse⟩ := parse_observed hobs
  obtain ⟨c₁, henter, hs, ht, hbytes⟩ := enter_fits (c := c) hparse (by omega)
  rw [← ht] at h
  obtain ⟨c', htake, hs', ht', hbytes'⟩ :=
    take_fits (c := c₁) prior ((withState c.states text).idxOf text) (by omega)
  refine ⟨c', ?_, hs'.trans hs, ht ▸ ht', ?_⟩
  · rw [Coverage.cover, hobs]
    dsimp only
    rw [henter]
    dsimp only
    rw [htake]
  · rw [hbytes', hbytes, ht, Nat.add_assoc]

/-- One without room ends it: no state is new then, or only this one. -/
theorem cover_full {text : String} (hb : c.bytes ≤ maxCoverageBytes)
    (hobs : observed lib space observations i = .ok text)
    (h : maxCoverageBytes < c.bytes + (stateSize c.states text + edgeSize c.transitions
      ((withState c.states text).idxOf text) prior)) :
    ∃ c' : Coverage,
      c.cover lib space observations (left + 1) i prior = (c', .error coverageExceeded) ∧
      c'.transitions = c.transitions ∧ c'.bytes ≤ maxCoverageBytes ∧
      c'.states = if c.bytes + stateSize c.states text ≤ maxCoverageBytes then
        withState c.states text else c.states := by
  obtain ⟨d, hparse⟩ := parse_observed hobs
  by_cases hroom : c.bytes + stateSize c.states text ≤ maxCoverageBytes
  · obtain ⟨c₁, henter, hs, ht, hbytes⟩ := enter_fits (c := c) hparse hroom
    rw [← ht] at h
    have htake := take_full (c := c₁) prior ((withState c.states text).idxOf text) (by omega)
      (by omega)
    refine ⟨c₁, ?_, ht, by omega, by rw [if_pos hroom, hs]⟩
    rw [Coverage.cover, hobs]
    dsimp only
    rw [henter]
    dsimp only
    rw [htake]
  · have henter := enter_full lib text hb (Nat.not_le.mp hroom)
    refine ⟨c, ?_, rfl, hb, by rw [if_neg hroom]⟩
    rw [Coverage.cover, hobs]
    dsimp only
    rw [henter]

theorem cover_unread {e : Itf.Thrown} (hobs : observed lib space observations i = .error e) :
    c.cover lib space observations (left + 1) i prior =
      (c, .error (.exception (lib.said e))) := by
  rw [Coverage.cover, hobs]

theorem trace_succ {text : String} (hobs : observed lib space observations i = .ok text) :
    trace lib space observations (left + 1) i =
      text :: trace lib space observations left (i + 1) := by
  rw [trace, hobs]

theorem trace_unread {e : Itf.Thrown} (hobs : observed lib space observations i = .error e) :
    trace lib space observations (left + 1) i = [] := by
  rw [trace, hobs]

end

/-- Every state is reported, whatever way the loop ends. -/
theorem cover_listed {observations : Json} : ∀ {left i : Nat} {prior : Option Nat} {c : Coverage},
    c.listed = stateRows lib c.states →
      (c.cover lib space observations left i prior).1.listed =
        stateRows lib (c.cover lib space observations left i prior).1.states
  | 0, _, _, _ => fun h => h
  | left + 1, i, prior, c => by
    intro h
    unfold Coverage.cover
    split
    · exact h
    · rename_i text hobs
      obtain ⟨d, hparse⟩ := parse_observed hobs
      split
      · rename_i c₁ f henter
        -- no state is entered then
        unfold Coverage.enter at henter
        rw [hparse] at henter
        split at henter
        · cases henter
        · split at henter
          · cases henter
            exact h
          · cases henter
      · rename_i c₁ id henter
        have hlisted := (entered hparse henter).listed h
        split
        · rename_i c₂ f htake
          unfold Coverage.take at htake
          split at htake
          · cases htake
          · dsimp only at htake
            split at htake
            · cases htake
            · split at htake
              · cases htake
                exact hlisted
              · cases htake
        · rename_i c₂ htake
          refine cover_listed ?_
          rcases take_cases htake with ⟨-, rfl⟩ | ⟨p, -, hs, hl, -⟩
          · exact hlisted
          · rw [hl, hs]
            exact hlisted

/-- All observations are read, and there is room for them. -/
def Whole (lib : Libraries) (space : FiniteSpace) (observations : Json) (left i : Nat)
    (prior : Option Nat) (c : Coverage) : Prop :=
  (trace lib space observations left i).length = left ∧
    c.bytes + growth c.states c.transitions prior (trace lib space observations left i) ≤
      maxCoverageBytes

/-- **The loop over the observations** goes through exactly when they are read and have room. -/
theorem cover_ok_iff {observations : Json} : ∀ {left i : Nat} {prior : Option Nat} {c : Coverage},
    c.bytes ≤ maxCoverageBytes →
      ((c.cover lib space observations left i prior).2 = .ok () ↔
        Whole lib space observations left i prior c)
  | 0, _, _, _ => fun hb => ⟨fun _ => ⟨rfl, hb⟩, fun _ => rfl⟩
  | left + 1, i, prior, c => by
    intro hb
    unfold Whole
    cases hobs : observed lib space observations i with
    | error e =>
      rw [cover_unread left hobs, trace_unread left hobs]
      simp
    | ok text =>
      rw [trace_succ left hobs, List.length_cons, Nat.add_right_cancel_iff, growth]
      by_cases hroom : c.bytes + (stateSize c.states text + edgeSize c.transitions
          ((withState c.states text).idxOf text) prior) ≤ maxCoverageBytes
      · obtain ⟨c', hc, hs, ht, hbytes⟩ := cover_fits left hobs hroom
        rw [hc, cover_ok_iff (by omega), Whole, hs, ht, hbytes]
        simp only [Nat.add_assoc]
      · obtain ⟨c', hc, -⟩ := cover_full left hb hobs (Nat.not_le.mp hroom)
        rw [hc]
        refine ⟨by rintro ⟨⟩, fun h => absurd ?_ hroom⟩
        have hfits := h.2
        omega

/-- The bound holds on whatever way the loop ends; nothing covered is lost. -/
theorem cover_grows (lib : Libraries) (space : FiniteSpace) (observations : Json) :
    ∀ (left i : Nat) (prior : Option Nat) (c : Coverage), c.bytes ≤ maxCoverageBytes →
      (c.cover lib space observations left i prior).1.bytes ≤ maxCoverageBytes ∧
      c.states.length ≤ (c.cover lib space observations left i prior).1.states.length ∧
      SortedMap.total c.transitions ≤
        SortedMap.total (c.cover lib space observations left i prior).1.transitions
  | 0, _, _, _ => fun hb => ⟨hb, Nat.le_refl _, Nat.le_refl _⟩
  | left + 1, i, prior, c => by
    intro hb
    have hstates : ∀ text, c.states.length ≤ (withState c.states text).length := by
      intro text
      unfold withState
      split
      · exact Nat.le_refl _
      · rw [List.length_append]
        exact Nat.le_add_right _ _
    have htransitions : ∀ id, SortedMap.total c.transitions ≤
        SortedMap.total (withEdge c.transitions id prior) := by
      intro id
      cases prior with
      | none => exact Nat.le_refl _
      | some p =>
        show _ ≤ SortedMap.total (tally _ _)
        rw [total_tally]
        exact Nat.le_succ _
    cases hobs : observed lib space observations i with
    | error e =>
      rw [cover_unread left hobs]
      exact ⟨hb, Nat.le_refl _, Nat.le_refl _⟩
    | ok text =>
      by_cases hroom : c.bytes + (stateSize c.states text + edgeSize c.transitions
          ((withState c.states text).idxOf text) prior) ≤ maxCoverageBytes
      · obtain ⟨c', hc, hs, ht, hbytes⟩ := cover_fits left hobs hroom
        obtain ⟨h1, h2, h3⟩ := cover_grows lib space observations left (i + 1)
          (some ((withState c.states text).idxOf text)) c' (by omega)
        rw [hc]
        exact ⟨h1, Nat.le_trans (hs ▸ hstates text) h2, Nat.le_trans (ht ▸ htransitions _) h3⟩
      · obtain ⟨c', hc, ht, hbytes, hs⟩ := cover_full left hb hobs (Nat.not_le.mp hroom)
        rw [hc]
        refine ⟨hbytes, ?_, Nat.le_of_eq (congrArg _ ht.symm)⟩
        rw [hs]
        split
        · exact hstates text
        · exact Nat.le_refl _

/-- **A covered run** adds its trace. -/
theorem Covers.cover {observations : Json} {traces : List (List String)} :
    ∀ {left i : Nat} {prior : Option Nat} {c c' : Coverage} {done : List String},
      Covers lib c (traces ++ [done]) → prior = done.getLast?.map c.states.idxOf →
      c.cover lib space observations left i prior = (c', .ok ()) →
      Covers lib c' (traces ++ [done ++ trace lib space observations left i])
  | 0, _, _, _, _, _ => by
    intro h _ hc
    cases hc
    rwa [trace, List.append_nil]
  | left + 1, i, prior, c, c', done => by
    intro h hp hc
    unfold Coverage.cover at hc
    split at hc
    · cases hc
    · rename_i text hobs
      obtain ⟨d, hparse⟩ := parse_observed hobs
      split at hc
      · cases hc
      · rename_i henter
        split at hc
        · cases hc
        · rename_i htake
          obtain ⟨hcovers, hlast⟩ := h.visit (entered hparse henter) hp htake
          have := hcovers.cover hlast hc
          rwa [List.append_assoc, List.singleton_append, ← trace_succ left hobs] at this

/-- Nothing of a run is covered: its first observation is not read or has no room; or the state of
the first is covered already, and the second has no room, by its state or by the transition. -/
def Silent (c : Coverage) : List String → Prop
  | [] => True
  | text :: rest => maxCoverageBytes < c.bytes + stateSize c.states text ∨
    text ∈ c.states ∧ ∀ text' ∈ rest.head?,
      maxCoverageBytes < c.bytes + stateSize c.states text' ∨
      text' ∈ c.states ∧ maxCoverageBytes <
        c.bytes + edgeSize c.transitions (c.states.idxOf text') (some (c.states.idxOf text))

theorem withState_of_mem {states : List String} {text : String} (h : text ∈ states) :
    withState states text = states := if_pos h

theorem stateSize_of_mem {states : List String} {text : String} (h : text ∈ states) :
    stateSize states text = 0 := if_pos h

theorem withState_eq_iff {states : List String} {text : String} :
    withState states text = states ↔ text ∈ states := by
  refine ⟨fun h => ?_, withState_of_mem⟩
  by_cases hm : text ∈ states
  · exact hm
  · rw [withState, if_neg hm] at h
    have := congrArg List.length h
    simp at this

theorem not_silent_of_new {c' : Coverage} {text : String} (hm : text ∉ c.states)
    (hgrows : (withState c.states text).length ≤ c'.states.length) : c'.states ≠ c.states := by
  intro h
  rw [withState, if_neg hm, List.length_append, List.length_singleton, h] at hgrows
  omega

/-- **Where a run fails, nothing of it is covered** exactly when it is silent. -/
theorem cover_silent_iff {observations : Json} {left i : Nat} (hb : c.bytes ≤ maxCoverageBytes)
    (herror : (c.cover lib space observations left i none).2 ≠ .ok ()) :
    ((c.cover lib space observations left i none).1.states = c.states ∧
      (c.cover lib space observations left i none).1.transitions = c.transitions) ↔
    Silent c (trace lib space observations left i) := by
  cases left with
  | zero => exact absurd rfl herror
  | succ left =>
  cases hobs : observed lib space observations i with
  | error e =>
    rw [cover_unread left hobs, trace_unread left hobs]
    exact iff_of_true ⟨rfl, rfl⟩ trivial
  | ok text =>
  rw [trace_succ left hobs]
  by_cases hroom : c.bytes + (stateSize c.states text + edgeSize c.transitions
      ((withState c.states text).idxOf text) none) ≤ maxCoverageBytes
  · obtain ⟨c', hc, hs, ht, hbytes⟩ := cover_fits left hobs hroom
    have hfits : c.bytes + stateSize c.states text ≤ maxCoverageBytes := hroom
    rw [hc] at herror ⊢
    by_cases hm : text ∈ c.states
    swap
    · -- a new state stays
      obtain ⟨-, hgrows, -⟩ := cover_grows lib space observations left (i + 1)
        (some ((withState c.states text).idxOf text)) c' (by omega)
      refine iff_of_false (fun h => not_silent_of_new hm (hs ▸ hgrows) h.1) ?_
      rintro (h | h)
      · omega
      · exact hm h.1
    rw [withState_of_mem hm] at hs hc herror ⊢
    rw [stateSize_of_mem hm] at hbytes
    have hbytes : c'.bytes = c.bytes := hbytes
    have ht : c'.transitions = c.transitions := ht
    cases left with
    | zero => exact absurd rfl herror
    | succ left =>
    cases hobs' : observed lib space observations (i + 1) with
    | error e =>
      rw [cover_unread left hobs', trace_unread left hobs']
      exact iff_of_true ⟨hs, ht⟩ (.inr ⟨hm, by simp⟩)
    | ok text' =>
    rw [trace_succ left hobs']
    have hhead : Silent c (text :: text' :: trace lib space observations left (i + 1 + 1)) ↔
        maxCoverageBytes < c.bytes + stateSize c.states text' ∨
        text' ∈ c.states ∧ maxCoverageBytes <
          c.bytes + edgeSize c.transitions (c.states.idxOf text') (some (c.states.idxOf text)) := by
      simp only [Silent, List.head?_cons, Option.mem_some_iff, forall_eq', hm, true_and,
        or_iff_right (Nat.not_lt.mpr hfits)]
    rw [hhead]
    by_cases hroom' : c'.bytes + (stateSize c'.states text' + edgeSize c'.transitions
        ((withState c'.states text').idxOf text') (some (c.states.idxOf text))) ≤ maxCoverageBytes
    · -- a transition taken is counted
      obtain ⟨c'', hc', hs', ht', hbytes'⟩ := cover_fits left hobs' hroom'
      obtain ⟨-, -, hgrows⟩ := cover_grows lib space observations left (i + 1 + 1)
        (some ((withState c'.states text').idxOf text')) c'' (by omega)
      rw [hc']
      refine iff_of_false (fun h => ?_) ?_
      · rw [h.2, ht', ← ht] at hgrows
        have hmore : SortedMap.total (withEdge c'.transitions
            ((withState c'.states text').idxOf text') (some (c.states.idxOf text))) =
            SortedMap.total c'.transitions + 1 := total_tally _ _
        omega
      · rw [hbytes, hs, ht] at hroom'
        rintro (h | ⟨hm', h⟩)
        · omega
        · rw [withState_of_mem hm'] at hroom'
          omega
    · obtain ⟨c'', hc', ht', -, hs'⟩ :=
        cover_full left (by omega) hobs' (Nat.not_le.mp hroom')
      rw [hbytes, hs, ht] at hroom'
      rw [hbytes, hs] at hs'
      rw [hc', ht', ht, hs']
      by_cases hstate : c.bytes + stateSize c.states text' ≤ maxCoverageBytes
      · rw [if_pos hstate, withState_eq_iff]
        refine ⟨fun h => .inr ⟨h.1, ?_⟩, fun h => ⟨?_, rfl⟩⟩
        · rw [withState_of_mem h.1, stateSize_of_mem h.1] at hroom'
          omega
        · exact (h.resolve_left (Nat.not_lt.mpr hstate)).1
      · rw [if_neg hstate]
        exact iff_of_true ⟨rfl, rfl⟩ (.inl (Nat.not_le.mp hstate))
  · obtain ⟨c', hc, ht, -, hs⟩ := cover_full left hb hobs (Nat.not_le.mp hroom)
    have hfull : ¬c.bytes + stateSize c.states text ≤ maxCoverageBytes := hroom
    rw [hc, hs, if_neg hfull, ht]
    exact iff_of_true ⟨rfl, rfl⟩ (.inl (Nat.not_le.mp hfull))

end MirrorCpp.Exploration
