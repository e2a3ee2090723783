import MirrorCpp.Interface.Registration
import Mathlib.Data.List.Nodup

/-!
# What the contract validators accept (`model_interface.cpp`)

`ModelType` and `Literal` are the grammars, `encode` their canonical JSON: an object has exactly
the keys of its kind. `validate_model_type` accepts the encodings of types up to 32 high while the
contract has nodes left, `validate_literal` those of literals up to 128 high; everything else is
refused.
-/

namespace MirrorCpp.Interface

open Protocol Fallible

/-! ## Model types -/

abbrev ShortText := { s : String // s.length ≤ 256 }

abbrev Label := { s : String // s ≠ "" ∧ s.length ≤ 256 }

inductive Atom where
  | int
  | bool
  | str
  | null
  deriving DecidableEq, Repr

def Atom.kind : Atom → String
  | .int => "int"
  | .bool => "bool"
  | .str => "str"
  | .null => "null"

inductive Collection where
  | set
  | seq
  deriving DecidableEq, Repr

def Collection.kind : Collection → String
  | .set => "set"
  | .seq => "seq"

inductive Labelled where
  | record
  | variant
  deriving DecidableEq, Repr

namespace Labelled

def kind : Labelled → String
  | record => "record"
  | variant => "variant"

def listName : Labelled → String
  | record => "fields"
  | variant => "cases"

def name : Labelled → String
  | record => "wireName"
  | variant => "tag"

def payload : Labelled → String
  | record => "type"
  | variant => "payload"

theorem listName_lt (l : Labelled) : l.listName < "kind" := by
  cases l <;> decide

end Labelled

inductive ModelType where
  | atom (a : Atom)
  | collection (c : Collection) (element : ModelType)
  | tuple (elements : List ModelType)
  | labelled (l : Labelled) (entries : List (Label × ModelType))
  | map (key value : ModelType)
  | opaqueItf (description : ShortText)

namespace ModelType

mutual
/-- The canonical JSON of a type. -/
def encode : ModelType → Json
  | atom a => .obj [("kind", .str a.kind)]
  | collection c element => .obj [("element", element.encode), ("kind", .str c.kind)]
  | tuple elements => .obj [("elements", .arr (encodeElements elements)), ("kind", .str "tuple")]
  | labelled l entries => .obj [(l.listName, .arr (encodeEntries l entries)), ("kind", .str l.kind)]
  | map key value => .obj [("key", key.encode), ("kind", .str "map"), ("value", value.encode)]
  | opaqueItf description => .obj [("description", .str description), ("kind", .str "opaqueItf")]

def encodeElements : List ModelType → List Json
  | [] => []
  | t :: ts => t.encode :: encodeElements ts

def encodeEntries (l : Labelled) : List (Label × ModelType) → List Json
  | [] => []
  | (label, t) :: es =>
    .obj [(l.payload, t.encode), (l.name, .str label)] :: encodeEntries l es
end

mutual
/-- The levels of a type; an atom is one. -/
def height : ModelType → Nat
  | atom _ => 1
  | collection _ element => element.height + 1
  | tuple elements => heightElements elements + 1
  | labelled _ entries => heightEntries entries + 1
  | map key value => max key.height value.height + 1
  | opaqueItf _ => 1

def heightElements : List ModelType → Nat
  | [] => 0
  | t :: ts => max t.height (heightElements ts)

def heightEntries : List (Label × ModelType) → Nat
  | [] => 0
  | (_, t) :: es => max t.height (heightEntries es)
end

mutual
def nodes : ModelType → Nat
  | atom _ => 1
  | collection _ element => 1 + element.nodes
  | tuple elements => 1 + nodesElements elements
  | labelled _ entries => 1 + nodesEntries entries
  | map key value => 1 + key.nodes + value.nodes
  | opaqueItf _ => 1

def nodesElements : List ModelType → Nat
  | [] => 0
  | t :: ts => t.nodes + nodesElements ts

def nodesEntries : List (Label × ModelType) → Nat
  | [] => 0
  | (_, t) :: es => t.nodes + nodesEntries es
end

mutual
/-- The labels of a record or a variant differ, at every depth. -/
def Distinct : ModelType → Prop
  | atom _ | opaqueItf _ => True
  | collection _ element => element.Distinct
  | tuple elements => DistinctElements elements
  | labelled _ entries => (entries.map Prod.fst).Nodup ∧ DistinctEntries entries
  | map key value => key.Distinct ∧ value.Distinct

def DistinctElements : List ModelType → Prop
  | [] => True
  | t :: ts => t.Distinct ∧ DistinctElements ts

def DistinctEntries : List (Label × ModelType) → Prop
  | [] => True
  | (_, t) :: es => t.Distinct ∧ DistinctEntries es
end

end ModelType

/-! ## Exact objects -/

theorem eq_of_sorted {xs ys : List String} (hx : xs.Pairwise (· < ·)) (hy : ys.Pairwise (· < ·))
    (h : ∀ s, s ∈ xs ↔ s ∈ ys) : xs = ys := by
  have hperm := (List.perm_ext_iff_of_nodup (hx.imp String.ne_of_lt) (hy.imp String.ne_of_lt)).mpr h
  exact hperm.eq_of_pairwise (fun a b _ _ hab hba => absurd hba (String.lt_asymm hab)) hx hy

/-- The check of an object whose keys are all required. -/
theorem exactObject_iff {v : Json} {path : String} {keys sorted : List String} (hv : v.wf = true)
    (hs : sorted.Pairwise (· < ·)) (hk : ∀ k, k ∈ keys ↔ k ∈ sorted) :
    exactObject v path keys keys = .ok () ↔ ∃ ms, v = .obj ms ∧ ms.map Prod.fst = sorted := by
  cases v with
  | obj ms =>
    rw [Json.wf, Bool.and_eq_true, decide_eq_true_eq] at hv
    have hcontains : ∀ k, (Json.obj ms).contains k = true ↔ k ∈ ms.map Prod.fst := by
      intro k
      rw [Json.contains, Json.field?, List.lookup_isSome_iff]
      constructor
      · rintro ⟨m, hm, he⟩
        exact List.mem_map.mpr ⟨m, hm, (beq_iff_eq.mp he).symm⟩
      · intro hmem
        obtain ⟨m, hm, rfl⟩ := List.mem_map.mp hmem
        exact ⟨m, hm, beq_self_eq_true _⟩
    simp only [Json.obj.injEq, exists_eq_left']
    constructor
    · intro h
      refine eq_of_sorted hv.1 hs fun k => ⟨fun hmem => ?_, fun hmem => ?_⟩
      · simp only [exactObject] at h
        split at h
        · cases h
        · next hnone =>
          obtain ⟨m, hm, rfl⟩ := List.mem_map.mp hmem
          have := List.find?_eq_none.mp hnone m hm
          exact (hk m.1).mp (by simpa using this)
      · exact (hcontains k).mp (exactObject_keys h ((hk k).mpr hmem))
    · rintro rfl
      have hknown : (ms.find? fun m => !keys.contains m.1) = none :=
        List.find?_eq_none.mpr fun m hm => by
          simpa using (hk m.1).mpr (List.mem_map_of_mem hm)
      have hall : (keys.find? fun key => !(Json.obj ms).contains key) = none :=
        List.find?_eq_none.mpr fun k hmem => by
          simpa using (hcontains k).mpr ((hk k).mp hmem)
      simp only [exactObject, hknown, hall]
  | _ => simp [exactObject]

theorem map_fst_one {ms : List (String × Json)} {k : String} :
    ms.map Prod.fst = [k] ↔ ∃ x, ms = [(k, x)] := by
  constructor
  · intro h
    match ms, h with
    | [(_, x)], rfl => exact ⟨x, rfl⟩
  · rintro ⟨x, rfl⟩
    rfl

theorem map_fst_two {ms : List (String × Json)} {k l : String} :
    ms.map Prod.fst = [k, l] ↔ ∃ x y, ms = [(k, x), (l, y)] := by
  constructor
  · intro h
    match ms, h with
    | [(_, x), (_, y)], rfl => exact ⟨x, y, rfl⟩
  · rintro ⟨x, y, rfl⟩
    rfl

theorem map_fst_three {ms : List (String × Json)} {k l m : String} :
    ms.map Prod.fst = [k, l, m] ↔ ∃ x y z, ms = [(k, x), (l, y), (m, z)] := by
  constructor
  · intro h
    match ms, h with
    | [(_, x), (_, y), (_, z)], rfl => exact ⟨x, y, z, rfl⟩
  · rintro ⟨x, y, z, rfl⟩
    rfl

theorem exact_one {v : Json} {path k : String} (hv : v.wf = true) :
    exactObject v path [k] [k] = .ok () ↔ ∃ x, v = .obj [(k, x)] := by
  rw [exactObject_iff hv (List.pairwise_singleton _ k) fun _ => Iff.rfl]
  simp only [map_fst_one]
  exact ⟨fun ⟨_, hv, x, hm⟩ => ⟨x, hm ▸ hv⟩, fun ⟨x, hv⟩ => ⟨_, hv, x, rfl⟩⟩

/-- An object with two keys, `k` the lower one. -/
theorem exact_two {v : Json} {path : String} {keys : List String} {k l : String}
    (hv : v.wf = true) (hlt : k < l) (hk : ∀ s, s ∈ keys ↔ s ∈ [k, l]) :
    exactObject v path keys keys = .ok () ↔ ∃ x y, v = .obj [(k, x), (l, y)] := by
  rw [exactObject_iff hv (List.pairwise_pair.mpr hlt) hk]
  simp only [map_fst_two]
  exact ⟨fun ⟨_, hv, x, y, hm⟩ => ⟨x, y, hm ▸ hv⟩, fun ⟨x, y, hv⟩ => ⟨_, hv, x, y, rfl⟩⟩

/-- An object with three keys, in their order. -/
theorem exact_three {v : Json} {path : String} {keys : List String} {k l m : String}
    (hv : v.wf = true) (hkl : k < l) (hlm : l < m) (hk : ∀ s, s ∈ keys ↔ s ∈ [k, l, m]) :
    exactObject v path keys keys = .ok () ↔ ∃ x y z, v = .obj [(k, x), (l, y), (m, z)] := by
  have hs : [k, l, m].Pairwise (· < ·) := by
    refine List.pairwise_cons.mpr ⟨fun s hs => ?_, List.pairwise_pair.mpr hlm⟩
    obtain rfl | rfl := List.mem_pair.mp hs
    · exact hkl
    · exact String.lt_trans hkl hlm
  rw [exactObject_iff hv hs hk]
  simp only [map_fst_three]
  exact ⟨fun ⟨_, hv, x, y, z, hm⟩ => ⟨x, y, z, hm ▸ hv⟩,
    fun ⟨x, y, z, hv⟩ => ⟨_, hv, x, y, z, rfl⟩⟩

theorem lift_bind_eq_ok {α : Type} {r : Result Unit} {f : Unit → Checked α} {y : α} :
    lift r >>= f = .ok y ↔ r = .ok () ∧ f () = .ok y := by
  rw [bind_eq_ok]
  simp only [lift_eq_ok]
  exact ⟨fun ⟨_, h⟩ => h, fun h => ⟨(), h⟩⟩

/-! ## Accepted types -/

/-- `v` encodes a type of at most `levels` levels, whose nodes take the count of the contract from
`before` to `after`. -/
def IsType (levels : Nat) (v : Json) (before after : Nat) : Prop :=
  ∃ t : ModelType, t.Distinct ∧ t.encode = v ∧ t.height ≤ levels ∧ before + t.nodes = after ∧
    after ≤ 8192

/-- The same of the elements of a tuple. -/
def AreTypes (levels : Nat) (xs : List Json) (before after : Nat) : Prop :=
  ∃ ts, ModelType.DistinctElements ts ∧ ModelType.encodeElements ts = xs ∧
    ModelType.heightElements ts ≤ levels ∧ before + ModelType.nodesElements ts = after ∧
    after ≤ 8192

/-- The same of the entries of a record or a variant, with labels other than the `seen` ones. -/
def AreEntries (l : Labelled) (levels : Nat) (seen : List String) (xs : List Json)
    (before after : Nat) : Prop :=
  ∃ es, (es.map Prod.fst).Nodup ∧ (∀ label ∈ es.map Prod.fst, label.val ∉ seen) ∧
    ModelType.DistinctEntries es ∧ ModelType.encodeEntries l es = xs ∧
    ModelType.heightEntries es ≤ levels ∧ before + ModelType.nodesEntries es = after ∧
    after ≤ 8192

theorem ModelType.height_pos (t : ModelType) : 0 < t.height := by
  cases t <;> simp [ModelType.height]

theorem ModelType.nodes_pos (t : ModelType) : 0 < t.nodes := by
  cases t <;> simp only [ModelType.nodes] <;> omega

theorem not_isType_zero {v : Json} {before after : Nat} : ¬IsType 0 v before after := by
  rintro ⟨t, -, -, h, -⟩
  have := t.height_pos
  omega

theorem areTypes_nil {levels before after : Nat} :
    AreTypes levels [] before after ↔ before = after ∧ after ≤ 8192 := by
  constructor
  · rintro ⟨ts, -, he, -, rfl, hle⟩
    cases ts with
    | nil => exact ⟨rfl, hle⟩
    | cons => cases he
  · rintro ⟨rfl, hle⟩
    exact ⟨[], trivial, rfl, Nat.zero_le _, rfl, hle⟩

theorem areTypes_cons {levels before after : Nat} {x : Json} {xs : List Json} :
    AreTypes levels (x :: xs) before after ↔
      ∃ mid, IsType levels x before mid ∧ AreTypes levels xs mid after := by
  constructor
  · rintro ⟨ts, hd, he, hh, rfl, hle⟩
    cases ts with
    | nil => cases he
    | cons t ts =>
      cases he
      simp only [ModelType.heightElements, ModelType.nodesElements] at hh hle ⊢
      exact ⟨before + t.nodes, ⟨t, hd.1, rfl, by omega, rfl, by omega⟩, ts, hd.2, rfl, by omega,
        by omega, by omega⟩
  · rintro ⟨_, ⟨t, hd, rfl, hh, rfl, -⟩, ts, hds, rfl, hhs, rfl, hle⟩
    refine ⟨t :: ts, ⟨hd, hds⟩, rfl, ?_, ?_, hle⟩
    · simp only [ModelType.heightElements]
      omega
    · simp only [ModelType.nodesElements]
      omega

theorem areEntries_nil {l : Labelled} {levels before after : Nat} {seen : List String} :
    AreEntries l levels seen [] before after ↔ before = after ∧ after ≤ 8192 := by
  constructor
  · rintro ⟨es, -, -, -, he, -, rfl, hle⟩
    cases es with
    | nil => exact ⟨rfl, hle⟩
    | cons => cases he
  · rintro ⟨rfl, hle⟩
    exact ⟨[], List.nodup_nil, by simp, trivial, rfl, Nat.zero_le _, rfl, hle⟩

theorem areEntries_cons {l : Labelled} {levels before after : Nat} {seen : List String} {x : Json}
    {xs : List Json} : AreEntries l levels seen (x :: xs) before after ↔
      ∃ (label : Label) (inner : Json) (mid : Nat),
        x = .obj [(l.payload, inner), (l.name, .str label)] ∧ label.val ∉ seen ∧
        IsType levels inner before mid ∧
        AreEntries l levels (label.val :: seen) xs mid after := by
  constructor
  · rintro ⟨es, hn, hs, hd, he, hh, rfl, hle⟩
    cases es with
    | nil => cases he
    | cons e es =>
      obtain ⟨label, t⟩ := e
      cases he
      rw [List.map_cons, List.nodup_cons] at hn
      simp only [List.map_cons, List.forall_mem_cons] at hs
      simp only [ModelType.heightEntries, ModelType.nodesEntries] at hh hle ⊢
      refine ⟨label, t.encode, before + t.nodes, rfl, hs.1,
        ⟨t, hd.1, rfl, by omega, rfl, by omega⟩, es, hn.2, fun other hmem => ?_, hd.2, rfl,
        by omega, by omega, by omega⟩
      rw [List.mem_cons, not_or]
      exact ⟨fun he => hn.1 (Subtype.ext he ▸ hmem), hs.2 other hmem⟩
  · rintro ⟨label, _, _, rfl, hlabel, ⟨t, hd, rfl, hh, rfl, -⟩, es, hn, hs, hds, rfl, hhs, rfl, hle⟩
    refine ⟨(label, t) :: es, ?_, ?_, ⟨hd, hds⟩, rfl, ?_, ?_, hle⟩
    · rw [List.map_cons, List.nodup_cons]
      exact ⟨fun hmem => hs label hmem List.mem_cons_self, hn⟩
    · simp only [List.map_cons, List.forall_mem_cons]
      exact ⟨hlabel, fun other hmem hseen => hs other hmem (List.mem_cons_of_mem _ hseen)⟩
    · simp only [ModelType.heightEntries]
      omega
    · simp only [ModelType.nodesEntries]
      omega

/-- The shapes of an encoded type, its outermost node taken off. -/
theorem isType_succ {levels before after : Nat} {v : Json} :
    IsType (levels + 1) v before after ↔
      (∃ a : Atom, v = .obj [("kind", .str a.kind)] ∧ before + 1 = after ∧ after ≤ 8192) ∨
      (∃ (c : Collection) (x : Json), v = .obj [("element", x), ("kind", .str c.kind)] ∧
        IsType levels x (before + 1) after) ∨
      (∃ xs, v = .obj [("elements", .arr xs), ("kind", .str "tuple")] ∧
        AreTypes levels xs (before + 1) after) ∨
      (∃ (l : Labelled) (xs : List Json), v = .obj [(l.listName, .arr xs), ("kind", .str l.kind)] ∧
        AreEntries l levels [] xs (before + 1) after) ∨
      (∃ x y mid, v = .obj [("key", x), ("kind", .str "map"), ("value", y)] ∧
        IsType levels x (before + 1) mid ∧ IsType levels y mid after) ∨
      (∃ d : ShortText, v = .obj [("description", .str d), ("kind", .str "opaqueItf")] ∧
        before + 1 = after ∧ after ≤ 8192) := by
  constructor
  · rintro ⟨t, hd, rfl, hh, rfl, hle⟩
    cases t with
    | atom a => exact .inl ⟨a, rfl, rfl, hle⟩
    | collection c element =>
      simp only [ModelType.height, ModelType.nodes] at hh hle ⊢
      exact .inr (.inl ⟨c, _, rfl, element, hd, rfl, by omega, by omega, hle⟩)
    | tuple elements =>
      simp only [ModelType.height, ModelType.nodes] at hh hle ⊢
      exact .inr (.inr (.inl ⟨_, rfl, elements, hd, rfl, by omega, by omega, hle⟩))
    | labelled l entries =>
      simp only [ModelType.height, ModelType.nodes] at hh hle ⊢
      exact .inr (.inr (.inr (.inl ⟨l, _, rfl, entries, hd.1, by simp, hd.2, rfl, by omega,
        by omega, hle⟩)))
    | map key value =>
      simp only [ModelType.height, ModelType.nodes] at hh hle ⊢
      exact .inr (.inr (.inr (.inr (.inl ⟨_, _, before + 1 + key.nodes, rfl,
        ⟨key, hd.1, rfl, by omega, rfl, by omega⟩,
        ⟨value, hd.2, rfl, by omega, by omega, hle⟩⟩))))
    | opaqueItf d => exact .inr (.inr (.inr (.inr (.inr ⟨d, rfl, rfl, hle⟩))))
  · rintro (⟨a, rfl, rfl, hle⟩ | ⟨c, _, rfl, t, hd, rfl, hh, rfl, hle⟩ |
      ⟨_, rfl, ts, hd, rfl, hh, rfl, hle⟩ | ⟨l, _, rfl, es, hn, -, hd, rfl, hh, rfl, hle⟩ |
      ⟨_, _, _, rfl, ⟨t, hd, rfl, hh, rfl, -⟩, ⟨t', hd', rfl, hh', rfl, hle⟩⟩ |
      ⟨d, rfl, rfl, hle⟩)
    · exact ⟨.atom a, trivial, rfl, Nat.succ_le_succ (Nat.zero_le _), rfl, hle⟩
    · exact ⟨.collection c t, hd, rfl, Nat.succ_le_succ hh, by simp only [ModelType.nodes]; omega,
        hle⟩
    · exact ⟨.tuple ts, hd, rfl, Nat.succ_le_succ hh, by simp only [ModelType.nodes]; omega, hle⟩
    · exact ⟨.labelled l es, ⟨hn, hd⟩, rfl, Nat.succ_le_succ hh,
        by simp only [ModelType.nodes]; omega, hle⟩
    · exact ⟨.map t t', ⟨hd, hd'⟩, rfl, Nat.succ_le_succ (Nat.max_le.mpr ⟨hh, hh'⟩),
        by simp only [ModelType.nodes]; omega, hle⟩
    · exact ⟨.opaqueItf d, trivial, rfl, Nat.succ_le_succ (Nat.zero_le _), rfl, hle⟩

theorem IsType.lt {levels before after : Nat} {v : Json} (h : IsType levels v before after) :
    before < after ∧ after ≤ 8192 := by
  obtain ⟨t, -, -, -, rfl, hle⟩ := h
  have := t.nodes_pos
  omega

theorem foldlM_types {levels : Nat} {f : Nat → Json → Checked Nat}
    (h : ∀ x before after, x.wf = true → (f before x = .ok after ↔ IsType levels x before after)) :
    ∀ {xs : List Json} {before after : Nat}, Json.wfElems xs = true → before ≤ 8192 →
      (xs.foldlM f before = .ok after ↔ AreTypes levels xs before after)
  | [], before, after, _, hle => by
    rw [areTypes_nil, List.foldlM_nil, pure_eq, Except.ok.injEq]
    exact ⟨fun he => ⟨he, he ▸ hle⟩, fun he => he.1⟩
  | x :: xs, before, after, hw, hle => by
    rw [Json.wfElems, Bool.and_eq_true] at hw
    rw [areTypes_cons, List.foldlM_cons, bind_eq_ok]
    refine exists_congr fun mid => ?_
    rw [h x before mid hw.1]
    exact and_congr_right fun hx => foldlM_types h hw.2 hx.lt.2

/-- One entry of a record or a variant, with the labels seen and the nodes counted so far. -/
def IsEntry (l : Labelled) (levels : Nat) (x : Json) (seen seen' : List String)
    (before after : Nat) : Prop :=
  ∃ (label : Label) (inner : Json), x = .obj [(l.payload, inner), (l.name, .str label)] ∧
    label.val ∉ seen ∧ IsType levels inner before after ∧ label.val :: seen = seen'

theorem foldlM_entries {l : Labelled} {levels : Nat}
    {f : List String × Nat → Json → Checked (List String × Nat)}
    (h : ∀ x acc acc', x.wf = true →
      (f acc x = .ok acc' ↔ IsEntry l levels x acc.1 acc'.1 acc.2 acc'.2)) :
    ∀ {xs : List Json} {seen : List String} {before after : Nat}, Json.wfElems xs = true →
      before ≤ 8192 → ((∃ seen', xs.foldlM f (seen, before) = .ok (seen', after)) ↔
        AreEntries l levels seen xs before after)
  | [], seen, before, after, _, hle => by
    rw [areEntries_nil]
    simp only [List.foldlM_nil, pure_eq, Except.ok.injEq, Prod.mk.injEq, exists_and_right,
      exists_eq', true_and]
    exact ⟨fun he => ⟨he, he ▸ hle⟩, fun he => he.1⟩
  | x :: xs, seen, before, after, hw, hle => by
    rw [Json.wfElems, Bool.and_eq_true] at hw
    rw [areEntries_cons]
    simp only [List.foldlM_cons, bind_eq_ok]
    constructor
    · rintro ⟨seen', ⟨seen'', mid⟩, hx, hxs⟩
      obtain ⟨label, inner, rfl, hlabel, hinner, rfl⟩ := (h x _ _ hw.1).mp hx
      exact ⟨label, inner, mid, rfl, hlabel, hinner,
        (foldlM_entries h hw.2 hinner.lt.2).mp ⟨seen', hxs⟩⟩
    · rintro ⟨label, inner, mid, rfl, hlabel, hinner, hxs⟩
      obtain ⟨seen', hxs⟩ :=
        (foldlM_entries h hw.2 hinner.lt.2).mpr hxs
      exact ⟨seen', (label.val :: seen, mid),
        (h _ _ _ hw.1).mpr ⟨label, inner, rfl, hlabel, hinner, rfl⟩, hxs⟩

theorem shortString_iff {v : Json} {path : String} :
    shortString v path = .ok () ↔ ∃ s, v = .str s ∧ s.length ≤ 256 := by
  cases v with
  | str s =>
    simp only [shortString, Json.str.injEq, exists_eq_left']
    split
    · next h => exact iff_of_false nofun (by omega)
    · next h => exact iff_of_true rfl (by omega)
  | _ => simp [shortString]

theorem refuse_ne_ok {α : Type} {message : String} {x : α} :
    (refuse message : Checked α) ≠ .ok x := nofun

theorem valueAt_eq_ok {v x : Json} {k : String} : valueAt v k = .ok x ↔ v.field? k = some x := by
  cases v with
  | obj ms => cases h : ms.lookup k <;> simp [valueAt, Json.field, Json.field?, h]
  | _ => simp [valueAt, Json.field, Json.field?]

/-- The entry of a record or a variant as the loop checks it. -/
theorem entry_iff {l : Labelled} {levels : Nat} {path : String} {x : Json}
    {acc acc' : List String × Nat} (hx : x.wf = true)
    (ih : ∀ x before after, x.wf = true →
      (validateModelType levels x path before = .ok after ↔ IsType levels x before after)) :
    (do
      lift (exactObject x path [l.name, l.payload] [l.name, l.payload])
      let label ← valueAt x l.name
      lift (shortString label path)
      let item ← getString label
      if item = "" ∨ acc.1.contains item then
        (refuse (path ++ ": duplicate or empty label") : Checked (List String × Nat))
      else
        let inner ← valueAt x l.payload
        let nodes ← validateModelType levels inner path acc.2
        return (item :: acc.1, nodes)) = .ok acc' ↔
      IsEntry l levels x acc.1 acc'.1 acc.2 acc'.2 := by
  have hlt : l.payload < l.name := by cases l <;> decide
  have hkeys : ∀ s, s ∈ [l.name, l.payload] ↔ s ∈ [l.payload, l.name] := by simp [or_comm]
  have hfields : ∀ inner label, (Json.obj [(l.payload, inner), (l.name, label)]).field? l.name =
      some label ∧
      (Json.obj [(l.payload, inner), (l.name, label)]).field? l.payload = some inner := by
    cases l <;> exact fun _ _ => ⟨rfl, rfl⟩
  rw [lift_bind_eq_ok, exact_two hx hlt hkeys]
  have hinner : ∀ inner label, (Json.obj [(l.payload, inner), (l.name, label)]).wf = true →
      inner.wf = true := fun _ _ hw => Json.wf_field hw (hfields _ _).2
  constructor
  · rintro ⟨⟨inner, label, rfl⟩, h⟩
    obtain ⟨_, hl, h⟩ := bind_eq_ok.mp h
    rw [valueAt_eq_ok, (hfields inner label).1] at hl
    cases hl
    rw [lift_bind_eq_ok, shortString_iff] at h
    obtain ⟨⟨s, rfl, hs⟩, h⟩ := h
    obtain ⟨_, ⟨⟩, h⟩ := bind_eq_ok.mp h
    split at h
    · cases h
    · next hfresh =>
      rw [not_or] at hfresh
      obtain ⟨_, hi, h⟩ := bind_eq_ok.mp h
      rw [valueAt_eq_ok, (hfields inner _).2] at hi
      cases hi
      obtain ⟨after, ht, h⟩ := bind_eq_ok.mp h
      cases h
      exact ⟨⟨s, hfresh.1, hs⟩, inner, rfl, by simpa using hfresh.2,
        (ih inner _ _ (hinner _ _ hx)).mp ht, rfl⟩
  · rintro ⟨label, inner, rfl, hlabel, ht, hseen⟩
    refine ⟨⟨_, _, rfl⟩, ?_⟩
    have hfresh : ¬(label.val = "" ∨ acc.1.contains label.val = true) := by
      rw [not_or]
      exact ⟨label.property.1, by simpa using hlabel⟩
    have hshort : shortString (.str label.val) path = .ok () :=
      shortString_iff.mpr ⟨_, rfl, label.property.2⟩
    rw [valueAt_eq_ok.mpr (hfields inner _).1, ok_bind, lift_bind_eq_ok]
    refine ⟨hshort, ?_⟩
    rw [show getString (.str label.val) = .ok label.val from rfl, ok_bind, if_neg hfresh,
      valueAt_eq_ok.mpr (hfields inner _).2, ok_bind, (ih inner _ _ (hinner _ _ hx)).mpr ht,
      ok_bind, hseen]
    rfl

/-- The entries, as the loop over them counts. -/
theorem entries_iff {levels before after : Nat} {xs : List Json} (l : Labelled) (path : String)
    (ih : ∀ x before after, x.wf = true →
      (validateModelType levels x path before = .ok after ↔ IsType levels x before after))
    (hxs : Json.wfElems xs = true) (hle : before ≤ 8192) :
    (do
      let counted ← xs.foldlM (fun (acc : List String × Nat) entry => do
        lift (exactObject entry path [l.name, l.payload] [l.name, l.payload])
        let label ← valueAt entry l.name
        lift (shortString label path)
        let item ← getString label
        if item = "" ∨ acc.1.contains item then
          (refuse (path ++ ": duplicate or empty label") : Checked (List String × Nat))
        else
          let inner ← valueAt entry l.payload
          let nodes ← validateModelType levels inner path acc.2
          return (item :: acc.1, nodes)) ([], before)
      return counted.2) = .ok after ↔ AreEntries l levels [] xs before after := by
  rw [← foldlM_entries (fun x acc acc' hx => entry_iff hx ih) hxs hle, bind_eq_ok]
  constructor
  · rintro ⟨⟨seen, after'⟩, h, hafter⟩
    cases hafter
    exact ⟨seen, h⟩
  · rintro ⟨seen, h⟩
    exact ⟨(seen, after), h, rfl⟩

theorem description_iff {y : Nat} (x : Json) (path : String) (b : Nat) :
    (do
      lift (shortString x path)
      return b : Checked Nat) = .ok y ↔ ∃ d : ShortText, x = .str d ∧ b = y := by
  rw [lift_bind_eq_ok, shortString_iff, pure_eq, Except.ok.injEq]
  constructor
  · rintro ⟨⟨s, hx, hs⟩, hy⟩
    exact ⟨⟨s, hs⟩, hx, hy⟩
  · rintro ⟨d, hx, hy⟩
    exact ⟨⟨d, hx, d.property⟩, hy⟩

/-! ## Objects of one kind -/

@[simp] theorem field_fst {k : String} {x : Json} {ms : List (String × Json)} :
    (Json.obj ((k, x) :: ms)).field? k = some x := by
  simp [Json.field?]

theorem field_snd {k l : String} {x y : Json} {ms : List (String × Json)} (h : k ≠ l) :
    (Json.obj ((k, x) :: (l, y) :: ms)).field? l = some y := by
  have hbeq : (l == k) = false := beq_false_of_ne h.symm
  simp [Json.field?, List.lookup_cons, hbeq]

section Branches

variable {α : Type} {y : α} {v : Json} {kind key : String} (path : String)
  (hv : v.wf = true) (hkind : v.field? "kind" = some (.str kind))
include hv hkind

theorem kind_alone :
    exactObject v path ["kind"] ["kind"] = .ok () ↔ v = .obj [("kind", .str kind)] := by
  rw [exact_one hv]
  refine ⟨?_, fun h => ⟨_, h⟩⟩
  rintro ⟨x, rfl⟩
  cases hkind
  rfl

/-- The other key comes before `kind`. -/
theorem kind_below (hlt : key < "kind") :
    exactObject v path ["kind", key] ["kind", key] = .ok () ↔
      ∃ x, v = .obj [(key, x), ("kind", .str kind)] := by
  rw [exact_two hv hlt (by simp [or_comm])]
  constructor
  · rintro ⟨x, z, rfl⟩
    rw [field_snd (String.ne_of_lt hlt)] at hkind
    cases hkind
    exact ⟨x, rfl⟩
  · rintro ⟨x, rfl⟩
    exact ⟨x, _, rfl⟩

/-- The other key comes behind `kind`. -/
theorem kind_above (hlt : "kind" < key) :
    exactObject v path ["kind", key] ["kind", key] = .ok () ↔
      ∃ x, v = .obj [("kind", .str kind), (key, x)] := by
  rw [exact_two hv hlt (fun _ => Iff.rfl)]
  constructor
  · rintro ⟨z, x, rfl⟩
    rw [field_fst] at hkind
    cases hkind
    exact ⟨x, rfl⟩
  · rintro ⟨x, rfl⟩
    exact ⟨_, x, rfl⟩

omit hkind in
/-- One field is read behind the check of the keys. -/
theorem field_branch {keys : List String} {shape : Json → Json} {body : Json → Checked α}
    {P : Json → Prop} (hshape : exactObject v path keys keys = .ok () ↔ ∃ x, v = shape x)
    (hfield : ∀ x, (shape x).field? key = some x)
    (h : ∀ x, x.wf = true → (body x = .ok y ↔ P x)) :
    (do
      lift (exactObject v path keys keys)
      let x ← valueAt v key
      body x) = .ok y ↔ ∃ x, v = shape x ∧ P x := by
  rw [lift_bind_eq_ok, hshape, bind_eq_ok]
  constructor
  · rintro ⟨⟨x, rfl⟩, x', hx, hok⟩
    rw [valueAt_eq_ok, hfield] at hx
    cases hx
    exact ⟨x, rfl, (h x (Json.wf_field hv (hfield x))).mp hok⟩
  · rintro ⟨x, rfl, hx⟩
    exact ⟨⟨x, rfl⟩, x, valueAt_eq_ok.mpr (hfield x),
      (h x (Json.wf_field hv (hfield x))).mpr hx⟩

omit hv hkind in
/-- The field is an array. -/
theorem array_iff (message : String) {body : List Json → Checked α} {P : List Json → Prop}
    (h : ∀ xs, Json.wfElems xs = true → (body xs = .ok y ↔ P xs)) {x : Json} (hx : x.wf = true) :
    (match elements? x with
      | none => refuse message
      | some xs => body xs) = .ok y ↔ ∃ xs, x = .arr xs ∧ P xs := by
  cases x with
  | arr xs =>
    simp only [elements?, Json.arr.injEq, exists_eq_left']
    exact h xs hx
  | _ => simp [elements?, refuse]

/-- An array is read behind the check of the keys, the array's key the lower one. -/
theorem array_below (message : String) {body : List Json → Checked α} {P : List Json → Prop}
    (hlt : key < "kind")
    (h : ∀ xs, Json.wfElems xs = true → (body xs = .ok y ↔ P xs)) :
    (do
      lift (exactObject v path ["kind", key] ["kind", key])
      let x ← valueAt v key
      match elements? x with
      | none => refuse message
      | some xs => body xs) = .ok y ↔
    ∃ xs, v = .obj [(key, .arr xs), ("kind", .str kind)] ∧ P xs := by
  rw [field_branch path hv (kind_below path hv hkind hlt) (fun _ => field_fst)
    (fun _ => array_iff message h)]
  exact ⟨fun ⟨_, hv, xs, hx, hp⟩ => ⟨xs, hx ▸ hv, hp⟩, fun ⟨xs, hv, hp⟩ => ⟨_, hv, xs, rfl, hp⟩⟩

/-- The array's key is the higher one. -/
theorem array_above (message : String) {body : List Json → Checked α} {P : List Json → Prop}
    (hlt : "kind" < key)
    (h : ∀ xs, Json.wfElems xs = true → (body xs = .ok y ↔ P xs)) :
    (do
      lift (exactObject v path ["kind", key] ["kind", key])
      let x ← valueAt v key
      match elements? x with
      | none => refuse message
      | some xs => body xs) = .ok y ↔
    ∃ xs, v = .obj [("kind", .str kind), (key, .arr xs)] ∧ P xs := by
  rw [field_branch path hv (kind_above path hv hkind hlt) (fun _ => field_snd (String.ne_of_lt hlt))
    (fun _ => array_iff message h)]
  exact ⟨fun ⟨_, hv, xs, hx, hp⟩ => ⟨xs, hx ▸ hv, hp⟩, fun ⟨xs, hv, hp⟩ => ⟨_, hv, xs, rfl, hp⟩⟩

theorem atom_branch {y : Nat} (b : Nat) :
    (do
      lift (exactObject v path ["kind"] ["kind"])
      return b + 1 : Checked Nat) = .ok y ↔
    v = .obj [("kind", .str kind)] ∧ b + 1 = y := by
  rw [lift_bind_eq_ok, kind_alone path hv hkind, pure_eq, Except.ok.injEq]

theorem map_branch {levels y : Nat} (b : Nat) {element : Json → Nat → Checked Nat}
    (ih : ∀ x before after, x.wf = true →
      (element x before = .ok after ↔ IsType levels x before after)) :
    (do
      lift (exactObject v path ["kind", "key", "value"] ["kind", "key", "value"])
      let key ← valueAt v "key"
      let nodes ← element key (b + 1)
      let item ← valueAt v "value"
      element item nodes) = .ok y ↔
    ∃ k x mid, v = .obj [("key", k), ("kind", .str kind), ("value", x)] ∧
      IsType levels k (b + 1) mid ∧ IsType levels x mid y := by
  rw [lift_bind_eq_ok, exact_three hv (by decide : "key" < "kind") (by decide : "kind" < "value")
    (by simp [or_left_comm])]
  constructor
  · rintro ⟨⟨k, _, x, rfl⟩, hok⟩
    cases hkind
    obtain ⟨_, hk, hok⟩ := bind_eq_ok.mp hok
    cases valueAt_eq_ok.mp hk
    obtain ⟨mid, hkey, hok⟩ := bind_eq_ok.mp hok
    obtain ⟨_, hx, hok⟩ := bind_eq_ok.mp hok
    cases valueAt_eq_ok.mp hx
    exact ⟨k, x, mid, rfl, (ih k _ _ (Json.wf_field (k := "key") hv rfl)).mp hkey,
      (ih x _ _ (Json.wf_field (k := "value") hv rfl)).mp hok⟩
  · rintro ⟨k, x, mid, rfl, hk, hx⟩
    refine ⟨⟨_, _, _, rfl⟩, bind_eq_ok.mpr ⟨k, rfl, bind_eq_ok.mpr ⟨mid, ?_, ?_⟩⟩⟩
    · exact (ih k _ _ (Json.wf_field (k := "key") hv rfl)).mpr hk
    · exact bind_eq_ok.mpr ⟨x, rfl, (ih x _ _ (Json.wf_field (k := "value") hv rfl)).mpr hx⟩

end Branches

/-- Acceptance of a type, at every number of levels left. -/
theorem validateModelType_iff : ∀ (levels : Nat) (v : Json) (path : String) (before after : Nat),
    v.wf = true →
      (validateModelType levels v path before = .ok after ↔ IsType levels v before after)
  | 0, _, _, _, _, _ => iff_of_false nofun not_isType_zero
  | levels + 1, v, path, before, after, hv => by
    have ih := fun x p b a hx => validateModelType_iff levels x p b a hx
    by_cases hn : before + 1 > 8192
    · refine iff_of_false ?_ fun h => ?_
      · rw [validateModelType, if_pos hn]
        exact refuse_ne_ok
      · have := h.lt
        omega
    have hle : before + 1 ≤ 8192 := by omega
    -- one equivalence for each kind of node, whatever the kind is called
    have hatom := fun kind (hkind : v.field? "kind" = some (.str kind)) =>
      atom_branch path (y := after) hv hkind before
    have hcollection := fun kind (hkind : v.field? "kind" = some (.str kind)) =>
      field_branch path (y := after) hv
        (kind_below path hv hkind (by decide : "element" < "kind")) (fun _ => field_fst)
        fun x hx => ih x (path ++ ".element") (before + 1) after hx
    have htuple := fun kind (hkind : v.field? "kind" = some (.str kind)) =>
      array_below path (y := after) hv hkind (path ++ ".elements: array expected")
        (by decide : "elements" < "kind") fun xs hxs =>
          foldlM_types (fun x b a hx => ih x (path ++ ".elements[]") b a hx) hxs hle
    have hlabelled := fun (l : Labelled) kind (hkind : v.field? "kind" = some (.str kind)) =>
      array_below path (y := after) hv hkind (path ++ ": array expected") l.listName_lt
        fun xs hxs => entries_iff l path (fun x b a hx => ih x path b a hx) hxs hle
    have hmap := fun kind (hkind : v.field? "kind" = some (.str kind)) =>
      map_branch path (y := after) hv hkind before fun x b a hx => ih x path b a hx
    have hitf := fun kind (hkind : v.field? "kind" = some (.str kind)) =>
      field_branch path (y := after) hv
        (kind_below path hv hkind (by decide : "description" < "kind")) (fun _ => field_fst)
        fun x _ => description_iff x path (before + 1)
    rw [isType_succ, validateModelType, if_neg hn]
    constructor
    · intro h
      split at h
      · next kind hkind =>
        split at h
        · next ha =>
          obtain ⟨rfl, rfl⟩ := (hatom kind hkind).mp h
          obtain rfl | rfl | rfl | rfl := ha
          · exact .inl ⟨.int, rfl, rfl, hle⟩
          · exact .inl ⟨.bool, rfl, rfl, hle⟩
          · exact .inl ⟨.str, rfl, rfl, hle⟩
          · exact .inl ⟨.null, rfl, rfl, hle⟩
        split at h
        · next hc =>
          obtain ⟨x, rfl, hx⟩ := (hcollection kind hkind).mp h
          obtain rfl | rfl := hc
          · exact .inr (.inl ⟨.set, x, rfl, hx⟩)
          · exact .inr (.inl ⟨.seq, x, rfl, hx⟩)
        split at h
        · next ht =>
          subst ht
          exact .inr (.inr (.inl ((htuple _ hkind).mp h)))
        split at h
        · next hl =>
          obtain rfl | rfl := hl
          · exact .inr (.inr (.inr (.inl ⟨.record, (hlabelled .record _ hkind).mp h⟩)))
          · exact .inr (.inr (.inr (.inl ⟨.variant, (hlabelled .variant _ hkind).mp h⟩)))
        split at h
        · next hm =>
          subst hm
          exact .inr (.inr (.inr (.inr (.inl ((hmap _ hkind).mp h)))))
        split at h
        · next hd =>
          subst hd
          obtain ⟨_, rfl, d, rfl, rfl⟩ := (hitf _ hkind).mp h
          exact .inr (.inr (.inr (.inr (.inr ⟨d, rfl, rfl, hle⟩))))
        · cases h
      · cases h
    · rintro (⟨a, rfl, rfl, -⟩ | ⟨c, x, rfl, hx⟩ | ⟨xs, rfl, hxs⟩ | ⟨l, xs, rfl, hxs⟩ |
        ⟨x, y, mid, rfl, hx, hy⟩ | ⟨d, rfl, rfl, -⟩)
      · cases a <;> exact (hatom _ rfl).mpr ⟨rfl, rfl⟩
      · cases c <;> exact (hcollection _ rfl).mpr ⟨x, rfl, hx⟩
      · exact (htuple _ rfl).mpr ⟨xs, rfl, hxs⟩
      · cases l with
        | record => exact (hlabelled .record _ rfl).mpr ⟨xs, rfl, hxs⟩
        | variant => exact (hlabelled .variant _ rfl).mpr ⟨xs, rfl, hxs⟩
      · exact (hmap _ rfl).mpr ⟨x, y, mid, rfl, hx, hy⟩
      · exact (hitf _ rfl).mpr ⟨_, rfl, d, rfl, rfl⟩

/-! ## Literals -/

abbrev DecimalText := { s : String // BigInt.isDecimal s = true }

inductive Grouping where
  | set
  | seq
  | tuple
  deriving DecidableEq, Repr

def Grouping.kind : Grouping → String
  | .set => "set"
  | .seq => "seq"
  | .tuple => "tuple"

inductive Literal where
  | null
  | bool (b : Bool)
  | str (s : String)
  | int (text : DecimalText)
  | grouping (g : Grouping) (values : List Literal)
  | record (fields : List (String × Literal))
  | map (entries : List (Literal × Literal))
  | variant (tag : String) (payload : Literal)

namespace Literal

mutual
/-- The canonical JSON of a literal. -/
def encode : Literal → Json
  | null => .obj [("kind", .str "null")]
  | bool b => .obj [("kind", .str "bool"), ("value", .bool b)]
  | str s => .obj [("kind", .str "str"), ("value", .str s)]
  | int text => .obj [("kind", .str "int"), ("value", .str text)]
  | grouping g values => .obj [("kind", .str g.kind), ("values", .arr (encodeValues values))]
  | record fields => .obj [("fields", .arr (encodeFields fields)), ("kind", .str "record")]
  | map entries => .obj [("entries", .arr (encodeEntries entries)), ("kind", .str "map")]
  | variant tag payload =>
    .obj [("kind", .str "variant"), ("payload", payload.encode), ("tag", .str tag)]

def encodeValues : List Literal → List Json
  | [] => []
  | x :: xs => x.encode :: encodeValues xs

def encodeFields : List (String × Literal) → List Json
  | [] => []
  | (name, x) :: fs => .obj [("name", .str name), ("value", x.encode)] :: encodeFields fs

def encodeEntries : List (Literal × Literal) → List Json
  | [] => []
  | (key, x) :: es => .obj [("key", key.encode), ("value", x.encode)] :: encodeEntries es
end

mutual
/-- The levels of a literal; a scalar is one. -/
def height : Literal → Nat
  | null | bool _ | str _ | int _ => 1
  | grouping _ values => heightValues values + 1
  | record fields => heightFields fields + 1
  | map entries => heightEntries entries + 1
  | variant _ payload => payload.height + 1

def heightValues : List Literal → Nat
  | [] => 0
  | x :: xs => max x.height (heightValues xs)

def heightFields : List (String × Literal) → Nat
  | [] => 0
  | (_, x) :: fs => max x.height (heightFields fs)

def heightEntries : List (Literal × Literal) → Nat
  | [] => 0
  | (key, x) :: es => max (max key.height x.height) (heightEntries es)
end

theorem height_pos (x : Literal) : 0 < x.height := by
  cases x <;> simp [height]

end Literal

/-- `v` encodes a literal of at most `levels` levels. -/
def IsLiteral (levels : Nat) (v : Json) : Prop :=
  ∃ x : Literal, x.encode = v ∧ x.height ≤ levels

def IsField (levels : Nat) (v : Json) : Prop :=
  ∃ name inner, v = .obj [("name", .str name), ("value", inner)] ∧ IsLiteral levels inner

def IsMapEntry (levels : Nat) (v : Json) : Prop :=
  ∃ key inner, v = .obj [("key", key), ("value", inner)] ∧ IsLiteral levels key ∧
    IsLiteral levels inner

theorem not_isLiteral_zero {v : Json} : ¬IsLiteral 0 v := by
  rintro ⟨x, -, h⟩
  have := x.height_pos
  omega

theorem encodeValues_iff {levels : Nat} {xs : List Json} :
    (∃ ts, Literal.encodeValues ts = xs ∧ Literal.heightValues ts ≤ levels) ↔
      ∀ x ∈ xs, IsLiteral levels x := by
  induction xs with
  | nil => exact iff_of_true ⟨[], rfl, Nat.zero_le _⟩ (by simp)
  | cons x xs ih =>
    rw [List.forall_mem_cons, ← ih]
    constructor
    · rintro ⟨_ | ⟨t, ts⟩, he, hh⟩
      · cases he
      · cases he
        rw [Literal.heightValues, Nat.max_le] at hh
        exact ⟨⟨t, rfl, hh.1⟩, ts, rfl, hh.2⟩
    · rintro ⟨⟨t, rfl, ht⟩, ts, rfl, hts⟩
      exact ⟨t :: ts, rfl, Nat.max_le.mpr ⟨ht, hts⟩⟩

theorem encodeFields_iff {levels : Nat} {xs : List Json} :
    (∃ fs, Literal.encodeFields fs = xs ∧ Literal.heightFields fs ≤ levels) ↔
      ∀ x ∈ xs, IsField levels x := by
  induction xs with
  | nil => exact iff_of_true ⟨[], rfl, Nat.zero_le _⟩ (by simp)
  | cons x xs ih =>
    rw [List.forall_mem_cons, ← ih]
    constructor
    · rintro ⟨_ | ⟨⟨name, t⟩, fs⟩, he, hh⟩
      · cases he
      · cases he
        rw [Literal.heightFields, Nat.max_le] at hh
        exact ⟨⟨name, _, rfl, t, rfl, hh.1⟩, fs, rfl, hh.2⟩
    · rintro ⟨⟨name, _, rfl, t, rfl, ht⟩, fs, rfl, hfs⟩
      exact ⟨(name, t) :: fs, rfl, Nat.max_le.mpr ⟨ht, hfs⟩⟩

theorem encodeEntries_iff {levels : Nat} {xs : List Json} :
    (∃ es, Literal.encodeEntries es = xs ∧ Literal.heightEntries es ≤ levels) ↔
      ∀ x ∈ xs, IsMapEntry levels x := by
  induction xs with
  | nil => exact iff_of_true ⟨[], rfl, Nat.zero_le _⟩ (by simp)
  | cons x xs ih =>
    rw [List.forall_mem_cons, ← ih]
    constructor
    · rintro ⟨_ | ⟨⟨key, t⟩, es⟩, he, hh⟩
      · cases he
      · cases he
        rw [Literal.heightEntries, Nat.max_le, Nat.max_le] at hh
        exact ⟨⟨_, _, rfl, ⟨key, rfl, hh.1.1⟩, t, rfl, hh.1.2⟩, es, rfl, hh.2⟩
    · rintro ⟨⟨_, _, rfl, ⟨key, rfl, hkey⟩, t, rfl, ht⟩, es, rfl, hes⟩
      exact ⟨(key, t) :: es, rfl, Nat.max_le.mpr ⟨Nat.max_le.mpr ⟨hkey, ht⟩, hes⟩⟩

/-- The shapes of an encoded literal, its outermost node taken off. -/
theorem isLiteral_succ {levels : Nat} {v : Json} : IsLiteral (levels + 1) v ↔
    v = .obj [("kind", .str "null")] ∨
    (∃ b, v = .obj [("kind", .str "bool"), ("value", .bool b)]) ∨
    (∃ s, v = .obj [("kind", .str "str"), ("value", .str s)]) ∨
    (∃ s, v = .obj [("kind", .str "int"), ("value", .str s)] ∧ BigInt.isDecimal s = true) ∨
    (∃ (g : Grouping) (xs : List Json), v = .obj [("kind", .str g.kind), ("values", .arr xs)] ∧
      ∀ x ∈ xs, IsLiteral levels x) ∨
    (∃ xs, v = .obj [("fields", .arr xs), ("kind", .str "record")] ∧
      ∀ x ∈ xs, IsField levels x) ∨
    (∃ xs, v = .obj [("entries", .arr xs), ("kind", .str "map")] ∧
      ∀ x ∈ xs, IsMapEntry levels x) ∨
    (∃ tag x, v = .obj [("kind", .str "variant"), ("payload", x), ("tag", .str tag)] ∧
      IsLiteral levels x) := by
  simp only [← encodeValues_iff, ← encodeFields_iff, ← encodeEntries_iff]
  constructor
  · rintro ⟨x, rfl, hh⟩
    cases x with
    | null => exact .inl rfl
    | bool b => exact .inr (.inl ⟨b, rfl⟩)
    | str s => exact .inr (.inr (.inl ⟨s, rfl⟩))
    | int text => exact .inr (.inr (.inr (.inl ⟨text, rfl, text.property⟩)))
    | grouping g values =>
      exact .inr (.inr (.inr (.inr (.inl ⟨g, _, rfl, values, rfl, Nat.le_of_succ_le_succ hh⟩))))
    | record fields =>
      exact .inr (.inr (.inr (.inr (.inr (.inl
        ⟨_, rfl, fields, rfl, Nat.le_of_succ_le_succ hh⟩)))))
    | map entries =>
      exact .inr (.inr (.inr (.inr (.inr (.inr (.inl
        ⟨_, rfl, entries, rfl, Nat.le_of_succ_le_succ hh⟩))))))
    | variant tag payload =>
      exact .inr (.inr (.inr (.inr (.inr (.inr (.inr
        ⟨tag, _, rfl, payload, rfl, Nat.le_of_succ_le_succ hh⟩))))))
  · have hscalar : 1 ≤ levels + 1 := Nat.succ_le_succ (Nat.zero_le _)
    rintro (rfl | ⟨b, rfl⟩ | ⟨s, rfl⟩ | ⟨s, rfl, hs⟩ | ⟨g, _, rfl, xs, rfl, hh⟩ |
      ⟨_, rfl, fs, rfl, hh⟩ | ⟨_, rfl, es, rfl, hh⟩ | ⟨tag, _, rfl, x, rfl, hh⟩)
    · exact ⟨.null, rfl, hscalar⟩
    · exact ⟨.bool b, rfl, hscalar⟩
    · exact ⟨.str s, rfl, hscalar⟩
    · exact ⟨.int ⟨s, hs⟩, rfl, hscalar⟩
    · exact ⟨.grouping g xs, rfl, Nat.succ_le_succ hh⟩
    · exact ⟨.record fs, rfl, Nat.succ_le_succ hh⟩
    · exact ⟨.map es, rfl, Nat.succ_le_succ hh⟩
    · exact ⟨.variant tag x, rfl, Nat.succ_le_succ hh⟩

theorem stringField_iff {v : Json} {key path s : String} :
    stringField v key path = .ok s ↔ v.field? key = some (.str s) := by
  unfold stringField
  cases h : v.field? key with
  | none => simp
  | some x => cases x <;> simp

theorem forM_iff {f : Json → Checked PUnit} {P : Json → Prop}
    (h : ∀ x, x.wf = true → (f x = .ok () ↔ P x)) :
    ∀ {xs : List Json}, Json.wfElems xs = true → (xs.forM f = .ok () ↔ ∀ x ∈ xs, P x) := by
  intro xs hw
  induction xs with
  | nil => simp
  | cons x xs ih =>
    rw [Json.wfElems, Bool.and_eq_true] at hw
    rw [List.forall_mem_cons, ← h x hw.1, ← ih hw.2]
    refine bind_eq_ok.trans ⟨?_, fun hok => ⟨(), hok⟩⟩
    rintro ⟨_, hok⟩
    exact hok

section LiteralBranches

variable {levels : Nat} {v : Json} {kind : String} {literal : Json → Checked Unit} (path : String)
  (hv : v.wf = true) (ih : ∀ x, x.wf = true → (literal x = .ok () ↔ IsLiteral levels x))
include hv

theorem scalar_branch (hkind : v.field? "kind" = some (.str kind)) :
    (do
      lift (exactObject v path ["kind", "value"] ["kind", "value"])
      let payload ← valueAt v "value"
      if kind = "bool" then
        if payload.isBool then return () else refuse (path ++ ": Boolean expected")
      else do
        let text ← lift (stringField v "value" path)
        if kind = "str" then return ()
        else if BigInt.isDecimal text then return ()
        else refuse (path ++ ": decimal integer string expected")) = .ok () ↔
    ∃ x, v = .obj [("kind", .str kind), ("value", x)] ∧
      if kind = "bool" then x.isBool = true
      else ∃ s, x = .str s ∧ (kind = "str" ∨ BigInt.isDecimal s = true) := by
  rw [lift_bind_eq_ok, kind_above path hv hkind (by decide)]
  constructor
  · rintro ⟨⟨x, rfl⟩, h⟩
    obtain ⟨_, hx, h⟩ := bind_eq_ok.mp h
    cases valueAt_eq_ok.mp hx
    refine ⟨x, rfl, ?_⟩
    split at h
    · next hb =>
      rw [if_pos hb]
      split at h
      · assumption
      · cases h
    · next hb =>
      rw [if_neg hb]
      obtain ⟨s, hs, htext⟩ := bind_eq_ok.mp h
      cases stringField_iff.mp (lift_eq_ok.mp hs)
      refine ⟨s, rfl, ?_⟩
      split at htext
      · exact .inl ‹_›
      split at htext
      · exact .inr ‹_›
      · cases htext
  · rintro ⟨x, rfl, h⟩
    refine ⟨⟨x, rfl⟩, bind_eq_ok.mpr ⟨x, rfl, ?_⟩⟩
    split at h
    · next hb => rw [if_pos hb, if_pos h, pure_eq]
    · next hb =>
      obtain ⟨s, rfl, h⟩ := h
      rw [if_neg hb]
      refine bind_eq_ok.mpr ⟨s, lift_eq_ok.mpr (stringField_iff.mpr rfl), ?_⟩
      by_cases hs : kind = "str"
      · rw [if_pos hs, pure_eq]
      · rw [if_neg hs, if_pos (h.resolve_left hs), pure_eq]

include ih

/-- A field of a record as the loop checks it. -/
theorem field_iff :
    (do
      lift (exactObject v path ["name", "value"] ["name", "value"])
      let _ ← lift (stringField v "name" path)
      let item ← valueAt v "value"
      literal item) = .ok () ↔ IsField levels v := by
  rw [lift_bind_eq_ok, exact_two hv (by decide : "name" < "value") fun _ => Iff.rfl]
  constructor
  · rintro ⟨⟨_, x, rfl⟩, h⟩
    obtain ⟨name, hname, h⟩ := bind_eq_ok.mp h
    cases stringField_iff.mp (lift_eq_ok.mp hname)
    obtain ⟨_, hx, h⟩ := bind_eq_ok.mp h
    cases valueAt_eq_ok.mp hx
    exact ⟨name, x, rfl, (ih x (Json.wf_field (k := "value") hv rfl)).mp h⟩
  · rintro ⟨name, x, rfl, hx⟩
    refine ⟨⟨_, x, rfl⟩, bind_eq_ok.mpr ⟨name, lift_eq_ok.mpr (stringField_iff.mpr rfl), ?_⟩⟩
    exact bind_eq_ok.mpr ⟨x, rfl, (ih x (Json.wf_field (k := "value") hv rfl)).mpr hx⟩

/-- An entry of a map as the loop checks it. -/
theorem mapEntry_iff :
    (do
      lift (exactObject v path ["key", "value"] ["key", "value"])
      let key ← valueAt v "key"
      literal key
      let item ← valueAt v "value"
      literal item) = .ok () ↔ IsMapEntry levels v := by
  rw [lift_bind_eq_ok, exact_two hv (by decide : "key" < "value") fun _ => Iff.rfl]
  constructor
  · rintro ⟨⟨key, x, rfl⟩, h⟩
    obtain ⟨_, hk, h⟩ := bind_eq_ok.mp h
    cases valueAt_eq_ok.mp hk
    obtain ⟨_, hkey, h⟩ := bind_eq_ok.mp h
    obtain ⟨_, hx, h⟩ := bind_eq_ok.mp h
    cases valueAt_eq_ok.mp hx
    exact ⟨key, x, rfl, (ih key (Json.wf_field (k := "key") hv rfl)).mp hkey,
      (ih x (Json.wf_field (k := "value") hv rfl)).mp h⟩
  · rintro ⟨key, x, rfl, hkey, hx⟩
    refine ⟨⟨key, x, rfl⟩, bind_eq_ok.mpr ⟨key, rfl, bind_eq_ok.mpr ⟨(), ?_, ?_⟩⟩⟩
    · exact (ih key (Json.wf_field (k := "key") hv rfl)).mpr hkey
    · exact bind_eq_ok.mpr ⟨x, rfl, (ih x (Json.wf_field (k := "value") hv rfl)).mpr hx⟩

theorem variant_branch (hkind : v.field? "kind" = some (.str kind)) :
    (do
      lift (exactObject v path ["kind", "tag", "payload"] ["kind", "tag", "payload"])
      let _ ← lift (stringField v "tag" path)
      let payload ← valueAt v "payload"
      literal payload) = .ok () ↔
    ∃ tag x, v = .obj [("kind", .str kind), ("payload", x), ("tag", .str tag)] ∧
      IsLiteral levels x := by
  rw [lift_bind_eq_ok, exact_three hv (by decide : "kind" < "payload")
    (by decide : "payload" < "tag") (by simp [or_comm])]
  constructor
  · rintro ⟨⟨_, x, _, rfl⟩, h⟩
    cases hkind
    obtain ⟨tag, htag, h⟩ := bind_eq_ok.mp h
    cases stringField_iff.mp (lift_eq_ok.mp htag)
    obtain ⟨_, hx, h⟩ := bind_eq_ok.mp h
    cases valueAt_eq_ok.mp hx
    exact ⟨tag, x, rfl, (ih x (Json.wf_field (k := "payload") hv rfl)).mp h⟩
  · rintro ⟨tag, x, rfl, hx⟩
    refine ⟨⟨_, x, _, rfl⟩, bind_eq_ok.mpr ⟨tag, lift_eq_ok.mpr (stringField_iff.mpr rfl), ?_⟩⟩
    exact bind_eq_ok.mpr ⟨x, rfl, (ih x (Json.wf_field (k := "payload") hv rfl)).mpr hx⟩

end LiteralBranches

/-- Acceptance of a literal, at every number of levels left. -/
theorem validateLiteral_iff : ∀ (levels : Nat) (v : Json) (path : String), v.wf = true →
    (validateLiteral levels v path = .ok () ↔ IsLiteral levels v)
  | 0, _, _, _ => iff_of_false nofun not_isLiteral_zero
  | levels + 1, v, path, hv => by
    have ih := fun x hx => validateLiteral_iff levels x path hx
    -- one equivalence for each kind of node, whatever the kind is called
    have hgrouping := fun kind (hkind : v.field? "kind" = some (.str kind)) =>
      array_above path (y := ()) hv hkind (path ++ ": literal values array expected")
        (by decide : "kind" < "values") fun xs hxs => forM_iff ih hxs
    have hrecord := fun kind (hkind : v.field? "kind" = some (.str kind)) =>
      array_below path (y := ()) hv hkind (path ++ ": literal entries array expected")
        (by decide : "fields" < "kind") fun xs hxs =>
          forM_iff (fun x hx => field_iff path hx ih) hxs
    have hmap := fun kind (hkind : v.field? "kind" = some (.str kind)) =>
      array_below path (y := ()) hv hkind (path ++ ": literal entries array expected")
        (by decide : "entries" < "kind") fun xs hxs =>
          forM_iff (fun x hx => mapEntry_iff path hx ih) hxs
    rw [isLiteral_succ, validateLiteral]
    constructor
    · intro h
      split at h
      · cases h
      obtain ⟨kind, hkind, h⟩ := bind_eq_ok.mp h
      rw [lift_eq_ok, stringField_iff] at hkind
      split at h
      · next hnull =>
        subst hnull
        exact .inl ((kind_alone path hv hkind).mp (lift_eq_ok.mp h))
      split at h
      · next hs =>
        obtain ⟨x, rfl, hx⟩ := (scalar_branch path hv hkind).mp h
        obtain rfl | rfl | rfl := hs
        · obtain ⟨s, rfl, hs⟩ := hx
          exact .inr (.inr (.inr (.inl ⟨s, rfl, hs.resolve_left (by decide)⟩)))
        · obtain ⟨b, rfl⟩ : ∃ b, x = .bool b := by
            cases x with
            | bool b => exact ⟨b, rfl⟩
            | _ => cases hx
          exact .inr (.inl ⟨b, rfl⟩)
        · obtain ⟨s, rfl, -⟩ := hx
          exact .inr (.inr (.inl ⟨s, rfl⟩))
      split at h
      · next hg =>
        obtain ⟨xs, rfl, hxs⟩ := (hgrouping kind hkind).mp h
        obtain rfl | rfl | rfl := hg
        · exact .inr (.inr (.inr (.inr (.inl ⟨.set, xs, rfl, hxs⟩))))
        · exact .inr (.inr (.inr (.inr (.inl ⟨.seq, xs, rfl, hxs⟩))))
        · exact .inr (.inr (.inr (.inr (.inl ⟨.tuple, xs, rfl, hxs⟩))))
      split at h
      · next hr =>
        obtain rfl | rfl := hr
        · exact .inr (.inr (.inr (.inr (.inr (.inl ((hrecord _ hkind).mp h))))))
        · exact .inr (.inr (.inr (.inr (.inr (.inr (.inl ((hmap _ hkind).mp h)))))))
      split at h
      · next hvar =>
        subst hvar
        exact .inr (.inr (.inr (.inr (.inr (.inr (.inr
          ((variant_branch path hv ih hkind).mp h)))))))
      · cases h
    · rintro (rfl | ⟨b, rfl⟩ | ⟨s, rfl⟩ | ⟨s, rfl, hs⟩ | ⟨g, xs, rfl, hxs⟩ | ⟨xs, rfl, hxs⟩ |
        ⟨xs, rfl, hxs⟩ | ⟨tag, x, rfl, hx⟩)
      · exact lift_eq_ok.mpr ((kind_alone path hv rfl).mpr rfl)
      · exact (scalar_branch path hv rfl).mpr ⟨.bool b, rfl, rfl⟩
      · exact (scalar_branch path hv rfl).mpr ⟨.str s, rfl, s, rfl, .inl rfl⟩
      · exact (scalar_branch path hv rfl).mpr ⟨.str s, rfl, s, rfl, .inr hs⟩
      · cases g <;> exact (hgrouping _ rfl).mpr ⟨xs, rfl, hxs⟩
      · exact (hrecord _ rfl).mpr ⟨xs, rfl, hxs⟩
      · exact (hmap _ rfl).mpr ⟨xs, rfl, hxs⟩
      · exact (variant_branch path hv ih rfl).mpr ⟨tag, x, rfl, hx⟩

/-! ## The validators -/

/-- A check that does not throw returns a result. -/
theorem Safe.result {α : Type} {c : Checked α} (h : Safe c) : ∃ r, c = lift r := by
  match c, h with
  | .ok x, _ => exact ⟨.ok x, rfl⟩
  | .error (.refused e), _ => exact ⟨.error e, rfl⟩
  | .error (.threw f), h => exact absurd rfl (h f)

theorem Safe.refused {α : Type} {c : Checked α} (h : Safe c) (hne : ∀ x, c ≠ .ok x) :
    ∃ e, c = .error (.refused e) := by
  obtain ⟨r | r, rfl⟩ := h.result
  · exact ⟨r, rfl⟩
  · exact absurd rfl (hne r)

/-- The validators accept the encodings of their grammars and refuse every other value; a verify
request is always a result. -/
theorem validators_accept_grammar (v : Json) (path : String) (hv : v.wf = true) :
    (∀ before after,
      validateModelType 32 v path before = .ok after ↔
        ∃ t : ModelType, t.Distinct ∧ t.encode = v ∧ t.height ≤ 32 ∧ before + t.nodes = after ∧
          after ≤ 8192) ∧
    (∀ before, (¬∃ t : ModelType, t.Distinct ∧ t.encode = v ∧ t.height ≤ 32 ∧
        before + t.nodes ≤ 8192) → ∃ e, validateModelType 32 v path before = .error (.refused e)) ∧
    (validateLiteral 128 v path = .ok () ↔ ∃ x : Literal, x.encode = v ∧ x.height ≤ 128) ∧
    ((¬∃ x : Literal, x.encode = v ∧ x.height ≤ 128) →
      ∃ e, validateLiteral 128 v path = .error (.refused e)) ∧
    ∀ rd metadata policy, ∃ r, makeVerifyRequest rd metadata policy = lift r := by
  have htype := fun before after => validateModelType_iff 32 v path before after hv
  have hliteral := validateLiteral_iff 128 v path hv
  refine ⟨htype, fun before hno => ?_, hliteral, fun hno => ?_, fun rd metadata policy =>
    (safe_makeVerifyRequest rd metadata policy).result⟩
  · refine (safe_validateModelType 32 v path before).refused fun after hok => hno ?_
    obtain ⟨t, hd, he, hh, rfl, hle⟩ := (htype before after).mp hok
    exact ⟨t, hd, he, hh, hle⟩
  · exact (safe_validateLiteral 128 v path).refused fun _ hok => hno (hliteral.mp hok)

/-- A record with a set of integers. -/
def scoresType : ModelType :=
  .labelled .record [(⟨"scores", by decide⟩, .collection .set (.atom .int))]

def scoresKey : Literal := .record [("scores", .grouping .set [.int ⟨"-1", by decide⟩])]

theorem validators_accept_grammar_scores :
    validateModelType 32 scoresType.encode "type" 5 = .ok 8 ∧
    validateLiteral 128 scoresKey.encode "key" = .ok () :=
  ⟨((validators_accept_grammar scoresType.encode "type" rfl).1 5 8).mpr
      ⟨scoresType, ⟨List.nodup_singleton _, trivial, trivial⟩, rfl, by decide, rfl, by decide⟩,
    (validators_accept_grammar scoresKey.encode "key" rfl).2.2.1.mpr
      ⟨scoresKey, rfl, by decide⟩⟩

end MirrorCpp.Interface
