import MirrorCpp.Exploration.Canonical
import MirrorCpp.Lib.JsonCompact

/-!
# Equal texts are equal states

`Canon v c`: the form of `v` is `c`, at whatever depth it was taken. The forms are trees of
strings, booleans and arrays, on which printing is injective; so two forms are equal exactly when
the values are (`canon_eq_iff`, by induction on the value).
-/

namespace MirrorCpp.Exploration

open Itf Fallible SortedMap

/-! ## Trees of strings, booleans and arrays -/

mutual
def tree : Json → Bool
  | .str _ | .bool _ => true
  | .arr xs => treeElems xs
  | _ => false

def treeElems : List Json → Bool
  | [] => true
  | x :: xs => tree x && treeElems xs
end

theorem treeElems_iff {xs : List Json} : treeElems xs = true ↔ ∀ x ∈ xs, tree x = true := by
  induction xs with
  | nil => simp [treeElems]
  | cons x xs ih => simp [treeElems, ih]

mutual
theorem wf_tree : ∀ {j : Json}, tree j = true → j.wf = true
  | .str _, _ | .bool _, _ => by simp [Json.wf]
  | .arr xs, h => by
    rw [tree] at h
    rw [Json.wf]
    exact wf_treeElems h

theorem wf_treeElems : ∀ {xs : List Json}, treeElems xs = true → Json.wfElems xs = true
  | [], _ => rfl
  | x :: xs, h => by
    rw [treeElems, Bool.and_eq_true] at h
    rw [Json.wfElems, wf_tree h.1, wf_treeElems h.2]
    rfl
end

mutual
/-- A tree is plain at any limit from some depth on. -/
theorem plain_tree : ∀ {j : Json}, tree j = true → ∃ n, ∀ m, n ≤ m → j.plainBelow m = true
  | .str _, _ | .bool _, _ => ⟨0, fun m _ => by simp [Json.plainBelow]⟩
  | .arr xs, h => by
    rw [tree] at h
    obtain ⟨n, hn⟩ := plain_treeElems h
    exact ⟨n, fun m hm => by rw [Json.plainBelow]; exact hn m hm⟩

theorem plain_treeElems : ∀ {xs : List Json}, treeElems xs = true →
    ∃ n, ∀ m, n ≤ m → Json.plainElems m xs = true
  | [], _ => ⟨0, fun m _ => by simp [Json.plainElems]⟩
  | x :: xs, h => by
    rw [treeElems, Bool.and_eq_true] at h
    obtain ⟨n, hn⟩ := plain_tree h.1
    obtain ⟨n', hn'⟩ := plain_treeElems h.2
    refine ⟨max (n + 1) n', fun m hm => ?_⟩
    obtain ⟨k, rfl⟩ : ∃ k, m = k + 1 := ⟨m - 1, by omega⟩
    rw [Json.plainElems, hn k (by omega), hn' (k + 1) (by omega)]
    rfl
end

variable {lib : JsonLib}

theorem dump_inj_of_tree {a b : Json} {t : String} (ha : tree a = true) (hb : tree b = true)
    (hta : lib.dump a = some t) (htb : lib.dump b = some t) : a = b := by
  obtain ⟨m, hm⟩ := plain_tree ha
  obtain ⟨n, hn⟩ := plain_tree hb
  exact lib.dump_inj (wf_tree ha) (wf_tree hb) (hm m le_rfl) (hn n le_rfl) hta htb

/-! ## The form of a value -/

theorem require_ok {b : Bool} {w : String} {u : Unit} : require b w = .ok u ↔ b = true := by
  unfold require
  split <;> simp_all

theorem dump_ok {j : Json} {t : String} : dump lib j = .ok t ↔ lib.dump j = some t := by
  unfold dump
  split <;> simp_all

def Canon (lib : JsonLib) (v : Value) (c : Json) : Prop :=
  ∃ depth nodes nodes', canonicalValue lib v depth nodes = .ok (c, nodes')

/-- The rows collected under their texts: sorted, and every one under the text of its part `key`. -/
structure Rows (lib : JsonLib) (key : Json → Json → Prop) (rows : List (String × Json)) : Prop where
  sorted : Sorted rows
  text : ∀ m ∈ rows, ∃ k, key m.2 k ∧ lib.dump k = some m.1

theorem canon_elems {xs : List Value} {cs : List Json} {depth nodes n : Nat}
    (h : canonicalElems lib xs depth nodes = .ok (cs, n)) : List.Forall₂ (Canon lib) xs cs := by
  induction xs generalizing cs nodes with
  | nil => cases h; exact .nil
  | cons x xs ih =>
    rw [canonicalElems] at h
    obtain ⟨⟨c, n₁⟩, hc, h⟩ := bind_eq_ok.mp h
    obtain ⟨⟨ds, n₂⟩, hd, h⟩ := bind_eq_ok.mp h
    cases h
    exact .cons ⟨_, _, _, hc⟩ (ih hd)

/-- The row of a field. -/
def FieldRow (lib : JsonLib) (f : String × Value) (r : Json) : Prop :=
  ∃ c, r = .arr [.str f.1, c] ∧ Canon lib f.2 c

theorem canon_fields {fs : List (String × Value)} {cs : List Json} {depth nodes n : Nat}
    (h : canonicalFields lib fs depth nodes = .ok (cs, n)) : List.Forall₂ (FieldRow lib) fs cs := by
  induction fs generalizing cs nodes with
  | nil => cases h; exact .nil
  | cons f fs ih =>
    obtain ⟨k, v⟩ := f
    rw [canonicalFields] at h
    obtain ⟨⟨c, n₁⟩, hc, h⟩ := bind_eq_ok.mp h
    obtain ⟨⟨ds, n₂⟩, hd, h⟩ := bind_eq_ok.mp h
    cases h
    exact .cons ⟨c, rfl, _, _, _, hc⟩ (ih hd)

/-- The members collected so far stay, and each new one is there under its text. -/
theorem canon_members {xs : List Value} {acc rows : List (String × Json)} {depth nodes n : Nat}
    (h : canonicalMembers lib acc xs depth nodes = .ok (rows, n))
    (hacc : Rows lib (fun r k => k = r) acc) :
    Rows lib (fun r k => k = r) rows ∧ (∀ m ∈ acc, m ∈ rows) ∧
      (∀ m ∈ rows, m ∈ acc ∨ ∃ x ∈ xs, Canon lib x m.2) ∧
      ∀ x ∈ xs, ∃ m ∈ rows, ∃ c, Canon lib x c ∧ lib.dump c = some m.1 := by
  induction xs generalizing acc nodes with
  | nil => cases h; exact ⟨hacc, fun _ hm => hm, fun m hm => .inl hm, nofun⟩
  | cons x xs ih =>
    rw [canonicalMembers] at h
    obtain ⟨⟨c, n₁⟩, hc, h⟩ := bind_eq_ok.mp h
    obtain ⟨t, ht, h⟩ := bind_eq_ok.mp h
    rw [dump_ok] at ht
    have hnew : Rows lib (fun r k => k = r) (emplace t c acc) := by
      refine ⟨hacc.sorted.emplace t c, fun m hm => ?_⟩
      rcases of_mem_emplace hm with rfl | hm
      · exact ⟨c, rfl, ht⟩
      · exact hacc.text m hm
    obtain ⟨hrows, hkeep, hof, hall⟩ := ih h hnew
    refine ⟨hrows, fun m hm => hkeep m (mem_emplace_of_mem hm), fun m hm => ?_, fun y hy => ?_⟩
    · rcases hof m hm with hm | ⟨y, hy, hc'⟩
      · rcases of_mem_emplace hm with rfl | hm
        · exact .inr ⟨x, List.mem_cons_self, _, _, _, hc⟩
        · exact .inl hm
      · exact .inr ⟨y, List.mem_cons_of_mem _ hy, hc'⟩
    · rcases List.mem_cons.mp hy with rfl | hy
      · obtain ⟨w, hw⟩ := exists_mem_emplace t c acc
        exact ⟨(t, w), hkeep _ hw, c, ⟨_, _, _, hc⟩, ht⟩
      · exact hall y hy

/-- The row of an entry. -/
def EntryRow (lib : JsonLib) (e : Value × Value) (r : Json) : Prop :=
  ∃ ck cv, r = .arr [ck, cv] ∧ Canon lib e.1 ck ∧ Canon lib e.2 cv

theorem canon_entries {es : List (Value × Value)} {kk : Option Kind}
    {acc rows : List (String × Json)} {depth nodes n : Nat}
    (h : canonicalEntries lib kk acc es depth nodes = .ok (rows, n))
    (hacc : Rows lib (fun r k => ∃ c, r = .arr [k, c]) acc) :
    Rows lib (fun r k => ∃ c, r = .arr [k, c]) rows ∧ (∀ m ∈ acc, m ∈ rows) ∧
      (∀ m ∈ rows, m ∈ acc ∨ ∃ e ∈ es, EntryRow lib e m.2) ∧
      ∀ e ∈ es, ∃ m ∈ rows, EntryRow lib e m.2 := by
  induction es generalizing kk acc nodes with
  | nil => cases h; exact ⟨hacc, fun _ hm => hm, fun m hm => .inl hm, nofun⟩
  | cons e es ih =>
    obtain ⟨k, v⟩ := e
    rw [canonicalEntries] at h
    obtain ⟨-, -, h⟩ := bind_eq_ok.mp h
    obtain ⟨-, -, h⟩ := bind_eq_ok.mp h
    obtain ⟨⟨ck, n₁⟩, hck, h⟩ := bind_eq_ok.mp h
    obtain ⟨⟨cv, n₂⟩, hcv, h⟩ := bind_eq_ok.mp h
    obtain ⟨t, ht, h⟩ := bind_eq_ok.mp h
    obtain ⟨u, hnone, h⟩ := bind_eq_ok.mp h
    rw [dump_ok] at ht
    rw [require_ok, Option.isNone_iff_eq_none] at hnone
    have hrow : EntryRow lib (k, v) (.arr [ck, cv]) :=
      ⟨ck, cv, rfl, ⟨_, _, _, hck⟩, _, _, _, hcv⟩
    have hnew : Rows lib (fun r k => ∃ c, r = .arr [k, c]) (emplace t (.arr [ck, cv]) acc) := by
      refine ⟨hacc.sorted.emplace t _, fun m hm => ?_⟩
      rcases of_mem_emplace hm with rfl | hm
      · exact ⟨ck, ⟨cv, rfl⟩, ht⟩
      · exact hacc.text m hm
    obtain ⟨hrows, hkeep, hof, hall⟩ := ih h hnew
    refine ⟨hrows, fun m hm => hkeep m (mem_emplace_of_mem hm), fun m hm => ?_, fun y hy => ?_⟩
    · rcases hof m hm with hm | ⟨y, hy, hc'⟩
      · rcases of_mem_emplace hm with rfl | hm
        · exact .inr ⟨_, List.mem_cons_self, hrow⟩
        · exact .inl hm
      · exact .inr ⟨y, List.mem_cons_of_mem _ hy, hc'⟩
    · rcases List.mem_cons.mp hy with rfl | hy
      · obtain ⟨w, hw⟩ := exists_mem_emplace t (.arr [ck, cv]) acc
        rcases of_mem_emplace hw with e | hm
        · cases e; exact ⟨_, hkeep _ hw, hrow⟩
        · -- the key was new
          exact absurd hnone (by simpa [List.lookup_eq_none_iff] using ⟨_, hm⟩)
      · exact hall y hy

/-- What the form of a value is made of. -/
def Form (lib : JsonLib) : Value → Json → Prop
  | .null, c => c = .arr [.str "null"]
  | .integer n, c => c = .arr [.str "integer", .str (BigInt.str n)]
  | .boolean b, c => c = .arr [.str "boolean", .bool b]
  | .string s, c => c = .arr [.str "string", .str s]
  | .unserializable s, c => c = .arr [.str "unserializable", .str s]
  | .variant t v, c => ∃ d, c = .arr [.str "variant", .str t, d] ∧ Canon lib v d
  | .record fs, c => ∃ cs, c = .arr [.str "record", .arr cs] ∧ List.Forall₂ (FieldRow lib) fs cs
  | .map es, c => ∃ rows, c = .arr [.str "map", .arr (rows.map Prod.snd)] ∧
      Rows lib (fun r k => ∃ c, r = .arr [k, c]) rows ∧
      (∀ m ∈ rows, ∃ e ∈ es, EntryRow lib e m.2) ∧ ∀ e ∈ es, ∃ m ∈ rows, EntryRow lib e m.2
  | .set xs, c => ∃ rows, c = .arr [.str "set", .arr (rows.map Prod.snd)] ∧
      Rows lib (fun r k => k = r) rows ∧ (∀ m ∈ rows, ∃ x ∈ xs, Canon lib x m.2) ∧
      ∀ x ∈ xs, ∃ m ∈ rows, ∃ d, Canon lib x d ∧ lib.dump d = some m.1
  | .seq xs, c => ∃ cs, c = .arr [.str "sequence", .arr cs] ∧ List.Forall₂ (Canon lib) xs cs
  | .tuple xs, c => ∃ cs, c = .arr [.str "tuple", .arr cs] ∧ List.Forall₂ (Canon lib) xs cs

theorem Canon.form {v : Value} {c : Json} (h : Canon lib v c) : Form lib v c := by
  obtain ⟨depth, nodes, nodes', h⟩ := h
  have hnil : ∀ {key : Json → Json → Prop}, Rows lib key [] := ⟨sorted_nil, nofun⟩
  cases v <;> rw [canonicalValue] at h <;> obtain ⟨-, -, h⟩ := bind_eq_ok.mp h
  case variant t v =>
    obtain ⟨⟨d, n⟩, hd, h⟩ := bind_eq_ok.mp h
    cases h
    exact ⟨d, rfl, _, _, _, hd⟩
  case record fs =>
    obtain ⟨⟨cs, n⟩, hc, h⟩ := bind_eq_ok.mp h
    cases h
    exact ⟨cs, rfl, canon_fields hc⟩
  case map es =>
    obtain ⟨⟨rows, n⟩, hr, h⟩ := bind_eq_ok.mp h
    cases h
    obtain ⟨hrows, -, hof, hall⟩ := canon_entries hr hnil
    exact ⟨rows, rfl, hrows, fun m hm => (hof m hm).resolve_left (by simp), hall⟩
  case set xs =>
    obtain ⟨⟨rows, n⟩, hr, h⟩ := bind_eq_ok.mp h
    cases h
    obtain ⟨hrows, -, hof, hall⟩ := canon_members hr hnil
    exact ⟨rows, rfl, hrows, fun m hm => (hof m hm).resolve_left (by simp), hall⟩
  case seq xs | tuple xs =>
    obtain ⟨⟨cs, n⟩, hc, h⟩ := bind_eq_ok.mp h
    cases h
    exact ⟨cs, rfl, canon_elems hc⟩
  all_goals cases h; rfl

/-! ## Forms are trees, and tell the kinds apart -/

def head : Kind → String
  | .null => "null"
  | .integer => "integer"
  | .boolean => "boolean"
  | .string => "string"
  | .set => "set"
  | .seq => "sequence"
  | .tuple => "tuple"
  | .record => "record"
  | .map => "map"
  | .variant => "variant"
  | .unserializable => "unserializable"

theorem Canon.head {v : Value} {c : Json} (h : Canon lib v c) :
    ∃ rest, c = .arr (.str (head v.kind) :: rest) := by
  have hf := h.form
  cases v
  case variant | record | map | set | seq | tuple =>
    obtain ⟨_, rfl, -⟩ := hf
    exact ⟨_, rfl⟩
  all_goals exact ⟨_, hf⟩

theorem kind_eq_of_form {v w : Value} {c : Json} (hv : Canon lib v c) (hw : Canon lib w c) :
    v.kind = w.kind := by
  obtain ⟨r, rfl⟩ := hv.head
  obtain ⟨r', e⟩ := hw.head
  have hh : Exploration.head v.kind = Exploration.head w.kind := by
    simpa using (List.cons.inj (Json.arr.inj e)).1
  revert hh
  cases v.kind <;> cases w.kind <;> decide

theorem exists_left {α β : Type} {R : α → β → Prop} {xs : List α} {ys : List β} {y : β}
    (h : List.Forall₂ R xs ys) (hy : y ∈ ys) : ∃ x ∈ xs, R x y := by
  induction h with
  | nil => cases hy
  | cons hr _ ih =>
    rcases List.mem_cons.mp hy with rfl | hy
    · exact ⟨_, List.mem_cons_self, hr⟩
    · obtain ⟨x, hx, h⟩ := ih hy
      exact ⟨x, List.mem_cons_of_mem _ hx, h⟩

theorem mem_children_entry {es : List (Value × Value)} {e : Value × Value} (he : e ∈ es) :
    e.1 ∈ (Value.map es).children ∧ e.2 ∈ (Value.map es).children := by
  constructor <;> exact List.mem_flatMap.mpr ⟨e, he, by simp⟩

theorem Canon.tree {v : Value} : ∀ {c : Json}, Canon lib v c → tree c = true := by
  induction v using Value.induction with
  | _ v ih =>
    intro c h
    have hf := h.form
    have harr : ∀ {t : String} {cs : List Json}, (∀ d ∈ cs, Exploration.tree d = true) →
        Exploration.tree (.arr [.str t, .arr cs]) = true := by
      intro t cs hcs
      simp [Exploration.tree, treeElems, treeElems_iff.mpr hcs]
    cases v
    case variant t w =>
      obtain ⟨d, rfl, hd⟩ := hf
      simp [Exploration.tree, treeElems, ih w (by simp [Value.children]) hd]
    case record fs =>
      obtain ⟨cs, rfl, hcs⟩ := hf
      refine harr fun r hr => ?_
      obtain ⟨f, hmem, d, rfl, hd⟩ := exists_left hcs hr
      simp [Exploration.tree, treeElems, ih f.2 (List.mem_map_of_mem hmem) hd]
    case map es =>
      obtain ⟨rows, rfl, -, hof, -⟩ := hf
      refine harr fun r hr => ?_
      obtain ⟨m, hm, rfl⟩ := List.mem_map.mp hr
      obtain ⟨e, he, ck, cv, hpair, hk, hv⟩ := hof m hm
      obtain ⟨h1, h2⟩ := mem_children_entry he
      simp [hpair, Exploration.tree, treeElems, ih _ h1 hk, ih _ h2 hv]
    case set xs =>
      obtain ⟨rows, rfl, -, hof, -⟩ := hf
      refine harr fun r hr => ?_
      obtain ⟨m, hm, rfl⟩ := List.mem_map.mp hr
      obtain ⟨x, hx, hc⟩ := hof m hm
      exact ih x hx hc
    case seq xs | tuple xs =>
      obtain ⟨cs, rfl, hcs⟩ := hf
      refine harr fun r hr => ?_
      obtain ⟨x, hx, hc⟩ := exists_left hcs hr
      exact ih x hx hc
    all_goals
      rw [show c = _ from hf]
      simp [Exploration.tree, treeElems]

/-! ## The equality, list by list -/

theorem sameElems_iff {xs ys : List Value} : SameElems xs ys ↔ List.Forall₂ SemEq xs ys := by
  induction xs generalizing ys with
  | nil => cases ys <;> simp [SameElems]
  | cons x xs ih => cases ys <;> simp [SameElems, ih]

theorem sameFields_iff {fs gs : List (String × Value)} :
    SameFields fs gs ↔ List.Forall₂ (fun f g => f.1 = g.1 ∧ SemEq f.2 g.2) fs gs := by
  induction fs generalizing gs with
  | nil => cases gs <;> simp [SameFields]
  | cons f fs ih =>
    obtain ⟨k, v⟩ := f
    cases gs with
    | nil => simp [SameFields]
    | cons g gs =>
      obtain ⟨l, w⟩ := g
      rw [SameFields, ih, List.forall₂_cons, and_assoc]

theorem eachIn_iff {xs ys : List Value} : EachIn xs ys ↔ ∀ x ∈ xs, ∃ y ∈ ys, SemEq x y := by
  induction xs with
  | nil => simp [EachIn]
  | cons x xs ih => simp [EachIn, ih]

theorem in_iff {xs : List Value} {y : Value} : In xs y ↔ ∃ x ∈ xs, SemEq x y := by
  induction xs with
  | nil => simp [In]
  | cons x xs ih => simp [In, ih]

/-- Equal keys with equal values. -/
def SameEntry (e g : Value × Value) : Prop := SemEq e.1 g.1 ∧ SemEq e.2 g.2

theorem eachEntryIn_iff {es gs : List (Value × Value)} :
    EachEntryIn es gs ↔ ∀ e ∈ es, ∃ g ∈ gs, SameEntry e g := by
  induction es with
  | nil => simp [EachEntryIn]
  | cons e es ih =>
    obtain ⟨k, v⟩ := e
    rw [EachEntryIn, ih, List.forall_mem_cons]
    rfl

theorem entryIn_iff {es : List (Value × Value)} {g : Value × Value} :
    EntryIn es g ↔ ∃ e ∈ es, SameEntry e g := by
  induction es with
  | nil => simp [EntryIn]
  | cons e es ih =>
    obtain ⟨k, v⟩ := e
    rw [EntryIn, ih]
    simp only [List.mem_cons, exists_eq_or_imp]
    rfl

theorem SemEq.kind {v w : Value} (h : SemEq v w) : v.kind = w.kind := by
  cases v <;> cases w <;> first | rfl | (simp [SemEq] at h)

/-! ## Forms are equal where the values are -/

/-- Position by position. -/
theorem forall₂_eq_iff {α : Type} {R : α → Json → Prop} {S : α → α → Prop} {xs ys : List α}
    {cs ds : List Json} (h : ∀ x ∈ xs, ∀ y c d, R x c → R y d → (c = d ↔ S x y))
    (hx : List.Forall₂ R xs cs) (hy : List.Forall₂ R ys ds) : cs = ds ↔ List.Forall₂ S xs ys := by
  induction hx generalizing ys ds with
  | nil => cases hy <;> simp
  | cons hr _ ih =>
    cases hy with
    | nil => simp
    | cons hr' hys =>
      rw [List.cons.injEq, List.forall₂_cons, h _ List.mem_cons_self _ _ _ hr hr',
        ih (fun x hx => h x (List.mem_cons_of_mem _ hx)) hys]

/-- Collected under their texts. -/
theorem rows_eq_iff {α : Type} {R : α → Json → Prop} {S : α → α → Prop} {xs ys : List α}
    {key : Json → Json → Prop} {rows rows' : List (String × Json)}
    (hkey : ∀ r k k', key r k → key r k' → k = k')
    (h : ∀ x ∈ xs, ∀ y c d, R x c → R y d → (c = d ↔ S x y))
    (hrows : Rows lib key rows) (hof : ∀ m ∈ rows, ∃ x ∈ xs, R x m.2)
    (hall : ∀ x ∈ xs, ∃ m ∈ rows, R x m.2)
    (hrows' : Rows lib key rows') (hof' : ∀ m ∈ rows', ∃ y ∈ ys, R y m.2)
    (hall' : ∀ y ∈ ys, ∃ m ∈ rows', R y m.2) :
    rows.map Prod.snd = rows'.map Prod.snd ↔
      (∀ x ∈ xs, ∃ y ∈ ys, S x y) ∧ ∀ y ∈ ys, ∃ x ∈ xs, S x y := by
  -- rows with the same form have the same text
  have htext : ∀ m ∈ rows, ∀ m' ∈ rows', m.2 = m'.2 → m = m' := by
    intro m hm m' hm' e
    obtain ⟨k, hk, ht⟩ := hrows.text m hm
    obtain ⟨k', hk', ht'⟩ := hrows'.text m' hm'
    rw [e] at hk
    rw [hkey _ _ _ hk hk', ht'] at ht
    exact Prod.ext (Option.some.inj ht).symm e
  constructor
  · intro e
    constructor
    · intro x hx
      obtain ⟨m, hm, hr⟩ := hall x hx
      obtain ⟨m', hm', e'⟩ := List.mem_map.mp (e ▸ List.mem_map_of_mem (f := Prod.snd) hm)
      obtain ⟨y, hy, hr'⟩ := hof' m' hm'
      exact ⟨y, hy, (h x hx y _ _ hr hr').mp e'.symm⟩
    · intro y hy
      obtain ⟨m', hm', hr'⟩ := hall' y hy
      obtain ⟨m, hm, e'⟩ := List.mem_map.mp (e.symm ▸ List.mem_map_of_mem (f := Prod.snd) hm')
      obtain ⟨x, hx, hr⟩ := hof m hm
      exact ⟨x, hx, (h x hx y _ _ hr hr').mp e'⟩
  · rintro ⟨hl, hr⟩
    refine congrArg _ (hrows.sorted.eq_of_mem_iff hrows'.sorted fun m =>
      ⟨fun hm => ?_, fun hm' => ?_⟩)
    · obtain ⟨x, hx, hrx⟩ := hof m hm
      obtain ⟨y, hy, hs⟩ := hl x hx
      obtain ⟨m', hm', hry⟩ := hall' y hy
      rw [htext m hm m' hm' ((h x hx y _ _ hrx hry).mpr hs)]
      exact hm'
    · obtain ⟨y, hy, hry⟩ := hof' m hm'
      obtain ⟨x, hx, hs⟩ := hr y hy
      obtain ⟨m₀, hm, hrx⟩ := hall x hx
      rw [← htext m₀ hm m hm' ((h x hx y _ _ hrx hry).mpr hs)]
      exact hm

theorem canon_eq_iff {v : Value} : ∀ {w : Value} {c d : Json}, Canon lib v c → Canon lib w d →
    (c = d ↔ SemEq v w) := by
  induction v using Value.induction with
  | _ v ih =>
    intro w c d hc hd
    by_cases hk : v.kind = w.kind
    case neg =>
      exact iff_of_false (fun e => hk (kind_eq_of_form hc (e ▸ hd))) fun h => hk h.kind
    have hf := hc.form
    have hg := hd.form
    cases v <;> cases w <;> try (simp [Value.kind] at hk; done)
    case null.null => exact iff_of_true (hf.trans hg.symm) (by simp [SemEq])
    case integer.integer m n =>
      rw [show c = _ from hf, show d = _ from hg, SemEq]
      simp only [Json.arr.injEq, List.cons.injEq, Json.str.injEq, true_and, and_true]
      refine ⟨fun e => ?_, fun e => by rw [e]⟩
      have := BigInt.read_str m
      rw [e, BigInt.read_str] at this
      exact (Option.some.inj this).symm
    case boolean.boolean | string.string | unserializable.unserializable =>
      rw [show c = _ from hf, show d = _ from hg, SemEq]
      simp
    case variant.variant s v t w =>
      obtain ⟨c', rfl, hc'⟩ := hf
      obtain ⟨d', rfl, hd'⟩ := hg
      rw [SemEq, ← ih v (by simp [Value.children]) hc' hd']
      simp
    case record.record fs gs =>
      obtain ⟨cs, rfl, hcs⟩ := hf
      obtain ⟨ds, rfl, hds⟩ := hg
      rw [SemEq, sameFields_iff, ← forall₂_eq_iff ?_ hcs hds]
      · simp
      · rintro f hf g - - ⟨c, rfl, hc⟩ ⟨d, rfl, hd⟩
        rw [← ih f.2 (List.mem_map_of_mem hf) hc hd]
        simp
    case map.map es gs =>
      obtain ⟨rows, rfl, hrows, hof, hall⟩ := hf
      obtain ⟨rows', rfl, hrows', hof', hall'⟩ := hg
      simp only [SemEq, eachEntryIn_iff, entryIn_iff]
      rw [← rows_eq_iff ?_ ?_ hrows hof hall hrows' hof' hall']
      · simp
      · rintro _ k k' ⟨c, rfl⟩ ⟨c', e⟩
        simpa using (List.cons.inj (Json.arr.inj e)).1
      · rintro e he g - - ⟨ck, cv, rfl, hck, hcv⟩ ⟨dk, dv, rfl, hdk, hdv⟩
        obtain ⟨h1, h2⟩ := mem_children_entry he
        rw [SameEntry, ← ih e.1 h1 hck hdk, ← ih e.2 h2 hcv hdv]
        simp
    case set.set xs ys =>
      obtain ⟨rows, rfl, hrows, hof, hall⟩ := hf
      obtain ⟨rows', rfl, hrows', hof', hall'⟩ := hg
      -- the member kept under the text of another one is that one
      have hmem : ∀ {zs : List Value} {rs : List (String × Json)}, Rows lib (fun r k => k = r) rs →
          (∀ m ∈ rs, ∃ z ∈ zs, Canon lib z m.2) →
          (∀ z ∈ zs, ∃ m ∈ rs, ∃ e, Canon lib z e ∧ lib.dump e = some m.1) →
          ∀ z ∈ zs, ∃ m ∈ rs, Canon lib z m.2 := by
        intro zs rs hr hof hall z hz
        obtain ⟨m, hm, e, he, ht⟩ := hall z hz
        obtain ⟨_, rfl, ht'⟩ := hr.text m hm
        obtain ⟨z', -, hz'⟩ := hof m hm
        exact ⟨m, hm, dump_inj_of_tree he.tree hz'.tree ht ht' ▸ he⟩
      simp only [SemEq, eachIn_iff, in_iff]
      rw [← rows_eq_iff ?_ ?_ hrows hof (hmem hrows hof hall) hrows' hof' (hmem hrows' hof' hall')]
      · simp
      · rintro _ k k' rfl rfl
        rfl
      · exact fun x hx y c d hc hd => ih x hx hc hd
    case seq.seq xs ys | tuple.tuple xs ys =>
      obtain ⟨cs, rfl, hcs⟩ := hf
      obtain ⟨ds, rfl, hds⟩ := hg
      have h := forall₂_eq_iff (S := SemEq) (fun x hx y c d hc hd => ih x hx hc hd) hcs hds
      rw [SemEq, sameElems_iff, show List.Forall₂ SemEq xs ys ↔ _ from h.symm]
      simp

/-! ## States -/

theorem canon_variables {s : State} {cs : List Json} {nodes : Nat}
    (h : canonicalVariables lib s nodes = .ok cs) : List.Forall₂ (FieldRow lib) s cs := by
  induction s generalizing cs nodes with
  | nil => cases h; exact .nil
  | cons f s ih =>
    obtain ⟨k, v⟩ := f
    rw [canonicalVariables] at h
    obtain ⟨⟨c, n⟩, hc, h⟩ := bind_eq_ok.mp h
    obtain ⟨ds, hd, h⟩ := bind_eq_ok.mp h
    cases h
    exact .cons ⟨c, rfl, _, _, _, hc⟩ (ih hd)

theorem canonicalState_ok {s : State} {t : String} (h : canonicalState lib s = .ok t) :
    ∃ cs, List.Forall₂ (FieldRow lib) s cs ∧
      lib.dump (.arr [.str "mirrors.canonical-state/v1", .arr cs]) = some t := by
  obtain ⟨cs, hcs, h⟩ := bind_eq_ok.mp h
  obtain ⟨u, hu, h⟩ := bind_eq_ok.mp h
  obtain ⟨-, -, h⟩ := bind_eq_ok.mp h
  cases h
  exact ⟨cs, canon_variables hcs, dump_ok.mp hu⟩

/-- A state whose forms print within the bound has a canonical text, which need not be built. -/
theorem exists_canonicalState {s : State}
    (h : ((canonicalVariables lib s 0).toOption.bind fun cs =>
      lib.dumpSize (.arr [.str "mirrors.canonical-state/v1", .arr cs])).any (· ≤ 1048576) = true) :
    ∃ t, canonicalState lib s = .ok t := by
  unfold canonicalState
  cases hcs : canonicalVariables lib s 0 with
  | error e =>
    rw [hcs] at h
    cases h
  | ok cs =>
    rw [hcs, Except.toOption, Option.bind_some, lib.dumpSize_eq, Option.any_map] at h
    cases ht : lib.dump (.arr [.str "mirrors.canonical-state/v1", .arr cs]) with
    | none =>
      rw [ht] at h
      cases h
    | some t =>
      rw [ht] at h
      refine ⟨t, ?_⟩
      rw [Option.any_some] at h
      rw [ok_bind, dump_ok.mpr ht, ok_bind, (require_ok (u := ())).mpr h]
      rfl

theorem tree_variables {s : State} {cs : List Json} (h : List.Forall₂ (FieldRow lib) s cs) :
    tree (.arr [.str "mirrors.canonical-state/v1", .arr cs]) = true := by
  have : treeElems cs = true := treeElems_iff.mpr fun r hr => by
    obtain ⟨f, -, d, rfl, hd⟩ := exists_left h hr
    simp [tree, treeElems, hd.tree]
  simp [tree, treeElems, this]

/-- A canonical text can be parsed. -/
theorem parse_canonicalState {s : State} {t : String} (h : canonicalState lib s = .ok t) :
    ∃ d, lib.parse t = some d := by
  obtain ⟨cs, hcs, ht⟩ := canonicalState_ok h
  have htree := tree_variables hcs
  obtain ⟨n, hn⟩ := plain_tree htree
  exact ⟨_, lib.parse_dump n _ t (wf_tree htree) (hn n le_rfl) ht⟩

/-- **The canonical text is a key of the state**: two states print alike exactly when they are
semantically equal. -/
theorem canonical_state_key {s s' : State} {t t' : String} (h : canonicalState lib s = .ok t)
    (h' : canonicalState lib s' = .ok t') : t = t' ↔ StateEq s s' := by
  obtain ⟨cs, hcs, ht⟩ := canonicalState_ok h
  obtain ⟨ds, hds, ht'⟩ := canonicalState_ok h'
  rw [StateEq, sameFields_iff, ← forall₂_eq_iff ?_ hcs hds]
  · refine ⟨fun e => ?_, fun e => ?_⟩
    · subst e
      simpa using dump_inj_of_tree (tree_variables hcs) (tree_variables hds) ht ht'
    · rw [e, ht'] at ht
      exact (Option.some.inj ht).symm
  · rintro f - g - - ⟨c, rfl, hc⟩ ⟨d, rfl, hd⟩
    rw [← canon_eq_iff hc hd]
    simp

/-- A set with a member twice, and a map. -/
def sample : State := [("m", .map [(.string "k", .tuple []), (.string "l", .integer 1)]),
  ("s", .set [.integer 2, .integer 1, .integer 2])]

/-- The same state in another order. -/
def sample' : State := [("m", .map [(.string "l", .integer 1), (.string "k", .tuple [])]),
  ("s", .set [.integer 1, .integer 2])]

theorem canonicalState_sample : (∃ t, canonicalState Compact.lib sample = .ok t) ∧
    ∃ t, canonicalState Compact.lib sample' = .ok t :=
  ⟨exists_canonicalState (by decide +kernel), exists_canonicalState (by decide +kernel)⟩

theorem stateEq_sample : StateEq sample sample' := by
  simp [StateEq, sample, sample', SameFields, SemEq, EachEntryIn, EntryIn, EachIn, In, SameElems]

theorem canonical_state_key_sample : ∃ t : String, canonicalState Compact.lib sample = .ok t ∧
    canonicalState Compact.lib sample' = .ok t := by
  obtain ⟨⟨t, e⟩, t', e'⟩ := canonicalState_sample
  exact ⟨t, e, by rw [(canonical_state_key e e').mpr stateEq_sample, e']⟩

end MirrorCpp.Exploration
