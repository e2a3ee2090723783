import MirrorCpp.Itf.Codec
import Mathlib.Data.Fintype.EquivFin
import Mathlib.Data.Set.Finite.Lattice

/-!
# Equality of values (`value.cpp`)

`beq` is `Value::operator==`: two sets are compared by their lengths and by looking up every
element of the left one in the right one. `Same` is the equality the header documents, with the
look-up in both directions; it is an equivalence. The two agree with a value on the left exactly
when no set in it, at any depth, holds an element twice (`Distinct`).
-/

namespace MirrorCpp.Itf

open Fallible

namespace Value

mutual
/-- `operator==`. -/
def beq : Value → Value → Bool
  | null, null => true
  | integer m, integer n => m == n
  | boolean a, boolean b => a == b
  | string s, string t => s == t
  | set xs, set ys => xs.length == ys.length && within xs ys
  | seq xs, seq ys => beqElems xs ys
  | tuple xs, tuple ys => beqElems xs ys
  | record fs, record gs => beqFields fs gs
  | map es, map ds => beqEntries es ds
  | variant s v, variant t w => s == t && v.beq w
  | unserializable s, unserializable t => s == t
  | _, _ => false
termination_by structural v => v

/-- Every element of the first list is found in the second. -/
def within : List Value → List Value → Bool
  | [], _ => true
  | x :: xs, ys => ys.any x.beq && within xs ys
termination_by structural xs => xs

def beqElems : List Value → List Value → Bool
  | [], [] => true
  | x :: xs, y :: ys => x.beq y && beqElems xs ys
  | _, _ => false
termination_by structural xs => xs

def beqFields : List (String × Value) → List (String × Value) → Bool
  | [], [] => true
  | (k, v) :: fs, (l, w) :: gs => k == l && v.beq w && beqFields fs gs
  | _, _ => false
termination_by structural xs => xs

def beqEntries : List (Value × Value) → List (Value × Value) → Bool
  | [], [] => true
  | (k, v) :: es, (l, w) :: ds => k.beq l && v.beq w && beqEntries es ds
  | _, _ => false
termination_by structural xs => xs
end

def isSet : Value → Bool
  | set _ => true
  | _ => false

/-- The value with its children taken out. -/
def shell : Value → Value
  | set xs => set (xs.map fun _ => null)
  | seq xs => seq (xs.map fun _ => null)
  | tuple xs => tuple (xs.map fun _ => null)
  | record fs => record (fs.map fun f => (f.1, null))
  | map es => map (es.map fun _ => (null, null))
  | variant t _ => variant t null
  | v => v

end Value

/-- The elements at equal positions are related. -/
def Paired {α : Type} (R : α → α → Prop) (xs ys : List α) : Prop :=
  ∀ (i : Nat) (x y : α), xs[i]? = some x → ys[i]? = some y → R x y

section Paired

variable {α : Type} {R S : α → α → Prop} {x y : α} {xs ys zs : List α}

@[simp] theorem paired_nil : Paired R [] ys := by
  intro i x y h
  simp at h

@[simp] theorem paired_cons : Paired R (x :: xs) (y :: ys) ↔ R x y ∧ Paired R xs ys := by
  refine ⟨fun h => ⟨h 0 x y rfl rfl, fun i a b ha hb => h (i + 1) a b ha hb⟩,
    fun h i a b ha hb => ?_⟩
  cases i with
  | zero => cases ha; cases hb; exact h.1
  | succ i => exact h.2 i a b ha hb

theorem Paired.left (hlen : xs.length = ys.length) (h : Paired R xs ys) (hx : x ∈ xs) :
    ∃ y ∈ ys, R x y := by
  obtain ⟨i, hi, rfl⟩ := List.getElem_of_mem hx
  exact ⟨ys[i], List.getElem_mem _, h i _ _ (List.getElem?_eq_getElem hi)
    (List.getElem?_eq_getElem (hlen ▸ hi))⟩

/-- Looking up every element of a list without repetitions in one as long meets every element. -/
theorem covered (hlen : xs.length = ys.length) (hin : ∀ x ∈ xs, ∃ y ∈ ys, R x y)
    (hsep : ∀ (i j : Nat) (x x' y : α), xs[i]? = some x → xs[j]? = some x' → R x y → R x' y →
      i = j) :
    ∀ y ∈ ys, ∃ x ∈ xs, R x y := by
  have hf : ∀ i : Fin xs.length, ∃ j : Fin ys.length, R xs[i] ys[j] := by
    intro i
    obtain ⟨y, hy, hr⟩ := hin xs[i] (List.getElem_mem _)
    obtain ⟨j, hj, rfl⟩ := List.getElem_of_mem hy
    exact ⟨⟨j, hj⟩, hr⟩
  choose f hf using hf
  have hinj : Function.Injective f := by
    intro i j h
    have hj := hf j
    rw [← h] at hj
    exact Fin.ext (hsep i j _ _ _ (List.getElem?_eq_getElem i.2) (List.getElem?_eq_getElem j.2)
      (hf i) hj)
  have hsur := (Finite.injective_iff_surjective_of_equiv (finCongr hlen)).mp hinj
  intro y hy
  obtain ⟨j, hj, rfl⟩ := List.getElem_of_mem hy
  obtain ⟨i, hi⟩ := hsur ⟨j, hj⟩
  refine ⟨xs[i], List.getElem_mem _, ?_⟩
  have := hf i
  rwa [hi] at this

end Paired

namespace Value

/-! ## One level of a comparison -/

theorem within_iff {xs ys : List Value} :
    within xs ys = true ↔ ∀ x ∈ xs, ∃ y ∈ ys, x.beq y = true := by
  induction xs with
  | nil => simp [within]
  | cons x xs ih => simp [within, ih]

theorem beqElems_iff {xs ys : List Value} : beqElems xs ys = true ↔
    (xs.map fun _ => null) = (ys.map fun _ => null) ∧ Paired (fun x y => x.beq y = true) xs ys := by
  induction xs generalizing ys with
  | nil => cases ys <;> simp [beqElems]
  | cons x xs ih => cases ys <;> simp [beqElems, ih]; tauto

theorem beqFields_iff {fs gs : List (String × Value)} : beqFields fs gs = true ↔
    (fs.map fun f => (f.1, null)) = (gs.map fun f => (f.1, null)) ∧
      Paired (fun x y => x.beq y = true) (fs.map Prod.snd) (gs.map Prod.snd) := by
  induction fs generalizing gs with
  | nil => cases gs <;> simp [beqFields]
  | cons f fs ih =>
    cases gs with
    | nil => simp [beqFields]
    | cons g gs =>
      obtain ⟨k, v⟩ := f
      obtain ⟨l, w⟩ := g
      simp only [beqFields, Bool.and_eq_true, beq_iff_eq, ih, List.map_cons, List.cons.injEq,
        Prod.mk.injEq, and_true, paired_cons]
      tauto

theorem beqEntries_iff {es ds : List (Value × Value)} : beqEntries es ds = true ↔
    (es.map fun _ => (null, null)) = (ds.map fun _ => (null, null)) ∧
      Paired (fun x y => x.beq y = true) (es.flatMap fun e => [e.1, e.2])
        (ds.flatMap fun e => [e.1, e.2]) := by
  induction es generalizing ds with
  | nil => cases ds <;> simp [beqEntries]
  | cons e es ih =>
    cases ds with
    | nil => simp [beqEntries]
    | cons d ds =>
      obtain ⟨k, v⟩ := e
      obtain ⟨l, w⟩ := d
      simp only [beqEntries, Bool.and_eq_true, ih, List.map_cons, List.cons.injEq, true_and,
        List.flatMap_cons, List.cons_append, List.nil_append, paired_cons]
      tauto

/-- A comparison, level by level. -/
theorem beq_iff {v w : Value} : v.beq w = true ↔ v.shell = w.shell ∧
    (v.isSet = true → ∀ x ∈ v.children, ∃ y ∈ w.children, x.beq y = true) ∧
    (v.isSet = false → Paired (fun x y => x.beq y = true) v.children w.children) := by
  cases v <;> cases w
  -- of two kinds: unequal, as are the shells
  all_goals try exact iff_of_false Bool.false_ne_true fun h => Value.noConfusion h.1
  all_goals
    simp [beq, shell, children, isSet, within_iff, beqElems_iff, beqFields_iff, beqEntries_iff]

/-! ## The documented equality -/

/-- Equality as documented: sets of the same length, the elements of each found in the other, and
structural for everything else. -/
def Same (v w : Value) : Prop :=
  v.shell = w.shell ∧
    (v.isSet = true → (∀ x, (_ : x ∈ v.children) → ∃ y ∈ w.children, Same x y) ∧
      ∀ y ∈ w.children, ∃ x, ∃ _ : x ∈ v.children, Same x y) ∧
    (v.isSet = false → ∀ (i : Nat) (x y : Value), (_ : v.children[i]? = some x) →
      w.children[i]? = some y → Same x y)
termination_by sizeOf v
decreasing_by
  · exact sizeOf_children ‹_›
  · exact sizeOf_children ‹_›
  · exact sizeOf_children (List.mem_of_getElem? ‹_›)

theorem same_iff {v w : Value} : v.Same w ↔ v.shell = w.shell ∧
    (v.isSet = true → (∀ x ∈ v.children, ∃ y ∈ w.children, x.Same y) ∧
      ∀ y ∈ w.children, ∃ x ∈ v.children, x.Same y) ∧
    (v.isSet = false → Paired Same v.children w.children) := by
  rw [Same]
  simp only [exists_prop, Paired]

/-- What the outside of a value shows. -/
theorem shell_shows {v w : Value} (h : v.shell = w.shell) :
    v.isSet = w.isSet ∧ v.isSeq = w.isSeq ∧ v.isString = w.isString ∧
      v.children.length = w.children.length := by
  cases v <;> cases w <;> simp [shell] at h <;> simp_all [isSet, isSeq, isString, children]
  have := congrArg List.length h
  simpa using this

variable {u v w : Value}

/-- An element behind the same position, when the outsides agree. -/
theorem shell_at (h : v.shell = w.shell) {i : Nat} {x : Value} (hx : v.children[i]? = some x) :
    ∃ y, w.children[i]? = some y := by
  have hi := (List.getElem?_eq_some_iff.mp hx).1
  rw [(shell_shows h).2.2.2] at hi
  exact ⟨_, List.getElem?_eq_getElem hi⟩

theorem beq_refl (v : Value) : v.beq v = true := by
  induction v using Value.induction with
  | h v ih =>
    refine beq_iff.mpr ⟨rfl, fun _ x hx => ⟨x, hx, ih x hx⟩, fun _ i x y hx hy => ?_⟩
    obtain rfl : x = y := Option.some.inj (hx.symm.trans hy)
    exact ih x (List.mem_of_getElem? hx)

theorem beq_trans : u.beq v = true → v.beq w = true → u.beq w = true := by
  induction u using Value.induction generalizing v w with
  | h u ih =>
    intro huv hvw
    obtain ⟨hs, hus, hup⟩ := beq_iff.mp huv
    obtain ⟨ht, hvs, hvp⟩ := beq_iff.mp hvw
    rw [← (shell_shows hs).1] at hvs hvp
    refine beq_iff.mpr ⟨hs.trans ht, fun h x hx => ?_, fun h i x z hx hz => ?_⟩
    · obtain ⟨y, hy, hxy⟩ := hus h x hx
      obtain ⟨z, hz, hyz⟩ := hvs h y hy
      exact ⟨z, hz, ih x hx hxy hyz⟩
    · obtain ⟨y, hy⟩ := shell_at hs hx
      exact ih x (List.mem_of_getElem? hx) (hup h i x y hx hy) (hvp h i y z hy hz)

theorem Same.symm : v.Same w → w.Same v := by
  induction v using Value.induction generalizing w with
  | h v ih =>
    intro hvw
    obtain ⟨hs, hset, hpair⟩ := same_iff.mp hvw
    rw [(shell_shows hs).1] at hset hpair
    refine same_iff.mpr ⟨hs.symm, fun h => ⟨fun y hy => ?_, fun x hx => ?_⟩,
      fun h i y x hy hx => ih x (List.mem_of_getElem? hx) (hpair h i x y hx hy)⟩
    · obtain ⟨x, hx, hxy⟩ := (hset h).2 y hy
      exact ⟨x, hx, ih x hx hxy⟩
    · obtain ⟨y, hy, hxy⟩ := (hset h).1 x hx
      exact ⟨y, hy, ih x hx hxy⟩

theorem Same.trans : u.Same v → v.Same w → u.Same w := by
  induction u using Value.induction generalizing v w with
  | h u ih =>
    intro huv hvw
    obtain ⟨hs, hus, hup⟩ := same_iff.mp huv
    obtain ⟨ht, hvs, hvp⟩ := same_iff.mp hvw
    rw [← (shell_shows hs).1] at hvs hvp
    refine same_iff.mpr ⟨hs.trans ht, fun h => ⟨fun x hx => ?_, fun z hz => ?_⟩,
      fun h i x z hx hz => ?_⟩
    · obtain ⟨y, hy, hxy⟩ := (hus h).1 x hx
      obtain ⟨z, hz, hyz⟩ := (hvs h).1 y hy
      exact ⟨z, hz, ih x hx hxy hyz⟩
    · obtain ⟨y, hy, hyz⟩ := (hvs h).2 z hz
      obtain ⟨x, hx, hxy⟩ := (hus h).2 y hy
      exact ⟨x, hx, ih x hx hxy hyz⟩
    · obtain ⟨y, hy⟩ := shell_at hs hx
      exact ih x (List.mem_of_getElem? hx) (hup h i x y hx hy) (hvp h i y z hy hz)

/-- The code accepts what is equal as documented. -/
theorem beq_of_same : v.Same w → v.beq w = true := by
  induction v using Value.induction generalizing w with
  | h v ih =>
    intro hvw
    obtain ⟨hs, hset, hpair⟩ := same_iff.mp hvw
    refine beq_iff.mpr ⟨hs, fun h x hx => ?_,
      fun h i x y hx hy => ih x (List.mem_of_getElem? hx) (hpair h i x y hx hy)⟩
    obtain ⟨y, hy, hxy⟩ := (hset h).1 x hx
    exact ⟨y, hy, ih x hx hxy⟩

/-- The property holds of the value and of every value inside it. -/
inductive Everywhere (P : Value → Prop) : Value → Prop
  | node {v : Value} : P v → (∀ w ∈ v.children, Everywhere P w) → Everywhere P v

/-- No set of the value, at any depth, holds an element twice. -/
abbrev Distinct : Value → Prop :=
  Everywhere fun v => v.isSet = true → v.children.Pairwise fun x y => ¬ x.Same y

/-- Comparing a value without repetitions is the documented equality. -/
theorem same_of_beq (hv : v.Distinct) : v.beq w = true → v.Same w := by
  induction hv generalizing w with
  | @node v hpw hch ih =>
    intro hvw
    obtain ⟨hs, hset, hpair⟩ := beq_iff.mp hvw
    refine same_iff.mpr ⟨hs, fun h => ?_,
      fun h i x y hx hy => ih x (List.mem_of_getElem? hx) (hpair h i x y hx hy)⟩
    have hin : ∀ x ∈ v.children, ∃ y ∈ w.children, x.Same y := by
      intro x hx
      obtain ⟨y, hy, hxy⟩ := hset h x hx
      exact ⟨y, hy, ih x hx hxy⟩
    refine ⟨hin, covered (shell_shows hs).2.2.2 hin fun i j x x' y hi hj hx hx' => ?_⟩
    -- two elements equal to a third one are equal
    have hne := List.pairwise_iff_getElem.mp (hpw h)
    obtain ⟨hi', rfl⟩ := List.getElem?_eq_some_iff.mp hi
    obtain ⟨hj', rfl⟩ := List.getElem?_eq_some_iff.mp hj
    rcases Nat.lt_trichotomy i j with hlt | heq | hlt
    · exact absurd (hx.trans hx'.symm) (hne i j hi' hj' hlt)
    · exact heq
    · exact absurd (hx'.trans hx.symm) (hne j i hj' hi' hlt)

/-! ## What the decoder yields -/

/-- A record that does not look like a marker, its fields in key order. -/
def Tidy (v : Value) : Prop :=
  ∀ fs, v = record fs → markerLike fs = false ∧ (fs.map Prod.fst).Pairwise (· < ·)

theorem unmarked_iff : v.unmarked = true ↔
    (∀ fs, v = record fs → markerLike fs = false) ∧ ∀ w ∈ v.children, w.unmarked = true := by
  have helems : ∀ xs : List Value, unmarkedElems xs = true ↔ ∀ x ∈ xs, x.unmarked = true := by
    intro xs
    induction xs with
    | nil => simp [unmarkedElems]
    | cons x xs ih => simp [unmarkedElems, ih]
  have hfields : ∀ fs : List (String × Value),
      unmarkedFields fs = true ↔ ∀ w ∈ fs.map Prod.snd, w.unmarked = true := by
    intro fs
    induction fs with
    | nil => simp [unmarkedFields]
    | cons f fs ih => obtain ⟨k, v⟩ := f; simp only [unmarkedFields, Bool.and_eq_true, ih]; simp
  have hentries : ∀ es : List (Value × Value),
      unmarkedEntries es = true ↔ ∀ w ∈ es.flatMap fun e => [e.1, e.2], w.unmarked = true := by
    intro es
    induction es with
    | nil => simp [unmarkedEntries]
    | cons e es ih =>
      obtain ⟨k, v⟩ := e
      simp only [unmarkedEntries, Bool.and_eq_true, ih, List.flatMap_cons, List.cons_append,
        List.nil_append, List.forall_mem_cons, and_assoc]
  cases v <;> simp [unmarked, children, helems, hfields, hentries]

end Value

variable {late : Bool} {j : Json} {v w : Value}

theorem decodeElems_mem {xs : List Json} {vs : List Value} (h : decodeElems late xs = .ok vs) :
    ∀ v ∈ vs, ∃ x ∈ xs, decodeValue late x = .ok v := by
  induction xs generalizing vs with
  | nil => cases h; simp
  | cons x xs ih =>
    rw [decodeElems] at h
    obtain ⟨v, hv, h⟩ := bind_eq_ok.mp h
    obtain ⟨ws, hw, h⟩ := bind_eq_ok.mp h
    cases h
    intro u hu
    rcases List.mem_cons.mp hu with rfl | hu
    · exact ⟨x, List.mem_cons_self, hv⟩
    · obtain ⟨y, hy, hd⟩ := ih hw u hu
      exact ⟨y, List.mem_cons_of_mem _ hy, hd⟩

theorem decodeFields_mem {ms : List (String × Json)} {fs : List (String × Value)}
    (h : decodeFields late ms = .ok fs) : fs.map Prod.fst = ms.map Prod.fst ∧
      ∀ f ∈ fs, ∃ m ∈ ms, decodeValue late m.2 = .ok f.2 := by
  induction ms generalizing fs with
  | nil => cases h; simp
  | cons m ms ih =>
    obtain ⟨k, j⟩ := m
    rw [decodeFields] at h
    obtain ⟨v, hv, h⟩ := bind_eq_ok.mp h
    obtain ⟨gs, hg, h⟩ := bind_eq_ok.mp h
    cases h
    obtain ⟨hk, hm⟩ := ih hg
    refine ⟨by simp [hk], fun f hf => ?_⟩
    rcases List.mem_cons.mp hf with rfl | hf
    · exact ⟨_, List.mem_cons_self, hv⟩
    · obtain ⟨m, hm, hd⟩ := hm f hf
      exact ⟨m, List.mem_cons_of_mem _ hm, hd⟩

theorem decodeEntries_mem {xs : List Json} {es : List (Value × Value)}
    (h : decodeEntries late xs = .ok es) : ∀ e ∈ es, ∃ a b, .arr [a, b] ∈ xs ∧
      decodeValue late a = .ok e.1 ∧ decodeValue late b = .ok e.2 := by
  induction xs generalizing es with
  | nil => cases h; simp
  | cons x xs ih =>
    unfold decodeEntries at h
    split at h
    · cases h; simp
    · rename_i a b es' heq
      cases heq
      obtain ⟨p, hp, h⟩ := bind_eq_ok.mp h
      obtain ⟨ps, hps, h⟩ := bind_eq_ok.mp h
      cases h
      intro e he
      rcases List.mem_cons.mp he with rfl | he
      · exact ⟨a, b, List.mem_cons_self, both_eq_ok hp⟩
      · obtain ⟨c, d, hm, hd⟩ := ih hps e he
        exact ⟨c, d, List.mem_cons_of_mem _ hm, hd⟩
    · cases h

/-- What is inside a decoded value was decoded too, and a record keeps the keys of its object. -/
theorem decode_children (hj : j.wf = true) (h : decodeValue late j = .ok v) :
    (∀ fs, v = .record fs → (fs.map Prod.fst).Pairwise (· < ·)) ∧
      ∀ w ∈ v.children, ∃ i : Json, i.wf = true ∧ decodeValue late i = .ok w := by
  have helems : ∀ {xs : List Json} {vs : List Value}, Json.wfElems xs = true →
      decodeElems late xs = .ok vs → ∀ w ∈ vs, ∃ i : Json, i.wf = true ∧
        decodeValue late i = .ok w := by
    intro xs vs hw hd w hm
    obtain ⟨x, hx, hxw⟩ := decodeElems_mem hd w hm
    exact ⟨x, Json.wfElems_iff.mp hw x hx, hxw⟩
  have hleaf : v.children = [] → (∀ fs, v ≠ .record fs) → (∀ fs, v = .record fs →
      (fs.map Prod.fst).Pairwise (· < ·)) ∧
      ∀ w ∈ v.children, ∃ i : Json, i.wf = true ∧ decodeValue late i = .ok w := by
    intro hc hr
    exact ⟨fun fs h => absurd h (hr fs), by simp [hc]⟩
  unfold decodeValue at h
  split at h
  case h_5 => split at h <;> cases h; exact hleaf rfl (by simp)
  case h_6 xs =>
    rw [Json.wf] at hj
    obtain ⟨vs, hd, rfl⟩ := map_eq_ok.mp h
    exact ⟨by simp, helems hj hd⟩
  case h_7 s =>
    unfold decodeBigint at h
    split at h
    · cases h; exact hleaf rfl (by simp)
    split at h
    · cases h
    split at h <;> cases h; exact hleaf rfl (by simp)
  case h_8 xs | h_9 xs =>
    simp only [Json.wf, Json.wfMembers, Bool.and_true, Bool.and_eq_true] at hj
    obtain ⟨vs, hd, rfl⟩ := map_eq_ok.mp h
    exact ⟨by simp, helems hj.2 hd⟩
  case h_10 xs =>
    simp only [Json.wf, Json.wfMembers, Bool.and_true, Bool.and_eq_true] at hj
    obtain ⟨es, hd, rfl⟩ := map_eq_ok.mp h
    refine ⟨by simp, fun w hw => ?_⟩
    obtain ⟨e, he, hw⟩ := List.mem_flatMap.mp hw
    obtain ⟨a, b, hab, ha, hb⟩ := decodeEntries_mem hd e he
    have hwf := Json.wfElems_iff.mp hj.2 _ hab
    simp only [Json.wf, Json.wfElems, Bool.and_true, Bool.and_eq_true] at hwf
    rcases List.mem_cons.mp hw with rfl | hw
    · exact ⟨a, hwf.1, ha⟩
    · obtain rfl := List.mem_singleton.mp hw
      exact ⟨b, hwf.2, hb⟩
  case h_12 t i =>
    simp only [Json.wf, Json.wfMembers, Bool.and_true, Bool.true_and, Bool.and_eq_true] at hj
    obtain ⟨u, hd, rfl⟩ := map_eq_ok.mp h
    refine ⟨by simp, fun w hw => ?_⟩
    obtain rfl := List.mem_singleton.mp hw
    exact ⟨i, hj.2, hd⟩
  case h_14 ms _ _ _ _ _ _ _ =>
    rw [Json.wf, Bool.and_eq_true, decide_eq_true_eq] at hj
    obtain ⟨fs, hd, rfl⟩ := map_eq_ok.mp h
    obtain ⟨hk, hm⟩ := decodeFields_mem hd
    refine ⟨?_, fun w hw => ?_⟩
    · rintro _ ⟨⟩
      rw [hk]
      exact hj.1
    · obtain ⟨f, hf, rfl⟩ := List.mem_map.mp hw
      obtain ⟨m, hmem, hd⟩ := hm f hf
      exact ⟨m.2, Json.wfMembers_iff.mp hj.2 m hmem, hd⟩
  all_goals cases h <;> exact hleaf rfl (by simp)

/-- A value that was decoded. -/
def Decoded (v : Value) : Prop := ∃ late j, j.wf = true ∧ decodeValue late j = .ok v

theorem wf_encodeElems {xs : List Value} (h : ∀ x ∈ xs, (encodeValue x).wf = true) :
    Json.wfElems (encodeElems xs) = true := by
  induction xs with
  | nil => rfl
  | cons x xs ih =>
    rw [List.forall_mem_cons] at h
    rw [encodeElems, Json.wfElems, h.1, ih h.2]
    rfl

theorem wf_encodeFields {fs : List (String × Value)}
    (h : ∀ v ∈ fs.map Prod.snd, (encodeValue v).wf = true) :
    (encodeFields fs).map Prod.fst = fs.map Prod.fst ∧
      Json.wfMembers (encodeFields fs) = true := by
  induction fs with
  | nil => exact ⟨rfl, rfl⟩
  | cons f fs ih =>
    obtain ⟨k, v⟩ := f
    rw [List.map_cons, List.forall_mem_cons] at h
    obtain ⟨hk, hw⟩ := ih h.2
    rw [encodeFields, Json.wfMembers, h.1, hw]
    exact ⟨by simp [hk], rfl⟩

theorem wf_encodeEntries {es : List (Value × Value)}
    (h : ∀ v ∈ es.flatMap fun e => [e.1, e.2], (encodeValue v).wf = true) :
    Json.wfElems (encodeEntries es) = true := by
  induction es with
  | nil => rfl
  | cons e es ih =>
    obtain ⟨k, v⟩ := e
    simp only [List.flatMap_cons, List.cons_append, List.nil_append, List.forall_mem_cons] at h
    rw [encodeEntries, Json.wfElems, Json.wf, Json.wfElems, h.1, Json.wfElems, h.2.1,
      Json.wfElems, ih h.2.2]
    rfl

theorem wf_encode (h : v.Everywhere Value.Tidy) : (encodeValue v).wf = true := by
  induction h with
  | @node v ht _ ih =>
    cases v with
    | set xs | tuple xs | seq xs =>
      simpa [encodeValue, Json.wf, Json.wfMembers] using @wf_encodeElems xs ih
    | map es => simpa [encodeValue, Json.wf, Json.wfMembers] using @wf_encodeEntries es ih
    | record fs =>
      obtain ⟨hk, hw⟩ := wf_encodeFields ih
      rw [encodeValue, Json.wf, hw, hk, decide_eq_true (ht fs rfl).2]
      rfl
    | variant t v =>
      have hlt : "tag" < "value" := by decide
      simp only [encodeValue, Json.wf, Json.wfMembers, ih v (by simp [Value.children]),
        List.map_cons, List.map_nil, List.pairwise_pair, decide_eq_true hlt, Bool.and_true]
    | _ => simp [encodeValue, Json.wf, Json.wfMembers]

/-- The decoder yields exactly the values whose records are tidy. -/
theorem decoded_iff : Decoded v ↔ v.Everywhere Value.Tidy := by
  constructor
  · induction v using Value.induction with
    | h v ih =>
      rintro ⟨late, j, hj, h⟩
      have hm := (Value.unmarked_iff.mp (unmarked_decode.1 j v h)).1
      obtain ⟨hk, hc⟩ := decode_children hj h
      refine .node (fun fs e => ⟨hm fs e, hk fs e⟩) fun w hw => ?_
      obtain ⟨i, hi, hd⟩ := hc w hw
      exact ih w hw ⟨late, i, hi, hd⟩
  · intro h
    refine ⟨false, encodeValue v, wf_encode h, decode_encode ?_⟩
    induction h with
    | @node v ht _ ih => exact Value.unmarked_iff.mpr ⟨fun fs e => (ht fs e).1, ih⟩

namespace Value

/-! ## Where the code and the documentation part -/

/-- An integer that occurs in the value. -/
inductive Mentions (n : Int) : Value → Prop
  | here : Mentions n (integer n)
  | inside {v w : Value} : w ∈ v.children → Mentions n w → Mentions n v

theorem mentions_of_beq {n : Int} (hv : Mentions n v) : v.beq w = true → Mentions n w := by
  induction hv generalizing w with
  | here =>
    intro h
    cases w with
    | integer m =>
      obtain rfl : n = m := by simpa [beq] using h
      exact .here
    | _ => simp [beq] at h
  | @inside v x hx _ ih =>
    intro h
    obtain ⟨hs, hset, hpair⟩ := beq_iff.mp h
    obtain ⟨y, hy, hxy⟩ : ∃ y ∈ w.children, x.beq y = true := by
      cases hb : v.isSet with
      | true => exact hset hb x hx
      | false => exact (hpair hb).left (shell_shows hs).2.2.2 hx
    exact .inside hy (ih hxy)

theorem finite_mentions (v : Value) : {n | Mentions n v}.Finite := by
  induction v using Value.induction with
  | h v ih =>
    have hsub : {n | Mentions n v} ⊆
        {n | v = integer n} ∪ ⋃ w ∈ {w | w ∈ v.children}, {n | Mentions n w} := by
      rintro n hn
      cases hn with
      | here => exact .inl rfl
      | inside hw hm => exact .inr (Set.mem_biUnion hw hm)
    refine (Set.Finite.union ?_ (v.children.finite_toSet.biUnion ih)).subset hsub
    refine Set.Subsingleton.finite fun m hm n hn => ?_
    have : integer m = integer n := hm.symm.trans hn
    cases this
    rfl

/-- Keys and values of a list of children in turn. -/
def pairUp : List Value → List (Value × Value)
  | k :: v :: ws => (k, v) :: pairUp ws
  | _ => []

/-- The value with other children. -/
def refill : Value → List Value → Value
  | set _, ws => set ws
  | seq _, ws => seq ws
  | tuple _, ws => tuple ws
  | record fs, ws => record ((fs.map Prod.fst).zip ws)
  | map _, ws => map (pairUp ws)
  | variant t _, [w] => variant t w
  | v, _ => v

theorem pairUp_spec {es : List (Value × Value)} {ws : List Value}
    (h : ws.length = (es.flatMap fun e => [e.1, e.2]).length) :
    (pairUp ws).length = es.length ∧ (pairUp ws).flatMap (fun e => [e.1, e.2]) = ws := by
  induction es generalizing ws with
  | nil =>
    obtain rfl := List.length_eq_zero_iff.mp h
    exact ⟨rfl, rfl⟩
  | cons e es ih =>
    match ws with
    | [] | [_] => simp at h
    | a :: b :: ws =>
      obtain ⟨hl, hf⟩ := @ih ws (by simpa using h)
      exact ⟨by simp [pairUp, hl], by simp [pairUp, hf]⟩

theorem refill_spec {ws : List Value} (h : ws.length = v.children.length) :
    (v.refill ws).shell = v.shell ∧ (v.refill ws).children = ws := by
  cases v with
  | record fs =>
    have hl : ws.length = fs.length := by simpa [children] using h
    refine ⟨?_, ?_⟩
    · simp only [refill, shell, record.injEq]
      refine List.ext_getElem (by simp [hl]) fun i hi hj => by simp
    · simp [refill, children, List.map_snd_zip, hl]
  | map es =>
    obtain ⟨hl, hf⟩ := pairUp_spec h
    exact ⟨by simp [refill, shell, hl], hf⟩
  | variant t v =>
    obtain ⟨w, rfl⟩ := List.length_eq_one_iff.mp h
    exact ⟨rfl, rfl⟩
  | _ => simp_all [refill, shell, children]

theorem markerLike_congr {fs gs : List (String × Value)}
    (hk : fs.map Prod.fst = gs.map Prod.fst)
    (hp : Paired (fun x y => x.isSeq = y.isSeq ∧ x.isString = y.isString) (fs.map Prod.snd)
      (gs.map Prod.snd)) : markerLike fs = markerLike gs := by
  match fs, gs with
  | [], [] => rfl
  | [(k, v)], [(l, w)] =>
    simp only [List.map_cons, List.map_nil, List.cons.injEq, and_true, paired_cons] at hk hp
    rw [hk, markerLike, markerLike, hp.1.1, hp.1.2]
  | [(k, v), (k', v')], [(l, w), (l', w')] =>
    simp only [List.map_cons, List.map_nil, List.cons.injEq, and_true] at hk
    rw [hk.1, hk.2, markerLike, markerLike]
  | _ :: _ :: _ :: _, _ :: _ :: _ :: _ => rfl
  | [], _ :: _ | [_], [] | [_], _ :: _ :: _ | [_, _], [] | [_, _], [_] | [_, _], _ :: _ :: _ :: _
  | _ :: _ :: _ :: _, [] | _ :: _ :: _ :: _, [_] | _ :: _ :: _ :: _, [_, _] => simp at hk

/-- A value the code takes for a tidy one is tidy. -/
theorem tidy_of_beq (hv : v.Tidy) (h : v.beq w = true) : w.Tidy := by
  rintro gs rfl
  cases v with
  | record fs =>
    obtain ⟨hs, -, hpair⟩ := beq_iff.mp h
    have hk : fs.map Prod.fst = gs.map Prod.fst := by
      have := congrArg (List.map Prod.fst) (record.inj hs)
      simpa [Function.comp_def] using this
    obtain ⟨hm, hsort⟩ := hv fs rfl
    refine ⟨?_, hk ▸ hsort⟩
    rw [← hm]
    refine (markerLike_congr hk fun i x y hx hy => ?_).symm
    have := shell_shows (beq_iff.mp (hpair rfl i x y hx hy)).1
    exact ⟨this.2.1, this.2.2.1⟩
  | _ => simp [beq] at h

/-- A value equals itself with one child exchanged: for one the child equals, or in a set for
anything, when another element equals the child. -/
theorem beq_refill {i : Nat} {x y : Value} (hx : v.children[i]? = some x)
    (hy : x.beq y = true ∨ v.isSet = true ∧
      ∃ k z, k ≠ i ∧ v.children[k]? = some z ∧ x.beq z = true) :
    v.beq (v.refill (v.children.set i y)) = true := by
  obtain ⟨hs, hc⟩ := @refill_spec v (v.children.set i y) (by simp)
  have hi : i < v.children.length := (List.getElem?_eq_some_iff.mp hx).1
  have hkeep : ∀ {k z}, k ≠ i → v.children[k]? = some z → z ∈ v.children.set i y := by
    intro k z hk hz
    exact List.mem_of_getElem? (by rwa [List.getElem?_set_ne hk.symm])
  refine beq_iff.mpr ⟨hs.symm, fun hset z hz => ?_, fun hset k z z' hz hz' => ?_⟩
  · rw [hc]
    obtain ⟨k, hk⟩ := List.getElem?_of_mem hz
    by_cases h : k = i
    · subst h
      obtain rfl : x = z := Option.some.inj (hx.symm.trans hk)
      rcases hy with hy | ⟨-, k, u, hne, hu, hxu⟩
      · exact ⟨y, List.mem_of_getElem? (by rw [List.getElem?_set_self hi]), hy⟩
      · exact ⟨u, hkeep hne hu, hxu⟩
    · exact ⟨z, hkeep h hk, beq_refl z⟩
  · rw [hc] at hz'
    by_cases h : k = i
    · subst h
      rw [List.getElem?_set_self hi] at hz'
      obtain rfl := Option.some.inj hz'
      obtain rfl : x = z := Option.some.inj (hx.symm.trans hz)
      exact hy.resolve_right fun h => by rw [hset] at h; cases h.1
    · rw [List.getElem?_set_ne (Ne.symm h)] at hz'
      obtain rfl : z = z' := Option.some.inj (hz.symm.trans hz')
      exact beq_refl z

/-- Behind a repetition the code accepts any integer. -/
theorem exists_spoilt (hv : v.Everywhere Tidy) (hd : ¬ v.Distinct) (n : Int) :
    ∃ w, w.Everywhere Tidy ∧ v.beq w = true ∧ Mentions n w := by
  induction hv with
  | @node v ht hch ih =>
    have hput : ∀ {i : Nat} {x y : Value}, v.children[i]? = some x → (x.beq y = true ∨
        v.isSet = true ∧ ∃ k z, k ≠ i ∧ v.children[k]? = some z ∧ x.beq z = true) →
        y.Everywhere Tidy → Mentions n y →
        ∃ w, w.Everywhere Tidy ∧ v.beq w = true ∧ Mentions n w := by
      intro i x y hx hy hty hmy
      have hb := beq_refill hx hy
      obtain ⟨-, hc⟩ := @refill_spec v (v.children.set i y) (by simp)
      have hi : i < v.children.length := (List.getElem?_eq_some_iff.mp hx).1
      refine ⟨_, .node (tidy_of_beq ht hb) fun w hw => ?_, hb, .inside ?_ hmy⟩
      · rw [hc] at hw
        rcases List.mem_or_eq_of_mem_set hw with hw | rfl
        · exact hch w hw
        · exact hty
      · rw [hc]
        exact List.mem_of_getElem? (by rw [List.getElem?_set_self hi])
    by_cases hall : ∀ x ∈ v.children, x.Distinct
    · -- the repetition is in this very set
      have hrep : ¬ (v.isSet = true → v.children.Pairwise fun x y => ¬ x.Same y) :=
        fun h => hd (.node h hall)
      rw [Classical.not_imp, List.pairwise_iff_getElem] at hrep
      obtain ⟨hset, hrep⟩ := hrep
      push Not at hrep
      obtain ⟨i, j, hi, hj, hij, hsame⟩ := hrep
      exact @hput j _ (integer n) (List.getElem?_eq_getElem hj)
        (.inr ⟨hset, i, _, hij.ne, List.getElem?_eq_getElem hi, beq_of_same hsame.symm⟩)
        (.node nofun (by simp [children])) .here
    · push Not at hall
      obtain ⟨x, hx, hxd⟩ := hall
      obtain ⟨i, hi⟩ := List.getElem?_of_mem hx
      obtain ⟨y, hty, hxy, hmy⟩ := ih x hx hxd
      exact hput hi (.inl hxy) hty hmy

/-- The laws of `operator==` with the value on the left. -/
structure Laws (a : Value) : Prop where
  refl : a.beq a = true
  symm : ∀ b, Decoded b → a.beq b = true → b.beq a = true
  trans : ∀ b c, Decoded b → Decoded c → a.beq b = true → b.beq c = true → a.beq c = true
  /-- Sets of the same length are equal when every element of each occurs in the other. -/
  sets : ∀ xs ys, a = set xs → Decoded (set ys) → xs.length = ys.length →
    (a.beq (set ys) = true ↔ (∀ x ∈ xs, ∃ y ∈ ys, x.beq y = true) ∧
      ∀ y ∈ ys, ∃ x ∈ xs, y.beq x = true)

end Value

open Value in
/-- **Equality on decoded values obeys its laws for a value on the left exactly when no set in
that value, at any depth, holds an element twice.** -/
theorem equality_laws_iff {a : Value} (ha : Decoded a) : Laws a ↔ a.Distinct := by
  constructor
  · intro h
    by_contra hd
    obtain ⟨n, hn⟩ := (finite_mentions a).exists_notMem
    obtain ⟨b, hb, hab, hm⟩ := exists_spoilt (decoded_iff.mp ha) hd n
    exact hn (mentions_of_beq hm (h.symm b (decoded_iff.mpr hb) hab))
  · intro hd
    have hsymm : ∀ b, a.beq b = true → b.beq a = true :=
      fun b h => beq_of_same (same_of_beq hd h).symm
    refine ⟨beq_refl a, fun b _ => hsymm b, fun b c _ _ => beq_trans, ?_⟩
    rintro xs ys rfl - hlen
    refine ⟨fun h => ⟨?_, ?_⟩, fun h => ?_⟩
    · exact (beq_iff.mp h).2.1 rfl
    · exact (beq_iff.mp (hsymm _ h)).2.1 rfl
    · rw [beq, hlen, within_iff.mpr h.1]
      simp

/-- A set of two integers in a sequence. -/
def distinctSample : Value := .seq [.set [.integer 1, .integer 2]]

theorem decoded_distinctSample : Decoded distinctSample :=
  ⟨false, .arr [.obj [("#set", .arr [.int 1, .int 2])]], rfl, rfl⟩

theorem equality_laws_sample : distinctSample.Laws := by
  refine (equality_laws_iff decoded_distinctSample).mpr (.node nofun fun w hw => ?_)
  obtain rfl := List.mem_singleton.mp hw
  refine .node (fun _ => List.pairwise_pair.mpr fun h => ?_) fun x hx => .node ?_ ?_
  · exact absurd (Value.beq_of_same h) (by decide)
  all_goals
    simp only [Value.children, List.mem_cons, List.not_mem_nil, or_false] at hx
    rcases hx with rfl | rfl <;> simp [Value.isSet, Value.children]

/-- `{1, 1}` equals `{1, 2}`, which does not equal it. -/
theorem equality_not_symmetric :
    Decoded (.set [.integer 1, .integer 1]) ∧ Decoded (.set [.integer 1, .integer 2]) ∧
      Value.beq (.set [.integer 1, .integer 1]) (.set [.integer 1, .integer 2]) = true ∧
      Value.beq (.set [.integer 1, .integer 2]) (.set [.integer 1, .integer 1]) = false ∧
      ¬ ∀ a b, Decoded a → Decoded b → a.beq b = true → b.beq a = true := by
  have ha : Decoded (.set [.integer 1, .integer 1]) :=
    ⟨false, .obj [("#set", .arr [.int 1, .int 1])], rfl, rfl⟩
  have hb : Decoded (.set [.integer 1, .integer 2]) :=
    ⟨false, .obj [("#set", .arr [.int 1, .int 2])], rfl, rfl⟩
  refine ⟨ha, hb, by decide, by decide, fun h => ?_⟩
  exact absurd (h _ _ ha hb (by decide)) (by decide)

end MirrorCpp.Itf
