import MirrorCpp.Lib.Fallible
import MirrorCpp.Lib.Json
import Mathlib.Data.List.Duplicate

/-!
# Guards on a parser's callbacks

A reader can refuse repeated keys and deep nesting while the text is parsed: a stack holds the keys
of the open objects, a counter the open containers. Over the callbacks of a document the stack is
pushed and popped in step with its objects, so the guard throws at the first fault of the document
and at no other: the containers past the limit and the members that repeat a key of their own
object are its faults.
-/

namespace MirrorCpp

open Fallible

/-! ## Faults of a document -/

inductive Fault where
  /-- A container past the limit. -/
  | deep
  /-- A member whose key an earlier member of the object has. -/
  | repeated (k : String)
  deriving DecidableEq, Repr

namespace Doc

mutual
/-- The containers a document nests. -/
def depth : Doc → Nat
  | scalar _ => 0
  | arr xs => depthElems xs + 1
  | obj ms => depthMembers ms + 1

def depthElems : List Doc → Nat
  | [] => 0
  | x :: xs => max x.depth (depthElems xs)

def depthMembers : List (String × Doc) → Nat
  | [] => 0
  | (_, v) :: ms => max v.depth (depthMembers ms)
end

/-- Some object, at any depth, has two members with key `k`. -/
inductive Repeats (k : String) : Doc → Prop
  | here {ms : List (String × Doc)} (h : (ms.map Prod.fst).Duplicate k) : Repeats k (obj ms)
  | elem {xs : List Doc} {x : Doc} (hx : x ∈ xs) (h : Repeats k x) : Repeats k (arr xs)
  | member {ms : List (String × Doc)} {m : String × Doc} (hm : m ∈ ms) (h : Repeats k m.2) :
    Repeats k (obj ms)

/-- The start of a container with `n` others open. -/
def entry (limit n : Nat) : List Fault := if limit < n + 1 then [.deep] else []

mutual
/-- The faults in document order, with `n` containers open. -/
def faults (limit n : Nat) : Doc → List Fault
  | scalar _ => []
  | arr xs => entry limit n ++ faultsElems limit (n + 1) xs
  | obj ms => entry limit n ++ faultsMembers limit (n + 1) [] ms

def faultsElems (limit n : Nat) : List Doc → List Fault
  | [] => []
  | x :: xs => faults limit n x ++ faultsElems limit n xs

def faultsMembers (limit n : Nat) (seen : List String) : List (String × Doc) → List Fault
  | [] => []
  | (k, v) :: ms =>
    (if k ∈ seen then [.repeated k] else []) ++
      (faults limit n v ++ faultsMembers limit n (k :: seen) ms)
end

/-- The fault that comes first. -/
def firstFault (limit : Nat) (d : Doc) : Option Fault := (d.faults limit 0).head?

theorem mem_entry {f : Fault} {limit n : Nat} : f ∈ entry limit n ↔ f = .deep ∧ limit < n + 1 := by
  unfold entry
  split <;> simp_all

mutual
theorem deep_mem_faults : ∀ {limit n : Nat} (d : Doc), n ≤ limit →
    (Fault.deep ∈ d.faults limit n ↔ limit < n + d.depth)
  | limit, n, scalar _, hn => by
    simp only [faults, depth, List.not_mem_nil, false_iff]
    omega
  | limit, n, arr xs, hn => by
    simp only [faults, depth, List.mem_append, mem_entry, true_and]
    by_cases h : limit < n + 1
    · exact iff_of_true (.inl h) (by omega)
    · rw [deep_mem_faultsElems xs (by omega)]
      omega
  | limit, n, obj ms, hn => by
    simp only [faults, depth, List.mem_append, mem_entry, true_and]
    by_cases h : limit < n + 1
    · exact iff_of_true (.inl h) (by omega)
    · rw [deep_mem_faultsMembers ms (by omega)]
      omega

theorem deep_mem_faultsElems : ∀ {limit n : Nat} (xs : List Doc), n ≤ limit →
    (Fault.deep ∈ faultsElems limit n xs ↔ limit < n + depthElems xs)
  | limit, n, [], hn => by
    simp only [faultsElems, depthElems, List.not_mem_nil, false_iff]
    omega
  | limit, n, x :: xs, hn => by
    simp only [faultsElems, depthElems, List.mem_append, deep_mem_faults x hn,
      deep_mem_faultsElems xs hn]
    omega

theorem deep_mem_faultsMembers : ∀ {limit n : Nat} {seen : List String} (ms : List (String × Doc)),
    n ≤ limit → (Fault.deep ∈ faultsMembers limit n seen ms ↔ limit < n + depthMembers ms)
  | limit, n, seen, [], hn => by
    simp only [faultsMembers, depthMembers, List.not_mem_nil, false_iff]
    omega
  | limit, n, seen, (k, v) :: ms, hn => by
    have hk : Fault.deep ∉ (if k ∈ seen then [Fault.repeated k] else []) := by
      split <;> simp
    simp only [faultsMembers, depthMembers, List.mem_append, hk, false_or, deep_mem_faults v hn,
      deep_mem_faultsMembers ms hn]
    omega
end

mutual
theorem repeated_mem_faults : ∀ {limit n : Nat} {k : String} (d : Doc),
    (Fault.repeated k ∈ d.faults limit n ↔ d.Repeats k)
  | limit, n, k, scalar _ => by
    simp only [faults, List.not_mem_nil, false_iff]
    rintro ⟨⟩
  | limit, n, k, arr xs => by
    have hk : Fault.repeated k ∉ entry limit n := by simp [mem_entry]
    simp only [faults, List.mem_append, hk, false_or, repeated_mem_faultsElems xs]
    constructor
    · rintro ⟨x, hx, h⟩
      exact .elem hx h
    · rintro (_ | ⟨hx, h⟩)
      exact ⟨_, hx, h⟩
  | limit, n, k, obj ms => by
    have hk : Fault.repeated k ∉ entry limit n := by simp [mem_entry]
    simp only [faults, List.mem_append, hk, false_or, repeated_mem_faultsMembers ms,
      List.not_mem_nil, false_and]
    constructor
    · rintro (h | ⟨m, hm, h⟩)
      · exact .here h
      · exact .member hm h
    · rintro (h | _ | ⟨hm, h⟩)
      · exact .inl h
      · exact .inr ⟨_, hm, h⟩

theorem repeated_mem_faultsElems : ∀ {limit n : Nat} {k : String} (xs : List Doc),
    (Fault.repeated k ∈ faultsElems limit n xs ↔ ∃ x ∈ xs, Repeats k x)
  | limit, n, k, [] => by simp [faultsElems]
  | limit, n, k, x :: xs => by
    simp only [faultsElems, List.mem_append, repeated_mem_faults x, repeated_mem_faultsElems xs,
      List.exists_mem_cons_iff]

/-- A member is a fault when its key was seen before the members, or comes a second time among
them. -/
theorem repeated_mem_faultsMembers : ∀ {limit n : Nat} {seen : List String} {k : String}
    (ms : List (String × Doc)), (Fault.repeated k ∈ faultsMembers limit n seen ms ↔
      (k ∈ seen ∧ k ∈ ms.map Prod.fst) ∨ (ms.map Prod.fst).Duplicate k ∨
        ∃ m ∈ ms, Repeats k m.2)
  | limit, n, seen, k, [] => by simp [faultsMembers]
  | limit, n, seen, k, (key, v) :: ms => by
    have hk : Fault.repeated k ∈ (if key ∈ seen then [Fault.repeated key] else []) ↔
        k = key ∧ k ∈ seen := by
      split <;> grind
    simp only [faultsMembers, List.mem_append, hk, repeated_mem_faults v,
      repeated_mem_faultsMembers ms, List.map_cons, List.mem_cons, List.duplicate_cons_iff]
    grind
end

theorem firstFault_eq_none {limit : Nat} {d : Doc} :
    d.firstFault limit = none ↔ (∀ k, ¬d.Repeats k) ∧ d.depth ≤ limit := by
  have hdeep : Fault.deep ∈ d.faults limit 0 ↔ limit < 0 + d.depth :=
    deep_mem_faults d (Nat.zero_le _)
  have hrep : ∀ k, Fault.repeated k ∈ d.faults limit 0 ↔ d.Repeats k := fun _ =>
    repeated_mem_faults d
  rw [firstFault, List.head?_eq_none_iff]
  constructor
  · intro h
    simp only [h, List.not_mem_nil, false_iff] at hdeep hrep
    exact ⟨hrep, by omega⟩
  · rintro ⟨hr, hd⟩
    rw [List.eq_nil_iff_forall_not_mem]
    rintro (_ | k)
    · rw [hdeep]
      omega
    · rw [hrep]
      exact hr k

theorem repeats_of_firstFault {limit : Nat} {d : Doc} {k : String}
    (h : d.firstFault limit = some (.repeated k)) : d.Repeats k :=
  (repeated_mem_faults d).mp (List.mem_of_mem_head? h)

theorem deep_of_firstFault {limit : Nat} {d : Doc} (h : d.firstFault limit = some .deep) :
    limit < d.depth := by
  have hd := (deep_mem_faults d (Nat.zero_le _)).mp (List.mem_of_mem_head? h)
  omega

/-- A document with no container past the limit has only repeated keys to report. -/
theorem firstFault_of_shallow {limit : Nat} {d : Doc} (h : d.depth ≤ limit) :
    (∃ k, d.firstFault limit = some (.repeated k)) ↔ ∃ k, d.Repeats k := by
  constructor
  · rintro ⟨k, hk⟩
    exact ⟨k, repeats_of_firstFault hk⟩
  · rintro ⟨k, hk⟩
    cases hf : d.firstFault limit with
    | none => exact absurd hk ((firstFault_eq_none.mp hf).1 k)
    | some f =>
      cases f with
      | deep => exact absurd (deep_of_firstFault hf) (Nat.not_lt.mpr h)
      | repeated key => exact ⟨key, rfl⟩

/-- A document with no repeated key has only its depth to report. -/
theorem firstFault_of_distinct {limit : Nat} {d : Doc} (h : ∀ k, ¬d.Repeats k) :
    d.firstFault limit = some .deep ↔ limit < d.depth := by
  constructor
  · exact deep_of_firstFault
  · intro hd
    cases hf : d.firstFault limit with
    | none => exact absurd (firstFault_eq_none.mp hf).2 (Nat.not_le.mpr hd)
    | some f =>
      cases f with
      | deep => rfl
      | repeated k => exact absurd (repeats_of_firstFault hf) (h k)

/-! ## The text of a value -/

theorem map_fst_ofMembers (ms : List (String × Json)) :
    (ofMembers ms).map Prod.fst = ms.map Prod.fst := by
  induction ms with
  | nil => rfl
  | cons m ms ih => rw [ofMembers, List.map_cons, List.map_cons, ih]

mutual
/-- A value whose containers lie at most `k` below it. -/
theorem depth_ofJson : ∀ {j : Json} {k : Nat}, j.plainBelow k = true → (ofJson j).depth ≤ k + 1
  | .arr xs, k, h => by
    rw [Json.plainBelow] at h
    rw [ofJson, depth]
    exact Nat.succ_le_succ (depth_ofElems h)
  | .obj ms, k, h => by
    rw [Json.plainBelow] at h
    rw [ofJson, depth]
    exact Nat.succ_le_succ (depth_ofMembers h)
  | .null, _, _ | .bool _, _, _ | .int _, _, _ | .float _, _, _ | .str _, _, _
  | .binary _, _, _ | .discarded, _, _ => Nat.zero_le _

theorem depth_ofElems : ∀ {xs : List Json} {k : Nat}, Json.plainElems k xs = true →
    depthElems (ofElems xs) ≤ k
  | [], _, _ => Nat.zero_le _
  | x :: xs, 0, h => by simp [Json.plainElems] at h
  | x :: xs, k + 1, h => by
    rw [Json.plainElems, Bool.and_eq_true] at h
    rw [ofElems, depthElems]
    exact Nat.max_le.mpr ⟨depth_ofJson h.1, depth_ofElems h.2⟩

theorem depth_ofMembers : ∀ {ms : List (String × Json)} {k : Nat}, Json.plainMembers k ms = true →
    depthMembers (ofMembers ms) ≤ k
  | [], _, _ => Nat.zero_le _
  | (key, v) :: ms, 0, h => by simp [Json.plainMembers] at h
  | (key, v) :: ms, k + 1, h => by
    rw [Json.plainMembers, Bool.and_eq_true] at h
    rw [ofMembers, depthMembers]
    exact Nat.max_le.mpr ⟨depth_ofJson h.1, depth_ofMembers h.2⟩
end

mutual
theorem not_repeats_ofJson : ∀ {j : Json} {k : String}, j.wf = true → ¬(ofJson j).Repeats k
  | .arr xs, k, h, hr => by
    rw [Json.wf] at h
    rw [ofJson] at hr
    obtain _ | ⟨hx, hr⟩ := hr
    exact not_repeats_ofElems h _ hx hr
  | .obj ms, k, h, hr => by
    rw [Json.wf, Bool.and_eq_true, decide_eq_true_eq] at h
    rw [ofJson] at hr
    obtain hd | _ | ⟨hm, hr⟩ := hr
    · rw [map_fst_ofMembers] at hd
      exact hd.not_nodup (h.1.imp String.ne_of_lt)
    · exact not_repeats_ofMembers h.2 _ hm hr
  | .null, _, _, hr | .bool _, _, _, hr | .int _, _, _, hr | .float _, _, _, hr | .str _, _, _, hr
  | .binary _, _, _, hr | .discarded, _, _, hr => nomatch hr

theorem not_repeats_ofElems : ∀ {xs : List Json} {k : String}, Json.wfElems xs = true →
    ∀ x ∈ ofElems xs, ¬x.Repeats k
  | x :: xs, k, h, y, hy => by
    rw [Json.wfElems, Bool.and_eq_true] at h
    rw [ofElems, List.mem_cons] at hy
    obtain rfl | hy := hy
    · exact not_repeats_ofJson h.1
    · exact not_repeats_ofElems h.2 y hy

theorem not_repeats_ofMembers : ∀ {ms : List (String × Json)} {k : String},
    Json.wfMembers ms = true → ∀ m ∈ ofMembers ms, ¬m.2.Repeats k
  | (key, v) :: ms, k, h, m, hm => by
    rw [Json.wfMembers, Bool.and_eq_true] at h
    rw [ofMembers, List.mem_cons] at hm
    obtain rfl | hm := hm
    · exact not_repeats_ofJson h.1
    · exact not_repeats_ofMembers h.2 m hm
end

/-- The text of a value has no faults but for its depth. -/
theorem firstFault_ofJson {j : Json} {k limit : Nat} (hw : j.wf = true)
    (hp : j.plainBelow k = true) (hk : k < limit) : (ofJson j).firstFault limit = none :=
  firstFault_eq_none.mpr ⟨fun _ => not_repeats_ofJson hw, Nat.le_trans (depth_ofJson hp) hk⟩

end Doc

/-! ## Guards -/

universe u

/-- How many containers a reader admits, and what it throws. -/
structure Guard (ε : Type u) where
  limit : Nat
  deep : ε
  repeated : String → ε
  /-- For a key outside every object. -/
  stray : Option ε

/-- The keys of the open objects, innermost first, and the number of open containers. -/
structure Nest where
  keys : List (List String)
  depth : Nat

namespace Guard

variable {ε : Type u} (g : Guard ε)

def report : Fault → ε
  | .deep => g.deep
  | .repeated k => g.repeated k

def enter (n : Nat) (s : Nest) : Except ε Nest :=
  if g.limit < n + 1 then .error g.deep else .ok s

/-- One callback. -/
def step (s : Nest) : ParseEvent → Except ε Nest
  | .objectStart => g.enter s.depth ⟨[] :: s.keys, s.depth + 1⟩
  | .arrayStart => g.enter s.depth ⟨s.keys, s.depth + 1⟩
  | .objectEnd => .ok ⟨s.keys.tail, s.depth - 1⟩
  | .arrayEnd => .ok ⟨s.keys, s.depth - 1⟩
  | .key k =>
    match s.keys with
    | [] => g.stray.elim (.ok s) .error
    | ks :: rest => if k ∈ ks then .error (g.repeated k) else .ok ⟨(k :: ks) :: rest, s.depth⟩
  | .value => .ok s

/-- The first of the faults, or the state when there is none. -/
def pass (fs : List Fault) (s : Nest) : Except ε Nest :=
  match fs with
  | [] => .ok s
  | f :: _ => .error (g.report f)

variable {g}

theorem pass_append (fs fs' : List Fault) (s s' : Nest) :
    g.pass (fs ++ fs') s' = g.pass fs s >>= fun _ => g.pass fs' s' := by
  cases fs <;> rfl

theorem pass_bind (fs : List Fault) (s : Nest) (f : Nest → Except ε Nest) :
    g.pass fs s >>= f = g.pass fs s >>= fun _ => f s := by
  cases fs <;> rfl

theorem enter_eq (n : Nat) (s : Nest) : g.enter n s = g.pass (Doc.entry g.limit n) s := by
  unfold enter Doc.entry
  split <;> rfl

/-- A container whose inner callbacks pass `fs'`. -/
theorem run_container {start stop : ParseEvent} {inner : List ParseEvent} {fs fs' : List Fault}
    {s t t' s' : Nest} (hstart : g.step s start = g.pass fs t)
    (hinner : inner.foldlM g.step t = g.pass fs' t') (hstop : g.step t' stop = .ok s') :
    (start :: (inner ++ [stop])).foldlM g.step s = g.pass (fs ++ fs') s' := by
  rw [List.foldlM_cons, hstart, pass_bind, List.foldlM_append, hinner, pass_append fs fs' t]
  cases fs' with
  | nil => simp only [pass, ok_bind, List.foldlM_cons, hstop, List.foldlM_nil, pure_eq]
  | cons f fs' => rfl

mutual
/-- A document's callbacks pass its faults and leave the nest as it was. -/
theorem run_events : ∀ (d : Doc) (s : Nest),
    d.events.foldlM g.step s = g.pass (d.faults g.limit s.depth) s
  | .scalar _, _ => rfl
  | .arr xs, s => run_container (enter_eq s.depth _) (run_elems xs ⟨s.keys, s.depth + 1⟩) rfl
  | .obj ms, s => run_container (enter_eq s.depth _) (run_members ms [] s.keys (s.depth + 1)) rfl

theorem run_elems : ∀ (xs : List Doc) (s : Nest),
    (Doc.eventsElems xs).foldlM g.step s = g.pass (Doc.faultsElems g.limit s.depth xs) s
  | [], _ => rfl
  | x :: xs, s => by
    simp only [Doc.eventsElems, Doc.faultsElems, List.foldlM_append]
    rw [run_events x, pass_bind, run_elems xs, ← pass_append]

/-- Members add their keys to those of the innermost object. -/
theorem run_members : ∀ (ms : List (String × Doc)) (seen : List String)
    (rest : List (List String)) (n : Nat),
    (Doc.eventsMembers ms).foldlM g.step ⟨seen :: rest, n⟩ =
      g.pass (Doc.faultsMembers g.limit n seen ms)
        ⟨((ms.map Prod.fst).reverse ++ seen) :: rest, n⟩
  | [], _, _, _ => rfl
  | (k, v) :: ms, seen, rest, n => by
    have hms := run_members ms (k :: seen) rest n
    simp only [Doc.eventsMembers, Doc.faultsMembers, List.foldlM_cons, List.foldlM_append, step]
    by_cases hk : k ∈ seen
    · rw [if_pos hk, if_pos hk]
      rfl
    · rw [if_neg hk, if_neg hk, ok_bind, run_events v, pass_bind, hms, ← pass_append,
        List.nil_append, List.map_cons, List.reverse_cons, List.append_assoc]
      rfl
end

/-! ## Readers with a state of their own -/

variable {σ : Type} {step' : σ → ParseEvent → Except ε σ} {view : σ → Nest}

theorem view_foldlM (h : ∀ s e, view <$> step' s e = g.step (view s) e) (es : List ParseEvent)
    (s : σ) : view <$> es.foldlM step' s = es.foldlM g.step (view s) := by
  induction es generalizing s with
  | nil => rfl
  | cons e es ih =>
    rw [List.foldlM_cons, List.foldlM_cons, ← h]
    cases step' s e with
    | error what => rfl
    | ok t => exact ih t

/-- A reader that steps as the guard does throws at the first fault of the document, if there is
one. -/
theorem foldlM_events (h : ∀ s e, view <$> step' s e = g.step (view s) e) (d : Doc) (s : σ)
    (hs : (view s).depth = 0) :
    (fun _ => ()) <$> d.events.foldlM step' s =
      match d.firstFault g.limit with
      | none => .ok ()
      | some f => .error (g.report f) := by
  have hv := view_foldlM h d.events s
  rw [run_events, hs] at hv
  rw [Doc.firstFault]
  cases hf : d.faults g.limit 0 with
  | nil =>
    rw [hf] at hv
    obtain ⟨t, ht, -⟩ := map_eq_ok.mp hv
    rw [ht]
    rfl
  | cons f fs =>
    rw [hf] at hv
    rw [map_eq_error.mp hv]
    rfl

end Guard

end MirrorCpp
