import MirrorCpp.Lib.Text
import Mathlib.Algebra.BigOperators.Group.List.Basic
import Mathlib.Algebra.GroupWithZero.Nat
import Mathlib.Data.Int.Basic

/-!
# JSON values

The value type of a DOM-style JSON library (null, booleans, integers, doubles, byte strings,
binary, discarded, arrays, objects) with the documented behaviour of its accessors: what
throws is an `Except JsonFault`. An object is the list of its members in key order.

The text side of the library (`dump`, `parse`, `==` on numbers, message texts) is a
parameter, the structure `JsonLib`: its fields carry what the library documents about them.
A parsed text is a `Doc`, which still has repeated keys and the order of the members;
`Doc.events` are the callbacks of the parser in document order.
-/

namespace MirrorCpp

/-- An IEEE double by its bits. -/
structure Double where
  bits : BitVec 64
  deriving DecidableEq, Repr

namespace Double

def negative (d : Double) : Bool := d.bits.getLsbD 63

def exponent (d : Double) : Nat := d.bits.toNat / 2 ^ 52 % 2 ^ 11

def fraction (d : Double) : Nat := d.bits.toNat % 2 ^ 52

def isFinite (d : Double) : Bool := d.exponent != 2047

/-- The significand: a finite double is `± mantissa * 2 ^ (scale - 1075)`. -/
def mantissa (d : Double) : Nat := if d.exponent = 0 then d.fraction else 2 ^ 52 + d.fraction

def scale (d : Double) : Nat := max d.exponent 1

/-- The magnitude rounded towards zero. -/
def magnitude (d : Double) : Nat := d.mantissa * 2 ^ d.scale / 2 ^ 1075

/-- `std::trunc(d) == d`. -/
def isIntegral (d : Double) : Bool := d.magnitude * 2 ^ 1075 == d.mantissa * 2 ^ d.scale

/-- The integer a finite double truncates to. -/
def toInt (d : Double) : Int := if d.negative then -(d.magnitude : Int) else d.magnitude

end Double

inductive Json where
  | null
  | bool (b : Bool)
  /-- A signed or unsigned 64-bit integer. -/
  | int (n : Int)
  | float (d : Double)
  | str (s : String)
  | binary (bytes : List Nat)
  | discarded
  | arr (elems : List Json)
  | obj (members : List (String × Json))
  deriving Repr

/-- What a JSON operation throws. -/
inductive JsonFault where
  /-- `out_of_range`: no such key. -/
  | noKey (key : String)
  /-- `out_of_range`: no such index. -/
  | noIndex (i : Nat)
  /-- `type_error`: the operation does not apply to a value of this type. -/
  | wrongType
  /-- `type_error`: a string to serialise is no UTF-8. -/
  | badUtf8
  /-- `parse_error`. -/
  | syntaxError
  deriving DecidableEq, Repr

namespace Json

def isNull : Json → Bool
  | null => true
  | _ => false

def isBool : Json → Bool
  | bool _ => true
  | _ => false

def isArr : Json → Bool
  | arr _ => true
  | _ => false

def isObj : Json → Bool
  | obj _ => true
  | _ => false

/-- `size()`: 0 for null, the number of children, 1 for any other value. -/
def size : Json → Nat
  | null => 0
  | arr xs => xs.length
  | obj ms => ms.length
  | _ => 1

/-- `empty()`. -/
def isEmpty (j : Json) : Bool := j.size == 0

/-- The member under a key, when there is one. -/
def field? : Json → String → Option Json
  | obj ms, k => ms.lookup k
  | _, _ => none

/-- `contains(key)`. -/
def contains (j : Json) (k : String) : Bool := (j.field? k).isSome

/-- `at(key)`. -/
def field (j : Json) (k : String) : Except JsonFault Json :=
  match j with
  | obj ms =>
    match ms.lookup k with
    | some v => .ok v
    | none => .error (.noKey k)
  | _ => .error .wrongType

/-- `at(index)`. -/
def index (j : Json) (i : Nat) : Except JsonFault Json :=
  match j with
  | arr xs =>
    match xs[i]? with
    | some v => .ok v
    | none => .error (.noIndex i)
  | _ => .error .wrongType

/-- `get<std::string>()`. -/
def getStr : Json → Except JsonFault String
  | str s => .ok s
  | _ => .error .wrongType

/-- The values a range-for visits. -/
def children : Json → List Json
  | arr xs => xs
  | obj ms => ms.map Prod.snd
  | null => []
  | j => [j]

theorem field_ok {j : Json} {k : String} {v : Json} (h : j.field k = .ok v) :
    j.field? k = some v := by
  cases j with
  | obj ms =>
    simp only [field] at h
    cases hl : ms.lookup k with
    | none => simp [hl] at h
    | some w => simpa [hl, field?] using h
  | _ => simp [field] at h

theorem index_ok {j : Json} {i : Nat} {v : Json} (h : j.index i = .ok v) :
    ∃ xs, j = .arr xs ∧ xs[i]? = some v := by
  cases j with
  | arr xs =>
    simp only [index] at h
    cases hl : xs[i]? with
    | none => simp [hl] at h
    | some w => exact ⟨xs, rfl, by simpa [hl] using h⟩
  | _ => simp [index] at h

theorem getStr_ok {j : Json} {s : String} (h : j.getStr = .ok s) : j = .str s := by
  cases j <;> simp_all [getStr]

/-! ### Strings of a value -/

mutual
/-- Every string of the value, keys included, is valid UTF-8. -/
def utf8 : Json → Bool
  | str s => Text.utf8 s
  | arr xs => utf8Elems xs
  | obj ms => utf8Members ms
  | _ => true

def utf8Elems : List Json → Bool
  | [] => true
  | x :: xs => x.utf8 && utf8Elems xs

def utf8Members : List (String × Json) → Bool
  | [] => true
  | (k, v) :: ms => Text.utf8 k && v.utf8 && utf8Members ms
end

theorem utf8Elems_iff {xs : List Json} : utf8Elems xs = true ↔ ∀ x ∈ xs, x.utf8 = true := by
  induction xs with
  | nil => simp [utf8Elems]
  | cons x xs ih => simp [utf8Elems, ih]

theorem utf8Elems_append (xs ys : List Json) :
    utf8Elems (xs ++ ys) = (utf8Elems xs && utf8Elems ys) := by
  induction xs with
  | nil => simp [utf8Elems]
  | cons x xs ih => simp [utf8Elems, ih, Bool.and_assoc]

theorem utf8Members_iff {ms : List (String × Json)} :
    utf8Members ms = true ↔ ∀ m ∈ ms, Text.utf8 m.1 = true ∧ m.2.utf8 = true := by
  induction ms with
  | nil => simp [utf8Members]
  | cons m ms ih => obtain ⟨k, v⟩ := m; simp [utf8Members, ih, and_assoc]

@[simp] theorem utf8_arr (xs : List Json) : (arr xs).utf8 = utf8Elems xs := by rw [utf8]

@[simp] theorem utf8_obj (ms : List (String × Json)) : (obj ms).utf8 = utf8Members ms := by
  rw [utf8]

@[simp] theorem utf8_str (s : String) : (str s).utf8 = Text.utf8 s := by rw [utf8]

@[simp] theorem utf8_int (n : Int) : (int n).utf8 = true := by rw [utf8] <;> simp

@[simp] theorem utf8_null : null.utf8 = true := by rw [utf8] <;> simp

@[simp] theorem utf8_bool (b : Bool) : (bool b).utf8 = true := by rw [utf8] <;> simp

/-! ### Values a text can hold -/

mutual
/-- No binary, discarded or non-finite part, containers at most `limit` below the value
nested: what survives a trip through text. -/
def plainBelow : Nat → Json → Bool
  | _, binary _ => false
  | _, discarded => false
  | _, float d => d.isFinite
  | limit, arr xs => plainElems limit xs
  | limit, obj ms => plainMembers limit ms
  | _, _ => true

def plainElems : Nat → List Json → Bool
  | _, [] => true
  | 0, _ :: _ => false
  | limit + 1, x :: xs => plainBelow limit x && plainElems (limit + 1) xs

def plainMembers : Nat → List (String × Json) → Bool
  | _, [] => true
  | 0, _ :: _ => false
  | limit + 1, (_, v) :: ms => plainBelow limit v && plainMembers (limit + 1) ms
end

mutual
/-- What the type guarantees: integers of 64 bits, objects with strictly increasing keys. -/
def wf : Json → Bool
  | int n => decide (-2 ^ 63 ≤ n ∧ n < 2 ^ 64)
  | arr xs => wfElems xs
  | obj ms => decide ((ms.map Prod.fst).Pairwise (· < ·)) && wfMembers ms
  | _ => true

def wfElems : List Json → Bool
  | [] => true
  | x :: xs => x.wf && wfElems xs

def wfMembers : List (String × Json) → Bool
  | [] => true
  | (_, v) :: ms => v.wf && wfMembers ms
end

theorem wfElems_iff {xs : List Json} : wfElems xs = true ↔ ∀ x ∈ xs, x.wf = true := by
  induction xs with
  | nil => simp [wfElems]
  | cons x xs ih => simp [wfElems, ih]

theorem wfMembers_iff {ms : List (String × Json)} :
    wfMembers ms = true ↔ ∀ m ∈ ms, m.2.wf = true := by
  induction ms with
  | nil => simp [wfMembers]
  | cons m ms ih => obtain ⟨k, v⟩ := m; simp [wfMembers, ih]

theorem wf_field {j v : Json} {k : String} (h : j.wf = true) (hf : j.field? k = some v) :
    v.wf = true := by
  cases j with
  | obj ms =>
    obtain ⟨ms₁, ms₂, rfl, -⟩ := List.lookup_eq_some_iff.mp (show ms.lookup k = some v from hf)
    rw [wf, Bool.and_eq_true, wfMembers_iff] at h
    exact h.2 (k, v) (by simp)
  | _ => cases hf

end Json

/-! ## Texts -/

/-- A parsed text: members in the order of the text, keys possibly repeated. -/
inductive Doc where
  | scalar (j : Json)
  | arr (elems : List Doc)
  | obj (members : List (String × Doc))
  deriving Repr

/-- A callback of the parser. -/
inductive ParseEvent where
  | objectStart
  | objectEnd
  | arrayStart
  | arrayEnd
  | key (k : String)
  | value
  deriving DecidableEq, Repr

namespace Doc

/-- Assign a member of an object kept in key order. -/
def assign (k : String) (v : Json) : List (String × Json) → List (String × Json)
  | [] => [(k, v)]
  | (k', v') :: ms =>
    if k = k' then (k, v) :: ms
    else if k < k' then (k, v) :: (k', v') :: ms
    else (k', v') :: assign k v ms

mutual
/-- The value a text denotes; of repeated members the last one counts. -/
def toJson : Doc → Json
  | scalar j => j
  | arr xs => .arr (toJsonElems xs)
  | obj ms => .obj (toJsonMembers [] ms)

def toJsonElems : List Doc → List Json
  | [] => []
  | x :: xs => x.toJson :: toJsonElems xs

def toJsonMembers (acc : List (String × Json)) : List (String × Doc) → List (String × Json)
  | [] => acc
  | (k, v) :: ms => toJsonMembers (assign k v.toJson acc) ms
end

mutual
/-- The text of a value. -/
def ofJson : Json → Doc
  | .arr xs => arr (ofElems xs)
  | .obj ms => obj (ofMembers ms)
  | j => scalar j

def ofElems : List Json → List Doc
  | [] => []
  | x :: xs => ofJson x :: ofElems xs

def ofMembers : List (String × Json) → List (String × Doc)
  | [] => []
  | (k, v) :: ms => (k, ofJson v) :: ofMembers ms
end

mutual
/-- The callbacks of the parser, in document order. -/
def events : Doc → List ParseEvent
  | scalar _ => [.value]
  | arr xs => .arrayStart :: (eventsElems xs ++ [.arrayEnd])
  | obj ms => .objectStart :: (eventsMembers ms ++ [.objectEnd])

def eventsElems : List Doc → List ParseEvent
  | [] => []
  | x :: xs => x.events ++ eventsElems xs

def eventsMembers : List (String × Doc) → List ParseEvent
  | [] => []
  | (k, v) :: ms => .key k :: (v.events ++ eventsMembers ms)
end

theorem assign_append {k : String} {v : Json} {ms : List (String × Json)}
    (h : ∀ m ∈ ms, m.1 < k) : assign k v ms = ms ++ [(k, v)] := by
  induction ms with
  | nil => rfl
  | cons m ms ih =>
    obtain ⟨k', v'⟩ := m
    have hk : k' < k := h (k', v') List.mem_cons_self
    have hne : k ≠ k' := fun e => absurd hk (e ▸ String.lt_irrefl k)
    simp only [assign, if_neg hne, if_neg (String.lt_asymm hk), List.cons_append]
    rw [ih fun m hm => h m (List.mem_cons_of_mem _ hm)]

mutual
/-- Reading back the text of a well-formed value gives the value. -/
theorem toJson_ofJson : ∀ {j : Json}, j.wf = true → (ofJson j).toJson = j
  | .arr xs, h => by
    rw [Json.wf] at h
    simp only [ofJson, toJson, toJsonElems_ofElems h]
  | .obj ms, h => by
    rw [Json.wf, Bool.and_eq_true, decide_eq_true_eq] at h
    simp only [ofJson, toJson]
    rw [toJsonMembers_ofMembers (by simpa using h.1) h.2]
    rfl
  | .null, _ | .bool _, _ | .int _, _ | .float _, _ | .str _, _ | .binary _, _
  | .discarded, _ => by simp [ofJson, toJson]

theorem toJsonElems_ofElems : ∀ {xs : List Json}, Json.wfElems xs = true →
    toJsonElems (ofElems xs) = xs
  | [], _ => rfl
  | x :: xs, h => by
    rw [Json.wfElems, Bool.and_eq_true] at h
    simp only [ofElems, toJsonElems, toJson_ofJson h.1, toJsonElems_ofElems h.2]

theorem toJsonMembers_ofMembers : ∀ {ms acc : List (String × Json)},
    ((acc ++ ms).map Prod.fst).Pairwise (· < ·) → Json.wfMembers ms = true →
    toJsonMembers acc (ofMembers ms) = acc ++ ms
  | [], acc, _, _ => by simp [ofMembers, toJsonMembers]
  | (k, v) :: ms, acc, hs, h => by
    rw [Json.wfMembers, Bool.and_eq_true] at h
    have hlt : ∀ m ∈ acc, m.1 < k := by
      rw [List.map_append, List.pairwise_append] at hs
      exact fun m hm => hs.2.2 m.1 (List.mem_map_of_mem hm) k (by simp)
    simp only [ofMembers, toJsonMembers, toJson_ofJson h.1, assign_append hlt]
    rw [toJsonMembers_ofMembers (by simpa using hs) h.2]
    simp
end

end Doc

/-- The library's text side, with what it documents. -/
structure JsonLib where
  /-- `dump()`; it throws `type_error` on a string that is no UTF-8. -/
  dump : Json → Option String
  /-- `dump().size()`. -/
  dumpSize : Json → Option Nat
  /-- `parse(text)`; it throws `parse_error` on a text outside the grammar. -/
  parse : String → Option Doc
  /-- `a == b`: values of different types differ, numbers compare by value. -/
  eq : Json → Json → Bool
  /-- `what()` of an exception. -/
  what : JsonFault → String
  dump_isSome : ∀ j, (dump j).isSome = j.utf8
  dumpSize_eq : ∀ j, dumpSize j = (dump j).map String.length
  /-- An array prints as its elements between brackets, separated by commas. -/
  dump_arr : ∀ xs t, dump (.arr xs) = some t →
    t.length = 2 + (xs.length - 1) + (xs.map fun x => ((dump x).getD "").length).sum
  /-- An object prints as its members between braces, `key:value`, separated by commas. -/
  dump_obj : ∀ ms t, dump (.obj ms) = some t →
    t.length = 2 + (ms.length - 1) + (ms.map fun m =>
      ((dump (.str m.1)).getD "").length + 1 + ((dump m.2).getD "").length).sum
  /-- Parsing inverts printing on values a text can hold. -/
  parse_dump : ∀ n j t, j.wf = true → j.plainBelow n = true → dump j = some t →
    parse t = some (Doc.ofJson j)
  eq_str : ∀ j s, eq j (.str s) = true ↔ j = .str s
  eq_bool : ∀ j b, eq j (.bool b) = true ↔ j = .bool b
  eq_int_self : ∀ n, eq (.int n) (.int n) = true
  /-- Messages are ASCII around the key they quote. -/
  what_ascii : ∀ f, (∀ k, f = .noKey k → Text.ascii k = true) → Text.ascii (what f) = true

namespace JsonLib

variable (lib : JsonLib)

/-- `dump().size()` of a value that prints. -/
def len (j : Json) : Nat := ((lib.dump j).getD "").length

theorem dump_eq_some {j : Json} (h : j.utf8 = true) : ∃ t, lib.dump j = some t := by
  rw [← lib.dump_isSome] at h
  exact Option.isSome_iff_exists.mp h

theorem dump_eq_none {j : Json} : lib.dump j = none ↔ j.utf8 = false := by
  rw [← lib.dump_isSome]
  cases lib.dump j <;> simp

theorem dumpSize_eq_some {j : Json} (h : j.utf8 = true) : lib.dumpSize j = some (lib.len j) := by
  obtain ⟨t, ht⟩ := lib.dump_eq_some h
  rw [lib.dumpSize_eq, len, ht]; rfl

theorem dumpSize_eq_none {j : Json} : lib.dumpSize j = none ↔ j.utf8 = false := by
  rw [lib.dumpSize_eq, Option.map_eq_none_iff, lib.dump_eq_none]

theorem len_arr {xs : List Json} (h : Json.utf8Elems xs = true) :
    lib.len (.arr xs) = 2 + (xs.length - 1) + (xs.map lib.len).sum := by
  obtain ⟨t, ht⟩ := lib.dump_eq_some (j := .arr xs) (by simpa using h)
  rw [len, ht, Option.getD_some, lib.dump_arr xs t ht]
  rfl

theorem len_obj {ms : List (String × Json)} (h : Json.utf8Members ms = true) :
    lib.len (.obj ms) =
      2 + (ms.length - 1) + (ms.map fun m => lib.len (.str m.1) + 1 + lib.len m.2).sum := by
  obtain ⟨t, ht⟩ := lib.dump_eq_some (j := .obj ms) (by simpa using h)
  rw [len, ht, Option.getD_some, lib.dump_obj ms t ht]
  rfl

/-- An element appended costs its own length, and a comma behind another one. -/
theorem len_append {xs : List Json} {x : Json} (h : Json.utf8Elems (xs ++ [x]) = true) :
    lib.len (.arr (xs ++ [x])) =
      lib.len (.arr xs) + lib.len x + if xs.isEmpty then 0 else 1 := by
  have hxs : Json.utf8Elems xs = true := by
    rw [Json.utf8Elems_append, Bool.and_eq_true] at h
    exact h.1
  rw [lib.len_arr h, lib.len_arr hxs, List.map_append, List.sum_append, List.length_append]
  cases xs with
  | nil => simp
  | cons y ys => simp; omega

/-- How the library prints flags, counters and strings without escapes. -/
structure PrintsPlainly : Prop where
  bool : ∀ b : Bool, lib.dump (.bool b) = some (if b then "true" else "false")
  nat : ∀ n : Nat, lib.dump (.int n) = some n.repr
  str : ∀ s, Text.plain s = true → lib.dump (.str s) = some ("\"" ++ s ++ "\"")

namespace PrintsPlainly

variable {lib} (hlib : lib.PrintsPlainly)
include hlib

theorem len_bool (b : Bool) : 4 ≤ lib.len (.bool b) ∧ lib.len (.bool b) ≤ 5 := by
  rw [len, hlib.bool]
  cases b <;> decide

theorem len_str {s : String} (h : Text.plain s = true) : lib.len (.str s) = s.length + 2 := by
  have hquote : "\"".length = 1 := rfl
  rw [len, hlib.str s h, Option.getD_some, String.length_append, String.length_append]
  omega

theorem len_nat (n : Nat) : lib.len (.int n) = n.repr.length := by
  rw [len, hlib.nat, Option.getD_some]

/-- A counter that grows by one grows by one digit at most. -/
theorem len_succ (n : Nat) : lib.len (.int (n + 1 : Nat)) ≤ lib.len (.int n) + 1 := by
  rw [hlib.len_nat, hlib.len_nat, Nat.length_repr_le_iff (by omega)]
  have hpos : 0 < n.repr.length := Nat.length_repr_pos
  have h := (Nat.length_repr_le_iff hpos).mp (Nat.le_refl n.repr.length)
  rw [Nat.pow_succ]
  omega

end PrintsPlainly

/-- Values a text can hold print differently. -/
theorem dump_inj {a b : Json} {m n : Nat} {t : String} (ha : a.wf = true) (hb : b.wf = true)
    (hm : a.plainBelow m = true) (hn : b.plainBelow n = true) (hta : lib.dump a = some t)
    (htb : lib.dump b = some t) : a = b := by
  have h := (lib.parse_dump m a t ha hm hta).symm.trans (lib.parse_dump n b t hb hn htb)
  rw [← Doc.toJson_ofJson ha, ← Doc.toJson_ofJson hb, Option.some.inj h]

/-- The library with a parser that builds only values of its own type, their strings valid
UTF-8. -/
def checked : JsonLib :=
  { lib with
    parse := fun t => (lib.parse t).filter fun d => d.toJson.wf && d.toJson.utf8
    parse_dump := fun n j t hw hp ht => by
      have hu : j.utf8 = true := by rw [← lib.dump_isSome, ht]; rfl
      rw [lib.parse_dump n j t hw hp ht, Option.filter_some, Doc.toJson_ofJson hw, hw, hu]
      rfl }

theorem checked_parse {t : String} {d : Doc} (h : lib.checked.parse t = some d) :
    d.toJson.wf = true ∧ d.toJson.utf8 = true := by
  have h' := (Option.filter_eq_some_iff.mp h).2
  rwa [Bool.and_eq_true] at h'

end JsonLib

end MirrorCpp
