import MirrorCpp.Lib.BigInt
import MirrorCpp.Lib.Json

/-!
# Values and their ITF encoding (`value.hpp`, `value.cpp`)

A record holds its fields, and a state its variables, in key order, as `std::map` iterates them.
What a decoder throws is a `Thrown`; the two arguments of one `emplace_back` are evaluated in an
order the language leaves open, so decoding takes it as a parameter (`late`: the second argument
comes first).
-/

namespace MirrorCpp.Itf

inductive Value where
  | null
  | integer (n : Int)
  | boolean (b : Bool)
  | string (s : String)
  | set (elems : List Value)
  | seq (elems : List Value)
  | tuple (elems : List Value)
  | record (fields : List (String × Value))
  | map (entries : List (Value × Value))
  | variant (tag : String) (value : Value)
  | unserializable (text : String)
  deriving Repr

abbrev State := List (String × Value)

/-- An exception. -/
inductive Thrown where
  | jsonError (message : String)
  /-- Of the JSON library. -/
  | library (f : JsonFault)
  /-- Of the JSON library: the key of an iterator into no object. -/
  | invalidIterator
  /-- `std::runtime_error`, of the big-integer library. -/
  | runtimeError
  | invalidArgument (message : String)
  deriving DecidableEq, Repr

inductive Kind where
  | null
  | integer
  | boolean
  | string
  | set
  | seq
  | tuple
  | record
  | map
  | variant
  | unserializable
  deriving DecidableEq, Repr

namespace Value

def kind : Value → Kind
  | null => .null
  | integer _ => .integer
  | boolean _ => .boolean
  | string _ => .string
  | set _ => .set
  | seq _ => .seq
  | tuple _ => .tuple
  | record _ => .record
  | map _ => .map
  | variant _ _ => .variant
  | unserializable _ => .unserializable

/-- The values directly inside. -/
def children : Value → List Value
  | set xs | seq xs | tuple xs => xs
  | record fs => fs.map Prod.snd
  | map es => es.flatMap fun e => [e.1, e.2]
  | variant _ v => [v]
  | _ => []

theorem sizeOf_children {v w : Value} (h : w ∈ v.children) : sizeOf w < sizeOf v := by
  cases v with
  | set xs | seq xs | tuple xs =>
    have := List.sizeOf_lt_of_mem (show w ∈ xs from h)
    simp only [set.sizeOf_spec, seq.sizeOf_spec, tuple.sizeOf_spec]
    omega
  | record fs =>
    obtain ⟨f, hf, rfl⟩ := List.mem_map.mp h
    have := List.sizeOf_lt_of_mem hf
    obtain ⟨k, v⟩ := f
    simp only [Prod.mk.sizeOf_spec, record.sizeOf_spec] at this ⊢
    omega
  | map es =>
    obtain ⟨e, he, hw⟩ := List.mem_flatMap.mp h
    have := List.sizeOf_lt_of_mem he
    obtain ⟨k, v⟩ := e
    simp only [Prod.mk.sizeOf_spec, map.sizeOf_spec, List.mem_cons, List.not_mem_nil,
      or_false] at this hw ⊢
    rcases hw with rfl | rfl <;> omega
  | variant t v =>
    obtain rfl : w = v := by simpa [children] using h
    simp only [variant.sizeOf_spec]
    omega
  | _ => cases h

/-- Induction over the values inside a value. -/
theorem induction {P : Value → Prop} (h : ∀ v, (∀ w ∈ v.children, P w) → P v) (v : Value) : P v :=
  h v fun w _ => induction h w
termination_by sizeOf v
decreasing_by exact sizeOf_children ‹_›

def isSeq : Value → Bool
  | seq _ => true
  | _ => false

def isString : Value → Bool
  | string _ => true
  | _ => false

end Value

/-! ## Encoding -/

mutual
def encodeValue : Value → Json
  | .null => .null
  | .integer n => .obj [("#bigint", .str (BigInt.str n))]
  | .boolean b => .bool b
  | .string s => .str s
  | .set xs => .obj [("#set", .arr (encodeElems xs))]
  | .seq xs => .arr (encodeElems xs)
  | .tuple xs => .obj [("#tup", .arr (encodeElems xs))]
  | .record fs => .obj (encodeFields fs)
  | .map es => .obj [("#map", .arr (encodeEntries es))]
  | .variant t v => .obj [("tag", .str t), ("value", encodeValue v)]
  | .unserializable s => .obj [("#unserializable", .str s)]

def encodeElems : List Value → List Json
  | [] => []
  | x :: xs => encodeValue x :: encodeElems xs

def encodeFields : List (String × Value) → List (String × Json)
  | [] => []
  | (k, v) :: fs => (k, encodeValue v) :: encodeFields fs

def encodeEntries : List (Value × Value) → List Json
  | [] => []
  | (k, v) :: es => .arr [encodeValue k, encodeValue v] :: encodeEntries es
end

def encodeState (s : State) : Json := .obj (encodeFields s)

/-! ## Decoding -/

def decodeBigint (s : String) : Except Thrown Value :=
  if s = "" then .ok .null
  else if !BigInt.isDecimal s then .error (.jsonError ("malformed #bigint: '" ++ s ++ "'"))
  else match BigInt.read s with
    | some n => .ok (.integer n)
    | none => .error .runtimeError

/-- Two arguments of one call. -/
def both {α β : Type} (late : Bool) (a : Except Thrown α) (b : Except Thrown β) :
    Except Thrown (α × β) :=
  if late then do let y ← b; let x ← a; return (x, y)
  else do let x ← a; let y ← b; return (x, y)

mutual
def decodeValue (late : Bool) : Json → Except Thrown Value
  | .null => .ok .null
  | .bool b => .ok (.boolean b)
  | .str s => .ok (.string s)
  | .int n => .ok (.integer n)
  | .float d =>
    if !d.isFinite || !d.isIntegral then .error (.jsonError "bare JSON number not in ITF grammar")
    else .ok (.integer d.toInt)
  | .arr xs => .seq <$> decodeElems late xs
  | .obj [("#bigint", .str s)] => decodeBigint s
  | .obj [("#tup", .arr xs)] => .tuple <$> decodeElems late xs
  | .obj [("#set", .arr xs)] => .set <$> decodeElems late xs
  | .obj [("#map", .arr xs)] => .map <$> decodeEntries late xs
  | .obj [("#unserializable", .str s)] => .ok (.unserializable s)
  | .obj [("tag", .str t), ("value", v)] => .variant t <$> decodeValue late v
  | .obj [("tag", _), ("value", _)] => .error (.jsonError "malformed variant: tag must be a string")
  | .obj ms => .record <$> decodeFields late ms
  -- neither is an object, but each has one value to iterate over
  | .binary _ => .error .invalidIterator
  | .discarded => .error .invalidIterator

def decodeElems (late : Bool) : List Json → Except Thrown (List Value)
  | [] => .ok []
  | x :: xs => do
    let v ← decodeValue late x
    let vs ← decodeElems late xs
    return v :: vs

def decodeEntries (late : Bool) : List Json → Except Thrown (List (Value × Value))
  | [] => .ok []
  | .arr [k, v] :: es => do
    let e ← both late (decodeValue late k) (decodeValue late v)
    let es ← decodeEntries late es
    return e :: es
  | _ :: _ => .error (.jsonError "malformed #map: entries must be [key, value] pairs")

def decodeFields (late : Bool) : List (String × Json) → Except Thrown (List (String × Value))
  | [] => .ok []
  | (k, v) :: ms => do
    let v ← decodeValue late v
    let fs ← decodeFields late ms
    return (k, v) :: fs
end

def decodeState (late : Bool) : Json → Except Thrown State
  | .obj ms => decodeFields late ms
  | _ => .error (.jsonError "state must be a JSON object")

end MirrorCpp.Itf
