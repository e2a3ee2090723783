import MirrorCpp.Itf.Value
import MirrorCpp.Lib.Fallible
import MirrorCpp.Lib.SortedMap

/-!
# Canonical states (`schedule_exploration.cpp`)

`canonicalState` prints a state so that equal texts mean equal states. `SemEq` is that equality:
sets by their members at every depth, maps by their entries, all else position by position.
-/

namespace MirrorCpp.Exploration

open Itf Fallible SortedMap

/-! ## The printed form -/

def require (condition : Bool) (message : String) : Except Thrown Unit :=
  if condition then .ok () else .error (.invalidArgument message)

variable (lib : JsonLib)

/-- `dump()`. -/
def dump (j : Json) : Except Thrown String :=
  match lib.dump j with
  | some t => .ok t
  | none => .error (.library .badUtf8)

mutual
/-- The form of a value, and the nodes counted so far. -/
def canonicalValue (value : Value) (depth nodes : Nat) : Except Thrown (Json × Nat) := do
  require (decide (depth ≤ 32) && decide (nodes + 1 ≤ 65536))
    "canonical value exceeds structural bound"
  match value with
  | .null => return (.arr [.str "null"], nodes + 1)
  | .integer n => return (.arr [.str "integer", .str (BigInt.str n)], nodes + 1)
  | .boolean b => return (.arr [.str "boolean", .bool b], nodes + 1)
  | .string s => return (.arr [.str "string", .str s], nodes + 1)
  | .unserializable s => return (.arr [.str "unserializable", .str s], nodes + 1)
  | .variant t v => do
    let (c, nodes) ← canonicalValue v (depth + 1) (nodes + 1)
    return (.arr [.str "variant", .str t, c], nodes)
  | .record fs => do
    let (cs, nodes) ← canonicalFields fs (depth + 1) (nodes + 1)
    return (.arr [.str "record", .arr cs], nodes)
  | .map es => do
    let (rows, nodes) ← canonicalEntries none [] es (depth + 1) (nodes + 1)
    return (.arr [.str "map", .arr (rows.map Prod.snd)], nodes)
  | .set xs => do
    let (rows, nodes) ← canonicalMembers [] xs (depth + 1) (nodes + 1)
    return (.arr [.str "set", .arr (rows.map Prod.snd)], nodes)
  | .seq xs => do
    let (cs, nodes) ← canonicalElems xs (depth + 1) (nodes + 1)
    return (.arr [.str "sequence", .arr cs], nodes)
  | .tuple xs => do
    let (cs, nodes) ← canonicalElems xs (depth + 1) (nodes + 1)
    return (.arr [.str "tuple", .arr cs], nodes)

def canonicalElems : List Value → Nat → Nat → Except Thrown (List Json × Nat)
  | [], _, nodes => .ok ([], nodes)
  | x :: xs, depth, nodes => do
    let (c, nodes) ← canonicalValue x depth nodes
    let (cs, nodes) ← canonicalElems xs depth nodes
    return (c :: cs, nodes)

def canonicalFields : List (String × Value) → Nat → Nat → Except Thrown (List Json × Nat)
  | [], _, nodes => .ok ([], nodes)
  | (k, v) :: fs, depth, nodes => do
    let (c, nodes) ← canonicalValue v depth nodes
    let (cs, nodes) ← canonicalFields fs depth nodes
    return (.arr [.str k, c] :: cs, nodes)

/-- Collect the entries of a map under the texts of their keys. -/
def canonicalEntries (keyKind : Option Kind) (entries : List (String × Json)) :
    List (Value × Value) → Nat → Nat → Except Thrown (List (String × Json) × Nat)
  | [], _, nodes => .ok (entries, nodes)
  | (k, v) :: es, depth, nodes => do
    require (k.kind == .string || k.kind == .integer) "unsupported canonical map key"
    let keyKind := keyKind.getD k.kind
    require (keyKind == k.kind) "mixed canonical map keys"
    let (ck, nodes) ← canonicalValue k depth nodes
    let (cv, nodes) ← canonicalValue v depth nodes
    let text ← dump lib ck
    require (entries.lookup text).isNone "duplicate canonical map key"
    canonicalEntries (some keyKind) (emplace text (.arr [ck, cv]) entries) es depth nodes

/-- Collect the members of a set under their texts. -/
def canonicalMembers (members : List (String × Json)) :
    List Value → Nat → Nat → Except Thrown (List (String × Json) × Nat)
  | [], _, nodes => .ok (members, nodes)
  | x :: xs, depth, nodes => do
    let (c, nodes) ← canonicalValue x depth nodes
    let text ← dump lib c
    canonicalMembers (emplace text c members) xs depth nodes
end

/-- The variables, each with the form of its value. -/
def canonicalVariables : State → Nat → Except Thrown (List Json)
  | [], _ => .ok []
  | (k, v) :: s, nodes => do
    let (c, nodes) ← canonicalValue lib v 0 nodes
    let cs ← canonicalVariables s nodes
    return .arr [.str k, c] :: cs

def canonicalState (s : State) : Except Thrown String := do
  let cs ← canonicalVariables lib s 0
  let result ← dump lib (.arr [.str "mirrors.canonical-state/v1", .arr cs])
  require (decide (result.length ≤ 1048576)) "canonical state exceeds byte bound"
  return result

/-! ## The equality it stands for -/

mutual
/-- Equality of values up to the order and the repetition of set members and the order of map
entries. -/
def SemEq : Value → Value → Prop
  | .null, .null => True
  | .integer m, .integer n => m = n
  | .boolean a, .boolean b => a = b
  | .string s, .string t => s = t
  | .unserializable s, .unserializable t => s = t
  | .variant s v, .variant t w => s = t ∧ SemEq v w
  | .record fs, .record gs => SameFields fs gs
  | .map es, .map gs => EachEntryIn es gs ∧ ∀ g ∈ gs, EntryIn es g
  | .set xs, .set ys => EachIn xs ys ∧ ∀ y ∈ ys, In xs y
  | .seq xs, .seq ys => SameElems xs ys
  | .tuple xs, .tuple ys => SameElems xs ys
  | _, _ => False

/-- Position by position. -/
def SameElems : List Value → List Value → Prop
  | [], [] => True
  | x :: xs, y :: ys => SemEq x y ∧ SameElems xs ys
  | _, _ => False

/-- Field by field. -/
def SameFields : List (String × Value) → List (String × Value) → Prop
  | [], [] => True
  | (k, v) :: fs, (l, w) :: gs => k = l ∧ SemEq v w ∧ SameFields fs gs
  | _, _ => False

/-- Every member of the first list equals one of the second. -/
def EachIn : List Value → List Value → Prop
  | [], _ => True
  | x :: xs, ys => (∃ y ∈ ys, SemEq x y) ∧ EachIn xs ys

/-- Some member of the list equals `y`. -/
def In : List Value → Value → Prop
  | [], _ => False
  | x :: xs, y => SemEq x y ∨ In xs y

def EachEntryIn : List (Value × Value) → List (Value × Value) → Prop
  | [], _ => True
  | (k, v) :: es, gs => (∃ g ∈ gs, SemEq k g.1 ∧ SemEq v g.2) ∧ EachEntryIn es gs

def EntryIn : List (Value × Value) → Value × Value → Prop
  | [], _ => False
  | (k, v) :: es, g => SemEq k g.1 ∧ SemEq v g.2 ∨ EntryIn es g
end

/-- The same variables with equal values. -/
def StateEq (s t : State) : Prop := SameFields s t

end MirrorCpp.Exploration
