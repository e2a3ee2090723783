import MirrorCpp.Protocol.Message

/-!
# Strict JSON of the model interface (`model_interface.cpp`)

`strict_parse` watches the parser's callbacks for repeated keys and deep nesting; the field readers
accept exactly the keys they know. A semantic digest is 32 bytes, written as 64 lower-case
hexadecimal digits.
-/

namespace MirrorCpp.Interface

open Protocol

/-- `mi_error`. -/
def miError (code message : String) : Error :=
  { kind := .modelInterface, message, code := some code }

/-- The code of most refusals. -/
def unexpectedStatus (message : String) : Error := miError "negotiation_status_unexpected" message

/-! ## Parsing -/

/-- What the parser does with a text: its callbacks, then the value or its own exception. -/
structure StrictReader where
  scan : String → List ParseEvent × Except String Doc

/-- The keys of the open objects, innermost first, and the number of open containers. -/
structure Watch where
  objectKeys : List (List String) := []
  containers : Nat := 0

/-- One callback; the error is the text of the exception it throws. -/
def Watch.step (w : Watch) : ParseEvent → Except String Watch
  | .objectStart =>
    if w.containers + 1 > 128 then .error "JSON nesting exceeds 128"
    else .ok { objectKeys := [] :: w.objectKeys, containers := w.containers + 1 }
  | .arrayStart =>
    if w.containers + 1 > 128 then .error "JSON nesting exceeds 128"
    else .ok { w with containers := w.containers + 1 }
  | .objectEnd => .ok { objectKeys := w.objectKeys.tail, containers := w.containers - 1 }
  | .arrayEnd => .ok { w with containers := w.containers - 1 }
  | .key k =>
    match w.objectKeys with
    | [] => .error "object key outside object"
    | keys :: rest =>
      if keys.contains k then .error ("duplicate object key '" ++ k ++ "'")
      else .ok { w with objectKeys := (k :: keys) :: rest }
  | .value => .ok w

def strictParse (rd : StrictReader) (text : String) : Result Json :=
  if text.length > 65535 then
    .error (unexpectedStatus "strict JSON exceeds the 65535-byte protocol payload limit")
  else
    let scanned := rd.scan text
    match scanned.1.foldlM Watch.step {}, scanned.2 with
    | .error what, _ => .error (unexpectedStatus ("strict JSON decode failed: " ++ what))
    | .ok _, .error what => .error (unexpectedStatus ("strict JSON decode failed: " ++ what))
    | .ok _, .ok d => .ok d.toJson

/-! ## Fields -/

def exactObject (value : Json) (path : String) (allowed required : List String) : Result Unit :=
  match value with
  | .obj ms =>
    match ms.find? fun m => !allowed.contains m.1 with
    | some (key, _) => .error (unexpectedStatus (path ++ ": unknown field '" ++ key ++ "'"))
    | none =>
      match required.find? fun key => !value.contains key with
      | some key =>
        .error (unexpectedStatus (path ++ ": missing required field '" ++ key ++ "'"))
      | none => .ok ()
  | _ => .error (unexpectedStatus (path ++ ": object expected"))

def stringField (object : Json) (key path : String) : Result String :=
  match object.field? key with
  | some (.str s) => .ok s
  | _ => .error (unexpectedStatus (path ++ "." ++ key ++ ": string expected"))

def shortString (value : Json) (path : String) : Result Unit :=
  match value with
  | .str s =>
    if s.length > 256 then .error (unexpectedStatus (path ++ ": exceeds 256 UTF-8 bytes"))
    else .ok ()
  | _ => .error (unexpectedStatus (path ++ ": string expected"))

/-- No such member, or null. -/
def absent (object : Json) (key : String) : Bool :=
  match object.field? key with
  | none | some .null => true
  | _ => false

/-! ## Digests -/

structure SemanticDigest where
  bytes : List UInt8
  size : bytes.length = 32
  deriving DecidableEq

instance : Repr SemanticDigest := ⟨fun d n => reprPrec d.bytes n⟩

/-- The value of a lower-case hexadecimal digit. -/
def nibble (c : Char) : Option Nat :=
  if '0' ≤ c ∧ c ≤ '9' then some (c.toNat - '0'.toNat)
  else if 'a' ≤ c ∧ c ≤ 'f' then some (10 + c.toNat - 'a'.toNat)
  else none

/-- Bytes from pairs of digits. -/
def readPairs : List Char → Option (List UInt8)
  | high :: low :: cs => do
    let high ← nibble high
    let low ← nibble low
    let bytes ← readPairs cs
    return UInt8.ofNat (16 * high + low) :: bytes
  | [] => some []
  | [_] => none

theorem length_readPairs : ∀ {cs : List Char} {bs : List UInt8}, readPairs cs = some bs →
    cs.length = 2 * bs.length
  | [], _, h => by cases h; rfl
  | [_], _, h => by cases h
  | high :: low :: cs, bs, h => by
    simp only [readPairs, bind, Option.bind_eq_some_iff, pure, Option.some.injEq] at h
    obtain ⟨h, -, l, -, bs, hbs, rfl⟩ := h
    have := length_readPairs hbs
    simp only [List.length_cons]
    omega

def semanticDigestFromHex (hex : String) : Result SemanticDigest :=
  if h : hex.length ≠ 64 then
    .error (miError "descriptor_digest_invalid"
      "semantic digest must contain 64 lowercase hex characters")
  else
    match hb : readPairs hex.toList with
    | some bytes => .ok ⟨bytes, by
        have := length_readPairs hb
        have hl : hex.toList.length = 64 := by rw [String.length_toList]; simpa using h
        omega⟩
    | none =>
      .error (miError "descriptor_digest_invalid"
        "semantic digest must contain lowercase hexadecimal")

def wireLead : String := "sha256:"

def parseWireSemanticDigest (wire : String) : Result SemanticDigest :=
  if wireLead.toList.isPrefixOf wire.toList then
    semanticDigestFromHex (String.ofList (wire.toList.drop wireLead.length))
  else
    .error (miError "descriptor_digest_invalid" "semantic digest must start with sha256:")

def hexDigit (n : Nat) : Char := ("0123456789abcdef".toList.drop n).headD '0'

def semanticDigestHex (digest : SemanticDigest) : String :=
  String.ofList (digest.bytes.flatMap fun b => [hexDigit (b.toNat / 16), hexDigit (b.toNat % 16)])

def renderWireSemanticDigest (digest : SemanticDigest) : String :=
  wireLead ++ semanticDigestHex digest

def optionalDigest (object : Json) (key path : String) : Result (Option SemanticDigest) :=
  match object.field? key with
  | none | some .null => .ok none
  | some (.str wire) => some <$> parseWireSemanticDigest wire
  | some _ => .error (miError "descriptor_digest_invalid"
    (path ++ "." ++ key ++ ": string expected"))

end MirrorCpp.Interface
