import Mathlib.Tactic.IntervalCases
import MirrorCpp.Interface.Strict

/-!
# One spelling a digest

A nibble has one lower-case digit and a digit is one nibble, so the 64 digits that
`semantic_digest_from_hex` accepts are the ones `semantic_digest_hex` writes of the digest it
reads. With the `sha256:` in front the same holds on the wire: the accepted texts and the digests
are in bijection.
-/

namespace MirrorCpp.Interface

open Protocol

/-! ## Nibbles -/

theorem nibble_hexDigit {n : Nat} (h : n < 16) : nibble (hexDigit n) = some n := by
  interval_cases n <;> rfl

theorem hexDigit_nibble {c : Char} {n : Nat} (h : nibble c = some n) :
    n < 16 ∧ hexDigit n = c := by
  have hc : c = Char.ofNat c.toNat := (Char.ofNat_toNat c).symm
  have h0 : '0'.toNat = 48 := rfl
  have h9 : '9'.toNat = 57 := rfl
  have ha : 'a'.toNat = 97 := rfl
  have hf : 'f'.toNat = 102 := rfl
  simp only [nibble, Char.le_def, UInt32.le_iff_toNat_le, Char.toNat_val] at h
  split at h
  · next hd =>
    injection h with h
    have hn : n < 10 := by omega
    have hcn : c.toNat = 48 + n := by omega
    rw [hc, hcn]
    refine ⟨by omega, ?_⟩
    clear hc hcn h hd
    interval_cases n <;> rfl
  · split at h
    · next hd =>
      injection h with h
      have hl : 10 ≤ n := by omega
      have hn : n < 16 := by omega
      have hcn : c.toNat = 87 + n := by omega
      rw [hc, hcn]
      refine ⟨hn, ?_⟩
      clear hc hcn h hd
      interval_cases n <;> rfl
    · cases h

/-! ## Pairs of digits -/

/-- The two digits of a byte, the high half first. -/
def hexPair (b : UInt8) : List Char := [hexDigit (b.toNat / 16), hexDigit (b.toNat % 16)]

theorem toList_semanticDigestHex (d : SemanticDigest) :
    (semanticDigestHex d).toList = d.bytes.flatMap hexPair := String.toList_ofList

theorem readPairs_hexPair (bs : List UInt8) : readPairs (bs.flatMap hexPair) = some bs := by
  induction bs with
  | nil => rfl
  | cons b bs ih =>
    have hb : b.toNat < 256 := b.toNat_lt
    have hv : UInt8.ofNat (16 * (b.toNat / 16) + b.toNat % 16) = b := by
      rw [Nat.div_add_mod, UInt8.ofNat_toNat]
    simp only [List.flatMap_cons, hexPair, List.cons_append, List.nil_append, readPairs,
      nibble_hexDigit (show b.toNat / 16 < 16 by omega),
      nibble_hexDigit (show b.toNat % 16 < 16 by omega), ih, bind, Option.bind_some, hv, pure]

/-- The digits read are the digits written: a pair is put together from two nibbles and taken
apart into the same two. -/
theorem hexPair_readPairs : ∀ {cs : List Char} {bs : List UInt8}, readPairs cs = some bs →
    bs.flatMap hexPair = cs
  | [], _, h => by cases h; rfl
  | [_], _, h => by cases h
  | high :: low :: cs, _, h => by
    simp only [readPairs, bind, Option.bind_eq_some_iff, pure, Option.some.injEq] at h
    obtain ⟨m, hm, n, hn, bs, hbs, rfl⟩ := h
    obtain ⟨hm16, hm⟩ := hexDigit_nibble hm
    obtain ⟨hn16, hn⟩ := hexDigit_nibble hn
    have hb : (UInt8.ofNat (16 * m + n)).toNat = 16 * m + n := by
      rw [UInt8.toNat_ofNat']
      omega
    have hdiv : (16 * m + n) / 16 = m := by omega
    have hmod : (16 * m + n) % 16 = n := by omega
    rw [List.flatMap_cons, hexPair_readPairs hbs, hexPair, hb, hdiv, hmod, hm, hn]
    rfl

/-! ## The codec -/

theorem semanticDigestFromHex_iff (hex : String) (d : SemanticDigest) :
    semanticDigestFromHex hex = .ok d ↔ hex = semanticDigestHex d := by
  constructor
  · intro h
    unfold semanticDigestFromHex at h
    split at h
    · cases h
    · split at h
      · next bytes hb =>
        injection h with h
        subst h
        rw [← String.toList_inj, toList_semanticDigestHex, hexPair_readPairs hb]
      · cases h
  · rintro rfl
    have hp : readPairs (semanticDigestHex d).toList = some d.bytes := by
      rw [toList_semanticDigestHex, readPairs_hexPair]
    have hl : (semanticDigestHex d).length = 64 := by
      rw [← String.length_toList, length_readPairs hp, d.size]
    unfold semanticDigestFromHex
    rw [dif_neg (not_not.mpr hl)]
    split
    · next bytes hb =>
      rw [hp] at hb
      injection hb with hb
      subst hb
      rfl
    · next hb =>
      rw [hp] at hb
      cases hb

theorem parseWireSemanticDigest_iff (wire : String) (d : SemanticDigest) :
    parseWireSemanticDigest wire = .ok d ↔ wire = renderWireSemanticDigest d := by
  unfold parseWireSemanticDigest
  constructor
  · intro h
    split at h
    · next hp =>
      obtain ⟨rest, hrest⟩ := List.isPrefixOf_iff_prefix.mp hp
      have hd := (semanticDigestFromHex_iff _ d).mp h
      rw [← String.toList_inj, renderWireSemanticDigest, String.toList_append, ← hd,
        String.toList_ofList, ← hrest, ← String.length_toList, List.drop_left]
    · cases h
  · rintro rfl
    have hp : wireLead.toList.isPrefixOf (renderWireSemanticDigest d).toList = true := by
      rw [List.isPrefixOf_iff_prefix, renderWireSemanticDigest, String.toList_append]
      exact List.prefix_append _ _
    rw [if_pos hp, semanticDigestFromHex_iff, renderWireSemanticDigest, String.toList_append,
      ← String.length_toList, List.drop_left, String.ofList_toList]

/-- The accepted wire texts and the digests are in bijection: the digest of a rendered text is
read back, an accepted text is the rendering of what it names, and two accepted texts are equal
exactly when their bytes are. -/
theorem wire_digest_bijection (wire wire' : String) (d d' : SemanticDigest) :
    parseWireSemanticDigest (renderWireSemanticDigest d) = .ok d ∧
    (parseWireSemanticDigest wire = .ok d → renderWireSemanticDigest d = wire) ∧
    (parseWireSemanticDigest wire = .ok d → parseWireSemanticDigest wire' = .ok d' →
      (wire = wire' ↔ d.bytes = d'.bytes)) := by
  refine ⟨(parseWireSemanticDigest_iff _ d).mpr rfl, fun h => ?_, fun h h' => ⟨?_, ?_⟩⟩
  · exact ((parseWireSemanticDigest_iff wire d).mp h).symm
  · rintro rfl
    rw [h] at h'
    injection h' with h'
    rw [h']
  · intro hb
    have hd : d = d' := by
      cases d
      cases d'
      cases hb
      rfl
    rw [(parseWireSemanticDigest_iff wire d).mp h, (parseWireSemanticDigest_iff wire' d').mp h', hd]

/-- The digest whose bytes are 0 to 31. -/
def countingDigest : SemanticDigest :=
  ⟨(List.range 32).map UInt8.ofNat, by rw [List.length_map, List.length_range]⟩

def countingWire : String :=
  "sha256:000102030405060708090a0b0c0d0e0f101112131415161718191a1b1c1d1e1f"

/-- The same bytes backwards. -/
def descendingDigest : SemanticDigest :=
  ⟨countingDigest.bytes.reverse, by rw [List.length_reverse, countingDigest.size]⟩

def descendingWire : String :=
  "sha256:1f1e1d1c1b1a191817161514131211100f0e0d0c0b0a09080706050403020100"

theorem wire_digest_bijection_counting :
    renderWireSemanticDigest countingDigest = countingWire ∧
    (countingWire = descendingWire ↔ countingDigest.bytes = descendingDigest.bytes) :=
  have hp : parseWireSemanticDigest countingWire = .ok countingDigest := rfl
  have hp' : parseWireSemanticDigest descendingWire = .ok descendingDigest := rfl
  have h := wire_digest_bijection countingWire descendingWire countingDigest descendingDigest
  ⟨h.2.1 hp, h.2.2 hp hp'⟩

end MirrorCpp.Interface
