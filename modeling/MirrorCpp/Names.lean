import MirrorCpp.Lib.Text

/-!
# Identifiers and digests

The syntax checks both schedulers make of declared names. They differ in one character:
`schedule.cpp` and `schedule_exploration.cpp` accept `/`, `schedule_sync.cpp` does not.
-/

namespace MirrorCpp

/-- A letter, a digit, `_`, `-`, `.`, or one of `extra`. -/
def nameChar (extra : List Char) (c : Char) : Bool :=
  ('a' ≤ c && c ≤ 'z') || ('A' ≤ c && c ≤ 'Z') || ('0' ≤ c && c ≤ '9') || c == '_' || c == '-' ||
    c == '.' || extra.contains c

/-- Between 1 and 128 name characters. -/
def boundedName (extra : List Char) (id : String) : Bool :=
  !id.isEmpty && decide ((Text.chars id).length ≤ 128) && (Text.chars id).all (nameChar extra)

/-- 64 lower-case hexadecimal digits. -/
def digest (d : String) : Bool :=
  (Text.chars d).length == 64 &&
    (Text.chars d).all fun c => ('0' ≤ c && c ≤ '9') || ('a' ≤ c && c ≤ 'f')

structure Identity where
  modelSemanticDigest : String
  mappingSha256 : String
  implementationSha256 : String
  deriving DecidableEq, Repr

def Identity.valid (v : Identity) : Bool :=
  digest v.modelSemanticDigest && digest v.mappingSha256 && digest v.implementationSha256

theorem nameChar_ascii {extra : List Char} (he : extra.all Text.asciiChar = true) {c : Char}
    (h : nameChar extra c = true) : Text.asciiChar c = true := by
  simp only [nameChar, Bool.or_eq_true, Bool.and_eq_true, decide_eq_true_eq, beq_iff_eq,
    List.contains_iff_mem] at h
  rcases h with (((((h | h) | h) | rfl) | rfl) | rfl) | h
  · have h1 : c.toNat ≤ 'z'.toNat := h.2
    simpa [Text.asciiChar] using Nat.le_trans h1 (by decide)
  · have h1 : c.toNat ≤ 'Z'.toNat := h.2
    simpa [Text.asciiChar] using Nat.le_trans h1 (by decide)
  · have h1 : c.toNat ≤ '9'.toNat := h.2
    simpa [Text.asciiChar] using Nat.le_trans h1 (by decide)
  · decide
  · decide
  · decide
  · exact List.all_eq_true.mp he c h

theorem boundedName_ascii {extra : List Char} (he : extra.all Text.asciiChar = true) {id : String}
    (h : boundedName extra id = true) : Text.ascii id = true := by
  simp only [boundedName, Bool.and_eq_true, List.all_eq_true] at h
  rw [Text.ascii, List.all_eq_true]
  exact fun c hc => nameChar_ascii he (h.2 c hc)

end MirrorCpp
