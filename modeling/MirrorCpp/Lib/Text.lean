import Mathlib.Data.List.Basic

/-!
# Byte strings

A C++ `std::string` is a sequence of bytes. It is written as a `String` with one
character per byte (`U+0000` to `U+00FF`), so that ASCII literals read as they do in the
source, and text that is no valid UTF-8 can be written too. `Text.utf8` is the check a JSON
serialiser makes of the bytes (RFC 3629: no overlong form, no surrogate, at most `U+10FFFF`).
-/

namespace MirrorCpp.Text

/-- The characters of `s`, read off its bytes where these are ASCII: the kernel is slow to decode
a literal. -/
def chars (s : String) : List Char :=
  let bytes := s.toByteArray.data.toList
  if bytes.all fun b => Nat.blt b.toNat 128 then bytes.map fun b => Char.ofNat b.toNat
  else s.toList

/-- A character whose bytes are all ASCII has one, itself. -/
theorem map_utf8EncodeChar {c : Char} (h : ∀ b ∈ String.utf8EncodeChar c, b.toNat < 128) :
    (String.utf8EncodeChar c).map (fun b => Char.ofNat b.toNat) = [c] := by
  have hlead : ∀ n, 128 ≤ n → n < 256 → ¬(UInt8.ofNat n).toNat < 128 := by
    intro n hn hlt
    rw [UInt8.toNat_ofNat', Nat.mod_eq_of_lt (by simpa using hlt)]
    omega
  unfold String.utf8EncodeChar at h ⊢
  dsimp only at h ⊢
  split at h
  · rename_i hc
    rw [if_pos hc, List.map_singleton, UInt8.toNat_ofNat', Nat.mod_eq_of_lt (by omega)]
    exact congrArg (fun c => [c]) (Char.ofNat_toNat c)
  · split at h
    · exact absurd (h _ (List.mem_cons_self ..)) (hlead _ (by omega) (by omega))
    · split at h
      · exact absurd (h _ (List.mem_cons_self ..)) (hlead _ (by omega) (by omega))
      · exact absurd (h _ (List.mem_cons_self ..)) (hlead _ (by omega) (by omega))

@[simp] theorem chars_eq (s : String) : chars s = s.toList := by
  have hbytes : s.toByteArray.data.toList = s.toList.flatMap String.utf8EncodeChar := by
    conv_lhs => rw [← String.ofList_toList (s := s), String.toByteArray_ofList, List.utf8Encode]
    exact List.toList_data_toByteArray
  unfold chars
  dsimp only
  rw [hbytes]
  split
  · rename_i h
    simp only [List.all_eq_true, Nat.blt_eq] at h
    generalize s.toList = cs at h
    induction cs with
    | nil => rfl
    | cons c cs ih =>
      rw [List.flatMap_cons] at h ⊢
      rw [List.map_append, map_utf8EncodeChar fun b hb => h b (List.mem_append_left _ hb),
        ih fun b hb => h b (List.mem_append_right _ hb)]
      rfl
  · rfl
/-- The decoder's state: `need` continuation bytes are owed, the next one in `[lo, hi]`. -/
structure Utf8State where
  need : Nat
  lo : Nat
  hi : Nat
  deriving DecidableEq, Repr

def Utf8State.start : Utf8State := ⟨0, 0x80, 0xBF⟩

/-- The first byte of a character. -/
def utf8Lead (b : Nat) : Option Utf8State :=
  if b ≤ 0x7F then some .start
  else if 0xC2 ≤ b ∧ b ≤ 0xDF then some ⟨1, 0x80, 0xBF⟩
  else if b = 0xE0 then some ⟨2, 0xA0, 0xBF⟩
  else if b = 0xED then some ⟨2, 0x80, 0x9F⟩
  else if 0xE1 ≤ b ∧ b ≤ 0xEF then some ⟨2, 0x80, 0xBF⟩
  else if b = 0xF0 then some ⟨3, 0x90, 0xBF⟩
  else if 0xF1 ≤ b ∧ b ≤ 0xF3 then some ⟨3, 0x80, 0xBF⟩
  else if b = 0xF4 then some ⟨3, 0x80, 0x8F⟩
  else none

def utf8Step (s : Utf8State) (b : Nat) : Option Utf8State :=
  match s.need with
  | 0 => utf8Lead b
  | n + 1 => if s.lo ≤ b ∧ b ≤ s.hi then some ⟨n, 0x80, 0xBF⟩ else none

def utf8Run : Utf8State → List Char → Option Utf8State
  | s, [] => some s
  | s, c :: cs => (utf8Step s c.toNat).bind (utf8Run · cs)

/-- The bytes of `s` are well-formed UTF-8. -/
def utf8 (s : String) : Bool := utf8Run .start (chars s) == some .start

def asciiChar (c : Char) : Bool := decide (c.toNat ≤ 0x7F)

def ascii (s : String) : Bool := (chars s).all asciiChar

/-- Printable ASCII that a JSON string holds as it is. -/
def plain (s : String) : Bool :=
  (chars s).all fun c => decide (0x20 ≤ c.toNat ∧ c.toNat ≤ 0x7E) && c != '"' && c != '\\'

/-- The first `n` bytes (`substr(0, n)`). -/
def firstBytes (n : Nat) (s : String) : String := String.ofList (s.toList.take n)

/-- A byte inside a character, not its first. -/
def continues (c : Char) : Bool := decide (0x80 ≤ c.toNat ∧ c.toNat ≤ 0xBF)

/-- No character of `s` lies on both sides of byte `n`. -/
def boundary (n : Nat) (s : String) : Bool := !(s.toList[n]?.any continues)

theorem utf8Run_append (s : Utf8State) (xs ys : List Char) :
    utf8Run s (xs ++ ys) = (utf8Run s xs).bind (utf8Run · ys) := by
  induction xs generalizing s with
  | nil => rfl
  | cons c cs ih =>
    simp only [List.cons_append, utf8Run]
    cases utf8Step s c.toNat with
    | none => rfl
    | some t => exact ih t

theorem utf8Run_ascii {cs : List Char} (h : cs.all asciiChar = true) :
    utf8Run .start cs = some .start := by
  induction cs with
  | nil => rfl
  | cons c cs ih =>
    simp only [List.all_cons, Bool.and_eq_true, asciiChar, decide_eq_true_eq] at h
    have hstep : utf8Step .start c.toNat = some .start := by
      simp [utf8Step, Utf8State.start, utf8Lead, h.1]
    simp [utf8Run, hstep, ih h.2]

theorem utf8_of_ascii {s : String} (h : ascii s = true) : utf8 s = true := by
  rw [utf8, utf8Run_ascii h]
  rfl

theorem utf8_append {s t : String} (hs : utf8 s = true) (ht : utf8 t = true) :
    utf8 (s ++ t) = true := by
  simp only [utf8, chars_eq, beq_iff_eq] at hs ht ⊢
  rw [String.toList_append, utf8Run_append, hs]
  exact ht

theorem ascii_iff {s : String} : ascii s = true ↔ ∀ c ∈ s.toList, asciiChar c = true := by
  rw [ascii, chars_eq, List.all_eq_true]

theorem ascii_append {s t : String} (hs : ascii s = true) (ht : ascii t = true) :
    ascii (s ++ t) = true := by
  simp only [ascii, chars_eq] at hs ht
  simp only [ascii, chars_eq, String.toList_append, List.all_append, hs, ht, Bool.and_self]

theorem ascii_of_plain {s : String} (h : plain s = true) : ascii s = true := by
  simp only [plain, ascii, List.all_eq_true, Bool.and_eq_true, decide_eq_true_eq] at h ⊢
  intro c hc
  have := (h c hc).1.1
  simp only [asciiChar, decide_eq_true_eq]
  omega

/-! ## Cutting -/

theorem length_firstBytes (n : Nat) (s : String) : (firstBytes n s).length ≤ n := by
  rw [firstBytes, String.length_ofList, List.length_take]
  exact Nat.min_le_left _ _

theorem boundary_of_length {n : Nat} {s : String} (h : s.length ≤ n) : boundary n s = true := by
  rw [← String.length_toList] at h
  rw [boundary, List.getElem?_eq_none h]
  rfl

theorem boundary_of_ascii {n : Nat} {s : String} (h : ascii s = true) : boundary n s = true := by
  simp only [boundary, Bool.not_eq_true', Option.any_eq_false]
  intro c hc
  rw [ascii, chars_eq] at h
  have hb := List.all_eq_true.mp h c (List.mem_of_getElem? hc)
  simp only [asciiChar, decide_eq_true_eq] at hb
  simp only [continues, decide_eq_false_iff_not]
  omega

/-- The states a run from the start can be in. -/
def Utf8State.Sound (s : Utf8State) : Prop := s = .start ∨ 0 < s.need ∧ 0x80 ≤ s.lo ∧ s.hi ≤ 0xBF

theorem sound_lead {b : Nat} {s : Utf8State} (h : utf8Lead b = some s) : s.Sound := by
  unfold utf8Lead at h
  repeat' split at h
  all_goals cases h
  · exact .inl rfl
  all_goals exact .inr ⟨by decide, by decide, by decide⟩

theorem sound_step {s t : Utf8State} {b : Nat} (h : utf8Step s b = some t) : t.Sound := by
  unfold utf8Step at h
  split at h
  · exact sound_lead h
  · rename_i n _
    split at h
    · cases h
      cases n with
      | zero => exact .inl rfl
      | succ n => exact .inr ⟨Nat.succ_pos n, Nat.le_refl _, Nat.le_refl _⟩
    · cases h

theorem sound_run {cs : List Char} {s t : Utf8State} (hs : s.Sound)
    (h : utf8Run s cs = some t) : t.Sound := by
  induction cs generalizing s with
  | nil => cases h; exact hs
  | cons c cs ih =>
    simp only [utf8Run, Option.bind_eq_some_iff] at h
    obtain ⟨u, hu, h⟩ := h
    exact ih (sound_step hu) h

theorem continues_start {c : Char} {t : Utf8State} (h : utf8Step .start c.toNat = some t) :
    continues c = false := by
  simp only [continues, decide_eq_false_iff_not]
  rintro ⟨hlo, hhi⟩
  simp only [utf8Step, Utf8State.start, utf8Lead] at h
  repeat' split at h
  all_goals first | omega | cases h

/-- A state that takes another byte tells whether it begins a character. -/
theorem continues_step {s t : Utf8State} {c : Char} (hs : s.Sound)
    (h : utf8Step s c.toNat = some t) : continues c = true ↔ s ≠ .start := by
  rcases hs with rfl | ⟨hn, hlo, hhi⟩
  · simp [continues_start h]
  · obtain ⟨n, hn'⟩ : ∃ n, s.need = n + 1 := ⟨s.need - 1, by omega⟩
    have hne : s ≠ .start := by rintro rfl; cases hn
    simp only [utf8Step, hn'] at h
    split at h
    · rename_i hb
      simp only [continues, decide_eq_true_eq, ne_eq, hne, not_false_eq_true, iff_true]
      omega
    · cases h

/-- A cut keeps valid text valid exactly where it falls between two characters. -/
theorem utf8_firstBytes (n : Nat) {s : String} (h : utf8 s = true) :
    utf8 (firstBytes n s) = boundary n s := by
  simp only [utf8, chars_eq, beq_iff_eq] at h
  have hrun := h
  rw [← List.take_append_drop n s.toList, utf8Run_append, Option.bind_eq_some_iff] at hrun
  obtain ⟨u, hu, hrest⟩ := hrun
  have hcut : utf8 (firstBytes n s) = decide (u = .start) := by
    rw [utf8, firstBytes, chars_eq, String.toList_ofList, hu]
    rfl
  rw [hcut, boundary]
  cases hc : s.toList[n]? with
  | none =>
    -- nothing is cut off
    rw [List.drop_eq_nil_of_le (List.getElem?_eq_none_iff.mp hc)] at hrest
    simpa using (Option.some.inj hrest)
  | some c =>
    rw [List.drop_eq_getElem?_toList_append, hc] at hrest
    simp only [Option.toList_some, List.singleton_append, utf8Run,
      Option.bind_eq_some_iff] at hrest
    obtain ⟨v, hv, -⟩ := hrest
    have hiff := continues_step (sound_run (.inl rfl) hu) hv
    by_cases hs : u = .start <;> simp_all

end MirrorCpp.Text
