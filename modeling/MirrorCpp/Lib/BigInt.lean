import Mathlib.Data.Int.Basic

/-!
# Decimal texts of big integers

`str` prints the canonical decimal. `read` is the string constructor of the library on a
decimal text (an optional sign and digits): a leading `0` announces octal digits, and a digit
outside the base throws. `decimal` is the integer a decimal text denotes; the constructor reads
that one exactly on the `readable` texts.
-/

namespace MirrorCpp.BigInt

/-- `str()`. -/
def str (n : Int) : String :=
  String.ofList (if n < 0 then '-' :: Nat.toDigits 10 n.natAbs else Nat.toDigits 10 n.natAbs)

/-- The text behind an optional sign. -/
def digits (s : String) : List Char :=
  match s.toList with
  | '-' :: ds => ds
  | ds => ds

/-- An optional sign, then at least one digit and nothing else. -/
def isDecimal (s : String) : Bool := !(digits s).isEmpty && (digits s).all Char.isDigit

/-- The value of digits, read in base 8 behind a leading `0`; `none`: a digit of no octal. -/
def readDigits (ds : List Char) : Option Nat :=
  if ds.head? = some '0' then
    if ds.all (fun c => decide (c.toNat < '8'.toNat)) then some (Nat.ofDigitChars 8 ds 0) else none
  else some (Nat.ofDigitChars 10 ds 0)

/-- The constructor on a decimal text; `none`: it throws. -/
def read (s : String) : Option Int :=
  (readDigits (digits s)).map fun n : Nat => if s.toList.head? = some '-' then -(n : Int) else n

/-- The constructor refuses a decimal text: a leading `0`, then an `8` or a `9`. -/
def badOctal (s : String) : Bool :=
  (digits s).head? == some '0' && (digits s).any fun c => c == '8' || c == '9'

/-- The integer a decimal text denotes. -/
def decimal (s : String) : Int :=
  let n : Nat := Nat.ofDigitChars 10 (digits s) 0
  if s.toList.head? = some '-' then -(n : Int) else n

/-- No leading `0`, or zeros before at most one digit, an octal one. -/
def readable (s : String) : Bool :=
  (digits s).head? != some '0' ||
    match (digits s).dropWhile (· == '0') with
    | [] => true
    | [c] => c.toNat < '8'.toNat
    | _ => false

theorem head_toDigits {n : Nat} (hn : 0 < n) : (Nat.toDigits 10 n).head? ≠ some '0' := by
  induction n using Nat.strong_induction_on with
  | _ n ih =>
    by_cases h : n < 10
    · rw [Nat.toDigits_of_lt_base h]
      have : ∀ m < 10, 0 < m → [Nat.digitChar m].head? ≠ some '0' := by decide
      exact this n h hn
    · rw [Nat.toDigits_of_base_le (by decide) (by omega)]
      have hq := ih (n / 10) (by omega) (by omega)
      obtain ⟨c, cs, hc⟩ := List.exists_cons_of_ne_nil (Nat.toDigits_ne_nil (n := n / 10) (b := 10))
      rw [hc] at hq ⊢
      exact hq

theorem readDigits_toDigits (n : Nat) : readDigits (Nat.toDigits 10 n) = some n := by
  rcases Nat.eq_zero_or_pos n with rfl | hn
  · decide
  · rw [readDigits, if_neg (head_toDigits hn), Nat.ofDigitChars_ten_toDigits]

theorem digits_toDigits (n : Nat) : (Nat.toDigits 10 n).all Char.isDigit = true :=
  List.all_eq_true.mpr fun _ hc => Nat.isDigit_of_mem_toDigits (by decide) (by decide) hc

theorem exists_toDigits (n : Nat) : ∃ c cs, Nat.toDigits 10 n = c :: cs ∧ c ≠ '-' := by
  obtain ⟨c, cs, h⟩ := List.exists_cons_of_ne_nil (Nat.toDigits_ne_nil (n := n) (b := 10))
  refine ⟨c, cs, h, ?_⟩
  rintro rfl
  have := Nat.isDigit_of_mem_toDigits (b := 10) (n := n) (c := '-') (by decide) (by decide)
    (by simp [h])
  exact absurd this (by decide)

theorem digits_str (n : Int) : digits (str n) = Nat.toDigits 10 n.natAbs := by
  obtain ⟨c, cs, h, hc⟩ := exists_toDigits n.natAbs
  unfold str digits
  rw [String.toList_ofList]
  split_ifs with hn
  · rfl
  · rw [h]
    split
    · rename_i heq; cases heq; exact absurd rfl hc
    · rfl

/-- A canonical decimal reads back. -/
theorem read_str (n : Int) : read (str n) = some n := by
  have hsign : (str n).toList.head? = some '-' ↔ n < 0 := by
    obtain ⟨c, cs, h, hc⟩ := exists_toDigits n.natAbs
    unfold str
    rw [String.toList_ofList]
    split_ifs with hn
    · simp [hn]
    · simp [h, hc, hn]
  rw [read, digits_str, readDigits_toDigits, Option.map_some]
  simp only [hsign]
  congr 1
  split_ifs <;> omega

theorem isDecimal_str (n : Int) : isDecimal (str n) = true := by
  simp [isDecimal, digits_str, digits_toDigits, Nat.toDigits_ne_nil]

theorem str_ne_empty (n : Int) : str n ≠ "" := by
  intro h
  have := isDecimal_str n
  rw [h] at this
  exact absurd this (by decide)

theorem readDigits_eq_none {ds : List Char} (hd : ds.all Char.isDigit = true) :
    readDigits ds = none ↔
      ds.head? = some '0' ∧ (ds.any fun c => c == '8' || c == '9') = true := by
  have hdig : ∀ c : Char, c.isDigit = true →
      (decide (c.toNat < '8'.toNat) = false ↔ (c == '8' || c == '9') = true) := by
    intro c hc
    simp only [Char.isDigit, Bool.and_eq_true, decide_eq_true_eq] at hc
    have h1 : (c = '8' ∨ c = '9') ↔ 56 ≤ c.toNat := by
      constructor
      · rintro (rfl | rfl) <;> decide
      · intro h
        have h9 : c.toNat ≤ 57 := by simpa using UInt32.le_iff_toNat_le.mp hc.2
        rcases (by omega : c.toNat = 56 ∨ c.toNat = 57) with e | e
        · exact .inl (Char.toNat_inj.mp e)
        · exact .inr (Char.toNat_inj.mp e)
    simp only [Bool.or_eq_true, beq_iff_eq, h1, decide_eq_false_iff_not]
    show ¬c.toNat < 56 ↔ _
    omega
  unfold readDigits
  split
  · rename_i h0
    simp only [h0, true_and]
    split
    · rename_i hall
      simp only [reduceCtorEq, false_iff]
      intro hany
      obtain ⟨c, hc, hb⟩ := List.any_eq_true.mp hany
      have := (hdig c (List.all_eq_true.mp hd c hc)).mpr hb
      rw [List.all_eq_true.mp hall c hc] at this
      cases this
    · rename_i hall
      simp only [true_iff]
      simp only [List.all_eq_true, not_forall] at hall
      obtain ⟨c, hc, hb⟩ := hall
      exact List.any_eq_true.mpr ⟨c, hc, (hdig c (List.all_eq_true.mp hd c hc)).mp
        (by simpa using hb)⟩
  · rename_i h0
    simp [h0]

/-- The constructor throws exactly on a bad octal. -/
theorem read_eq_none {s : String} (hs : isDecimal s = true) :
    read s = none ↔ badOctal s = true := by
  rw [isDecimal, Bool.and_eq_true] at hs
  simp only [read, badOctal, Option.map_eq_none_iff, readDigits_eq_none hs.2, Bool.and_eq_true,
    beq_iff_eq]

/-! ## Octal and decimal readings -/

theorem ofDigitChars_dropZeros (b : Nat) (ds : List Char) :
    Nat.ofDigitChars b (ds.dropWhile (· == '0')) 0 = Nat.ofDigitChars b ds 0 := by
  induction ds with
  | nil => rfl
  | cons c ds ih =>
    rw [List.dropWhile_cons]
    split
    · rename_i hc
      obtain rfl : c = '0' := by simpa using hc
      rw [ih, Nat.ofDigitChars_cons]
      rfl
    · rfl

theorem all_dropZeros {p : Char → Bool} (h0 : p '0' = true) (ds : List Char) :
    (ds.dropWhile (· == '0')).all p = ds.all p := by
  induction ds with
  | nil => rfl
  | cons c ds ih =>
    rw [List.dropWhile_cons]
    split
    · rename_i hc
      obtain rfl : c = '0' := by simpa using hc
      rw [ih, List.all_cons, h0, Bool.true_and]
    · rfl

/-- In the smaller base the same digits denote less, once one was read. -/
theorem ofDigitChars_lt {a b m n : Nat} (hab : a < b) (hmn : m < n) (ds : List Char) :
    Nat.ofDigitChars a ds m < Nat.ofDigitChars b ds n := by
  induction ds generalizing m n with
  | nil => simpa using hmn
  | cons c ds ih =>
    rw [Nat.ofDigitChars_cons, Nat.ofDigitChars_cons]
    have : a * m ≤ a * n := Nat.mul_le_mul_left a (Nat.le_of_lt hmn)
    have : a * n < b * n := Nat.mul_lt_mul_of_pos_right hab (by omega)
    exact ih (by omega)

theorem zero_lt_digit {c : Char} (hc : c.isDigit = true) (h0 : c ≠ '0') :
    '0'.toNat < c.toNat := by
  simp only [Char.isDigit, Bool.and_eq_true, decide_eq_true_eq] at hc
  have hle : '0'.toNat ≤ c.toNat := UInt32.le_iff_toNat_le.mp hc.1
  exact Nat.lt_of_le_of_ne hle fun h => h0 (Char.toNat_inj.mp h.symm)

theorem readDigits_eq_decimal {ds : List Char} (hd : ds.all Char.isDigit = true) :
    readDigits ds = some (Nat.ofDigitChars 10 ds 0) ↔ (ds.head? != some '0' ||
      match ds.dropWhile (· == '0') with
      | [] => true
      | [c] => c.toNat < '8'.toNat
      | _ => false) = true := by
  by_cases h0 : ds.head? = some '0'
  · rw [readDigits, if_pos h0, ← all_dropZeros (by decide), ← ofDigitChars_dropZeros 8,
      ← ofDigitChars_dropZeros 10]
    have hd' : (ds.dropWhile (· == '0')).all Char.isDigit = true := by
      rwa [all_dropZeros (by decide)]
    have hne := List.head?_dropWhile_not (p := (· == '0')) (l := ds)
    rw [h0]
    generalize ds.dropWhile (· == '0') = cs at hd' hne
    match cs with
    | [] => simp
    | [c] => simp [Nat.ofDigitChars_cons]
    | c :: e :: cs =>
      -- two digits denote less in base 8
      rw [List.all_cons, Bool.and_eq_true] at hd'
      have hc : '0'.toNat < c.toNat := zero_lt_digit hd'.1 (by simpa using hne)
      have := @ofDigitChars_lt 8 10 (8 * (c.toNat - '0'.toNat) + (e.toNat - '0'.toNat))
        (10 * (c.toNat - '0'.toNat) + (e.toNat - '0'.toNat)) (by decide) (by omega) cs
      simp only [Nat.ofDigitChars_cons, Nat.mul_zero, Nat.zero_add]
      split
      · simpa using Nat.ne_of_lt this
      · simp
  · simp [readDigits, h0]

/-- The constructor reads the decimal exactly on a readable text. -/
theorem read_eq_decimal {s : String} (hs : isDecimal s = true) :
    read s = some (decimal s) ↔ readable s = true := by
  rw [isDecimal, Bool.and_eq_true] at hs
  rw [readable, ← readDigits_eq_decimal hs.2, read, decimal]
  cases readDigits (digits s) with
  | none => simp
  | some n =>
    simp only [Option.map_some, Option.some.injEq]
    split <;> omega

end MirrorCpp.BigInt
