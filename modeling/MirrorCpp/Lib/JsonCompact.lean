import MirrorCpp.Lib.Json
import Mathlib.Data.List.Basic
import Mathlib.Tactic.Ring

/-!
# A compact JSON library

One instance of `JsonLib`, to evaluate programs with: `dump` without blanks, a parser for the
same texts, equality by value. `parse_text` is the round trip. A double prints by its bits, a
stand-in for the shortest decimal.
-/

namespace MirrorCpp.Compact

/-! ## Printing -/

/-- One byte of a string. -/
def escape (c : Char) : List Char :=
  if c = '"' then ['\\', '"']
  else if c = '\\' then ['\\', '\\']
  else if c.toNat < 32 then
    ['\\', 'u', '0', '0', Nat.digitChar (c.toNat / 16), Nat.digitChar (c.toNat % 16)]
  else [c]

def quote (s : String) : List Char := '"' :: ((Text.chars s).flatMap escape ++ ['"'])

def natText (n : Nat) : List Char := Nat.toDigits 10 n

def intText (n : Int) : List Char := if n < 0 then '-' :: natText n.natAbs else natText n.natAbs

def floatText (d : Double) : List Char :=
  if d.isFinite then natText d.bits.toNat ++ ['.', '0'] else ['n', 'u', 'l', 'l']

mutual
def text : Json → List Char
  | .null => ['n', 'u', 'l', 'l']
  | .bool true => ['t', 'r', 'u', 'e']
  | .bool false => ['f', 'a', 'l', 's', 'e']
  | .int n => intText n
  | .float d => floatText d
  | .str s => quote s
  | .binary bs => '[' :: (bs.flatMap fun b => natText b ++ [',']) ++ [']']
  | .discarded => ['<', 'd', 'i', 's', 'c', 'a', 'r', 'd', 'e', 'd', '>']
  | .arr [] => ['[', ']']
  | .arr (x :: xs) => '[' :: (text x ++ textElems xs ++ [']'])
  | .obj [] => ['{', '}']
  | .obj ((k, v) :: ms) => '{' :: (quote k ++ ':' :: text v ++ textMembers ms ++ ['}'])

/-- The elements behind the first one. -/
def textElems : List Json → List Char
  | [] => []
  | x :: xs => ',' :: (text x ++ textElems xs)

def textMembers : List (String × Json) → List Char
  | [] => []
  | (k, v) :: ms => ',' :: (quote k ++ ':' :: text v ++ textMembers ms)
end

def dump (j : Json) : Option String := if j.utf8 then some (String.ofList (text j)) else none

/-! ## Parsing -/

/-- The value of a hexadecimal digit. -/
def hex (c : Char) : Nat :=
  if c.isDigit then c.toNat - '0'.toNat else c.toNat - 'a'.toNat + 10

/-- The rest of a string, its opening quote read. -/
def parseChars : List Char → Option (List Char × List Char)
  | '"' :: cs => some ([], cs)
  | '\\' :: '"' :: cs => (parseChars cs).map fun (s, r) => ('"' :: s, r)
  | '\\' :: '\\' :: cs => (parseChars cs).map fun (s, r) => ('\\' :: s, r)
  | '\\' :: 'u' :: '0' :: '0' :: a :: b :: cs =>
    (parseChars cs).map fun (s, r) => (Char.ofNat (16 * hex a + hex b) :: s, r)
  | c :: cs =>
    if c = '\\' ∨ c.toNat < 32 then none else (parseChars cs).map fun (s, r) => (c :: s, r)
  | [] => none

def parseNumber (negative : Bool) (cs : List Char) : Option (Json × List Char) :=
  let ds := cs.takeWhile Char.isDigit
  let n := Nat.ofDigitChars 10 ds 0
  if ds = [] then none
  else match cs.dropWhile Char.isDigit with
    | '.' :: '0' :: r => some (.float ⟨BitVec.ofNat 64 n⟩, r)
    | r => some (.int (if negative then -(n : Int) else n), r)

def parseScalar : List Char → Option (Json × List Char)
  | 'n' :: 'u' :: 'l' :: 'l' :: r => some (.null, r)
  | 't' :: 'r' :: 'u' :: 'e' :: r => some (.bool true, r)
  | 'f' :: 'a' :: 'l' :: 's' :: 'e' :: r => some (.bool false, r)
  | '"' :: r => (parseChars r).map fun (s, r) => (.str (String.ofList s), r)
  | '-' :: r => parseNumber true r
  | cs => parseNumber false cs

mutual
def parseValue : Nat → List Char → Option (Doc × List Char)
  | 0, _ => none
  | _ + 1, '[' :: ']' :: r => some (.arr [], r)
  | fuel + 1, '[' :: r => (parseElems fuel r).map fun (xs, r) => (.arr xs, r)
  | _ + 1, '{' :: '}' :: r => some (.obj [], r)
  | fuel + 1, '{' :: r => (parseMembers fuel r).map fun (ms, r) => (.obj ms, r)
  | _ + 1, cs => (parseScalar cs).map fun (j, r) => (.scalar j, r)

/-- Elements up to the closing bracket. -/
def parseElems : Nat → List Char → Option (List Doc × List Char)
  | 0, _ => none
  | fuel + 1, cs =>
    match parseValue fuel cs with
    | some (x, ',' :: r) => (parseElems fuel r).map fun (xs, r) => (x :: xs, r)
    | some (x, ']' :: r) => some ([x], r)
    | _ => none

def parseMembers : Nat → List Char → Option (List (String × Doc) × List Char)
  | fuel + 1, '"' :: cs =>
    match parseChars cs with
    | some (k, ':' :: r) =>
      match parseValue fuel r with
      | some (v, ',' :: r) =>
        (parseMembers fuel r).map fun (ms, r) => ((String.ofList k, v) :: ms, r)
      | some (v, '}' :: r) => some ([(String.ofList k, v)], r)
      | _ => none
    | _ => none
  | _, _ => none
end

def parse (t : String) : Option Doc :=
  match parseValue (t.length + 1) (Text.chars t) with
  | some (d, []) => some d
  | _ => none

/-! ## Round trip -/

theorem hex_digitChar {n : Nat} (h : n < 16) : hex (Nat.digitChar n) = n := by
  revert h
  rcases n with _ | _ | _ | _ | _ | _ | _ | _ | _ | _ | _ | _ | _ | _ | _ | _ | n <;>
    first | (intro _; decide) | (intro h; omega)

theorem parseChars_escape (c : Char) (cs : List Char) :
    parseChars (escape c ++ cs) = (parseChars cs).map fun (s, r) => (c :: s, r) := by
  unfold escape
  split
  · rename_i h; subst h; simp [parseChars]
  split
  · rename_i h; subst h; simp [parseChars]
  split
  · rename_i h
    have hc : Char.ofNat (16 * hex (Nat.digitChar (c.toNat / 16)) +
        hex (Nat.digitChar (c.toNat % 16))) = c := by
      rw [hex_digitChar (by omega), hex_digitChar (by omega), Nat.div_add_mod]
      exact Char.ofNat_toNat c
    simp [parseChars, hc]
  · rename_i h1 h2 h3
    simp only [List.singleton_append]
    rw [parseChars]
    · simp [h2, h3]
    all_goals simp_all

theorem parseChars_quoted (s : List Char) (r : List Char) :
    parseChars (s.flatMap escape ++ '"' :: r) = some (s, r) := by
  induction s with
  | nil => simp [parseChars]
  | cons c s ih => simp [List.append_assoc, parseChars_escape, ih]

/-- What follows a value does not go on with a number. -/
def Ends (r : List Char) : Prop := ∀ c ∈ r.head?, c.isDigit = false ∧ c ≠ '.'

theorem ends_cons {c : Char} {r : List Char} (h : c.isDigit = false ∧ c ≠ '.') : Ends (c :: r) :=
  fun d hd => by simp at hd; exact hd ▸ h

theorem natText_digits (n : Nat) : ∀ c ∈ natText n, c.isDigit = true :=
  fun _ hc => Nat.isDigit_of_mem_toDigits (by decide) (by decide) hc

theorem takeWhile_digits {ds r : List Char} (hd : ∀ c ∈ ds, c.isDigit = true)
    (hr : ∀ c ∈ r.head?, c.isDigit = false) :
    (ds ++ r).takeWhile Char.isDigit = ds ∧ (ds ++ r).dropWhile Char.isDigit = r := by
  induction ds with
  | nil =>
    cases r with
    | nil => exact ⟨rfl, rfl⟩
    | cons c r => simp [hr c (by simp)]
  | cons d ds ih =>
    have h := ih fun c hc => hd c (List.mem_cons_of_mem _ hc)
    simp [hd d List.mem_cons_self, h.1, h.2]

theorem natText_ne_nil (n : Nat) : natText n ≠ [] := Nat.toDigits_ne_nil

theorem ofDigitChars_natText (n : Nat) : Nat.ofDigitChars 10 (natText n) 0 = n :=
  Nat.ofDigitChars_ten_toDigits

theorem parseNumber_int (neg : Bool) (n : Nat) {r : List Char} (hr : Ends r) :
    parseNumber neg (natText n ++ r) = some (.int (if neg then -(n : Int) else n), r) := by
  obtain ⟨h1, h2⟩ := takeWhile_digits (natText_digits n) fun c hc => (hr c hc).1
  simp only [parseNumber, h1, h2, ofDigitChars_natText, natText_ne_nil, if_false]
  split
  · rename_i heq
    exact absurd rfl (hr '.' (by simp)).2
  · rfl

theorem parseNumber_float (n : Nat) (r : List Char) :
    parseNumber false (natText n ++ '.' :: '0' :: r) = some (.float ⟨BitVec.ofNat 64 n⟩, r) := by
  obtain ⟨h1, h2⟩ := takeWhile_digits (r := '.' :: '0' :: r) (natText_digits n) (by simp)
  simp [parseNumber, h1, h2, ofDigitChars_natText, natText_ne_nil]

/-- A number is not mistaken for another scalar or a container. -/
theorem natText_head (n : Nat) : ∃ c ds, natText n = c :: ds ∧ c.isDigit = true := by
  obtain ⟨c, ds, h⟩ := List.exists_cons_of_ne_nil (natText_ne_nil n)
  exact ⟨c, ds, h, natText_digits n c (by simp [h])⟩

theorem parseScalar_digit {c : Char} (cs : List Char) (hc : c.isDigit = true) :
    parseScalar (c :: cs) = parseNumber false (c :: cs) := by
  unfold parseScalar
  split <;> first | rfl | (rename_i heq; simp only [List.cons.injEq] at heq
                           rw [heq.1] at hc; exact absurd hc (by decide))

/-- What `parseValue` leaves to `parseScalar`. -/
def ScalarHead (cs : List Char) : Prop := ∀ c ∈ cs.head?, c ≠ '[' ∧ c ≠ '{'

theorem parseValue_scalar {fuel : Nat} {cs : List Char} (h : ScalarHead cs) :
    parseValue (fuel + 1) cs = (parseScalar cs).map fun (j, r) => (.scalar j, r) := by
  rw [parseValue]
  all_goals
    intros
    subst_vars
    simp [ScalarHead] at h

/-- The scalars a text can hold read back. -/
theorem parse_scalar {n fuel : Nat} {j : Json} {r : List Char} (hp : j.plainBelow n = true)
    (hs : ∀ xs, j ≠ .arr xs) (ho : ∀ ms, j ≠ .obj ms) (hr : Ends r) :
    parseValue (fuel + 1) (text j ++ r) = some (Doc.ofJson j, r) := by
  cases j with
  | null => rw [parseValue_scalar] <;> simp [text, parseScalar, ScalarHead, Doc.ofJson]
  | bool b =>
    cases b <;> rw [parseValue_scalar] <;> simp [text, parseScalar, ScalarHead, Doc.ofJson]
  | int n =>
    obtain ⟨c, ds, hc, hd⟩ := natText_head n.natAbs
    by_cases hn : n < 0
    · rw [parseValue_scalar]
      · simp only [text, intText, if_pos hn, List.cons_append, parseScalar]
        rw [parseNumber_int true _ hr]
        have hn' : -(n.natAbs : Int) = n := by omega
        simp only [Doc.ofJson, if_true, hn', Option.map_some]
      · simp [text, intText, hn, ScalarHead]
    · have hsc := parseNumber_int false n.natAbs hr
      rw [parseValue_scalar]
      · simp only [text, intText, if_neg hn, hc, List.cons_append] at hsc ⊢
        rw [parseScalar_digit _ hd, hsc]
        have hn' : (n.natAbs : Int) = n := by omega
        simp only [Doc.ofJson, Bool.false_eq_true, if_false, hn', Option.map_some]
      · simp only [text, intText, if_neg hn, hc, ScalarHead]
        rintro c' hc'
        simp only [List.cons_append, List.head?_cons, Option.mem_some_iff] at hc'
        subst hc'
        constructor <;> rintro rfl <;> exact absurd hd (by decide)
  | float d =>
    have hfin : d.isFinite = true := by simpa [Json.plainBelow] using hp
    obtain ⟨c, ds, hc, hd⟩ := natText_head d.bits.toNat
    have hsc := parseNumber_float d.bits.toNat r
    have htext : text (.float d) ++ r = natText d.bits.toNat ++ '.' :: '0' :: r := by
      simp [text, floatText, hfin]
    rw [htext, parseValue_scalar]
    · simp only [hc, List.cons_append] at hsc ⊢
      rw [parseScalar_digit _ hd, hsc]
      simp [Doc.ofJson]
    · simp only [hc, ScalarHead]
      rintro c' hc'
      simp only [List.cons_append, List.head?_cons, Option.mem_some_iff] at hc'
      subst hc'
      constructor <;> rintro rfl <;> exact absurd hd (by decide)
  | str s =>
    rw [parseValue_scalar]
    · simp [text, quote, parseScalar, parseChars_quoted, Doc.ofJson]
    · simp [text, quote, ScalarHead]
  | binary bs => simp [Json.plainBelow] at hp
  | discarded => simp [Json.plainBelow] at hp
  | arr xs => exact absurd rfl (hs xs)
  | obj ms => exact absurd rfl (ho ms)

theorem ends_tail {c : Char} {r : List Char} (h : c = ',' ∨ c = ']' ∨ c = '}') : Ends (c :: r) :=
  ends_cons (by rcases h with rfl | rfl | rfl <;> decide)

/-- A text never starts with a closing bracket. -/
theorem text_head {n : Nat} {j : Json} (hp : j.plainBelow n = true) :
    ∃ c cs, text j = c :: cs ∧ c ≠ ']' := by
  cases j with
  | bool b => cases b <;> exact ⟨_, _, rfl, by decide⟩
  | int n =>
    obtain ⟨c, ds, hc, hd⟩ := natText_head n.natAbs
    by_cases hn : n < 0
    · exact ⟨'-', _, by simp [text, intText, hn]; rfl, by decide⟩
    · exact ⟨c, ds, by simp [text, intText, hn, hc], by rintro rfl; exact absurd hd (by decide)⟩
  | float d =>
    have hfin : d.isFinite = true := by simpa [Json.plainBelow] using hp
    obtain ⟨c, ds, hc, hd⟩ := natText_head d.bits.toNat
    exact ⟨c, ds ++ ['.', '0'], by simp [text, floatText, hfin, hc],
      by rintro rfl; exact absurd hd (by decide)⟩
  | null => exact ⟨_, _, rfl, by decide⟩
  | str s => exact ⟨'"', _, by simp [text, quote]; rfl, by decide⟩
  | binary bs => simp [Json.plainBelow] at hp
  | discarded => simp [Json.plainBelow] at hp
  | arr xs =>
    cases xs with
    | nil => exact ⟨'[', [']'], by simp [text], by decide⟩
    | cons x xs => exact ⟨'[', _, by rw [text], by decide⟩
  | obj ms =>
    cases ms with
    | nil => exact ⟨'{', ['}'], by simp [text], by decide⟩
    | cons m ms => obtain ⟨k, v⟩ := m; exact ⟨'{', _, by rw [text], by decide⟩

theorem text_length_pos {n : Nat} {j : Json} (hp : j.plainBelow n = true) :
    0 < (text j).length := by
  obtain ⟨c, cs, h, -⟩ := text_head hp
  simp [h]

mutual
/-- Reading a text back gives the value, and what follows it. -/
theorem parse_text : ∀ {n fuel : Nat} {r : List Char} (j : Json), j.plainBelow n = true → Ends r →
    (text j).length ≤ fuel → parseValue fuel (text j ++ r) = some (Doc.ofJson j, r)
  | n, 0, r, j, hp, _, hf => absurd hf (by have := text_length_pos hp; omega)
  | _, fuel + 1, r, .arr [], _, _, _ => by
    simp [text, parseValue, Doc.ofJson, Doc.ofElems]
  | n, fuel + 1, r, .arr (x :: xs), hp, _, hf => by
    rw [Json.plainBelow] at hp
    obtain _ | n := n
    · simp [Json.plainElems] at hp
    simp only [Json.plainElems, Bool.and_eq_true] at hp
    obtain ⟨c, cs, hc, hne⟩ := text_head hp.1
    simp only [text, List.length_cons, List.length_append, List.length_nil] at hf
    have he := parse_elems (r := r) x xs hp.1 hp.2 (show _ ≤ fuel by
      simp only [List.length_append]; omega)
    have hcs : text (.arr (x :: xs)) ++ r = '[' :: (text x ++ textElems xs ++ ']' :: r) := by
      simp [text]
    rw [hcs, hc, List.cons_append, List.cons_append, parseValue]
    · rw [← List.cons_append, ← List.cons_append, ← hc, he]
      simp [Doc.ofJson]
    · rintro _ ⟨⟩; exact hne rfl
  | _, fuel + 1, r, .obj [], _, _, _ => by
    simp [text, parseValue, Doc.ofJson, Doc.ofMembers]
  | n, fuel + 1, r, .obj ((k, v) :: ms), hp, _, hf => by
    rw [Json.plainBelow] at hp
    obtain _ | n := n
    · simp [Json.plainMembers] at hp
    simp only [Json.plainMembers, Bool.and_eq_true] at hp
    simp only [text, List.length_cons, List.length_append, List.length_nil] at hf
    have hm := parse_members (r := r) k v ms hp.1 hp.2 (show _ ≤ fuel by
      simp only [List.length_append, List.length_cons]; omega)
    have hcs : text (.obj ((k, v) :: ms)) ++ r =
        '{' :: (quote k ++ ':' :: text v ++ textMembers ms ++ '}' :: r) := by
      simp [text]
    rw [hcs]
    simp only [quote, List.cons_append] at hm ⊢
    rw [parseValue]
    · rw [hm]; simp [Doc.ofJson]
    · rintro _ ⟨⟩
  | _, fuel + 1, _, .null, hp, hr, _ => parse_scalar hp (by simp) (by simp) hr
  | _, fuel + 1, _, .bool _, hp, hr, _ => parse_scalar hp (by simp) (by simp) hr
  | _, fuel + 1, _, .int _, hp, hr, _ => parse_scalar hp (by simp) (by simp) hr
  | _, fuel + 1, _, .float _, hp, hr, _ => parse_scalar hp (by simp) (by simp) hr
  | _, fuel + 1, _, .str _, hp, hr, _ => parse_scalar hp (by simp) (by simp) hr
  | _, fuel + 1, _, .binary _, hp, hr, _ => parse_scalar hp (by simp) (by simp) hr
  | _, fuel + 1, _, .discarded, hp, hr, _ => parse_scalar hp (by simp) (by simp) hr

theorem parse_elems : ∀ {n fuel : Nat} {r : List Char} (x : Json) (xs : List Json),
    x.plainBelow n = true → Json.plainElems (n + 1) xs = true →
    (text x ++ textElems xs).length + 1 ≤ fuel →
    parseElems fuel (text x ++ textElems xs ++ ']' :: r) = some (Doc.ofElems (x :: xs), r)
  | n, 0, _, _, _, _, _, hf => absurd hf (by omega)
  | n, fuel + 1, r, x, [], hx, _, hf => by
    simp only [textElems, List.append_nil] at hf ⊢
    rw [parseElems, parse_text x hx (ends_tail (.inr (.inl rfl))) (by omega)]
    simp [Doc.ofElems]
  | n, fuel + 1, r, x, y :: ys, hx, hxs, hf => by
    simp only [Json.plainElems, Bool.and_eq_true] at hxs
    simp only [textElems, List.length_append, List.length_cons] at hf
    have ht := parse_elems (r := r) y ys hxs.1 hxs.2 (show _ ≤ fuel by
      simp only [List.length_append]; omega)
    have hcs : text x ++ textElems (y :: ys) ++ ']' :: r =
        text x ++ ',' :: (text y ++ textElems ys ++ ']' :: r) := by simp [textElems]
    rw [hcs, parseElems, parse_text x hx (ends_tail (.inl rfl)) (by omega)]
    simp only [ht, Option.map_some, Doc.ofElems]

theorem parse_members : ∀ {n fuel : Nat} {r : List Char} (k : String) (v : Json)
    (ms : List (String × Json)), v.plainBelow n = true → Json.plainMembers (n + 1) ms = true →
    (quote k ++ ':' :: text v ++ textMembers ms).length + 1 ≤ fuel →
    parseMembers fuel (quote k ++ ':' :: text v ++ textMembers ms ++ '}' :: r) =
      some (Doc.ofMembers ((k, v) :: ms), r)
  | n, 0, _, _, _, _, _, _, hf => absurd hf (by omega)
  | n, fuel + 1, r, k, v, [], hv, _, hf => by
    simp only [textMembers, List.append_nil, List.length_append, List.length_cons] at hf
    have hcs : quote k ++ ':' :: text v ++ textMembers [] ++ '}' :: r =
        '"' :: (k.toList.flatMap escape ++ '"' :: ':' :: (text v ++ '}' :: r)) := by
      simp [textMembers, quote]
    rw [hcs, parseMembers, parseChars_quoted]
    simp only
    rw [parse_text v hv (ends_tail (.inr (.inr rfl))) (by omega)]
    simp [Doc.ofMembers]
  | n, fuel + 1, r, k, v, (k', v') :: ms, hv, hms, hf => by
    simp only [Json.plainMembers, Bool.and_eq_true] at hms
    simp only [textMembers, List.length_append, List.length_cons] at hf
    have ht := parse_members (r := r) k' v' ms hms.1 hms.2 (show _ ≤ fuel by
      simp only [List.length_append, List.length_cons]; omega)
    have hcs : quote k ++ ':' :: text v ++ textMembers ((k', v') :: ms) ++ '}' :: r =
        '"' :: (k.toList.flatMap escape ++ '"' :: ':' :: (text v ++ ',' ::
          (quote k' ++ ':' :: text v' ++ textMembers ms ++ '}' :: r))) := by
      simp [textMembers, quote]
    rw [hcs, parseMembers, parseChars_quoted]
    simp only
    rw [parse_text v hv (ends_tail (.inl rfl)) (by omega)]
    simp only [ht, Option.map_some, Doc.ofMembers, String.ofList_toList]
end

theorem parse_dump {n : Nat} {j : Json} {t : String} (hp : j.plainBelow n = true)
    (ht : dump j = some t) : parse t = some (Doc.ofJson j) := by
  unfold dump at ht
  split at ht
  · cases ht
    have h := parse_text (r := []) j hp (fun _ hc => by simp at hc)
      (Nat.le_succ (text j).length)
    simp only [List.append_nil] at h
    simp [parse, h]
  · cases ht

/-! ## Lengths -/

theorem dump_isSome (j : Json) : (dump j).isSome = j.utf8 := by
  unfold dump; split <;> simp_all

/-- The length of `quote s`. -/
def quoteSize (s : String) : Nat := (Text.chars s).foldl (fun n c => n + (escape c).length) 2

/-! The length of the text, without the text: the appends of `text` are slow in the kernel. -/

mutual
def size : Json → Nat
  | .null | .bool true => 4
  | .bool false => 5
  | .int n => (intText n).length
  | .float d => (floatText d).length
  | .str s => quoteSize s
  | .binary bs => (text (.binary bs)).length
  | .discarded => 11
  | .arr [] | .obj [] => 2
  | .arr (x :: xs) => size x + sizeElems xs + 2
  | .obj ((k, v) :: ms) => quoteSize k + size v + sizeMembers ms + 3

def sizeElems : List Json → Nat
  | [] => 0
  | x :: xs => size x + sizeElems xs + 1

def sizeMembers : List (String × Json) → Nat
  | [] => 0
  | (k, v) :: ms => quoteSize k + size v + sizeMembers ms + 2
end

theorem length_quote (s : String) : (quote s).length = quoteSize s := by
  have hfold : ∀ (cs : List Char) (n : Nat),
      cs.foldl (fun n c => n + (escape c).length) n = n + (cs.flatMap escape).length := by
    intro cs
    induction cs with
    | nil => simp
    | cons c cs ih => intro n; simp [ih, Nat.add_assoc]
  rw [quoteSize, hfold]
  simp only [quote, List.length_cons, List.length_append, List.length_nil]
  omega

mutual
theorem length_text : (j : Json) → (text j).length = size j
  | .null | .bool true | .bool false | .discarded | .arr [] | .obj [] => rfl
  | .int _ | .float _ | .binary _ => by simp only [size, text]
  | .str s => length_quote s
  | .arr (x :: xs) => by
    simp only [text, size, List.length_cons, List.length_append, List.length_nil, length_text x,
      length_sizeElems xs]
  | .obj ((k, v) :: ms) => by
    simp only [text, size, List.length_cons, List.length_append, List.length_nil, length_quote,
      length_text v, length_sizeMembers ms]
    omega

theorem length_sizeElems : (xs : List Json) → (textElems xs).length = sizeElems xs
  | [] => rfl
  | x :: xs => by
    simp only [textElems, sizeElems, List.length_cons, List.length_append, length_text x,
      length_sizeElems xs]

theorem length_sizeMembers : (ms : List (String × Json)) → (textMembers ms).length = sizeMembers ms
  | [] => rfl
  | (k, v) :: ms => by
    simp only [textMembers, sizeMembers, List.length_cons, List.length_append, length_quote,
      length_text v, length_sizeMembers ms]
    omega
end

def dumpSize (j : Json) : Option Nat := if j.utf8 then some (size j) else none

theorem dumpSize_eq (j : Json) : dumpSize j = (dump j).map String.length := by
  unfold dumpSize dump; split <;> simp [length_text]

theorem length_dump {j : Json} (h : j.utf8 = true) :
    ((dump j).getD "").length = (text j).length := by
  simp [dump, h]

theorem length_textElems (xs : List Json) :
    (textElems xs).length = xs.length + (xs.map fun x => (text x).length).sum := by
  induction xs with
  | nil => rfl
  | cons x xs ih => simp [textElems, ih]; omega

theorem length_textMembers (ms : List (String × Json)) :
    (textMembers ms).length =
      ms.length + (ms.map fun m => (quote m.1).length + 1 + (text m.2).length).sum := by
  induction ms with
  | nil => rfl
  | cons m ms ih => obtain ⟨k, v⟩ := m; simp [textMembers, ih]; omega

theorem dump_arr (xs : List Json) (t : String) (h : dump (.arr xs) = some t) :
    t.length = 2 + (xs.length - 1) + (xs.map fun x => ((dump x).getD "").length).sum := by
  have hu : (Json.arr xs).utf8 = true := by rw [← dump_isSome, h]; rfl
  have hx : ∀ x ∈ xs, ((dump x).getD "").length = (text x).length := fun x hx =>
    length_dump (Json.utf8Elems_iff.mp (by simpa using hu) x hx)
  rw [List.map_congr_left hx]
  have ht : t.length = (text (.arr xs)).length := by
    rw [← length_dump hu, h]; rfl
  rw [ht]
  cases xs with
  | nil => rfl
  | cons x xs => simp [text, length_textElems]; omega

theorem dump_obj (ms : List (String × Json)) (t : String) (h : dump (.obj ms) = some t) :
    t.length = 2 + (ms.length - 1) + (ms.map fun m =>
      ((dump (.str m.1)).getD "").length + 1 + ((dump m.2).getD "").length).sum := by
  have hu : (Json.obj ms).utf8 = true := by rw [← dump_isSome, h]; rfl
  have hm : ∀ m ∈ ms, ((dump (.str m.1)).getD "").length + 1 + ((dump m.2).getD "").length =
      (quote m.1).length + 1 + (text m.2).length := by
    intro m hm
    have hmu := Json.utf8Members_iff.mp (by simpa using hu) m hm
    rw [length_dump (by simpa using hmu.1), length_dump hmu.2]
    rfl
  rw [List.map_congr_left hm]
  have ht : t.length = (text (.obj ms)).length := by
    rw [← length_dump hu, h]; rfl
  rw [ht]
  cases ms with
  | nil => rfl
  | cons m ms => obtain ⟨k, v⟩ := m; simp [text, length_textMembers]; omega

/-! ## Equality and messages -/

def Double.isZero (d : Double) : Bool := d.magnitude == 0 && d.isIntegral

/-- IEEE equality. -/
def eqFloat (d e : Double) : Bool :=
  d.isFinite && e.isFinite && (d == e || (Double.isZero d && Double.isZero e)) ||
    (d == e && d.fraction == 0)

mutual
def eq : Json → Json → Bool
  | .null, .null => true
  | .bool a, .bool b => a == b
  | .int m, .int n => m == n
  | .float d, .float e => eqFloat d e
  | .int n, .float d => d.isFinite && d.isIntegral && d.toInt == n
  | .float d, .int n => d.isFinite && d.isIntegral && d.toInt == n
  | .str a, .str b => a == b
  | .binary a, .binary b => a == b
  | .arr xs, .arr ys => eqElems xs ys
  | .obj ms, .obj ns => eqMembers ms ns
  | _, _ => false

def eqElems : List Json → List Json → Bool
  | [], [] => true
  | x :: xs, y :: ys => eq x y && eqElems xs ys
  | _, _ => false

def eqMembers : List (String × Json) → List (String × Json) → Bool
  | [], [] => true
  | (k, v) :: ms, (l, w) :: ns => k == l && eq v w && eqMembers ms ns
  | _, _ => false
end

/-- The constant part of a message. -/
def whatText : JsonFault → String
  | .noKey _ => "[json.exception.out_of_range.403] key not found: "
  | .noIndex _ => "[json.exception.out_of_range.401] array index is out of range"
  | .wrongType => "[json.exception.type_error.302] type mismatch"
  | .badUtf8 => "[json.exception.type_error.316] invalid UTF-8 byte"
  | .syntaxError => "[json.exception.parse_error.101] parse error"

def what : JsonFault → String
  | .noKey k => whatText (.noKey k) ++ k
  | f => whatText f

theorem whatText_ascii (f : JsonFault) : Text.ascii (whatText f) = true := by
  cases f with
  | noKey k =>
    show Text.ascii "[json.exception.out_of_range.403] key not found: " = true
    decide
  | noIndex i =>
    show Text.ascii "[json.exception.out_of_range.401] array index is out of range" = true
    decide
  | _ => unfold whatText; decide

theorem what_ascii (f : JsonFault) (h : ∀ k, f = .noKey k → Text.ascii k = true) :
    Text.ascii (what f) = true := by
  cases f with
  | noKey k => exact Text.ascii_append (whatText_ascii _) (h k rfl)
  | _ => exact whatText_ascii _

def lib : JsonLib where
  dump := dump
  dumpSize := dumpSize
  parse := parse
  eq := eq
  what := what
  dump_isSome := dump_isSome
  dumpSize_eq := dumpSize_eq
  dump_arr := dump_arr
  dump_obj := dump_obj
  parse_dump _ _ _ _ hp ht := parse_dump hp ht
  eq_str j s := by cases j <;> simp [eq]
  eq_bool j b := by cases j <;> simp [eq]
  eq_int_self n := by simp [eq]
  what_ascii := what_ascii

theorem escape_plain {s : String} (h : Text.plain s = true) :
    s.toList.flatMap escape = s.toList := by
  have hself : ∀ c ∈ s.toList, escape c = [c] := by
    intro c hc
    rw [Text.plain, Text.chars_eq] at h
    have hp := List.all_eq_true.mp h c hc
    simp only [Bool.and_eq_true, decide_eq_true_eq, bne_iff_ne] at hp
    simp only [escape, if_neg hp.1.2, if_neg hp.2, if_neg (Nat.not_lt.mpr hp.1.1.1)]
  rw [List.flatMap_congr hself]
  exact List.flatMap_singleton' _

theorem printsPlainly : lib.PrintsPlainly where
  bool b := by cases b <;> rfl
  nat n := by
    have h : intText n = natText n := by simp [intText]
    simp only [lib, dump, Json.utf8, if_true, text, h, natText, Nat.repr]
  str s h := by
    have hu : (Json.str s).utf8 = true := Text.utf8_of_ascii (Text.ascii_of_plain h)
    simp only [lib, dump, hu, if_true, text, quote, Text.chars_eq, escape_plain h]
    rw [String.ofList_cons, String.ofList_append]
    simp [String.append_assoc]

/-! ## Control characters -/

/-- No character is a control character. -/
def Visible (cs : List Char) : Prop := ∀ c ∈ cs, ' '.toNat ≤ c.toNat

instance : DecidablePred Visible := fun cs =>
  List.decidableBAll (fun c : Char => ' '.toNat ≤ c.toNat) cs

theorem visible_nil : Visible [] := by simp [Visible]

theorem visible_cons {c : Char} {cs : List Char} :
    Visible (c :: cs) ↔ ' '.toNat ≤ c.toNat ∧ Visible cs := by simp [Visible]

theorem visible_append {cs ds : List Char} : Visible (cs ++ ds) ↔ Visible cs ∧ Visible ds := by
  simp [Visible, or_imp, forall_and]

theorem visible_natText (n : Nat) : Visible (natText n) := by
  intro c hc
  have hd := natText_digits n c hc
  simp only [Char.isDigit, Bool.and_eq_true, decide_eq_true_eq] at hd
  have : '0'.toNat ≤ c.toNat := UInt32.le_iff_toNat_le.mp hd.1
  exact Nat.le_trans (by decide) this

theorem visible_escape (c : Char) : Visible (escape c) := by
  have hdigit : ∀ n < 16, ' '.toNat ≤ (Nat.digitChar n).toNat := by decide
  unfold escape
  split
  · simp [Visible]
  split
  · simp [Visible]
  split
  · rename_i h
    have h1 := hdigit (c.toNat / 16) (by omega)
    have h2 := hdigit (c.toNat % 16) (by omega)
    simp only [visible_cons, h1, h2, visible_nil]
    decide
  · rename_i h
    exact visible_cons.mpr ⟨Nat.le_of_not_lt h, visible_nil⟩

theorem visible_quote (s : String) : Visible (quote s) := by
  have hflat : Visible ((Text.chars s).flatMap escape) := by
    intro c hc
    obtain ⟨d, -, hd⟩ := List.mem_flatMap.mp hc
    exact visible_escape d c hd
  refine visible_cons.mpr ⟨by decide, visible_append.mpr ⟨hflat, ?_⟩⟩
  simp [Visible]

theorem visible_binary (bs : List Nat) : Visible (bs.flatMap fun b => natText b ++ [',']) := by
  intro c hc
  obtain ⟨b, -, hb⟩ := List.mem_flatMap.mp hc
  exact visible_append.mpr ⟨visible_natText b, by simp [Visible]⟩ c hb

mutual
theorem visible_text : ∀ j : Json, Visible (text j)
  | .null | .bool true | .bool false | .discarded | .arr [] | .obj [] => by
    simp only [text]
    decide
  | .int n => by
    rw [text, intText]
    split
    · exact visible_cons.mpr ⟨by decide, visible_natText _⟩
    · exact visible_natText _
  | .float d => by
    rw [text, floatText]
    split
    · exact visible_append.mpr ⟨visible_natText _, by decide⟩
    · decide
  | .str s => by rw [text]; exact visible_quote s
  | .binary bs => by
    rw [text]
    exact visible_append.mpr ⟨visible_cons.mpr ⟨by decide, visible_binary bs⟩, by decide⟩
  | .arr (x :: xs) => by
    rw [text]
    exact visible_cons.mpr ⟨by decide, visible_append.mpr
      ⟨visible_append.mpr ⟨visible_text x, visible_textElems xs⟩, by decide⟩⟩
  | .obj ((k, v) :: ms) => by
    rw [text]
    exact visible_cons.mpr ⟨by decide, visible_append.mpr ⟨visible_append.mpr
      ⟨visible_append.mpr ⟨visible_quote k, visible_cons.mpr ⟨by decide, visible_text v⟩⟩,
        visible_textMembers ms⟩, by decide⟩⟩

theorem visible_textElems : ∀ xs : List Json, Visible (textElems xs)
  | [] => visible_nil
  | x :: xs => by
    rw [textElems]
    exact visible_cons.mpr ⟨by decide, visible_append.mpr ⟨visible_text x, visible_textElems xs⟩⟩

theorem visible_textMembers : ∀ ms : List (String × Json), Visible (textMembers ms)
  | [] => visible_nil
  | (k, v) :: ms => by
    rw [textMembers]
    exact visible_cons.mpr ⟨by decide, visible_append.mpr ⟨visible_append.mpr
      ⟨visible_quote k, visible_cons.mpr ⟨by decide, visible_text v⟩⟩, visible_textMembers ms⟩⟩
end

end MirrorCpp.Compact
