import MirrorCpp.Itf.Value
import MirrorCpp.Lib.Fallible

/-!
# Round trips of the ITF codec

A value none of whose records looks like a marker survives encoding; and decoding yields only
such values, so encoding after decoding is a normal form. A decimal text under `#bigint` decodes
to the integer it denotes unless the library reads it as an octal.
-/

namespace MirrorCpp.Itf

open Fallible

/-! ## Markers -/

/-- Fields that decode as something else than a record once encoded. -/
def markerLike : List (String × Value) → Bool
  | [(k, v)] => (k == "#set" || k == "#tup" || k == "#map") && v.isSeq ||
      (k == "#bigint" || k == "#unserializable") && v.isString
  | [(k, _), (l, _)] => k == "tag" && l == "value"
  | _ => false

mutual
/-- No record in the value looks like a marker. -/
def Value.unmarked : Value → Bool
  | .set xs | .seq xs | .tuple xs => unmarkedElems xs
  | .record fs => !markerLike fs && unmarkedFields fs
  | .map es => unmarkedEntries es
  | .variant _ v => v.unmarked
  | _ => true

def unmarkedElems : List Value → Bool
  | [] => true
  | x :: xs => x.unmarked && unmarkedElems xs

def unmarkedFields : List (String × Value) → Bool
  | [] => true
  | (_, v) :: fs => v.unmarked && unmarkedFields fs

def unmarkedEntries : List (Value × Value) → Bool
  | [] => true
  | (k, v) :: es => k.unmarked && v.unmarked && unmarkedEntries es
end

variable {late : Bool}

/-! ## What encodings look like -/

theorem encodeValue_str {v : Value} {s : String} (h : encodeValue v = .str s) :
    v = .string s := by
  cases v <;> simp_all [encodeValue]

theorem encodeValue_arr {v : Value} {xs : List Json} (h : encodeValue v = .arr xs) :
    v.isSeq = true := by
  cases v <;> simp_all [encodeValue, Value.isSeq]

theorem encodeFields_one {fs : List (String × Value)} {k : String} {j : Json}
    (h : encodeFields fs = [(k, j)]) : ∃ v, fs = [(k, v)] ∧ encodeValue v = j := by
  match fs, h with
  | [(k', v)], h =>
    simp only [encodeFields, List.cons.injEq, Prod.mk.injEq, and_true] at h
    exact ⟨v, by rw [h.1], h.2⟩

theorem encodeFields_two {fs : List (String × Value)} {k l : String} {i j : Json}
    (h : encodeFields fs = [(k, i), (l, j)]) : ∃ v w, fs = [(k, v), (l, w)] := by
  match fs, h with
  | [(k', v), (l', w)], h =>
    simp only [encodeFields, List.cons.injEq, Prod.mk.injEq, and_true] at h
    exact ⟨v, w, by rw [h.1.1, h.2.1]⟩

/-- A record that does not look like a marker decodes field by field. -/
theorem decodeValue_record {fs : List (String × Value)} (h : markerLike fs = false) :
    decodeValue late (.obj (encodeFields fs)) = .record <$> decodeFields late
      (encodeFields fs) := by
  have hstr : ∀ k s, encodeFields fs = [(k, .str s)] → k ≠ "#bigint" ∧ k ≠ "#unserializable" := by
    intro k s e
    obtain ⟨v, rfl, hv⟩ := encodeFields_one e
    cases encodeValue_str hv
    constructor <;> rintro rfl <;> simp [markerLike, Value.isString] at h
  have harr : ∀ k xs, encodeFields fs = [(k, .arr xs)] →
      k ≠ "#tup" ∧ k ≠ "#set" ∧ k ≠ "#map" := by
    intro k xs e
    obtain ⟨v, rfl, hv⟩ := encodeFields_one e
    have hseq := encodeValue_arr hv
    refine ⟨?_, ?_, ?_⟩ <;> rintro rfl <;> simp [markerLike, hseq] at h
  have htag : ∀ i j, encodeFields fs ≠ [("tag", i), ("value", j)] := by
    intro i j e
    obtain ⟨v, w, rfl⟩ := encodeFields_two e
    simp [markerLike] at h
  exact decodeValue.eq_14 late _ (fun s e => (hstr _ s e).1 rfl) (fun xs e => (harr _ xs e).1 rfl)
    (fun xs e => (harr _ xs e).2.1 rfl) (fun xs e => (harr _ xs e).2.2 rfl)
    (fun s e => (hstr _ s e).2 rfl) (fun _ _ e => htag _ _ e) fun _ _ e => htag _ _ e

theorem decodeBigint_str (n : Int) : decodeBigint (BigInt.str n) = .ok (.integer n) := by
  rw [decodeBigint, if_neg (BigInt.str_ne_empty n), BigInt.isDecimal_str, BigInt.read_str]
  rfl

theorem both_ok {α β : Type} (x : α) (y : β) : both late (.ok x) (.ok y) = .ok (x, y) := by
  cases late <;> rfl

/-! ## Decoding what was encoded -/

mutual
theorem decode_encode : ∀ {v : Value}, v.unmarked = true → decodeValue late (encodeValue v) = .ok v
  | .null, _ | .boolean _, _ | .string _, _ | .unserializable _, _ => rfl
  | .integer n, _ => decodeBigint_str n
  | .set xs, h => by
    rw [Value.unmarked] at h
    rw [encodeValue, decodeValue, decode_encodeElems h]; rfl
  | .seq xs, h => by
    rw [Value.unmarked] at h
    rw [encodeValue, decodeValue, decode_encodeElems h]; rfl
  | .tuple xs, h => by
    rw [Value.unmarked] at h
    rw [encodeValue, decodeValue, decode_encodeElems h]; rfl
  | .record fs, h => by
    rw [Value.unmarked, Bool.and_eq_true, Bool.not_eq_true'] at h
    rw [encodeValue, decodeValue_record h.1, decode_encodeFields h.2]; rfl
  | .map es, h => by
    rw [Value.unmarked] at h
    rw [encodeValue, decodeValue, decode_encodeEntries h]; rfl
  | .variant t v, h => by
    rw [Value.unmarked] at h
    rw [encodeValue, decodeValue, decode_encode h]; rfl

theorem decode_encodeElems : ∀ {xs : List Value}, unmarkedElems xs = true →
    decodeElems late (encodeElems xs) = .ok xs
  | [], _ => rfl
  | x :: xs, h => by
    rw [unmarkedElems, Bool.and_eq_true] at h
    simp only [encodeElems, decodeElems, decode_encode h.1, decode_encodeElems h.2, ok_bind,
      pure_eq]

theorem decode_encodeFields : ∀ {fs : List (String × Value)}, unmarkedFields fs = true →
    decodeFields late (encodeFields fs) = .ok fs
  | [], _ => rfl
  | (k, v) :: fs, h => by
    rw [unmarkedFields, Bool.and_eq_true] at h
    simp only [encodeFields, decodeFields, decode_encode h.1, decode_encodeFields h.2, ok_bind,
      pure_eq]

theorem decode_encodeEntries : ∀ {es : List (Value × Value)}, unmarkedEntries es = true →
    decodeEntries late (encodeEntries es) = .ok es
  | [], _ => rfl
  | (k, v) :: es, h => by
    rw [unmarkedEntries, Bool.and_eq_true, Bool.and_eq_true] at h
    simp only [encodeEntries, decodeEntries, decode_encode h.1.1, decode_encode h.1.2, both_ok,
      decode_encodeEntries h.2, ok_bind, pure_eq]
end

/-! ## What decoding yields -/

theorem unmarked_decodeBigint {s : String} {v : Value} (h : decodeBigint s = .ok v) :
    v.unmarked = true := by
  unfold decodeBigint at h
  split at h
  · cases h; rfl
  split at h
  · cases h
  split at h
  · cases h; rfl
  · cases h

theorem both_eq_ok {α β : Type} {a : Except Thrown α} {b : Except Thrown β} {p : α × β}
    (h : both late a b = .ok p) : a = .ok p.1 ∧ b = .ok p.2 := by
  cases late <;> cases a <;> cases b <;> cases h <;> exact ⟨rfl, rfl⟩

/-- A string decodes from a string only, a sequence from an array only. -/
theorem decodeValue_shape {j : Json} {v : Value} (h : decodeValue late j = .ok v) :
    (v.isString = true → ∃ s, j = .str s) ∧ (v.isSeq = true → ∃ xs, j = .arr xs) := by
  unfold decodeValue at h
  split at h
  case h_3 s => exact ⟨fun _ => ⟨s, rfl⟩, fun hs => by cases h; cases hs⟩
  case h_5 => split at h <;> cases h; exact ⟨nofun, nofun⟩
  case h_6 xs =>
    obtain ⟨vs, -, rfl⟩ := map_eq_ok.mp h
    exact ⟨nofun, fun _ => ⟨xs, rfl⟩⟩
  case h_7 =>
    unfold decodeBigint at h
    split at h
    · cases h; exact ⟨nofun, nofun⟩
    split at h
    · cases h
    split at h <;> cases h; exact ⟨nofun, nofun⟩
  case h_8 | h_9 | h_10 | h_12 | h_14 =>
    obtain ⟨vs, -, rfl⟩ := map_eq_ok.mp h
    exact ⟨nofun, nofun⟩
  all_goals cases h <;> exact ⟨nofun, nofun⟩

theorem decodeFields_one {ms : List (String × Json)} {k : String} {v : Value}
    (h : decodeFields late ms = .ok [(k, v)]) : ∃ j, ms = [(k, j)] ∧ decodeValue late j =
      .ok v := by
  match ms, h with
  | [], h => cases h
  | (k', j) :: ms, h =>
    simp only [decodeFields, bind_eq_ok, pure_eq, Except.ok.injEq, List.cons.injEq,
      Prod.mk.injEq] at h
    obtain ⟨w, hw, fs, hfs, ⟨rfl, rfl⟩, rfl⟩ := h
    match ms, hfs with
    | [], _ => exact ⟨j, rfl, hw⟩
    | (l, i) :: ms, hfs =>
      simp only [decodeFields, bind_eq_ok, pure_eq, Except.ok.injEq, reduceCtorEq, and_false,
        exists_false] at hfs

theorem decodeFields_two {ms : List (String × Json)} {k l : String} {v w : Value}
    (h : decodeFields late ms = .ok [(k, v), (l, w)]) : ∃ i j, ms = [(k, i), (l, j)] := by
  match ms, h with
  | [], h => cases h
  | (k', i) :: ms, h =>
    simp only [decodeFields, bind_eq_ok, pure_eq, Except.ok.injEq, List.cons.injEq,
      Prod.mk.injEq] at h
    obtain ⟨u, -, fs, hfs, ⟨rfl, rfl⟩, rfl⟩ := h
    obtain ⟨j, rfl, -⟩ := decodeFields_one hfs
    exact ⟨i, j, rfl⟩

/-- What decodes as a record does not look like a marker. -/
theorem markerLike_decodeFields {ms : List (String × Json)} {fs : List (String × Value)}
    (hstr : ∀ k s, ms = [(k, .str s)] → k ≠ "#bigint" ∧ k ≠ "#unserializable")
    (harr : ∀ k xs, ms = [(k, .arr xs)] → k ≠ "#tup" ∧ k ≠ "#set" ∧ k ≠ "#map")
    (htag : ∀ i j, ms ≠ [("tag", i), ("value", j)])
    (h : decodeFields late ms = .ok fs) : markerLike fs = false := by
  cases hm : markerLike fs with
  | false => rfl
  | true =>
    unfold markerLike at hm
    split at hm
    · rename_i k v
      obtain ⟨j, rfl, hj⟩ := decodeFields_one h
      obtain ⟨hs, ha⟩ := decodeValue_shape hj
      simp only [Bool.or_eq_true, Bool.and_eq_true, beq_iff_eq] at hm
      rcases hm with ⟨hk, hv⟩ | ⟨hk, hv⟩
      · obtain ⟨xs, rfl⟩ := ha hv
        obtain ⟨h1, h2, h3⟩ := harr k xs rfl
        exact absurd hk (by simp [h1, h2, h3])
      · obtain ⟨s, rfl⟩ := hs hv
        obtain ⟨h1, h2⟩ := hstr k s rfl
        exact absurd hk (by simp [h1, h2])
    · rename_i k v l w
      obtain ⟨i, j, rfl⟩ := decodeFields_two h
      simp only [Bool.and_eq_true, beq_iff_eq] at hm
      obtain ⟨rfl, rfl⟩ := hm
      exact absurd rfl (htag i j)
    · cases hm

/-- No record that was decoded looks like a marker, at any depth. -/
theorem unmarked_decode :
    (∀ j v, decodeValue late j = .ok v → v.unmarked = true) ∧
    (∀ ms fs, decodeFields late ms = .ok fs → unmarkedFields fs = true) ∧
    (∀ xs es, decodeEntries late xs = .ok es → unmarkedEntries es = true) ∧
    (∀ xs vs, decodeElems late xs = .ok vs → unmarkedElems vs = true) := by
  have hmap : ∀ {α : Type} {f : α → Value} {a : Except Thrown α} {v : Value}
      {p : α → Bool}, (∀ x, (f x).unmarked = p x) → (∀ x, a = .ok x → p x = true) →
      f <$> a = .ok v → v.unmarked = true := by
    intro α f a v p hp ha h
    obtain ⟨x, hx, rfl⟩ := map_eq_ok.mp h
    rw [hp, ha x hx]
  refine decodeValue.mutual_induct_unfolding late
    (fun _ r => ∀ v, r = .ok v → v.unmarked = true)
    (fun _ r => ∀ fs, r = .ok fs → unmarkedFields fs = true)
    (fun _ r => ∀ es, r = .ok es → unmarkedEntries es = true)
    (fun _ r => ∀ vs, r = .ok vs → unmarkedElems vs = true)
    ?_ ?_ ?_ ?_ ?_ ?_ ?_ ?_ ?_ ?_ ?_ ?_ ?_ ?_ ?_ ?_ ?_ ?_ ?_ ?_ ?_ ?_ ?_ ?_
  case refine_7 | refine_9 | refine_10 =>
    exact fun xs ih v => hmap (fun _ => by rw [Value.unmarked]) ih
  case refine_8 => exact fun s v h => unmarked_decodeBigint h
  case refine_11 => exact fun xs ih v => hmap (fun _ => by rw [Value.unmarked]) ih
  case refine_13 => exact fun t j ih v => hmap (fun _ => by rw [Value.unmarked]) ih
  case refine_15 =>
    intro ms h1 h2 h3 h4 h5 h6 h7 ih v h
    obtain ⟨fs, hfs, rfl⟩ := map_eq_ok.mp h
    have hm : markerLike fs = false := markerLike_decodeFields
      (fun k s e => ⟨fun hk => h1 s (hk ▸ e), fun hk => h5 s (hk ▸ e)⟩)
      (fun k xs e => ⟨fun hk => h2 xs (hk ▸ e), fun hk => h3 xs (hk ▸ e), fun hk => h4 xs (hk ▸ e)⟩)
      (fun i j e => h7 i j e) hfs
    rw [Value.unmarked, hm, ih fs hfs]; rfl
  case refine_18 => intro es h; cases h; rfl
  case refine_19 =>
    intro k j es ihk ihj ih vs h
    rw [decodeEntries] at h
    obtain ⟨p, hp, h⟩ := bind_eq_ok.mp h
    obtain ⟨qs, hq, h⟩ := bind_eq_ok.mp h
    cases h
    obtain ⟨hk, hj⟩ := both_eq_ok hp
    rw [unmarkedEntries, ihk _ hk, ihj _ hj, ih _ hq]; rfl
  case refine_20 =>
    intro j xs hne es h
    rw [decodeEntries] at h
    · cases h
    · exact hne
  case refine_21 => intro vs h; cases h; rfl
  case refine_22 =>
    intro x xs ihx ih vs h
    rw [decodeElems] at h
    obtain ⟨v, hv, h⟩ := bind_eq_ok.mp h
    obtain ⟨ws, hw, h⟩ := bind_eq_ok.mp h
    cases h
    rw [unmarkedElems, ihx _ hv, ih _ hw]; rfl
  case refine_23 => intro fs h; cases h; rfl
  case refine_24 =>
    intro k j ms ihj ih fs h
    obtain ⟨v, hv, h⟩ := bind_eq_ok.mp h
    obtain ⟨gs, hg, h⟩ := bind_eq_ok.mp h
    cases h
    rw [unmarkedFields, ihj _ hv, ih _ hg]; rfl
  all_goals
    intros
    rename_i h
    cases h <;> rfl

/-! ## The normal form -/

/-- **Encoding after decoding is a normal form, and unmarked values survive it**: values, and whole
states. -/
theorem codec_round_trip :
    (∀ j v, decodeValue late j = .ok v → decodeValue late (encodeValue v) = .ok v) ∧
    (∀ v : Value, v.unmarked = true → decodeValue late (encodeValue v) = .ok v) ∧
    (∀ j s, decodeState late j = .ok s → decodeState late (encodeState s) = .ok s) ∧
    (∀ s : State, unmarkedFields s = true → decodeState late (encodeState s) = .ok s) := by
  refine ⟨fun j v h => decode_encode (unmarked_decode.1 j v h), fun v h => decode_encode h,
    fun j s h => ?_, fun s h => decode_encodeFields h⟩
  cases j with
  | obj ms => exact decode_encodeFields (unmarked_decode.2.1 ms s h)
  | _ => cases h

/-- A state with an octal, a marker whose payload is no array, and a nested set. -/
def sampleJson : Json := .obj [("n", .obj [("#bigint", .str "-010")]),
  ("r", .obj [("#set", .null)]),
  ("s", .obj [("#map", .arr [.arr [.str "k", .obj [("#set", .arr [.int 1, .arr []])]]])])]

def sampleState : State := [("n", .integer (-8)), ("r", .record [("#set", .null)]),
  ("s", .map [(.string "k", .set [.integer 1, .seq []])])]

theorem decode_sample : decodeState false sampleJson = .ok sampleState := by rfl

theorem codec_round_trip_sample :
    decodeState false (encodeState sampleState) = .ok sampleState ∧
      decodeValue false (encodeValue (.record sampleState)) = .ok (.record sampleState) :=
  ⟨codec_round_trip.2.2.1 _ _ decode_sample, codec_round_trip.2.1 _ rfl⟩

/-! ## Decimal texts -/

/-- **A decimal text decodes to the integer it denotes exactly when it is readable**: it has no
leading `0`, or zeros before at most one digit, an octal one. -/
theorem decode_bigint_decimal {s : String} (hs : BigInt.isDecimal s = true) :
    decodeValue late (.obj [("#bigint", .str s)]) = .ok (.integer (BigInt.decimal s)) ↔
      BigInt.readable s = true := by
  have hne : s ≠ "" := by
    rintro rfl
    exact absurd hs (by decide)
  rw [← BigInt.read_eq_decimal hs, decodeValue, decodeBigint, if_neg hne, hs]
  cases BigInt.read s <;> simp

theorem decode_bigint_decimal_sample : decodeValue false (.obj [("#bigint", .str "-12")]) =
    .ok (.integer (BigInt.decimal "-12")) :=
  (decode_bigint_decimal (by decide)).mpr (by decide)

/-- Ten with a leading zero decodes as eight, ninety with one not at all. -/
theorem decode_bigint_octal :
    BigInt.isDecimal "010" = true ∧ BigInt.decimal "010" = 10 ∧
      decodeValue false (.obj [("#bigint", .str "010")]) = .ok (.integer 8) ∧
    BigInt.isDecimal "090" = true ∧
      decodeValue false (.obj [("#bigint", .str "090")]) = .error .runtimeError ∧
    ¬ ∀ (late : Bool) (s : String), BigInt.isDecimal s = true →
      decodeValue late (.obj [("#bigint", .str s)]) = .ok (.integer (BigInt.decimal s)) := by
  refine ⟨by decide, by decide, rfl, by decide, rfl, fun h => ?_⟩
  cases h false "010" (by decide)

end MirrorCpp.Itf
