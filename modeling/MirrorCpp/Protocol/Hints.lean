import MirrorCpp.Itf.Codec
import MirrorCpp.Protocol.Message

/-!
# Texts of diff hints (`protocol.cpp`)

Values print through the JSON library, which throws on a string that is no UTF-8. No hint that
came out of a line holds one.
-/

namespace MirrorCpp.Protocol

open Itf Fallible

/-! ## Rendering -/

def PathSeg.render : PathSeg → String
  | field name => name
  | index i => "[" ++ BigInt.str i ++ "]"

def renderPath (path : List PathSeg) : String :=
  path.foldl (fun out seg =>
    match seg with
    | .field name => (if out = "" then out else out ++ ".") ++ name
    | .index _ => out ++ seg.render) ""

section Render

variable (lib : JsonLib)

/-- `to_string`; `none`: the library throws. -/
def renderValue (v : Value) : Option String := lib.dump (encodeValue v)

/-- A value, or what stands for a missing one. -/
def renderOptional (v : Option Value) (lead missing : String) : Option String :=
  match v with
  | some v => (renderValue lib v).map (lead ++ ·)
  | none => some missing

def renderDiffHint (h : DiffHint) : Option String :=
  let lead := if renderPath h.path = "" then "state" else renderPath h.path
  let versus (what : String) : Option String := do
    let e ← renderOptional lib h.expected "" "?"
    let a ← renderOptional lib h.actual "" "?"
    return lead ++ what ++ e ++ ", got " ++ a ++ ")"
  match h.kind with
  | .valueMismatch => versus ": value mismatch (expected "
  | .missing => some (lead ++ ": missing")
  | .extra => some (lead ++ ": extra")
  | .missingElem => (renderOptional lib h.expected " " "").map (lead ++ ": missing element" ++ ·)
  | .extraElem => (renderOptional lib h.actual " " "").map (lead ++ ": extra element" ++ ·)
  | .typeMismatch => versus ": type mismatch (expected "
  | .truncated => some "\xE2\x80\xA6 (hints truncated)"

def renderDiffHints : List DiffHint → String → Option String
  | [], out => some out
  | h :: hs, out =>
    (renderDiffHint lib h).bind fun t =>
      renderDiffHints hs ((if out = "" then out else out ++ "; ") ++ t)

end Render

/-! ## Decoded values print -/

theorem utf8_field {j v : Json} {k : String} (h : j.utf8 = true) (hf : j.field? k = some v) :
    v.utf8 = true := by
  cases j with
  | obj ms =>
    obtain ⟨ms₁, ms₂, rfl, -⟩ := List.lookup_eq_some_iff.mp (show ms.lookup k = some v from hf)
    rw [Json.utf8_obj, Json.utf8Members_iff] at h
    exact (h (k, v) (by simp)).2
  | _ => cases hf

theorem ascii_str (n : Int) : Text.ascii (BigInt.str n) = true := by
  have hd : (Nat.toDigits 10 n.natAbs).all Text.asciiChar = true := by
    rw [List.all_eq_true]
    intro c hc
    have hc := Nat.isDigit_of_mem_toDigits (b := 10) (by decide) (by decide) hc
    simp only [Char.isDigit, Bool.and_eq_true, decide_eq_true_eq, UInt32.le_iff_toNat_le] at hc
    have h9 : '9'.val.toNat = 57 := rfl
    simp only [Text.asciiChar, decide_eq_true_eq, Char.toNat]
    omega
  unfold Text.ascii BigInt.str
  rw [Text.chars_eq, String.toList_ofList]
  split
  · rw [List.all_cons, hd]
    decide
  · exact hd

theorem utf8_integer (n : Int) : (encodeValue (.integer n)).utf8 = true := by
  simp [encodeValue, Json.utf8Members, Text.utf8_of_ascii (ascii_str n),
    show Text.utf8 "#bigint" = true by decide]

theorem utf8_decodeBigint {s : String} {v : Value} (h : decodeBigint s = .ok v) :
    (encodeValue v).utf8 = true := by
  unfold decodeBigint at h
  split at h
  · cases h
    simp [encodeValue]
  split at h
  · cases h
  split at h
  · cases h
    exact utf8_integer _
  · cases h

/-- What came out of UTF-8 prints. -/
theorem utf8_decode (late : Bool) :
    (∀ j, j.utf8 = true → ∀ v, decodeValue late j = .ok v → (encodeValue v).utf8 = true) ∧
    (∀ ms, Json.utf8Members ms = true → ∀ fs, decodeFields late ms = .ok fs →
      Json.utf8Members (encodeFields fs) = true) ∧
    (∀ xs, Json.utf8Elems xs = true → ∀ es, decodeEntries late xs = .ok es →
      Json.utf8Elems (encodeEntries es) = true) ∧
    ∀ xs, Json.utf8Elems xs = true → ∀ vs, decodeElems late xs = .ok vs →
      Json.utf8Elems (encodeElems vs) = true := by
  refine decodeValue.mutual_induct_unfolding late
    (fun j r => j.utf8 = true → ∀ v, r = .ok v → (encodeValue v).utf8 = true)
    (fun ms r => Json.utf8Members ms = true → ∀ fs, r = .ok fs →
      Json.utf8Members (encodeFields fs) = true)
    (fun xs r => Json.utf8Elems xs = true → ∀ es, r = .ok es →
      Json.utf8Elems (encodeEntries es) = true)
    (fun xs r => Json.utf8Elems xs = true → ∀ vs, r = .ok vs →
      Json.utf8Elems (encodeElems vs) = true)
    ?_ ?_ ?_ ?_ ?_ ?_ ?_ ?_ ?_ ?_ ?_ ?_ ?_ ?_ ?_ ?_ ?_ ?_ ?_ ?_ ?_ ?_ ?_ ?_
  case refine_7 =>
    intro xs ih hu v h
    obtain ⟨vs, hvs, rfl⟩ := map_eq_ok.mp h
    rw [encodeValue, Json.utf8_arr]
    exact ih (by simpa using hu) vs hvs
  case refine_8 => exact fun s _ v h => utf8_decodeBigint h
  case refine_9 | refine_10 | refine_11 =>
    intro xs ih hu v h
    obtain ⟨vs, hvs, rfl⟩ := map_eq_ok.mp h
    simp only [Json.utf8_obj, Json.utf8_arr, Json.utf8Members, Bool.and_eq_true] at hu
    simp [encodeValue, Json.utf8Members, ih hu.1.2 vs hvs, hu.1.1]
  case refine_13 =>
    intro t j ih hu v h
    obtain ⟨w, hw, rfl⟩ := map_eq_ok.mp h
    simp only [Json.utf8_obj, Json.utf8Members, Bool.and_eq_true] at hu
    simp [encodeValue, Json.utf8Members, ih hu.2.1.2 w hw, hu.1.1, hu.1.2, hu.2.1.1]
  case refine_15 =>
    intro ms h1 h2 h3 h4 h5 h6 h7 ih hu v h
    obtain ⟨fs, hfs, rfl⟩ := map_eq_ok.mp h
    rw [encodeValue, Json.utf8_obj]
    exact ih (by simpa using hu) fs hfs
  case refine_19 =>
    intro k v es ihk ihv ih hu fs h
    rw [decodeEntries] at h
    obtain ⟨p, hp, h⟩ := bind_eq_ok.mp h
    obtain ⟨gs, hg, h⟩ := bind_eq_ok.mp h
    cases h
    obtain ⟨hk, hv⟩ := both_eq_ok hp
    simp only [Json.utf8Elems, Json.utf8_arr, Bool.and_eq_true] at hu
    simp [encodeEntries, Json.utf8Elems, ihk hu.1.1 _ hk, ihv hu.1.2.1 _ hv, ih hu.2 _ hg]
  case refine_22 =>
    intro x xs ihx ih hu vs h
    rw [decodeElems] at h
    obtain ⟨v, hv, h⟩ := bind_eq_ok.mp h
    obtain ⟨ws, hw, h⟩ := bind_eq_ok.mp h
    cases h
    simp only [Json.utf8Elems, Bool.and_eq_true] at hu
    simp [encodeElems, Json.utf8Elems, ihx hu.1 v hv, ih hu.2 ws hw]
  case refine_24 =>
    intro k j ms ihj ih hu fs h
    obtain ⟨v, hv, h⟩ := bind_eq_ok.mp h
    obtain ⟨gs, hg, h⟩ := bind_eq_ok.mp h
    cases h
    simp only [Json.utf8Members, Bool.and_eq_true] at hu
    simp [encodeFields, Json.utf8Members, hu.1.1, ihj hu.1.2 v hv, ih hu.2 gs hg]
  case refine_20 =>
    intro j xs hne hu es h
    rw [decodeEntries] at h
    · cases h
    · exact hne
  case refine_18 | refine_21 | refine_23 => exact fun _ _ h => by cases h; rfl
  case refine_1 => exact fun _ v h => by cases h; simp [encodeValue]
  case refine_2 => exact fun b _ v h => by cases h; simp [encodeValue]
  case refine_3 => exact fun s hu v h => by cases h; simpa [encodeValue] using hu
  case refine_4 => exact fun n _ v h => by cases h; exact utf8_integer n
  case refine_6 => exact fun d _ _ v h => by cases h; exact utf8_integer _
  case refine_12 =>
    intro s hu v h
    cases h
    rw [encodeValue]
    exact hu
  all_goals
    intros
    rename_i h
    cases h

/-! ## Decoded hints print -/

def DiffHint.Printable (h : DiffHint) : Prop :=
  ∀ v, h.expected = some v ∨ h.actual = some v → (encodeValue v).utf8 = true

variable {late : Bool} {lib : JsonLib}

theorem utf8_decodeOptional {j : Json} {key : String} {v : Value} (hu : j.utf8 = true)
    (h : decodeOptional late j key = .ok (some v)) : (encodeValue v).utf8 = true := by
  unfold decodeOptional at h
  cases hf : j.field? key with
  | none => simp [hf] at h
  | some w =>
    rw [hf] at h
    have hw := (utf8_decode late).1 w (utf8_field hu hf)
    cases w <;> simp only [map_eq_ok, Option.some.injEq] at h <;>
      first | (obtain ⟨x, hx, rfl⟩ := h; exact hw _ hx) | cases h

theorem printable_decode {j : Json} {h : DiffHint} (hu : j.utf8 = true)
    (hd : decodeDiffHint late j = .ok h) : h.Printable := by
  unfold decodeDiffHint at hd
  split at hd
  · cases hd
  obtain ⟨k, -, hd⟩ := bind_eq_ok.mp hd
  obtain ⟨k, -, hd⟩ := bind_eq_ok.mp hd
  obtain ⟨kind, -, hd⟩ := bind_eq_ok.mp hd
  obtain ⟨path, -, hd⟩ := bind_eq_ok.mp hd
  obtain ⟨e, he, hd⟩ := bind_eq_ok.mp hd
  obtain ⟨a, ha, hd⟩ := bind_eq_ok.mp hd
  cases hd
  rintro v (rfl | rfl)
  · exact utf8_decodeOptional hu he
  · exact utf8_decodeOptional hu ha

theorem printable_decodeHints {js : List Json} {hs : List DiffHint}
    (hu : Json.utf8Elems js = true) (hd : decodeDiffHints late js = .ok hs) :
    ∀ h ∈ hs, h.Printable := by
  induction js generalizing hs with
  | nil => cases hd; exact nofun
  | cons j js ih =>
    simp only [Json.utf8Elems, Bool.and_eq_true] at hu
    rw [decodeDiffHints] at hd
    obtain ⟨h, hh, hd⟩ := bind_eq_ok.mp hd
    obtain ⟨hs, hhs, hd⟩ := bind_eq_ok.mp hd
    cases hd
    exact List.forall_mem_cons.mpr ⟨printable_decode hu.1 hh, ih hu.2 hhs⟩

theorem renderOptional_isSome {v : Option Value} (lead missing : String)
    (h : ∀ w, v = some w → (encodeValue w).utf8 = true) :
    ∃ t, renderOptional lib v lead missing = some t := by
  cases v with
  | none => exact ⟨_, rfl⟩
  | some w =>
    obtain ⟨t, ht⟩ := lib.dump_eq_some (h w rfl)
    exact ⟨_, by rw [renderOptional, renderValue, ht]; rfl⟩

theorem renderDiffHint_isSome {h : DiffHint} (hp : h.Printable) :
    ∃ t, renderDiffHint lib h = some t := by
  have he := fun lead missing => @renderOptional_isSome lib h.expected lead missing
    fun w hw => hp w (.inl hw)
  have ha := fun lead missing => @renderOptional_isSome lib h.actual lead missing
    fun w hw => hp w (.inr hw)
  obtain ⟨e, he'⟩ := he "" "?"
  obtain ⟨a, ha'⟩ := ha "" "?"
  obtain ⟨m, hm⟩ := he " " ""
  obtain ⟨x, hx⟩ := ha " " ""
  unfold renderDiffHint
  cases h.kind <;> simp [he', ha', hm, hx]

theorem renderDiffHints_isSome {hs : List DiffHint} (hp : ∀ h ∈ hs, h.Printable) (out : String) :
    ∃ t, renderDiffHints lib hs out = some t := by
  induction hs generalizing out with
  | nil => exact ⟨_, rfl⟩
  | cons h hs ih =>
    obtain ⟨t, ht⟩ := renderDiffHint_isSome (hp h List.mem_cons_self)
    rw [renderDiffHints, ht]
    exact ih (fun h hh => hp h (List.mem_cons_of_mem _ hh)) _

theorem decode_eq_ok {rd : Reader} {line : String} {m : MirrorMessage}
    (h : decodeMirrorMessage late rd line = .ok (.ok m)) :
    ∃ j tag, rd.parse line = .ok j ∧ j.field? "proto_step" = some (.str tag) ∧
      decodeTagged late j tag = .ok m := by
  unfold decodeMirrorMessage at h
  cases hj : rd.parse line with
  | error f => rw [hj] at h; cases f <;> cases h
  | ok j =>
    rw [hj] at h
    dsimp only at h
    split at h
    · cases h
    split at h
    · rename_i tag hf
      cases hd : decodeTagged late j tag with
      | ok m' =>
        rw [hd] at h
        cases h
        exact ⟨j, tag, rfl, hf, hd⟩
      | error e => rw [hd] at h; cases e <;> cases h
    · cases h

/-- A message carries the tag it was decoded under, unless that is unknown. -/
theorem name_decodeTagged (j : Json) (tag : String) :
    Yields (fun m => m.name = tag ∨ ∃ e, m = .protocolError e) (decodeTagged late j tag) := by
  have named : ∀ {m : MirrorMessage}, tag = m.name → m.name = tag ∨ ∃ e, m = .protocolError e :=
    fun h => .inl h.symm
  unfold decodeTagged
  refine yields_ite (fun h => yields_map fun _ => named h) fun _ => ?_
  refine yields_ite (fun h => yields_bind fun _ _ => yields_bind fun _ _ => yields_bind fun _ _ =>
    yields_ok (named h)) fun _ => ?_
  refine yields_ite (fun h => yields_bind fun _ _ => yields_bind fun _ _ => yields_bind fun _ _ =>
    yields_ok (named h)) fun _ => ?_
  refine yields_ite (fun h => yields_ok (named h)) fun _ => ?_
  refine yields_ite (fun h => yields_ok (named h)) fun _ => ?_
  refine yields_ite (fun h => yields_ok (named h)) fun _ => ?_
  refine yields_ite (fun h => yields_map fun _ => named h) fun _ => ?_
  refine yields_ite (fun h => yields_map fun _ => named h) fun _ => ?_
  refine yields_ite (fun h => yields_bind fun _ _ => yields_bind fun _ _ =>
    yields_ok (named h)) fun _ => ?_
  refine yields_ite (fun h => yields_bind fun _ _ => yields_bind fun _ _ =>
    yields_ok (named h)) fun _ => ?_
  refine yields_ite (fun h => yields_bind fun _ _ => yields_bind fun _ _ => yields_bind fun _ _ =>
    yields_bind fun _ _ => yields_bind fun _ _ => yields_bind fun _ _ =>
    yields_ok (named h)) fun _ => ?_
  refine yields_ite (fun h => yields_bind fun _ _ => yields_map fun _ => named h) fun _ => ?_
  refine yields_ite (fun h => yields_bind fun _ _ => yields_map fun _ => named h) fun _ => ?_
  refine yields_ite (fun h => yields_bind fun _ _ => yields_map fun _ => named h) fun _ => ?_
  refine yields_ite (fun h => yields_map fun _ => named h) fun _ => ?_
  refine yields_ite (fun h => yields_bind fun _ _ => yields_map fun _ => named h) fun _ => ?_
  refine yields_ite (fun h => yields_bind fun _ _ => yields_map fun _ => named h) fun _ => ?_
  refine yields_ite (fun h => yields_bind fun _ _ => yields_bind fun _ _ => yields_bind fun _ _ =>
    yields_map fun _ => named h) fun _ => ?_
  refine yields_ite (fun h => yields_bind fun _ _ => yields_bind fun _ _ => yields_bind fun _ _ =>
    yields_map fun _ => named h) fun _ => ?_
  refine yields_ite (fun h => yields_bind fun _ _ => yields_bind fun _ _ => yields_bind fun _ _ =>
    yields_map fun _ => named h) fun _ => ?_
  exact yields_ok (.inr ⟨_, rfl⟩)

/-- The hints of a mismatch that was received print. -/
theorem render_received {rd : Reader} {line : String} {m : StepMismatch}
    (hutf8 : ∀ j, rd.parse line = .ok j → j.utf8 = true)
    (h : decodeMirrorMessage late rd line = .ok (.ok (.stepMismatch m))) :
    ∃ t, renderDiffHints lib m.hints "" = some t := by
  obtain ⟨j, tag, hj, -, hd⟩ := decode_eq_ok h
  obtain rfl : "step_mismatch" = tag := by
    rcases name_decodeTagged j tag _ hd with h | ⟨e, he⟩
    · exact h
    · cases he
  rw [show decodeTagged late j "step_mismatch" = .stepMismatch <$> decodeStepMismatch late j by
    simp [decodeTagged]] at hd
  obtain ⟨m', hm, he⟩ := map_eq_ok.mp hd
  cases he
  obtain ⟨_, -, hm⟩ := bind_eq_ok.mp hm
  obtain ⟨_, -, hm⟩ := bind_eq_ok.mp hm
  obtain ⟨hs, hhs, hm⟩ := bind_eq_ok.mp hm
  cases hm
  refine renderDiffHints_isSome (fun h hh => ?_) ""
  unfold decodeHintsField at hhs
  split at hhs
  · rename_i js hf
    exact printable_decodeHints (by simpa using utf8_field (hutf8 j hj) hf) hhs h hh
  · cases hhs
    cases hh

end MirrorCpp.Protocol
