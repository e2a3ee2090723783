import MirrorCpp.Protocol.Hints
import MirrorCpp.Protocol.Total

/-!
# Integers of a message on the wire and decoded

`wireInts` are the integers a JSON message holds in its integer fields, `MirrorMessage.ints` the
ones of the decoded message, in the same order. Decoding converts every one of them with
`toInt64`, which changes exactly those from `2 ^ 63` on.
-/

namespace MirrorCpp.Protocol

open Itf Fallible

/-- The integer under a key. -/
def intAt (j : Json) (key : String) : List Int :=
  match j.field? key with
  | some (.int n) => [n]
  | _ => []

/-- The index of a path segment; a segment with a field name has none. -/
def segInts (j : Json) : List Int :=
  match j.field? "field" with
  | some (.str _) => []
  | _ => intAt j "index"

/-- The elements of an array under a key. -/
def elemsAt (j : Json) (key : String) : List Json :=
  match j.field? key with
  | some (.arr xs) => xs
  | _ => []

/-- The integers a message holds under its tag. -/
def wireInts (j : Json) (tag : String) : List Int :=
  if tag = "explorer_ready" then
    intAt j "initTransitions" ++ intAt j "nextTransitions" ++ intAt j "stateInvariants"
  else if tag = "explore_step_done" then intAt j "stepNo"
  else if tag = "explore_rollback_done" then intAt j "snapshotId"
  else if tag = "step_mismatch" then
    (elemsAt j "hints").flatMap fun h => (elemsAt h "path").flatMap segInts
  else []

def PathSeg.ints : PathSeg → List Int
  | .field _ => []
  | .index i => [i]

/-- The integers of a decoded message. -/
def MirrorMessage.ints : MirrorMessage → List Int
  | explorerReady i n s => [i, n, s]
  | exploreStepDone n => [n]
  | exploreRollbackDone n => [n]
  | stepMismatch m => m.hints.flatMap fun h => h.path.flatMap PathSeg.ints
  | _ => []

variable {late : Bool} {j : Json} {tag : String}

theorem elemsAt_arr {key : String} {xs : List Json} (h : j.field? key = some (.arr xs)) :
    elemsAt j key = xs := by rw [elemsAt, h]

theorem elemsAt_of_not_arr {key : String} (h : ∀ xs, j.field? key = some (.arr xs) → False) :
    elemsAt j key = [] := by
  unfold elemsAt
  split
  · rename_i hs
    exact (h _ hs).elim
  · rfl

theorem segInts_of_not_field (h : ∀ s, j.field? "field" = some (.str s) → False) :
    segInts j = intAt j "index" := by
  unfold segInts
  split
  · rename_i hs
    exact (h _ hs).elim
  · rfl

/-! ## Decoding converts every integer -/

theorem requireInt_ints {key what : String} {v : Json} {n : Int} (hv : at_ j key = .ok v)
    (h : requireInt v what = .ok n) : [n] = (intAt j key).map toInt64 := by
  rcases at_eq j key with ⟨w, hw, hf⟩ | ⟨e, he, -, -⟩
  · obtain rfl : w = v := Except.ok.inj (hw.symm.trans hv)
    unfold requireInt at h
    split at h
    · cases h
      rw [intAt, hf]
      rfl
    · cases h
  · rw [he] at hv
    cases hv

theorem decodePathSeg_ints {s : PathSeg} (h : decodePathSeg j = .ok s) :
    s.ints = (segInts j).map toInt64 := by
  unfold decodePathSeg at h
  split at h
  · rename_i hf
    cases h
    rw [segInts, hf]
    rfl
  · rename_i hf
    split at h
    · rename_i hi
      cases h
      rw [segInts_of_not_field hf, intAt, hi]
      rfl
    · cases h

theorem decodeSegs_ints {ss : List Json} {path : List PathSeg} (h : decodeSegs ss = .ok path) :
    path.flatMap PathSeg.ints = (ss.flatMap segInts).map toInt64 := by
  induction ss generalizing path with
  | nil => cases h; rfl
  | cons s ss ih =>
    obtain ⟨t, ht, h⟩ := bind_eq_ok.mp h
    obtain ⟨ts, hts, h⟩ := bind_eq_ok.mp h
    cases h
    rw [List.flatMap_cons, List.flatMap_cons, List.map_append, decodePathSeg_ints ht, ih hts]

theorem decodePath_ints {path : List PathSeg} (h : decodePath j = .ok path) :
    path.flatMap PathSeg.ints = ((elemsAt j "path").flatMap segInts).map toInt64 := by
  unfold decodePath at h
  split at h
  · rename_i hf
    rw [elemsAt_arr hf]
    exact decodeSegs_ints h
  · rename_i hf
    cases h
    rw [elemsAt_of_not_arr hf]
    rfl

theorem decodeDiffHint_ints {h : DiffHint} (hd : decodeDiffHint late j = .ok h) :
    h.path.flatMap PathSeg.ints = ((elemsAt j "path").flatMap segInts).map toInt64 := by
  unfold decodeDiffHint at hd
  split at hd
  · cases hd
  obtain ⟨_, -, hd⟩ := bind_eq_ok.mp hd
  obtain ⟨_, -, hd⟩ := bind_eq_ok.mp hd
  obtain ⟨_, -, hd⟩ := bind_eq_ok.mp hd
  obtain ⟨path, hp, hd⟩ := bind_eq_ok.mp hd
  obtain ⟨_, -, hd⟩ := bind_eq_ok.mp hd
  obtain ⟨_, -, hd⟩ := bind_eq_ok.mp hd
  cases hd
  exact decodePath_ints hp

theorem decodeDiffHints_ints {js : List Json} {hs : List DiffHint}
    (h : decodeDiffHints late js = .ok hs) : (hs.flatMap fun h => h.path.flatMap PathSeg.ints) =
      (js.flatMap fun h => (elemsAt h "path").flatMap segInts).map toInt64 := by
  induction js generalizing hs with
  | nil => cases h; rfl
  | cons j js ih =>
    obtain ⟨d, hd, h⟩ := bind_eq_ok.mp h
    obtain ⟨ds, hds, h⟩ := bind_eq_ok.mp h
    cases h
    rw [List.flatMap_cons, List.flatMap_cons, List.map_append, decodeDiffHint_ints hd, ih hds]

theorem decodeStepMismatch_ints {m : StepMismatch} (h : decodeStepMismatch late j = .ok m) :
    (m.hints.flatMap fun h => h.path.flatMap PathSeg.ints) =
      ((elemsAt j "hints").flatMap fun h => (elemsAt h "path").flatMap segInts).map toInt64 := by
  obtain ⟨_, -, h⟩ := bind_eq_ok.mp h
  obtain ⟨_, -, h⟩ := bind_eq_ok.mp h
  obtain ⟨hs, hhs, h⟩ := bind_eq_ok.mp h
  cases h
  unfold decodeHintsField at hhs
  split at hhs
  · rename_i hf
    rw [elemsAt_arr hf]
    exact decodeDiffHints_ints hhs
  · rename_i hf
    cases hhs
    rw [elemsAt_of_not_arr hf]
    rfl

/-- The integers of a decoded message are the converted ones of the wire. -/
theorem decodeTagged_ints (j : Json) (tag : String) :
    Yields (fun m => m.ints = (wireInts j tag).map toInt64) (decodeTagged late j tag) := by
  have plain : ∀ {t : String} {m : MirrorMessage}, tag = t → wireInts j t = [] → m.ints = [] →
      m.ints = (wireInts j tag).map toInt64 := by
    rintro t m rfl hw hm
    rw [hw, hm]
    rfl
  unfold decodeTagged
  refine yields_ite (fun h => yields_map fun _ => plain h rfl rfl) fun _ => ?_
  refine yields_ite (fun h => yields_bind fun _ _ => yields_bind fun _ _ => yields_bind fun _ _ =>
    yields_ok (plain h rfl rfl)) fun _ => ?_
  refine yields_ite (fun h => yields_bind fun _ _ => yields_bind fun _ _ => yields_bind fun _ _ =>
    yields_ok (plain h rfl rfl)) fun _ => ?_
  refine yields_ite (fun h => yields_ok (plain h rfl rfl)) fun _ => ?_
  refine yields_ite (fun h => yields_ok (plain h rfl rfl)) fun _ => ?_
  refine yields_ite (fun h => yields_ok (plain h rfl rfl)) fun _ => ?_
  refine yields_ite (fun h m hm => ?_) fun hmis => ?_
  · obtain ⟨d, hd, rfl⟩ := map_eq_ok.mp hm
    rw [h]
    exact decodeStepMismatch_ints hd
  refine yields_ite (fun h => yields_map fun _ => plain h rfl rfl) fun _ => ?_
  refine yields_ite (fun h => yields_bind fun _ _ => yields_bind fun _ _ =>
    yields_ok (plain h rfl rfl)) fun _ => ?_
  refine yields_ite (fun h => yields_bind fun _ _ => yields_bind fun _ _ =>
    yields_ok (plain h rfl rfl)) fun _ => ?_
  refine yields_ite (fun h => yields_bind fun _ hi => yields_bind fun _ hi' =>
    yields_bind fun _ hn => yields_bind fun _ hn' => yields_bind fun _ hs =>
    yields_bind fun _ hs' => yields_ok ?_) fun hready => ?_
  · have ei := requireInt_ints hi hi'
    have en := requireInt_ints hn hn'
    have es := requireInt_ints hs hs'
    rw [h]
    show _ = (intAt j "initTransitions" ++ intAt j "nextTransitions" ++
      intAt j "stateInvariants").map toInt64
    rw [List.map_append, List.map_append, ← ei, ← en, ← es]
    rfl
  refine yields_ite (fun h => yields_bind fun _ _ => yields_map fun _ => plain h rfl rfl)
    fun _ => ?_
  refine yields_ite (fun h => yields_bind fun _ _ => yields_map fun _ => plain h rfl rfl)
    fun _ => ?_
  refine yields_ite (fun h => yields_bind fun _ hv m hm => ?_) fun hstep => ?_
  · obtain ⟨n, hn, rfl⟩ := map_eq_ok.mp hm
    rw [h]
    exact requireInt_ints hv hn
  refine yields_ite (fun h => yields_map fun _ => plain h rfl rfl) fun _ => ?_
  refine yields_ite (fun h => yields_bind fun _ _ => yields_map fun _ => plain h rfl rfl)
    fun _ => ?_
  refine yields_ite (fun h => yields_bind fun _ hv m hm => ?_) fun hback => ?_
  · obtain ⟨n, hn, rfl⟩ := map_eq_ok.mp hm
    rw [h]
    exact requireInt_ints hv hn
  refine yields_ite (fun h => yields_bind fun _ _ => yields_bind fun _ _ => yields_bind fun _ _ =>
    yields_map fun _ => plain h rfl rfl) fun _ => ?_
  refine yields_ite (fun h => yields_bind fun _ _ => yields_bind fun _ _ => yields_bind fun _ _ =>
    yields_map fun _ => plain h rfl rfl) fun _ => ?_
  refine yields_ite (fun h => yields_bind fun _ _ => yields_bind fun _ _ => yields_bind fun _ _ =>
    yields_map fun _ => plain h rfl rfl) fun _ => ?_
  refine yields_ok (plain rfl ?_ rfl)
  rw [wireInts, if_neg hready, if_neg hstep, if_neg hback, if_neg hmis]

/-! ## What the conversion keeps -/

theorem toInt64_eq_self {n : Int} : toInt64 n = n ↔ n < 2 ^ 63 := by
  unfold toInt64
  split <;> omega

theorem map_toInt64_eq_self {ns : List Int} :
    ns.map toInt64 = ns ↔ ∀ n ∈ ns, n < 2 ^ 63 := by
  induction ns with
  | nil => simp
  | cons n ns ih => simp [ih, toInt64_eq_self]

/-- What the parser builds holds 64-bit integers. -/
theorem intAt_range (hj : j.wf = true) {key : String} {n : Int} (hn : n ∈ intAt j key) :
    -2 ^ 63 ≤ n ∧ n < 2 ^ 64 := by
  unfold intAt at hn
  split at hn
  · rename_i hf
    obtain rfl := List.mem_singleton.mp hn
    have := Json.wf_field hj hf
    rwa [Json.wf, decide_eq_true_eq] at this
  · cases hn

theorem wf_elemsAt (hj : j.wf = true) {key : String} {x : Json} (hx : x ∈ elemsAt j key) :
    x.wf = true := by
  unfold elemsAt at hx
  split at hx
  · rename_i hf
    have := Json.wf_field hj hf
    rw [Json.wf, Json.wfElems_iff] at this
    exact this x hx
  · cases hx

theorem wireInts_range (hj : j.wf = true) {n : Int} (hn : n ∈ wireInts j tag) :
    -2 ^ 63 ≤ n ∧ n < 2 ^ 64 := by
  unfold wireInts at hn
  split at hn
  · simp only [List.mem_append] at hn
    rcases hn with (hn | hn) | hn <;> exact intAt_range hj hn
  split at hn
  · exact intAt_range hj hn
  split at hn
  · exact intAt_range hj hn
  split at hn
  · obtain ⟨h, hh, hn⟩ := List.mem_flatMap.mp hn
    obtain ⟨s, hs, hn⟩ := List.mem_flatMap.mp hn
    unfold segInts at hn
    split at hn
    · cases hn
    · exact intAt_range (wf_elemsAt (wf_elemsAt hj hh) hs) hn
  · cases hn

/-- **The integers of a decoded message are the ones on the wire, all of them in range, exactly
when every integer on the wire is below `2 ^ 63`**: from there on they are decoded all the same,
wrapped around. -/
theorem wire_integers_iff {lib : Reader} {line : String} {m : MirrorMessage}
    (hj : lib.parse line = .ok j) (hw : j.wf = true)
    (ht : j.field? "proto_step" = some (.str tag))
    (h : decodeMirrorMessage late lib line = .ok (.ok m)) :
    (m.ints = wireInts j tag ∧ ∀ n ∈ wireInts j tag, -2 ^ 63 ≤ n ∧ n < 2 ^ 63) ↔
      ∀ n ∈ wireInts j tag, n < 2 ^ 63 := by
  obtain ⟨i, t, hi, ht', hd⟩ := decode_eq_ok h
  obtain rfl := Except.ok.inj (hj.symm.trans hi)
  obtain rfl : tag = t := by simpa [ht] using ht'
  rw [decodeTagged_ints j tag m hd, map_toInt64_eq_self]
  exact ⟨fun h => h.1, fun h => ⟨h, fun n hn => ⟨(wireInts_range hw hn).1, h n hn⟩⟩⟩

/-- The answer to a step with a number. -/
def stepMessage (n : Int) : Json :=
  .obj [("proto_step", .str "explore_step_done"), ("stepNo", .int n)]

def stepLine (n : Int) : String := String.ofList (Compact.text (stepMessage n))

theorem parse_stepLine {n : Int} (hp : (stepMessage n).plainBelow 2 = true)
    (hw : (stepMessage n).wf = true) (hu : (stepMessage n).utf8 = true) :
    compactReader.parse (stepLine n) = .ok (stepMessage n) := compactReader_text hp hw hu

theorem wire_integers_sample :
    (MirrorMessage.exploreStepDone 3).ints = wireInts (stepMessage 3) "explore_step_done" := by
  have hj := parse_stepLine (n := 3) (by decide) (by decide) (by decide)
  have hd : decodeMirrorMessage false compactReader (stepLine 3) =
      .ok (.ok (.exploreStepDone 3)) := by
    rw [decodeMirrorMessage, hj]
    rfl
  exact ((wire_integers_iff hj (by decide) rfl hd).mpr (by decide)).1

/-- The largest unsigned integer is decoded as minus one. -/
theorem wire_integers_wrap :
    decodeMirrorMessage false compactReader (stepLine (2 ^ 64 - 1)) =
      .ok (.ok (.exploreStepDone (-1))) ∧
    ¬ ∀ (late : Bool) (lib : Reader) (line : String) (j : Json) (tag : String)
      (m : MirrorMessage), lib.parse line = .ok j → j.wf = true →
      j.field? "proto_step" = some (.str tag) →
      decodeMirrorMessage late lib line = .ok (.ok m) →
      m.ints = wireInts j tag ∧ ∀ n ∈ wireInts j tag, -2 ^ 63 ≤ n ∧ n < 2 ^ 63 := by
  have hj := parse_stepLine (n := 2 ^ 64 - 1) (by decide) (by decide) (by decide)
  have hd : decodeMirrorMessage false compactReader (stepLine (2 ^ 64 - 1)) =
      .ok (.ok (.exploreStepDone (-1))) := by
    rw [decodeMirrorMessage, hj]
    rfl
  refine ⟨hd, fun h => ?_⟩
  have := (h false _ _ _ _ _ hj (by decide) rfl hd).1
  revert this
  decide

end MirrorCpp.Protocol
