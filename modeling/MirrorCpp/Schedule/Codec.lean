import MirrorCpp.Schedule.Document
import MirrorCpp.Lib.JsonCompact
import MirrorCpp.Lib.JsonGuard

/-!
# Reading back what was printed

`encodeSchedule` prints exactly the schedules with plain inputs, the only profile, a
well-formed identity, well-formed names, at most 65536 steps and a text of at most 1 MiB;
`parseSchedule` then gives the schedule back.

The reader counts the containers of the whole document (32), the writer those below the
inputs (28): a text may nest its inputs deeper than the writer admits.
-/

namespace MirrorCpp.Schedule

open Fallible

/-! ## The callbacks of the parser -/

/-- What the callbacks guard. -/
def nestingGuard : Guard String where
  limit := 32
  deep := "schedule nesting exceeds bound"
  repeated _ := "duplicate schedule JSON key"
  stray := none

def Nesting.nest (n : Nesting) : Nest := ⟨n.keys, n.depth⟩

theorem nest_step (n : Nesting) (e : ParseEvent) :
    Nesting.nest <$> n.step e = nestingGuard.step n.nest e := by
  obtain ⟨keys, depth⟩ := n
  cases e with
  | objectStart | arrayStart =>
    by_cases h : 32 < depth + 1 <;>
      simp [Nesting.step, Guard.step, Guard.enter, Nesting.nest, nestingGuard, h]
  | key k =>
    cases keys with
    | nil => rfl
    | cons ks rest =>
      by_cases h : k ∈ ks <;>
        simp [Nesting.step, Guard.step, Nesting.nest, nestingGuard, h]
  | objectEnd | arrayEnd | value => rfl

/-- The callbacks throw at the first fault of the document. -/
theorem scanned_eq {lib : JsonScan} {text : String} {d : Doc} (h : lib.parse text = some d) :
    scanned lib text = match d.firstFault 32 with
      | none => .ok d.toJson
      | some f => .error (nestingGuard.report f) := by
  have hrun := Guard.foldlM_events nest_step d {} rfl
  simp only [scanned, lib.scan_parse text d h, map_ok]
  cases hf : d.firstFault 32 with
  | none =>
    rw [show nestingGuard.limit = 32 from rfl, hf] at hrun
    obtain ⟨n, hn, -⟩ := map_eq_ok.mp hrun
    rw [hn, ok_bind]
  | some f =>
    rw [show nestingGuard.limit = 32 from rfl, hf] at hrun
    rw [map_eq_error.mp hrun, error_bind]

/-- Scanning a printed value gives the value, unless it is nested too deep. -/
theorem scanned_dump {lib : JsonScan} {j : Json} {t : String} {k : Nat} (hw : j.wf = true)
    (hp : j.plainBelow k = true) (hk : k < 32) (ht : lib.dump j = some t) :
    scanned lib t = .ok j := by
  rw [scanned_eq (lib.parse_dump k j t hw hp ht), Doc.firstFault_ofJson hw hp hk,
    Doc.toJson_ofJson hw]

/-! ## Reading the value of a schedule -/

theorem check_ok {condition : Bool} {message : String} {u : Unit} :
    check condition message = .ok u ↔ condition = true := by
  unfold check
  split <;> simp_all

section
variable {lib : JsonScan}

theorem readStep_toJson (step : Step) : readStep lib step.toJson = .ok step := by
  simp [readStep, Step.toJson, exact, stringAt, said, Json.isObj, Json.size, Json.contains,
    Json.field?, Json.field, Json.getStr, List.lookup_cons]

theorem mapM_readStep (steps : List Step) :
    (steps.map Step.toJson).mapM (readStep lib) = .ok steps := by
  induction steps with
  | nil => rfl
  | cons step steps ih => simp [List.mapM_cons, readStep_toJson, ih]

theorem readIdentity_identityJson (id : Identity) : readIdentity lib (identityJson id) =
    .ok id := by
  simp [readIdentity, identityJson, stringAt, said, Json.field, Json.getStr, List.lookup_cons]

/-- What the reader finds in the value of a schedule. -/
theorem readValue_scheduleJson (s : Schedule) :
    readValue lib (scheduleJson s) = do
      check (decide (s.steps.length ≤ 65536)) "invalid schedule steps"
      check (s.schedulingProfile == profile && s.identity.valid)
        "invalid schedule profile or identity"
      check (s.steps.all Step.named) "invalid schedule identifier"
      return s := by
  have hwhole : exact (scheduleJson s) ["schema", "profile", "identity", "inputs", "steps"] =
      .ok () := by
    simp [scheduleJson, exact, Json.isObj, Json.size, Json.contains, Json.field?, List.lookup_cons]
  have hid : exact (identityJson s.identity)
      ["modelSemanticDigest", "mappingSha256", "implementationSha256"] = .ok () := by
    simp [identityJson, exact, Json.isObj, Json.size, Json.contains, Json.field?, List.lookup_cons]
  have hfield : (scheduleJson s).field "schema" = .ok (.str scheduleSchema) ∧
      (scheduleJson s).field "identity" = .ok (identityJson s.identity) ∧
      (scheduleJson s).field "profile" = .ok (.str s.schedulingProfile) ∧
      (scheduleJson s).field "inputs" = .ok s.inputs ∧
      (scheduleJson s).field "steps" = .ok (.arr (s.steps.map Step.toJson)) := by
    simp [scheduleJson, Json.field, List.lookup_cons]
  have hschema : check (lib.eq (.str scheduleSchema) (.str scheduleSchema))
      "unknown schedule schema" = .ok () := check_ok.mpr ((lib.eq_str _ _).mpr rfl)
  obtain ⟨h1, h2, h3, h4, h5⟩ := hfield
  simp only [readValue, hwhole, h1, h2, h3, h4, h5, hid, hschema, stringAt, said, ok_bind,
    Json.getStr, readIdentity_identityJson, Json.children, mapM_readStep]
  simp only [Json.isArr, Json.size, List.length_map, Bool.true_and]

/-- A schedule its reader admits. -/
structure Legible (s : Schedule) : Prop where
  steps : s.steps.length ≤ 65536
  ofProfile : s.schedulingProfile = profile
  identity : s.identity.valid = true
  named : s.steps.all Step.named = true

theorem readValue_eq_ok {s r : Schedule} :
    readValue lib (scheduleJson s) = .ok r ↔ Legible s ∧ s = r := by
  rw [readValue_scheduleJson]
  simp only [bind_eq_ok, check_ok, decide_eq_true_eq, Bool.and_eq_true, beq_iff_eq, pure_eq,
    Except.ok.injEq, exists_const]
  constructor
  · rintro ⟨h1, ⟨h2, h3⟩, h4, h⟩
    exact ⟨⟨h1, h2, h3, h4⟩, h⟩
  · rintro ⟨⟨h1, h2, h3, h4⟩, h⟩
    exact ⟨h1, ⟨h2, h3⟩, h4, h⟩

/-! ## The text of a schedule -/

theorem plainElems_steps (k : Nat) (steps : List Step) :
    Json.plainElems (k + 2) (steps.map Step.toJson) = true := by
  induction steps with
  | nil => rfl
  | cons step steps ih =>
    rw [List.map_cons, Json.plainElems, ih]
    simp [Step.toJson, Json.plainBelow, Json.plainMembers]

theorem wfElems_steps (steps : List Step) : Json.wfElems (steps.map Step.toJson) = true := by
  induction steps with
  | nil => rfl
  | cons step steps ih =>
    rw [List.map_cons, Json.wfElems, ih]
    simp only [Step.toJson, Json.wf, Json.wfMembers, List.map_cons, List.map_nil]
    decide

theorem plainBelow_scheduleJson {s : Schedule} {k : Nat} (h : s.inputs.plainBelow (k + 2) = true) :
    (scheduleJson s).plainBelow (k + 3) = true := by
  simp [scheduleJson, identityJson, Json.plainBelow, Json.plainMembers, h,
    plainElems_steps k s.steps]

theorem wf_scheduleJson {s : Schedule} (h : s.inputs.wf = true) :
    (scheduleJson s).wf = true := by
  have hk : ["identity", "inputs", "profile", "schema", "steps"].Pairwise (· < ·) := by decide
  have hi : (identityJson s.identity).wf = true := by
    simp only [identityJson, Json.wf, Json.wfMembers, List.map_cons, List.map_nil]
    decide
  simp only [scheduleJson, Json.wf, Json.wfMembers, List.map_cons, List.map_nil, hk, hi, h,
    wfElems_steps, decide_true, Bool.and_self]

/-- Reading the text of a schedule whose inputs are at most 31 containers deep. -/
theorem parseSchedule_dump {s r : Schedule} {t : String} {k : Nat} (hw : s.inputs.wf = true)
    (hk : k ≤ 28) (hp : s.inputs.plainBelow (k + 2) = true)
    (ht : lib.dump (scheduleJson s) = some t) :
    parseSchedule lib t = .ok r ↔ t.length ≤ maxArtifactBytes ∧ Legible s ∧ s = r := by
  have hj := plainBelow_scheduleJson hp
  have hv := @scanned_dump lib _ _ _ (wf_scheduleJson hw) hj (by omega) ht
  rw [← @readValue_eq_ok lib, parseSchedule, hv, ok_bind]
  split
  · simp; omega
  · rename_i hlen
    rw [Nat.not_lt] at hlen
    simp only [hlen, true_and]
    cases readValue lib (scheduleJson s) <;> simp

/-- What the writer prints. -/
theorem encodeSchedule_eq_ok {s : Schedule} {t : String} (hw : s.inputs.wf = true) :
    encodeSchedule lib s = .ok t ↔ plainJson s.inputs = true ∧
      lib.dump (scheduleJson s) = some t ∧ t.length ≤ maxArtifactBytes ∧ Legible s := by
  cases hd : lib.dump (scheduleJson s) with
  | none =>
    simp only [encodeSchedule, hd, bind_eq_ok]
    simp
  | some d =>
    simp only [encodeSchedule, hd, bind_eq_ok, check_ok, exists_const, pure_eq, Except.ok.injEq,
      Option.some.injEq]
    constructor
    · rintro ⟨hp, t', rfl, r, hr, rfl⟩
      obtain ⟨hl, hs, -⟩ := (parseSchedule_dump (k := 26) hw (by decide) hp hd).mp hr
      exact ⟨hp, rfl, hl, hs⟩
    · rintro ⟨hp, rfl, hl, hs⟩
      exact ⟨hp, d, rfl, s, (parseSchedule_dump (k := 26) hw (by decide) hp hd).mpr ⟨hl, hs, rfl⟩,
        rfl⟩

end

/-! ## A schedule of two actors -/

def sampleLib : JsonScan := .of Compact.lib

def sampleIdentity : Identity :=
  let digest := "0123456789abcdef0123456789abcdef0123456789abcdef0123456789abcdef"
  ⟨digest, digest, digest⟩

/-- `a` stops at `c`, then `b` runs to its end, then `a` does. -/
def sampleSchedule : Schedule where
  identity := sampleIdentity
  steps := [⟨"a", "c"⟩, ⟨"b", "$done"⟩, ⟨"a", "$done"⟩]

/-- A schedule is printed by a library that prints as `Compact` does. -/
theorem encodeSchedule_of_size {lib : JsonScan} {s : Schedule} {n : Nat}
    (hd : lib.dump = Compact.dump) (hw : s.inputs.wf = true) (hp : plainJson s.inputs = true)
    (hs : Legible s) (hn : Compact.dumpSize (scheduleJson s) = some n)
    (hl : n ≤ maxArtifactBytes) : ∃ t, encodeSchedule lib s = .ok t := by
  rw [Compact.dumpSize_eq] at hn
  obtain ⟨t, ht, rfl⟩ := Option.map_eq_some_iff.mp hn
  exact ⟨t, (encodeSchedule_eq_ok hw).mpr ⟨hp, hd ▸ ht, hl, hs⟩⟩

theorem encodeSchedule_sample : ∃ t, encodeSchedule sampleLib sampleSchedule = .ok t :=
  encodeSchedule_of_size (n := 490) rfl (by decide) (by decide)
    ⟨by decide, rfl, by decide +kernel, by decide +kernel⟩ (by decide +kernel) (by decide)

section
variable {lib : JsonScan}

/-- A printed schedule is read back, and no other schedule prints the same text. -/
theorem parse_encode {s : Schedule} {t : String} (hw : s.inputs.wf = true)
    (h : encodeSchedule lib s = .ok t) :
    parseSchedule lib t = .ok s ∧
      ∀ r : Schedule, r.inputs.wf = true → encodeSchedule lib r = .ok t → r = s := by
  have back : ∀ r : Schedule, r.inputs.wf = true → encodeSchedule lib r = .ok t →
      parseSchedule lib t = .ok r := by
    intro r hr he
    obtain ⟨hp, hd, hl, hs⟩ := (encodeSchedule_eq_ok hr).mp he
    exact (parseSchedule_dump (k := 26) hr (by decide) hp hd).mpr ⟨hl, hs, rfl⟩
  refine ⟨back s hw h, fun r hr he => ?_⟩
  exact Except.ok.inj ((back r hr he).symm.trans (back s hw h))

end

theorem parse_encode_sample : ∃ t, encodeSchedule sampleLib sampleSchedule = .ok t ∧
    parseSchedule sampleLib t = .ok sampleSchedule := by
  obtain ⟨t, ht⟩ := encodeSchedule_sample
  exact ⟨t, ht, (parse_encode (by decide) ht).1⟩

/-! ## Printing what was read -/

section
variable {lib : JsonScan}

/-- The values the parser builds are of the library's type, their strings valid UTF-8. -/
structure JsonScan.Builds (lib : JsonScan) : Prop where
  wf : ∀ t d, (lib.scan t).2 = .ok d → d.toJson.wf = true
  utf8 : ∀ t d, (lib.scan t).2 = .ok d → d.toJson.utf8 = true

theorem lookup_wf {ms : List (String × Json)} {k : String} {v : Json}
    (h : Json.wfMembers ms = true) (hv : ms.lookup k = some v) : v.wf = true := by
  induction ms with
  | nil => cases hv
  | cons m ms ih =>
    obtain ⟨k', v'⟩ := m
    rw [Json.wfMembers, Bool.and_eq_true] at h
    rw [List.lookup_cons] at hv
    split at hv
    · cases hv
      exact h.1
    · exact ih h.2 hv

theorem lookup_mem {ms : List (String × Json)} {k : String} {v : Json}
    (hv : ms.lookup k = some v) : ∃ m ∈ ms, m.2 = v := by
  induction ms with
  | nil => cases hv
  | cons m ms ih =>
    obtain ⟨k', v'⟩ := m
    rw [List.lookup_cons] at hv
    split at hv
    · cases hv
      exact ⟨_, List.mem_cons_self, rfl⟩
    · obtain ⟨m, hm, he⟩ := ih hv
      exact ⟨m, List.mem_cons_of_mem _ hm, he⟩

/-- A member of a value is as well-formed as the value. -/
theorem field_builds {j v : Json} {k : String} (h : j.field k = .ok v) :
    (j.wf = true → v.wf = true) ∧ (j.utf8 = true → v.utf8 = true) := by
  have hf := Json.field_ok h
  cases j <;> simp only [Json.field?, reduceCtorEq] at hf
  rename_i ms
  constructor
  · intro hw
    rw [Json.wf, Bool.and_eq_true] at hw
    exact lookup_wf hw.2 hf
  · intro hu
    rw [Json.utf8_obj, Json.utf8Members_iff] at hu
    obtain ⟨m, hm, rfl⟩ := lookup_mem hf
    exact (hu m hm).2

theorem said_ok {α : Type} {a : Except JsonFault α} {x : α} (h : said lib a = .ok x) :
    a = .ok x := by
  unfold said at h
  split at h <;> cases h
  rfl

theorem mapM_readStep_length {js : List Json} {steps : List Step}
    (h : js.mapM (readStep lib) = .ok steps) : steps.length = js.length := by
  induction js generalizing steps with
  | nil => cases h; rfl
  | cons j js ih =>
    rw [List.mapM_cons] at h
    obtain ⟨step, -, h⟩ := bind_eq_ok.mp h
    obtain ⟨rest, hr, h⟩ := bind_eq_ok.mp h
    cases h
    rw [List.length_cons, List.length_cons, ih hr]

theorem readValue_ok {j : Json} {s : Schedule} (h : readValue lib j = .ok s) :
    j.field "inputs" = .ok s.inputs ∧ Legible s := by
  simp only [readValue, bind_eq_ok, check_ok, pure_eq] at h
  obtain ⟨_, -, _, -, _, -, _, -, _, -, p, -, id, -, inputs, hi, js, -, _, hb, steps, hs, _, hp,
    _, hn, he⟩ := h
  cases he
  simp only [Bool.and_eq_true, decide_eq_true_eq, beq_iff_eq] at hb hp
  have hsize : js.children.length ≤ 65536 := by
    obtain ⟨harr, hle⟩ := hb
    cases js <;> first | cases harr; done | exact hle
  exact ⟨said_ok hi, Nat.le_trans (Nat.le_of_eq (mapM_readStep_length hs)) hsize, hp.1, hp.2, hn⟩

/-- What is read satisfies the rules of the writer, but for the nesting and the size. -/
theorem parseSchedule_builds (hlib : lib.Builds) {text : String} {s : Schedule}
    (h : parseSchedule lib text = .ok s) :
    s.inputs.wf = true ∧ s.inputs.utf8 = true ∧ Legible s := by
  unfold parseSchedule at h
  split at h
  · cases h
  · split at h
    · rename_i hr
      cases h
      obtain ⟨j, hj, hr⟩ := bind_eq_ok.mp hr
      obtain ⟨_, -, hj⟩ := bind_eq_ok.mp hj
      obtain ⟨d, hd, rfl⟩ := map_eq_ok.mp hj
      obtain ⟨hi, hs⟩ := readValue_ok hr
      exact ⟨(field_builds hi).1 (hlib.wf text d hd), (field_builds hi).2 (hlib.utf8 text d hd), hs⟩
    · cases h

/-- Lower-case hexadecimal digits. -/
theorem hex_ascii {d : String}
    (h : (d.toList.all fun c => ('0' ≤ c && c ≤ '9') || ('a' ≤ c && c ≤ 'f')) = true) :
    Text.ascii d = true := by
  simp only [List.all_eq_true] at h
  refine Text.ascii_iff.mpr fun c hc => @nameChar_ascii [] (by decide) _ ?_
  have hx := h c hc
  simp only [Bool.or_eq_true, Bool.and_eq_true, decide_eq_true_eq] at hx
  simp only [nameChar, Bool.or_eq_true, Bool.and_eq_true, decide_eq_true_eq]
  rcases hx with hx | hx
  · exact .inl (.inl (.inl (.inl (.inr hx))))
  · refine .inl (.inl (.inl (.inl (.inl (.inl ⟨hx.1, ?_⟩)))))
    exact Nat.le_trans (m := 'f'.toNat) hx.2 (by decide)

theorem digest_ascii {d : String} (h : digest d = true) : Text.ascii d = true := by
  simp only [digest, Text.chars_eq, Bool.and_eq_true] at h
  exact hex_ascii h.2

theorem utf8_steps {steps : List Step} (h : steps.all Step.named = true) :
    Json.utf8Elems (steps.map Step.toJson) = true := by
  rw [Json.utf8Elems_iff]
  intro j hj
  obtain ⟨step, hstep, rfl⟩ := List.mem_map.mp hj
  have hn := List.all_eq_true.mp h step hstep
  simp only [Step.named, Bool.and_eq_true, Bool.or_eq_true, beq_iff_eq] at hn
  have ha := Text.utf8_of_ascii (boundedName_ascii (by decide) hn.1)
  have hc : Text.utf8 step.checkpoint = true := by
    rcases hn.2 with hc | hc
    · exact Text.utf8_of_ascii (boundedName_ascii (by decide) hc)
    · rw [hc]
      decide
  have hk : Text.utf8 "actor" = true ∧ Text.utf8 "checkpoint" = true := by decide
  simp [Step.toJson, Json.utf8Members, ha, hc, hk]

theorem utf8_scheduleJson {s : Schedule} (hs : Legible s) (hi : s.inputs.utf8 = true) :
    (scheduleJson s).utf8 = true := by
  have hid := hs.identity
  simp only [Identity.valid, Bool.and_eq_true] at hid
  have h1 := Text.utf8_of_ascii (digest_ascii hid.1.1)
  have h2 := Text.utf8_of_ascii (digest_ascii hid.1.2)
  have h3 := Text.utf8_of_ascii (digest_ascii hid.2)
  have hp : Text.utf8 profile = true ∧ Text.utf8 scheduleSchema = true := by decide
  have hk : ["identity", "inputs", "profile", "schema", "steps", "implementationSha256",
    "mappingSha256", "modelSemanticDigest"].all Text.utf8 = true := by decide
  simp only [List.all_cons, List.all_nil, Bool.and_eq_true, and_true] at hk
  simp [scheduleJson, identityJson, Json.utf8Members, h1, h2, h3, hi, hs.ofProfile, hp, hk,
    utf8_steps hs.named]

/-- What was read is printed, and read back, exactly where the inputs are nested as the writer
admits and the compact text is within the bound. -/
theorem encode_parse (hlib : lib.Builds) {text : String} {s : Schedule}
    (h : parseSchedule lib text = .ok s) :
    (∃ t, encodeSchedule lib s = .ok t ∧ parseSchedule lib t = .ok s) ↔
      plainJson s.inputs = true ∧ lib.len (scheduleJson s) ≤ maxArtifactBytes := by
  obtain ⟨hw, hu, hs⟩ := parseSchedule_builds hlib h
  obtain ⟨t, ht⟩ := lib.dump_eq_some (utf8_scheduleJson hs hu)
  have hlen : lib.len (scheduleJson s) = t.length := by rw [JsonLib.len, ht, Option.getD_some]
  rw [hlen]
  constructor
  · rintro ⟨t', he, -⟩
    obtain ⟨hp, hd, hl, -⟩ := (encodeSchedule_eq_ok hw).mp he
    rw [ht] at hd
    cases hd
    exact ⟨hp, hl⟩
  · rintro ⟨hp, hl⟩
    have he := (encodeSchedule_eq_ok hw).mpr ⟨hp, ht, hl, hs⟩
    exact ⟨t, he, (parse_encode hw he).1⟩

end

/-- The library of the samples with a parser that checks what it builds. -/
def checkedLib : JsonScan := .of Compact.lib.checked

theorem checkedLib_builds : checkedLib.Builds := by
  have key : ∀ t d, (checkedLib.scan t).2 = .ok d → Compact.lib.checked.parse t = some d := by
    intro t d h
    simp only [checkedLib, JsonScan.of] at h
    split at h
    · rename_i hd
      cases h
      exact hd
    · cases h
  exact ⟨fun t d h => (Compact.lib.checked_parse (key t d h)).1,
    fun t d h => (Compact.lib.checked_parse (key t d h)).2⟩

/-- The text of a schedule with these inputs is read. -/
theorem parseSchedule_of_size {s : Schedule} {n k : Nat} (hw : s.inputs.wf = true) (hk : k ≤ 28)
    (hp : s.inputs.plainBelow (k + 2) = true) (hs : Legible s)
    (hn : Compact.dumpSize (scheduleJson s) = some n) (hl : n ≤ maxArtifactBytes) :
    ∃ t, parseSchedule checkedLib t = .ok s := by
  rw [Compact.dumpSize_eq] at hn
  obtain ⟨t, ht, rfl⟩ := Option.map_eq_some_iff.mp hn
  exact ⟨t, (@parseSchedule_dump checkedLib _ _ _ _ hw hk hp ht).mpr ⟨hl, hs, rfl⟩⟩

theorem sampleSchedule_legible : Legible sampleSchedule :=
  ⟨by decide, rfl, by decide +kernel, by decide +kernel⟩

theorem encode_parse_sample : ∃ text, parseSchedule checkedLib text = .ok sampleSchedule ∧
    ∃ t, encodeSchedule checkedLib sampleSchedule = .ok t ∧
      parseSchedule checkedLib t = .ok sampleSchedule := by
  have hn : Compact.dumpSize (scheduleJson sampleSchedule) = some 490 := by decide +kernel
  obtain ⟨text, h⟩ := parseSchedule_of_size (k := 0) (by decide) (by decide) (by decide)
    sampleSchedule_legible hn (by decide)
  have hl : checkedLib.len (scheduleJson sampleSchedule) ≤ maxArtifactBytes := by
    rw [Compact.dumpSize_eq] at hn
    obtain ⟨t, ht, hl⟩ := Option.map_eq_some_iff.mp hn
    have hd : checkedLib.dump (scheduleJson sampleSchedule) = some t := ht
    rw [JsonLib.len, hd, Option.getD_some, hl]
    decide
  exact ⟨text, h, (encode_parse checkedLib_builds h).mpr ⟨by decide, hl⟩⟩

/-- Inputs of 30 nested arrays. -/
def deepInputs : Json := (fun j => .arr [j])^[29] (.arr [])

/-- The text of a schedule with 30 nested arrays is read, but the schedule is not printed. -/
theorem parse_deep : ∃ text, parseSchedule checkedLib text =
      .ok { sampleSchedule with inputs := deepInputs } ∧
    ∀ t, encodeSchedule checkedLib { sampleSchedule with inputs := deepInputs } ≠ .ok t := by
  obtain ⟨text, h⟩ := parseSchedule_of_size (s := { sampleSchedule with inputs := deepInputs })
    (n := 548) (k := 27) (by decide +kernel) (by decide) (by decide +kernel)
    ⟨by decide, rfl, by decide +kernel, by decide +kernel⟩ (by decide +kernel) (by decide)
  refine ⟨text, h, fun t ht => ?_⟩
  have hp : plainJson deepInputs = false := by decide +kernel
  rw [encodeSchedule_eq_ok (by decide +kernel), hp] at ht
  exact Bool.false_ne_true ht.1

end MirrorCpp.Schedule
