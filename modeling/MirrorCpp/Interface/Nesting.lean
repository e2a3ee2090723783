import MirrorCpp.Interface.Strict
import MirrorCpp.Schedule.Codec

/-!
# The guards of the strict readers

`strict_parse` (128 containers) and `parse_schedule` (32) stop at the first fault of a document: a
key repeated in its own object, or a container past the limit. Which of the two a document with
both reports is decided by their order in the text.
-/

namespace MirrorCpp.Interface

open Protocol Fallible Schedule

/-- What the callbacks guard. -/
def watchGuard : Guard String where
  limit := 128
  deep := "JSON nesting exceeds 128"
  repeated k := "duplicate object key '" ++ k ++ "'"
  stray := some "object key outside object"

def Watch.nest (w : Watch) : Nest := ⟨w.objectKeys, w.containers⟩

theorem nest_step (w : Watch) (e : ParseEvent) :
    Watch.nest <$> w.step e = watchGuard.step w.nest e := by
  obtain ⟨keys, depth⟩ := w
  cases e with
  | objectStart | arrayStart =>
    by_cases h : 128 < depth + 1 <;>
      simp [Watch.step, Guard.step, Guard.enter, Watch.nest, watchGuard, h]
  | key k =>
    cases keys with
    | nil => rfl
    | cons ks rest =>
      by_cases h : k ∈ ks <;>
        simp [Watch.step, Guard.step, Watch.nest, watchGuard, h]
  | objectEnd | arrayEnd | value => rfl

/-- What a refused text is answered. -/
def decodeFailed (what : String) : Result Json :=
  .error (unexpectedStatus ("strict JSON decode failed: " ++ what))

/-- The callbacks throw at the first fault of the document. -/
theorem strictParse_eq {rd : StrictReader} {text : String} {d : Doc} (hlen : text.length ≤ 65535)
    (h : rd.scan text = (d.events, .ok d)) :
    strictParse rd text = match d.firstFault 128 with
      | none => .ok d.toJson
      | some f => decodeFailed (watchGuard.report f) := by
  have hrun := Guard.foldlM_events nest_step d {} rfl
  rw [show watchGuard.limit = 128 from rfl] at hrun
  rw [strictParse, if_neg (Nat.not_lt.mpr hlen)]
  simp only [h]
  cases hf : d.firstFault 128 with
  | none =>
    rw [hf] at hrun
    obtain ⟨w, hw, -⟩ := map_eq_ok.mp hrun
    rw [hw]
  | some f =>
    rw [hf] at hrun
    rw [map_eq_error.mp hrun]
    rfl

/-! ## What a reader reports -/

/-- What a reader with a limit says of a document, when `duplicate`, `deep` and `passes` are its
three answers: the fault that comes first in the text. -/
structure ReportsFirst (d : Doc) (limit : Nat) (duplicate deep passes : Prop) : Prop where
  duplicate_iff : duplicate ↔ ∃ k, d.firstFault limit = some (.repeated k)
  deep_iff : deep ↔ d.firstFault limit = some .deep
  passes_iff : passes ↔ (∀ k, ¬d.Repeats k) ∧ d.depth ≤ limit
  /-- Without excess nesting, the duplicate test is exact. -/
  duplicate_of_shallow : d.depth ≤ limit → (duplicate ↔ ∃ k, d.Repeats k)
  /-- Without repeated keys, the nesting test is exact. -/
  deep_of_distinct : (∀ k, ¬d.Repeats k) → (deep ↔ limit < d.depth)
  /-- The faults, of which the first is reported, are the repeated keys and the containers past
  the limit. -/
  repeated_mem : ∀ k, .repeated k ∈ d.faults limit 0 ↔ d.Repeats k
  deep_mem : .deep ∈ d.faults limit 0 ↔ limit < d.depth

theorem ReportsFirst.of_first {d : Doc} {limit : Nat} {duplicate deep passes : Prop}
    (hdup : duplicate ↔ ∃ k, d.firstFault limit = some (.repeated k))
    (hdeep : deep ↔ d.firstFault limit = some .deep)
    (hpass : passes ↔ d.firstFault limit = none) : ReportsFirst d limit duplicate deep passes where
  duplicate_iff := hdup
  deep_iff := hdeep
  passes_iff := hpass.trans Doc.firstFault_eq_none
  duplicate_of_shallow h := hdup.trans (Doc.firstFault_of_shallow h)
  deep_of_distinct h := hdeep.trans (Doc.firstFault_of_distinct h)
  repeated_mem _ := Doc.repeated_mem_faults d
  deep_mem := by
    rw [Doc.deep_mem_faults d (Nat.zero_le _), Nat.zero_add]

theorem decodeFailed_inj {what what' : String} :
    decodeFailed what = decodeFailed what' ↔ what = what' := by
  simp [decodeFailed, unexpectedStatus, miError]

theorem decodeFailed_ne_ok {what : String} {v : Json} : decodeFailed what ≠ .ok v := by
  rintro ⟨⟩

theorem duplicateText_ne (k : String) :
    "duplicate object key '" ++ k ++ "'" ≠ "JSON nesting exceeds 128" := by
  intro h
  have hc := congrArg (fun s : String => s.toList.head?) h
  simp [String.toList_append] at hc

/-- Both readers report the fault of a document that comes first, `strict_parse` with its key, and
what `parse_schedule` throws carries the report. -/
theorem readers_report_first_fault {rd : StrictReader} {lib : JsonScan} {text : String} {d : Doc}
    (hscan : rd.scan text = (d.events, .ok d)) (hparse : lib.parse text = some d) :
    (text.length ≤ 65535 → ReportsFirst d 128
      (∃ k, strictParse rd text = decodeFailed ("duplicate object key '" ++ k ++ "'"))
      (strictParse rd text = decodeFailed "JSON nesting exceeds 128")
      (strictParse rd text = .ok d.toJson) ∧
      ∀ k, strictParse rd text = decodeFailed ("duplicate object key '" ++ k ++ "'") ↔
        d.firstFault 128 = some (.repeated k)) ∧
    ReportsFirst d 32 (scanned lib text = .error "duplicate schedule JSON key")
      (scanned lib text = .error "schedule nesting exceeds bound")
      (scanned lib text = .ok d.toJson) ∧
    (text.length ≤ maxArtifactBytes → ∀ what, scanned lib text = .error what →
      parseSchedule lib text = .error ("schedule decode failed: " ++ what)) := by
  refine ⟨fun hlen => ?_, ?_, fun hlen what hwhat => ?_⟩
  · rw [strictParse_eq hlen hscan]
    have hkey : ∀ k, (match d.firstFault 128 with
        | none => .ok d.toJson
        | some f => decodeFailed (watchGuard.report f)) =
          decodeFailed ("duplicate object key '" ++ k ++ "'") ↔
        d.firstFault 128 = some (.repeated k) := by
      intro k
      cases d.firstFault 128 with
      | none => simp [decodeFailed_ne_ok.symm]
      | some f =>
        cases f with
        | deep => simp [decodeFailed_inj, watchGuard, Guard.report, (duplicateText_ne _).symm]
        | repeated k' => simp [decodeFailed_inj, watchGuard, Guard.report]
    refine ⟨.of_first (exists_congr hkey) ?_ ?_, hkey⟩ <;> cases d.firstFault 128 with
    | none => simp [decodeFailed_ne_ok.symm]
    | some f =>
      cases f <;>
        simp [decodeFailed_inj, decodeFailed_ne_ok, watchGuard, Guard.report, duplicateText_ne]
  · rw [scanned_eq hparse]
    refine .of_first ?_ ?_ ?_ <;> cases d.firstFault 32 with
    | none => simp
    | some f => cases f <;> simp [nestingGuard, Guard.report]
  · rw [parseSchedule, if_neg (Nat.not_lt.mpr hlen), hwhat, error_bind]

/-! ## Texts with faults -/

def plainReader : StrictReader := ⟨sampleLib.scan⟩

def printed (j : Json) : String := String.ofList (Compact.text j)

/-- The parser reads what is printed, repeated members and all. -/
theorem parse_printed {j : Json} {k : Nat} (hu : j.utf8 = true) (hp : j.plainBelow k = true) :
    sampleLib.parse (printed j) = some (Doc.ofJson j) :=
  Compact.parse_dump hp (if_pos hu)

theorem scan_printed {j : Json} {k : Nat} (hu : j.utf8 = true) (hp : j.plainBelow k = true) :
    plainReader.scan (printed j) = ((Doc.ofJson j).events, .ok (Doc.ofJson j)) :=
  sampleLib.scan_parse _ _ (parse_printed hu hp)

/-- A key repeated behind an array that holds it too. -/
def repeating : Json := .obj [("a", .arr [.obj [("a", .int 1)]]), ("b", .null), ("a", .int 2)]

theorem readers_report_first_fault_repeating :
    strictParse plainReader (printed repeating) = decodeFailed "duplicate object key 'a'" ∧
    scanned sampleLib (printed repeating) = .error "duplicate schedule JSON key" :=
  have hfaults := readers_report_first_fault
    (scan_printed (j := repeating) (k := 3) rfl rfl)
    (parse_printed (j := repeating) (k := 3) rfl rfl)
  have hfirst : (Doc.ofJson repeating).firstFault 128 = some (.repeated "a") := by decide
  have hrepeats : ∃ k, (Doc.ofJson repeating).Repeats k := ⟨"a", .here (by decide)⟩
  ⟨((hfaults.1 (by decide)).2 "a").mpr hfirst,
    (hfaults.2.1.duplicate_of_shallow (by decide)).mpr hrepeats⟩

def nested : Nat → Json
  | 0 => .arr []
  | n + 1 => .arr [nested n]

/-- A member 129 containers deep, and its key again. -/
def crossed : Json := .obj [("a", nested 127), ("a", .int 0)]

set_option maxRecDepth 4000 in
/-- The repeated key of `crossed` is behind the container past the limit: neither reader reports
it. -/
theorem repeated_behind_deep :
    sampleLib.parse (printed crossed) = some (Doc.ofJson crossed) ∧
    (printed crossed).length ≤ 65535 ∧
    ¬((∃ k, strictParse plainReader (printed crossed) =
        decodeFailed ("duplicate object key '" ++ k ++ "'")) ↔
      ∃ k, (Doc.ofJson crossed).Repeats k) ∧
    ¬(scanned sampleLib (printed crossed) = .error "duplicate schedule JSON key" ↔
      ∃ k, (Doc.ofJson crossed).Repeats k) := by
  have hlen : (printed crossed).length ≤ 65535 := by
    rw [printed, String.length_ofList]
    decide
  have hparse := parse_printed (j := crossed) (k := 128) rfl rfl
  have hscan := scan_printed (j := crossed) (k := 128) rfl rfl
  have hdeep : (Doc.ofJson crossed).firstFault 128 = some .deep := rfl
  have hdeep' : (Doc.ofJson crossed).firstFault 32 = some .deep := rfl
  have hrepeats : ∃ k, (Doc.ofJson crossed).Repeats k := ⟨"a", .here (by decide)⟩
  refine ⟨hparse, hlen, fun h => ?_, fun h => ?_⟩
  · obtain ⟨k, hk⟩ := h.mpr hrepeats
    rw [strictParse_eq hlen hscan, hdeep, decodeFailed_inj] at hk
    exact duplicateText_ne k hk.symm
  · have hk := h.mpr hrepeats
    rw [scanned_eq hparse, hdeep'] at hk
    exact absurd hk (by simp [nestingGuard, Guard.report])

end MirrorCpp.Interface
