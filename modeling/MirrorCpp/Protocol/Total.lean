import MirrorCpp.Protocol.Message
import MirrorCpp.Itf.Codec
import MirrorCpp.Lib.JsonCompact

/-!
# When the decoder of messages returns

Every defect of a message is caught and answered with an `Error`, but for two: a number literal
the parser refuses as too large, and a big integer the library refuses, behind a leading `0`. The
defects of a message are listed in the order decoding meets them; the first one decides.
-/

namespace MirrorCpp.Protocol

open Itf Fallible

/-! ## Defects -/

inductive Defect where
  /-- Not in the grammar: it throws what the decoder catches. -/
  | malformed
  /-- A big integer with a leading `0` and an `8` or a `9`. -/
  | octal
  deriving DecidableEq, Repr

def defectsBigint (s : String) : List Defect :=
  if s = "" then []
  else if !BigInt.isDecimal s then [.malformed]
  else if BigInt.badOctal s then [.octal] else []

section Defects

variable (late : Bool)

mutual
/-- The defects of a value, in decoding order. -/
def defects : Json → List Defect
  | .float d => if !d.isFinite || !d.isIntegral then [.malformed] else []
  | .arr xs => defectsElems xs
  | .obj [("#bigint", .str s)] => defectsBigint s
  | .obj [("#tup", .arr xs)] => defectsElems xs
  | .obj [("#set", .arr xs)] => defectsElems xs
  | .obj [("#map", .arr xs)] => defectsEntries xs
  | .obj [("#unserializable", .str _)] => []
  | .obj [("tag", .str _), ("value", v)] => defects v
  | .obj [("tag", _), ("value", _)] => [.malformed]
  | .obj ms => defectsFields ms
  | .binary _ | .discarded => [.malformed]
  | _ => []

def defectsElems : List Json → List Defect
  | [] => []
  | x :: xs => defects x ++ defectsElems xs

def defectsEntries : List Json → List Defect
  | [] => []
  | .arr [k, v] :: es =>
    (if late then defects v ++ defects k else defects k ++ defects v) ++ defectsEntries es
  | _ :: _ => [.malformed]

def defectsFields : List (String × Json) → List Defect
  | [] => []
  | (_, v) :: ms => defects v ++ defectsFields ms
end

/-- Of a member that must be a state. -/
def defectsState (j : Json) (key : String) : List Defect :=
  match j.field? key with
  | some (.obj ms) => defectsFields late ms
  | _ => [.malformed]

/-- Of a member that must be a string. -/
def defectsString (j : Json) (key : String) : List Defect :=
  match j.field? key with
  | some (.str _) => []
  | _ => [.malformed]

/-- Of an optional member. -/
def defectsOptional (j : Json) (key : String) : List Defect :=
  match j.field? key with
  | some v => defects late v
  | none => []

def hintKinds : List String :=
  ["value_mismatch", "missing", "extra", "missing_elem", "extra_elem", "type_mismatch", "truncated"]

def validSeg (j : Json) : Bool :=
  match j.field? "field" with
  | some (.str _) => true
  | _ =>
    match j.field? "index" with
    | some (.int _) => true
    | _ => false

def validKind (j : Json) : Bool :=
  match j.field? "kind" with
  | some (.str s) => hintKinds.contains s
  | _ => false

def validPath (j : Json) : Bool :=
  match j.field? "path" with
  | some (.arr segs) => segs.all validSeg
  | _ => true

def defectsHints : List Json → List Defect
  | [] => []
  | h :: hs => (if validKind h && validPath h then [] else [.malformed]) ++
      (defectsOptional late h "expected" ++ defectsOptional late h "actual") ++ defectsHints hs

def defectsHintsField (j : Json) : List Defect :=
  match j.field? "hints" with
  | some (.arr hs) => defectsHints late hs
  | _ => []

/-- Of a message under its tag; only four kinds hold values. -/
def defectsMessage (j : Json) (tag : String) : List Defect :=
  if tag = "initial_state" then defectsString j "action" ++ defectsState late j "state"
  else if tag = "next_step" then defectsString j "action" ++ defectsState late j "parameters"
  else if tag = "step_mismatch" then
    defectsState late j "expected" ++ defectsState late j "actual" ++
      defectsHintsField late j
  else if tag = "explore_state" then defectsState late j "state"
  else []

end Defects

/-! ## The first defect decides -/

def caught : Thrown → Bool
  | .jsonError _ | .library _ | .invalidIterator => true
  | _ => false

/-- What a decoder does with an input of these defects. -/
def Meets {α : Type} (r : Except Thrown α) : List Defect → Prop
  | [] => ∃ x, r = .ok x
  | .malformed :: _ => ∃ e, r = .error e ∧ caught e = true
  | .octal :: _ => r = .error .runtimeError

variable {α β : Type} {late : Bool} {ds es : List Defect}

theorem meets_bind {a : Except Thrown α} {f : α → Except Thrown β} (h : Meets a ds)
    (hf : ∀ x, a = .ok x → Meets (f x) es) : Meets (a >>= f) (ds ++ es) := by
  match ds, h with
  | [], ⟨x, hx⟩ =>
    rw [hx, ok_bind]
    exact hf x hx
  | .malformed :: _, ⟨e, he, hc⟩ =>
    rw [he]
    exact ⟨e, rfl, hc⟩
  | .octal :: _, h =>
    rw [show a = _ from h]
    rfl

theorem meets_map {a : Except Thrown α} (f : α → β) (h : Meets a ds) : Meets (f <$> a) ds := by
  match ds, h with
  | [], ⟨x, hx⟩ => exact ⟨f x, by rw [hx]; rfl⟩
  | .malformed :: _, ⟨e, he, hc⟩ => exact ⟨e, by rw [he]; rfl, hc⟩
  | .octal :: _, h => rw [show a = _ from h]; rfl

theorem meets_ok {x : α} : Meets (.ok x) [] := ⟨x, rfl⟩

theorem meets_error {e : Thrown} (h : caught e = true) (ds : List Defect) :
    Meets (.error e : Except Thrown α) (.malformed :: ds) := ⟨e, rfl, h⟩

/-- One more element of a list. -/
theorem meets_cons {a : Except Thrown α} {b : Except Thrown (List β)} {f : α → β}
    (h : Meets a ds) (h' : Meets b es) :
    Meets (do let x ← a; let xs ← b; return f x :: xs) (ds ++ es) :=
  meets_bind h fun x _ => meets_map (fun xs => f x :: xs) h'

theorem meets_both {a : Except Thrown α} {b : Except Thrown β} (h : Meets a ds)
    (h' : Meets b es) : Meets (both late a b) (if late then es ++ ds else ds ++ es) := by
  cases late with
  | false => exact meets_bind h fun x _ => meets_map (fun y => (x, y)) h'
  | true => exact meets_bind h' fun y _ => meets_map (fun x => (x, y)) h

theorem meets_decodeBigint (s : String) : Meets (decodeBigint s) (defectsBigint s) := by
  unfold decodeBigint defectsBigint
  split
  · exact meets_ok
  split
  · exact meets_error rfl _
  · rename_i hd
    have hd : BigInt.isDecimal s = true := by simpa using hd
    cases hr : BigInt.read s with
    | some n =>
      have hb : BigInt.badOctal s = false := by
        rw [← Bool.not_eq_true, ← BigInt.read_eq_none hd, hr]
        simp
      simp only [hb]
      exact meets_ok
    | none =>
      rw [if_pos ((BigInt.read_eq_none hd).mp hr)]
      rfl

theorem meets_decode :
    (∀ j, Meets (decodeValue late j) (defects late j)) ∧
    (∀ ms, Meets (decodeFields late ms) (defectsFields late ms)) ∧
    (∀ xs, Meets (decodeEntries late xs) (defectsEntries late xs)) ∧
    ∀ xs, Meets (decodeElems late xs) (defectsElems late xs) := by
  refine decodeValue.mutual_induct_unfolding late
    (fun j r => Meets r (defects late j)) (fun ms r => Meets r (defectsFields late ms))
    (fun xs r => Meets r (defectsEntries late xs)) (fun xs r => Meets r (defectsElems late xs))
    ?_ ?_ ?_ ?_ ?_ ?_ ?_ ?_ ?_ ?_ ?_ ?_ ?_ ?_ ?_ ?_ ?_ ?_ ?_ ?_ ?_ ?_ ?_ ?_
  case refine_5 =>
    intro d hd
    rw [defects, if_pos hd]
    exact meets_error rfl _
  case refine_6 =>
    intro d hd
    rw [defects, if_neg hd]
    exact meets_ok
  case refine_7 | refine_9 | refine_10 | refine_11 =>
    intro xs ih
    rw [defects]
    exact meets_map _ ih
  case refine_8 =>
    intro s
    rw [defects]
    exact meets_decodeBigint s
  case refine_13 =>
    intro t v ih
    rw [defects]
    exact meets_map _ ih
  case refine_14 =>
    intro t v ht
    rw [defects]
    · exact meets_error rfl _
    · exact ht
  case refine_15 =>
    intro ms h1 h2 h3 h4 h5 h6 h7 ih
    rw [defects]
    · exact meets_map _ ih
    all_goals assumption
  case refine_19 =>
    intro k v es ihk ihv ih
    rw [decodeEntries, defectsEntries]
    exact meets_cons (f := id) (meets_both ihk ihv) ih
  case refine_20 =>
    intro x xs hx
    rw [decodeEntries, defectsEntries]
    · exact meets_error rfl _
    · exact hx
    · exact hx
  case refine_22 =>
    intro x xs ihx ih
    rw [decodeElems, defectsElems]
    exact meets_cons (f := id) ihx ih
  case refine_24 =>
    intro k v ms ihv ih
    rw [defectsFields]
    exact meets_cons (f := fun v => (k, v)) ihv ih
  case refine_16 | refine_17 =>
    intros
    rw [defects]
    exact meets_error rfl _
  all_goals
    intros
    simp only [defects, defectsEntries, defectsElems, defectsFields]
    exact meets_ok

/-! ## Messages -/

theorem meets_state (j : Json) (key : String) :
    Meets (decodeStateField late j key) (defectsState late j key) := by
  unfold decodeStateField defectsState
  cases j.field? key with
  | none => exact meets_error rfl _
  | some v =>
    cases v with
    | obj ms => exact meets_decode.2.1 ms
    | _ => exact meets_error rfl _

theorem at_eq (j : Json) (key : String) :
    (∃ v, at_ j key = .ok v ∧ j.field? key = some v) ∨
      ∃ e, at_ j key = .error e ∧ caught e = true ∧ j.field? key = none := by
  unfold at_ Json.field Json.field?
  cases j with
  | obj ms =>
    dsimp only
    cases h : ms.lookup key with
    | some v => exact .inl ⟨v, rfl, rfl⟩
    | none => exact .inr ⟨_, rfl, rfl, rfl⟩
  | _ => exact .inr ⟨_, rfl, rfl, rfl⟩

theorem meets_string (j : Json) (key what : String) :
    Meets (at_ j key >>= fun v => requireString v what) (defectsString j key) := by
  unfold defectsString
  rcases at_eq j key with ⟨v, hv, hf⟩ | ⟨e, he, hc, hf⟩
  · rw [hv, hf, ok_bind]
    cases v with
    | str s => exact meets_ok
    | _ => exact meets_error rfl _
  · rw [he, hf, error_bind]
    exact meets_error hc _

theorem meets_optional (j : Json) (key : String) :
    Meets (decodeOptional late j key) (defectsOptional late j key) := by
  unfold decodeOptional defectsOptional
  cases j.field? key with
  | none => exact meets_ok
  | some v =>
    cases v with
    | null =>
      simp only [defects]
      exact meets_ok
    | _ => exact meets_map _ (meets_decode.1 _)

theorem kind_of_contains {s : String} (h : hintKinds.contains s = true) :
    ∃ k, diffHintKindFromString s = .ok k := by
  simp only [hintKinds, List.contains_eq_mem, decide_eq_true_eq, List.mem_cons, List.not_mem_nil,
    or_false] at h
  rcases h with rfl | rfl | rfl | rfl | rfl | rfl | rfl <;> exact ⟨_, rfl⟩

theorem kind_of_not_contains {s : String} (h : hintKinds.contains s = false) :
    diffHintKindFromString s = .error (.jsonError ("unknown diff hint kind: " ++ s)) := by
  simp only [hintKinds, List.contains_eq_mem, decide_eq_false_iff_not, List.mem_cons,
    List.not_mem_nil, or_false, not_or] at h
  simp [diffHintKindFromString, h]

theorem meets_seg (j : Json) :
    Meets (decodePathSeg j) (if validSeg j then [] else [.malformed]) := by
  unfold decodePathSeg validSeg
  cases j.field? "field" with
  | some v =>
    cases v with
    | str s => exact meets_ok
    | _ =>
      cases j.field? "index" with
      | some w => cases w <;> first | exact meets_ok | exact meets_error rfl _
      | none => exact meets_error rfl _
  | none =>
    cases j.field? "index" with
    | some w => cases w <;> first | exact meets_ok | exact meets_error rfl _
    | none => exact meets_error rfl _

theorem meets_path (j : Json) :
    Meets (decodePath j) (if validPath j then [] else [.malformed]) := by
  have hsegs : ∀ segs,
      Meets (decodeSegs segs) (if segs.all validSeg then [] else [.malformed]) := by
    intro segs
    induction segs with
    | nil => exact meets_ok
    | cons j segs ih =>
      have h : Meets (decodeSegs (j :: segs)) _ := meets_cons (f := id) (meets_seg j) ih
      rw [List.all_cons]
      cases hj : validSeg j with
      | true =>
        rw [hj] at h
        exact h
      | false =>
        rw [hj] at h
        exact h
  unfold decodePath validPath
  cases j.field? "path" with
  | some v => cases v <;> first | exact hsegs _ | exact meets_ok
  | none => exact meets_ok

/-- The kind of a hint and what follows it. -/
theorem meets_kind {f : DiffHintKind → Except Thrown α} (j : Json) (hf : ∀ k, Meets (f k) ds) :
    Meets (do let k ← at_ j "kind"; let k ← requireString k "diff hint kind"
              let kind ← diffHintKindFromString k; f kind)
      ((if validKind j then [] else [.malformed]) ++ ds) := by
  unfold validKind
  rcases at_eq j "kind" with ⟨v, hv, hfield⟩ | ⟨e, he, hc, hfield⟩
  case inr =>
    rw [he, hfield, error_bind]
    exact meets_error hc _
  rw [hv, hfield, ok_bind]
  cases v with
  | str s =>
    rw [show requireString (.str s) "diff hint kind" = .ok s from rfl, ok_bind]
    dsimp only
    by_cases hs : hintKinds.contains s = true
    · obtain ⟨k, hk⟩ := kind_of_contains hs
      rw [if_pos hs, hk, ok_bind]
      exact hf k
    · rw [if_neg hs, kind_of_not_contains (by simpa using hs), error_bind]
      exact meets_error rfl _
  | _ => exact meets_error rfl _

theorem meets_hint (j : Json) : Meets (decodeDiffHint late j)
    ((if validKind j && validPath j then [] else [.malformed]) ++
      (defectsOptional late j "expected" ++ defectsOptional late j "actual")) := by
  have htail : ∀ kind path, Meets (do
        let expected ← decodeOptional late j "expected"
        let actual ← decodeOptional late j "actual"
        return ({ kind, path, expected, actual } : DiffHint))
      (defectsOptional late j "expected" ++ defectsOptional late j "actual") := fun _ _ =>
    meets_bind (meets_optional j _) fun _ _ => meets_map _ (meets_optional j _)
  unfold decodeDiffHint
  cases hobj : j.isObj with
  | false =>
    have hf : validKind j = false := by
      cases j <;> first | rfl | cases hobj
    rw [hf]
    exact meets_error rfl _
  | true =>
    have h := meets_kind j fun k => meets_bind (meets_path j) fun p _ => htail k p
    simp only [Bool.not_true, Bool.false_eq_true, if_false]
    cases hk : validKind j with
    | false =>
      rw [hk] at h
      exact h
    | true =>
      rw [hk] at h
      exact h

theorem meets_hints (hs : List Json) :
    Meets (decodeDiffHints late hs) (defectsHints late hs) := by
  induction hs with
  | nil => exact meets_ok
  | cons j hs ih =>
    have h := meets_cons (f := id) (@meets_hint late j) ih
    rw [defectsHints]
    exact h

/-! ### Messages without values -/

/-- No exception but those that are caught. -/
def Tame (r : Except Thrown α) : Prop := ∀ e, r = .error e → caught e = true

theorem tame_bind {a : Except Thrown α} {f : α → Except Thrown β} (h : Tame a)
    (hf : ∀ x, Tame (f x)) : Tame (a >>= f) := by
  intro e he
  rcases bind_eq_error.mp he with he | ⟨x, -, he⟩
  · exact h e he
  · exact hf x e he

theorem tame_map {a : Except Thrown α} (f : α → β) (h : Tame a) : Tame (f <$> a) :=
  fun e he => h e (map_eq_error.mp he)

theorem tame_ok (x : α) : Tame (.ok x) := nofun

theorem tame_error {e : Thrown} (h : caught e = true) : Tame (.error e : Except Thrown α) := by
  rintro _ ⟨⟩
  exact h

theorem tame_at (j : Json) (key : String) : Tame (at_ j key) := by
  rcases at_eq j key with ⟨v, hv, -⟩ | ⟨e, he, hc, -⟩
  · rw [hv]; exact tame_ok v
  · rw [he]; exact tame_error hc

theorem tame_string (j : Json) (what : String) : Tame (requireString j what) := by
  cases j <;> first | exact tame_ok _ | exact tame_error rfl

theorem tame_int (j : Json) (what : String) : Tame (requireInt j what) := by
  cases j <;> first | exact tame_ok _ | exact tame_error rfl

theorem tame_strings (what : String) (es : List Json) : Tame (requireStrings what es) := by
  induction es with
  | nil => exact tame_ok _
  | cons e es ih => exact tame_bind (tame_string e what) fun s => tame_bind ih fun ss => tame_ok _

theorem tame_validate (j : Json) : Tame (decodeValidateResult j) := by
  unfold decodeValidateResult
  split <;> first | exact tame_ok _ | exact tame_error rfl

theorem tame_genTraces (j : Json) : Tame (decodeGenTracesPayload j) := by
  refine tame_bind (tame_at j _) fun v => tame_bind ?_ fun _ => tame_ok _
  cases v <;> first | exact tame_strings _ _ | exact tame_error rfl

theorem tame_ite {p : Prop} [Decidable p] {a b : Except Thrown α} (ha : Tame a) (hb : Tame b) :
    Tame (if p then a else b) := by
  split
  · exact ha
  · exact hb

theorem tame_jobKind (j : Json) : Tame (decodeJobKind j) :=
  tame_bind (tame_string j _) fun _ => tame_ite (tame_ok _) (tame_ite (tame_ok _) (tame_error rfl))

theorem tame_jobPhase (j : Json) : Tame (decodeJobPhase j) :=
  tame_bind (tame_string j _) fun _ => tame_ite (tame_ok _) <| tame_ite (tame_ok _) <|
    tame_ite (tame_ok _) <| tame_ite (tame_ok _) <| tame_ite (tame_ok _) <|
      tame_ite (tame_ok _) (tame_error rfl)

theorem tame_transitionStatus (j : Json) : Tame (decodeTransitionStatus j) :=
  tame_bind (tame_string j _) fun _ => tame_ite (tame_ok _) <| tame_ite (tame_ok _) <|
    tame_ite (tame_ok _) (tame_error rfl)

theorem tame_invariantStatus (j : Json) : Tame (decodeInvariantStatus j) :=
  tame_bind (tame_string j _) fun _ => tame_ite (tame_ok _) <| tame_ite (tame_ok _) <|
    tame_ite (tame_ok _) (tame_error rfl)

theorem tame_jobOutcome (j : Json) : Tame (decodeJobOutcome j) := by
  unfold decodeJobOutcome
  refine tame_ite (tame_error rfl) ?_
  split
  · exact tame_map _ (tame_validate _)
  · exact tame_ite (tame_error rfl) (tame_map _ (tame_genTraces _))
  · exact tame_map _ (tame_string _ _)
  · exact tame_error rfl

theorem tame_of_meets {r : Except Thrown α} (h : Meets r ds) (hd : ds.head? ≠ some .octal) :
    Tame r := by
  match ds, h with
  | [], ⟨x, hx⟩ => rw [hx]; exact tame_ok x
  | .malformed :: _, ⟨e, he, hc⟩ => rw [he]; exact tame_error hc
  | .octal :: _, _ => exact absurd rfl hd

/-- The two members of a step. -/
theorem meets_step {f : String → State → MirrorMessage} (j : Json) (key : String) :
    Meets (do let a ← at_ j "action"; let action ← requireString a "action"
              let state ← decodeStateField late j key; return f action state)
      (defectsString j "action" ++ defectsState late j key) := by
  have h := meets_bind (meets_string j "action" "action") fun action _ =>
    meets_map (f action) (@meets_state late j key)
  cases ha : at_ j "action" with
  | ok v => rwa [ha] at h
  | error e => rwa [ha] at h

/-- Messages that hold no value. -/
theorem tame_decodeTagged {j : Json} {tag : String} (h1 : tag ≠ "initial_state")
    (h2 : tag ≠ "next_step") (h3 : tag ≠ "step_mismatch") (h4 : tag ≠ "explore_state") :
    Tame (decodeTagged late j tag) := by
  have hat := tame_at j
  have htext : ∀ {k w : String} {f : String → MirrorMessage},
      Tame (do let e ← at_ j k; let s ← requireString e w; return f s) := fun {k w f} =>
    tame_bind (hat k) fun e => tame_bind (tame_string e w) fun _ => tame_ok _
  have hint : ∀ {k w : String} {f : Int → MirrorMessage},
      Tame (do let n ← at_ j k; f <$> requireInt n w) := fun {k w f} =>
    tame_bind (hat k) fun n => tame_map f (tame_int n w)
  unfold decodeTagged
  rw [if_neg h1, if_neg h2, if_neg h3, if_neg h4]
  refine tame_ite (tame_map _ (tame_bind (hat _) tame_validate)) ?_
  refine tame_ite (tame_ok _) <| tame_ite (tame_ok _) <| tame_ite (tame_ok _) ?_
  refine tame_ite (tame_map _ (tame_genTraces j)) ?_
  refine tame_ite htext <| tame_ite htext ?_
  refine tame_ite ?_ ?_
  · exact tame_bind (hat _) fun i => tame_bind (tame_int i _) fun _ => tame_bind (hat _) fun n =>
      tame_bind (tame_int n _) fun _ => tame_bind (hat _) fun s => tame_bind (tame_int s _)
        fun _ => tame_ok _
  refine tame_ite (tame_bind (hat _) fun s => tame_map _ (tame_transitionStatus s)) ?_
  refine tame_ite (tame_bind (hat _) fun s => tame_map _ (tame_transitionStatus s)) ?_
  refine tame_ite hint ?_
  refine tame_ite (tame_bind (hat _) fun s => tame_map _ (tame_invariantStatus s)) ?_
  refine tame_ite hint ?_
  have hjob : ∀ {k : String} {β : Type} {d : Json → Except Thrown β}
      {f : String → β → MirrorMessage}, (∀ v, Tame (d v)) →
      Tame (do let i ← at_ j "jobId"; let id ← requireString i "jobId"
               let v ← at_ j k; f id <$> d v) := fun {k β d f} hd =>
    tame_bind (hat _) fun i => tame_bind (tame_string i _) fun id => tame_bind (hat k) fun v =>
      tame_map (f id) (hd v)
  exact tame_ite (hjob tame_jobKind) <| tame_ite (hjob tame_jobPhase) <|
    tame_ite (hjob tame_jobOutcome) (tame_ok _)

/-- A message throws what is not caught exactly where its first defect is a big integer that the
library refuses. -/
theorem decodeTagged_tame (j : Json) (tag : String) :
    Tame (decodeTagged late j tag) ↔ (defectsMessage late j tag).head? ≠ some .octal := by
  have hoctal : ∀ {r : Except Thrown MirrorMessage} {ds : List Defect}, Meets r ds →
      (Tame r ↔ ds.head? ≠ some .octal) := by
    intro r ds h
    refine ⟨fun ht hd => ?_, tame_of_meets h⟩
    match ds, h, hd with
    | .octal :: _, h, _ => exact absurd (ht _ h) (by decide)
  by_cases h1 : tag = "initial_state"
  · subst h1
    rw [decodeTagged, if_neg (by decide), if_pos rfl, defectsMessage, if_pos rfl]
    exact hoctal (meets_step j _)
  by_cases h2 : tag = "next_step"
  · subst h2
    rw [decodeTagged, if_neg (by decide), if_neg (by decide), if_pos rfl, defectsMessage,
      if_neg (by decide), if_pos rfl]
    exact hoctal (meets_step j _)
  by_cases h3 : tag = "step_mismatch"
  · subst h3
    rw [decodeTagged]
    simp only [String.reduceEq, if_false, if_true]
    refine hoctal (meets_map _ ?_)
    simp only [defectsMessage, String.reduceEq, if_false, if_true, List.append_assoc]
    refine meets_bind (meets_state j _) fun e _ => meets_bind (meets_state j _) fun a _ =>
      meets_map _ ?_
    unfold decodeHintsField defectsHintsField
    cases j.field? "hints" with
    | some v => cases v <;> first | exact meets_hints _ | exact meets_ok
    | none => exact meets_ok
  by_cases h4 : tag = "explore_state"
  · subst h4
    rw [decodeTagged]
    simp only [String.reduceEq, if_false, if_true]
    exact hoctal (meets_map _ (meets_state j _))
  · rw [defectsMessage, if_neg h1, if_neg h2, if_neg h3, if_neg h4]
    exact iff_of_true (tame_decodeTagged h1 h2 h3 h4) (by simp)

/-- The parser does not refuse a number literal as too large, and the first defect of the message,
if it has one, is no big integer that the library refuses. -/
def Returns (late : Bool) (lib : Reader) (line : String) : Prop :=
  match lib.parse line with
  | .error f => f ≠ .overflow
  | .ok j => ∀ tag, j.field? "proto_step" = some (.str tag) →
      (defectsMessage late j tag).head? ≠ some .octal

/-- **The decoder of messages returns exactly where** neither of the two uncaught exceptions is
met. -/
theorem decode_returns_iff (late : Bool) (lib : Reader) (line : String) :
    (∃ r, decodeMirrorMessage late lib line = .ok r) ↔ Returns late lib line := by
  unfold decodeMirrorMessage Returns
  cases lib.parse line with
  | error f => cases f <;> simp
  | ok j =>
    dsimp only
    cases hobj : j.isObj with
    | false =>
      have hf : j.field? "proto_step" = none := by
        cases j <;> first | rfl | cases hobj
      simp [hf]
    | true =>
      simp only [Bool.not_true, Bool.false_eq_true, if_false]
      cases hp : j.field? "proto_step" with
      | none => simp
      | some v =>
        cases v with
        | str tag =>
          simp only [Option.some.injEq, Json.str.injEq, forall_eq', ← decodeTagged_tame]
          cases hr : decodeTagged late j tag with
          | ok m => exact iff_of_true ⟨_, rfl⟩ (tame_ok m)
          | error e =>
            cases e with
            | jsonError w => exact iff_of_true ⟨_, rfl⟩ (tame_error rfl)
            | library f => exact iff_of_true ⟨_, rfl⟩ (tame_error rfl)
            | invalidIterator => exact iff_of_true ⟨_, rfl⟩ (tame_error rfl)
            | runtimeError => exact iff_of_false (by simp) fun h => absurd (h _ rfl) (by decide)
            | invalidArgument w =>
              exact iff_of_false (by simp) fun h => absurd (h _ rfl) (by simp [caught])
        | _ => simp

/-- A reader to evaluate the decoder with; a text that is no UTF-8 is no JSON. -/
def compactReader : Reader where
  parse line :=
    match Compact.parse line with
    | some d => if d.toJson.utf8 then .ok d.toJson else .error .syntaxError
    | none => .error .syntaxError
  parseWhat _ := "[json.exception.parse_error.101] parse error"
  what := Compact.what

theorem compactReader_utf8 {line : String} {j : Json} (h : compactReader.parse line = .ok j) :
    j.utf8 = true := by
  unfold compactReader at h
  dsimp only at h
  split at h
  · split at h
    · cases h
      assumption
    · cases h
  · cases h

/-- It reads back what is printed. -/
theorem compactReader_text {n : Nat} {j : Json} (hp : j.plainBelow n = true) (hw : j.wf = true)
    (hu : j.utf8 = true) : compactReader.parse (String.ofList (Compact.text j)) = .ok j := by
  have hdump : Compact.dump j = some (String.ofList (Compact.text j)) := by
    simp only [Compact.dump, hu, if_true]
  simp only [compactReader, Compact.parse_dump hp hdump, Doc.toJson_ofJson hw, hu, if_true]

/-- The big integer of this state starts as an octal number and goes on with an `8`. -/
def octalLine : String :=
  (Compact.dump (.obj [("action", .str "a"), ("proto_step", .str "initial_state"),
    ("state", .obj [("x", .obj [("#bigint", .str "08")])])])).getD ""

theorem decode_escapes : ¬ ∃ r, decodeMirrorMessage false compactReader octalLine = .ok r := by
  have h : (decodeMirrorMessage false compactReader octalLine).isOk = false := by decide +kernel
  rintro ⟨r, hr⟩
  rw [hr] at h
  cases h

end MirrorCpp.Protocol
