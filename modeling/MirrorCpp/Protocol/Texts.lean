import MirrorCpp.Protocol.Hints
import MirrorCpp.Protocol.Request

/-!
# The texts of a client message

`ClientMessage.texts` are the byte strings the caller hands over in a message: its text fields,
and the strings, keys and tags of the values in its state. The library prints a message exactly
when all of them are valid UTF-8.
-/

namespace MirrorCpp

namespace Itf

mutual
/-- The byte strings in a value. -/
def Value.texts : Value → List String
  | .string s | .unserializable s => [s]
  | .set xs | .seq xs | .tuple xs => textsElems xs
  | .record fs => textsFields fs
  | .map es => textsEntries es
  | .variant t v => t :: v.texts
  | _ => []

def textsElems : List Value → List String
  | [] => []
  | x :: xs => x.texts ++ textsElems xs

def textsFields : List (String × Value) → List String
  | [] => []
  | (k, v) :: fs => k :: (v.texts ++ textsFields fs)

def textsEntries : List (Value × Value) → List String
  | [] => []
  | (k, v) :: es => k.texts ++ v.texts ++ textsEntries es
end

mutual
theorem utf8_encodeValue : ∀ v : Value,
    (encodeValue v).utf8 = true ↔ ∀ t ∈ v.texts, Text.utf8 t = true
  | .null | .boolean _ => by simp [encodeValue, Value.texts]
  | .integer n => by simpa [Value.texts] using Protocol.utf8_integer n
  | .string s => by simp [encodeValue, Value.texts]
  | .unserializable s => by
    have ht : Text.utf8 "#unserializable" = true := by decide
    simp [encodeValue, Value.texts, Json.utf8Members, ht]
  | .set xs => by
    have ht : Text.utf8 "#set" = true := by decide
    simp [encodeValue, Value.texts, Json.utf8Members, ht, utf8_encodeElems xs]
  | .seq xs => by simp [encodeValue, Value.texts, utf8_encodeElems xs]
  | .tuple xs => by
    have ht : Text.utf8 "#tup" = true := by decide
    simp [encodeValue, Value.texts, Json.utf8Members, ht, utf8_encodeElems xs]
  | .record fs => by simp [encodeValue, Value.texts, utf8_encodeFields fs]
  | .map es => by
    have ht : Text.utf8 "#map" = true := by decide
    simp [encodeValue, Value.texts, Json.utf8Members, ht, utf8_encodeEntries es]
  | .variant t v => by
    have ht : Text.utf8 "tag" = true ∧ Text.utf8 "value" = true := by decide
    simp [encodeValue, Value.texts, Json.utf8Members, ht, utf8_encodeValue v]

theorem utf8_encodeElems : ∀ xs : List Value,
    Json.utf8Elems (encodeElems xs) = true ↔ ∀ t ∈ textsElems xs, Text.utf8 t = true
  | [] => by simp [encodeElems, textsElems, Json.utf8Elems]
  | x :: xs => by
    rw [encodeElems, textsElems, Json.utf8Elems, Bool.and_eq_true, utf8_encodeValue x,
      utf8_encodeElems xs, List.forall_mem_append]

theorem utf8_encodeFields : ∀ fs : List (String × Value),
    Json.utf8Members (encodeFields fs) = true ↔ ∀ t ∈ textsFields fs, Text.utf8 t = true
  | [] => by simp [encodeFields, textsFields, Json.utf8Members]
  | (k, v) :: fs => by
    rw [encodeFields, textsFields, Json.utf8Members, Bool.and_eq_true, Bool.and_eq_true,
      utf8_encodeValue v, utf8_encodeFields fs, List.forall_mem_cons, List.forall_mem_append,
      and_assoc]

theorem utf8_encodeEntries : ∀ es : List (Value × Value),
    Json.utf8Elems (encodeEntries es) = true ↔ ∀ t ∈ textsEntries es, Text.utf8 t = true
  | [] => by simp [encodeEntries, textsEntries, Json.utf8Elems]
  | (k, v) :: es => by
    rw [encodeEntries, textsEntries, Json.utf8Elems, Bool.and_eq_true, Json.utf8_arr,
      Json.utf8Elems, Json.utf8Elems, Json.utf8Elems, Bool.and_true, Bool.and_eq_true,
      utf8_encodeValue k, utf8_encodeValue v, utf8_encodeEntries es, List.forall_mem_append,
      List.forall_mem_append]
end

end Itf

namespace Protocol

open Itf

def ApalacheConfig.texts (c : ApalacheConfig) : List String :=
  c.specPath :: c.invariant :: c.paramVars ::
    (c.initPredicate.toList ++ c.nextPredicate.toList ++ c.constInit.toList)

def specTexts (spec : Option ApalacheSpec) : List String :=
  spec.toList.flatMap ApalacheSpec.sources

/-- The byte strings the caller hands over in a message. -/
def ClientMessage.texts : ClientMessage → List String
  | register cfg tc spec => cfg.texts ++ tc.view.toList ++ specTexts spec
  | registerTraces cfg paths => cfg.texts ++ paths
  | registerTraceGen cfg tc destPath spec | registerTraceGenAsync cfg tc destPath spec =>
    cfg.texts ++ tc.view.toList ++ destPath.toList ++ specTexts spec
  | registerExplore spec invariants exports _ | registerExploreSession spec invariants exports =>
    spec.sources ++ invariants ++ exports
  | registerValidate cfg _ spec | registerValidateAsync cfg _ spec => cfg.texts ++ specTexts spec
  | queryJob jobId | cancelJob jobId | awaitJob jobId _ => [jobId]
  | exploreAssumeState state | reportState state => textsFields state
  | _ => []

/-! ## Objects as they are filled -/

theorem mem_keys_put {k l : String} {v : Json} {ms : Members} :
    l ∈ (put k v ms).map Prod.fst ↔ l = k ∨ l ∈ ms.map Prod.fst := by
  induction ms with
  | nil => simp [put, Doc.assign]
  | cons m ms ih =>
    obtain ⟨k', v'⟩ := m
    simp only [put, Doc.assign] at ih ⊢
    split
    · rename_i h; subst h; simp
    split
    · simp
    · rw [List.map_cons, List.mem_cons, ih, List.map_cons, List.mem_cons]; tauto

theorem mem_keys_putOption {k l : String} {v : Option Json} {ms : Members} :
    l ∈ (putOption k v ms).map Prod.fst ↔ l = k ∧ v.isSome = true ∨ l ∈ ms.map Prod.fst := by
  cases v <;> simp [putOption, mem_keys_put]

/-- A new key goes in as it is. -/
theorem utf8_put {k : String} {v : Json} {ms : Members} (hk : k ∉ ms.map Prod.fst) :
    Json.utf8Members (put k v ms) = true ↔
      Text.utf8 k = true ∧ v.utf8 = true ∧ Json.utf8Members ms = true := by
  induction ms with
  | nil => simp [put, Doc.assign, Json.utf8Members]
  | cons m ms ih =>
    obtain ⟨k', v'⟩ := m
    rw [List.map_cons, List.mem_cons, not_or] at hk
    have ih := ih hk.2
    simp only [put, Doc.assign, if_neg hk.1] at ih ⊢
    split
    · simp [Json.utf8Members, and_assoc]
    · simp only [Json.utf8Members, Bool.and_eq_true, ih]; tauto

theorem utf8_putOption {k : String} {v : Option Json} {ms : Members}
    (hk : k ∉ ms.map Prod.fst) (hu : Text.utf8 k = true) :
    Json.utf8Members (putOption k v ms) = true ↔
      (∀ j ∈ v, j.utf8 = true) ∧ Json.utf8Members ms = true := by
  cases v with
  | none => simp [putOption]
  | some v => simp [putOption, utf8_put hk, hu]

theorem utf8_strings (xs : List String) :
    (strings xs).utf8 = true ↔ ∀ t ∈ xs, Text.utf8 t = true := by
  simp [strings, Json.utf8Elems_iff]

theorem utf8_config (c : ApalacheConfig) :
    (encodeApalacheConfig c).utf8 = true ↔ ∀ t ∈ c.texts, Text.utf8 t = true := by
  have hk : Text.utf8 "paramVars" = true ∧ Text.utf8 "lengthBound" = true ∧
      Text.utf8 "invariant" = true ∧ Text.utf8 "constInit" = true ∧
      Text.utf8 "nextPredicate" = true ∧ Text.utf8 "initPredicate" = true ∧
      Text.utf8 "specPath" = true := by decide
  simp [encodeApalacheConfig, utf8_put, utf8_putOption, mem_keys_put, mem_keys_putOption, hk,
    ApalacheConfig.texts, Json.utf8Members, or_imp, forall_and]
  tauto

theorem utf8_trace (t : TraceGenerationConfig) :
    (encodeTraceConfig t).utf8 = true ↔ ∀ s ∈ t.view.toList, Text.utf8 s = true := by
  have hk : Text.utf8 "view" = true ∧ Text.utf8 "numTraces" = true := by decide
  simp [encodeTraceConfig, utf8_put, utf8_putOption, mem_keys_put, hk, Json.utf8Members]

theorem utf8_spec (s : ApalacheSpec) :
    (encodeSpec s).utf8 = true ↔ ∀ t ∈ s.sources, Text.utf8 t = true := by
  have hk : Text.utf8 "sources" = true := by decide
  simp [encodeSpec, utf8_put, hk, Json.utf8Members, utf8_strings]

theorem forall_specTexts {P : String → Prop} {spec : Option ApalacheSpec} :
    (∀ t ∈ specTexts spec, P t) ↔ ∀ a, spec = some a → ∀ t ∈ a.sources, P t := by
  cases spec <;> simp [specTexts]

theorem utf8_state (s : State) :
    (encodeState s).utf8 = true ↔ ∀ t ∈ textsFields s, Text.utf8 t = true := by
  rw [encodeState, Json.utf8_obj, utf8_encodeFields]

/-- A message prints exactly when the texts it was given are valid UTF-8. -/
theorem utf8_toJson (m : ClientMessage) :
    m.toJson.utf8 = true ↔ ∀ t ∈ m.texts, Text.utf8 t = true := by
  have hk : (["proto_step", "apalacheConfig", "traceConfig", "spec", "destPath", "itfTracePaths",
      "invariants", "exports", "maxSteps", "bound", "jobId", "timeoutSecs", "transitionId",
      "invariantId", "state", "snapshotId"].all Text.utf8) = true := by decide
  simp only [List.all_cons, List.all_nil, Bool.and_true, Bool.and_eq_true] at hk
  have hn : Text.utf8 m.name = true := by
    cases m <;> simp only [ClientMessage.name] <;> decide
  cases m <;>
    simp [ClientMessage.toJson, ClientMessage.fields, utf8_put, utf8_putOption, mem_keys_put,
      mem_keys_putOption, hk, hn, ClientMessage.texts, Json.utf8Members, or_imp, forall_and,
      utf8_config, utf8_trace, utf8_spec, forall_specTexts, utf8_strings, utf8_state]
  all_goals tauto

end Protocol

end MirrorCpp
