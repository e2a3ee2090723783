import MirrorCpp.Interface.Strict
import MirrorCpp.Lib.BigInt

/-!
# The contract validator (`validate_contract`, `model_interface.cpp`)

A check ends early by a refusal, or by an exception of `at()` or `get()`; the latter never happens
(`safe_validateContract`). Types and literals recurse on the levels they have left.
-/

namespace MirrorCpp.Interface

open Protocol

/-! ## Checks -/

inductive Stop where
  | refused (e : Error)
  | threw (f : JsonFault)

abbrev Checked := Except Stop

def lift {α : Type} : Result α → Checked α
  | .ok x => .ok x
  | .error e => .error (.refused e)

def refuse {α : Type} (message : String) : Checked α :=
  .error (.refused (unexpectedStatus message))

/-- `value.at(key)`. -/
def valueAt (value : Json) (key : String) : Checked Json :=
  match value.field key with
  | .ok v => .ok v
  | .error f => .error (.threw f)

/-- `value.get<std::string>()`. -/
def getString (value : Json) : Checked String :=
  match value.getStr with
  | .ok s => .ok s
  | .error f => .error (.threw f)

/-- The elements of an array. -/
def elements? : Json → Option (List Json)
  | .arr xs => some xs
  | _ => none

/-! ## Types and literals -/

/-- The type of a value: the levels of nesting left, and the nodes counted so far. -/
def validateModelType : Nat → Json → String → Nat → Checked Nat
  | 0, _, path, _ => refuse (path ++ ": type depth exceeds 32")
  | levels + 1, value, path, nodes =>
    if nodes + 1 > 8192 then refuse (path ++ ": type nodes exceed 8192")
    else match value.field? "kind" with
    | some (.str kind) =>
      if kind = "int" ∨ kind = "bool" ∨ kind = "str" ∨ kind = "null" then do
        lift (exactObject value path ["kind"] ["kind"])
        return nodes + 1
      else if kind = "set" ∨ kind = "seq" then do
        lift (exactObject value path ["kind", "element"] ["kind", "element"])
        let element ← valueAt value "element"
        validateModelType levels element (path ++ ".element") (nodes + 1)
      else if kind = "tuple" then do
        lift (exactObject value path ["kind", "elements"] ["kind", "elements"])
        let elements ← valueAt value "elements"
        match elements? elements with
        | none => refuse (path ++ ".elements: array expected")
        | some xs =>
          xs.foldlM (fun nodes x => validateModelType levels x (path ++ ".elements[]") nodes)
            (nodes + 1)
      else if kind = "record" ∨ kind = "variant" then do
        let listName := if kind = "record" then "fields" else "cases"
        let name := if kind = "record" then "wireName" else "tag"
        let payload := if kind = "record" then "type" else "payload"
        lift (exactObject value path ["kind", listName] ["kind", listName])
        let entries ← valueAt value listName
        match elements? entries with
        | none => refuse (path ++ ": array expected")
        | some xs =>
          let counted ← xs.foldlM (fun (acc : List String × Nat) entry => do
            lift (exactObject entry path [name, payload] [name, payload])
            let label ← valueAt entry name
            lift (shortString label path)
            let item ← getString label
            if item = "" ∨ acc.1.contains item then
              refuse (path ++ ": duplicate or empty label")
            else
              let inner ← valueAt entry payload
              let nodes ← validateModelType levels inner path acc.2
              return (item :: acc.1, nodes)) ([], nodes + 1)
          return counted.2
      else if kind = "map" then do
        lift (exactObject value path ["kind", "key", "value"] ["kind", "key", "value"])
        let key ← valueAt value "key"
        let nodes ← validateModelType levels key path (nodes + 1)
        let item ← valueAt value "value"
        validateModelType levels item path nodes
      else if kind = "opaqueItf" then do
        lift (exactObject value path ["kind", "description"] ["kind", "description"])
        let description ← valueAt value "description"
        lift (shortString description path)
        return nodes + 1
      else refuse (path ++ ": unknown model type " ++ kind)
    | _ => refuse (path ++ ": tagged model type expected")

/-- A canonical literal, by the levels of nesting left. -/
def validateLiteral : Nat → Json → String → Checked Unit
  | 0, _, path => refuse (path ++ ": literal depth exceeds 128")
  | levels + 1, value, path =>
    if !value.isObj then refuse (path ++ ": canonical literal expected")
    else do
      let kind ← lift (stringField value "kind" path)
      if kind = "null" then lift (exactObject value path ["kind"] ["kind"])
      else if kind = "int" ∨ kind = "bool" ∨ kind = "str" then do
        lift (exactObject value path ["kind", "value"] ["kind", "value"])
        let payload ← valueAt value "value"
        if kind = "bool" then
          if payload.isBool then return () else refuse (path ++ ": Boolean expected")
        else do
          let text ← lift (stringField value "value" path)
          if kind = "str" then return ()
          else if BigInt.isDecimal text then return ()
          else refuse (path ++ ": decimal integer string expected")
      else if kind = "set" ∨ kind = "seq" ∨ kind = "tuple" then do
        lift (exactObject value path ["kind", "values"] ["kind", "values"])
        let values ← valueAt value "values"
        match elements? values with
        | none => refuse (path ++ ": literal values array expected")
        | some xs => xs.forM fun x => validateLiteral levels x path
      else if kind = "record" ∨ kind = "map" then do
        let listName := if kind = "record" then "fields" else "entries"
        let keyName := if kind = "record" then "name" else "key"
        lift (exactObject value path ["kind", listName] ["kind", listName])
        let entries ← valueAt value listName
        match elements? entries with
        | none => refuse (path ++ ": literal entries array expected")
        | some xs => xs.forM fun entry => do
          lift (exactObject entry path [keyName, "value"] [keyName, "value"])
          if kind = "record" then
            let _ ← lift (stringField entry "name" path)
          else
            let key ← valueAt entry "key"
            validateLiteral levels key path
          let item ← valueAt entry "value"
          validateLiteral levels item path
      else if kind = "variant" then do
        lift (exactObject value path ["kind", "tag", "payload"] ["kind", "tag", "payload"])
        let _ ← lift (stringField value "tag" path)
        let payload ← valueAt value "payload"
        validateLiteral levels payload path
      else refuse (path ++ ": unknown canonical literal " ++ kind)

/-! ## Actions and contracts -/

def validatePathSegment (value : Json) (path : String) : Checked Unit :=
  match value with
  | .obj [(key, payload)] =>
    if key = "field" ∨ key = "variantValue" then lift (shortString payload path)
    else if key = "index" then
      match payload with
      | .int n => if 0 ≤ n then return () else refuse (path ++ ": nonnegative index expected")
      | _ => refuse (path ++ ": nonnegative index expected")
    else if key = "mapKey" then validateLiteral 128 payload path
    else refuse (path ++ ": unknown path selector")
  | _ => refuse (path ++ ": exactly one selector required")

/-- An optional `expectedType`. -/
def validateExpectedType (value : Json) (path : String) (nodes : Nat) : Checked Nat :=
  if value.contains "expectedType" then do
    let type ← valueAt value "expectedType"
    if type.isNull then return nodes else validateModelType 32 type path nodes
  else return nodes

def validateInput (input : Json) (path : String) (nodes : Nat) : Checked Nat := do
  lift (exactObject input path ["id", "from", "expectedType"] ["id", "from"])
  let id ← valueAt input "id"
  lift (shortString id path)
  let source ← valueAt input "from"
  lift (exactObject source path ["root", "path"] ["root", "path"])
  match stringField source "root" path with
  | .error _ => refuse (path ++ ": invalid path root")
  | .ok root =>
    if root ≠ "initialState" ∧ root ≠ "stepParameters" then
      refuse (path ++ ": invalid path root")
    else do
      let segments ← valueAt source "path"
      match elements? segments with
      | none => refuse (path ++ ": path limit exceeded")
      | some xs =>
        if xs.length > 32 then refuse (path ++ ": path limit exceeded")
        else do
          xs.forM fun x => validatePathSegment x path
          validateExpectedType input path nodes

def validateContractAction (value : Json) (path : String) (nodes : Nat) : Checked Nat := do
  lift (exactObject value path ["id", "wireAction", "wireAliases", "inputs"]
    ["id", "wireAction", "wireAliases", "inputs"])
  let id ← valueAt value "id"
  lift (shortString id path)
  let wireAction ← valueAt value "wireAction"
  lift (shortString wireAction path)
  let wireAliases ← valueAt value "wireAliases"
  let inputs ← valueAt value "inputs"
  match elements? wireAliases, elements? inputs with
  | some aliases, some inputs =>
    if aliases.length > 16 ∨ inputs.length > 128 then
      refuse (path ++ ": action resource limit exceeded")
    else do
      aliases.forM fun x => lift (shortString x path)
      inputs.foldlM (fun nodes input => validateInput input path nodes) nodes
  | _, _ => refuse (path ++ ": action resource limit exceeded")

def validateObservation (observation : Json) (path : String) (nodes : Nat) : Checked Nat := do
  lift (exactObject observation path ["id", "wireName", "provenance", "expectedType"]
    ["id", "wireName", "provenance"])
  let id ← valueAt observation "id"
  lift (shortString id path)
  let wireName ← valueAt observation "wireName"
  lift (shortString wireName path)
  match stringField observation "provenance" path with
  | .error _ => refuse "invalid observation provenance"
  | .ok provenance =>
    if provenance ≠ "implementation" ∧ provenance ≠ "oracle" ∧ provenance ≠ "derived" then
      refuse "invalid observation provenance"
    else validateExpectedType observation path nodes

def contractPath : String := "modelInterface.contract.inline"

def modelInterfaceContractSchema : String := "mirrors.model-interface/v1"

def contractKeys : List String :=
  ["schema", "interfaceVersion", "model", "wire", "initializers", "actions", "observations"]

/-- The head of a contract: its schema, version, model and wire names. -/
def validateContractHead (value : Json) : Checked Unit := do
  match stringField value "schema" contractPath with
  | .error _ => refuse "modelInterface contract schema is unsupported"
  | .ok schema =>
    if schema ≠ modelInterfaceContractSchema then
      refuse "modelInterface contract schema is unsupported"
    else do
      let version ← valueAt value "interfaceVersion"
      lift (shortString version contractPath)
      let model ← valueAt value "model"
      lift (exactObject model contractPath ["module", "source"] ["module", "source"])
      let module_ ← valueAt model "module"
      lift (shortString module_ contractPath)
      let source ← valueAt model "source"
      lift (shortString source contractPath)
      let wire ← valueAt value "wire"
      lift (exactObject wire contractPath ["actionVariable", "parameterVariable"]
        ["actionVariable", "parameterVariable"])
      let action ← valueAt wire "actionVariable"
      lift (shortString action contractPath)
      let parameter ← valueAt wire "parameterVariable"
      if parameter.isNull then return () else lift (shortString parameter contractPath)

def validateContract (value : Json) : Checked Unit := do
  lift (exactObject value contractPath contractKeys contractKeys)
  validateContractHead value
  let initializers ← valueAt value "initializers"
  let actions ← valueAt value "actions"
  let observations ← valueAt value "observations"
  match elements? initializers, elements? actions, elements? observations with
  | some initializers, some actions, some observations =>
    if initializers.length > 32 ∨ actions.length > 256 ∨ observations.length > 1024 then
      refuse "modelInterface contract resource limit exceeded"
    else do
      let nodes ← initializers.foldlM
        (fun nodes action => validateContractAction action contractPath nodes) 0
      let nodes ← actions.foldlM
        (fun nodes action => validateContractAction action contractPath nodes) nodes
      let _ ← observations.foldlM
        (fun nodes observation => validateObservation observation contractPath nodes) nodes
      return ()
  | _, _, _ => refuse "modelInterface contract resource limit exceeded"

/-! ## The validator does not throw -/

def Safe {α : Type} (c : Checked α) : Prop := ∀ f, c ≠ .error (.threw f)

section Safe

variable {α β : Type} {a : Checked α} {v : Json} {path : String}

theorem safe_ok (x : α) : Safe (.ok x : Checked α) := nofun

theorem safe_refuse (message : String) : Safe (refuse message : Checked α) := nofun

theorem safe_lift (r : Result α) : Safe (lift r) := by
  cases r <;> exact nofun

theorem safe_bind {f : α → Checked β} (ha : Safe a) (hf : ∀ x, a = .ok x → Safe (f x)) :
    Safe (a >>= f) := by
  intro e h
  obtain h | ⟨x, hx, h⟩ := Fallible.bind_eq_error.mp h
  · exact ha e h
  · exact hf x hx e h

theorem safe_foldlM {f : β → α → Checked β} (h : ∀ b x, Safe (f b x)) :
    ∀ (xs : List α) (b : β), Safe (xs.foldlM f b)
  | [], b => safe_ok b
  | x :: xs, b => by
    rw [List.foldlM_cons]
    exact safe_bind (h b x) fun b _ => safe_foldlM h xs b

theorem safe_forM {f : α → Checked PUnit} (h : ∀ x, Safe (f x)) :
    ∀ xs : List α, Safe (xs.forM f)
  | [] => safe_ok ()
  | x :: xs => safe_bind (h x) fun _ _ => safe_forM h xs

theorem lift_eq_ok {r : Result α} {x : α} : lift r = .ok x ↔ r = .ok x := by
  cases r <;> simp [lift]

theorem exactObject_keys {allowed required : List String}
    (h : exactObject v path allowed required = .ok ()) {key : String} (hk : key ∈ required) :
    v.contains key = true := by
  unfold exactObject at h
  split at h
  · split at h
    · cases h
    · split at h
      · cases h
      · rename_i hn
        simpa using List.find?_eq_none.mp hn key hk
  · cases h

theorem safe_valueAt {key : String} (h : v.contains key = true) : Safe (valueAt v key) := by
  intro f hf
  unfold valueAt Json.field at hf
  cases v with
  | obj ms =>
    cases hl : ms.lookup key with
    | some w => simp [hl] at hf
    | none => simp [Json.contains, Json.field?, hl] at h
  | _ => simp [Json.contains, Json.field?] at h

/-- Behind a check of its keys an object has the required ones. -/
theorem safe_exactObject {allowed required : List String} {f : Unit → Checked α}
    (h : (∀ key ∈ required, Safe (valueAt v key)) → Safe (f ())) :
    Safe (lift (exactObject v path allowed required) >>= f) :=
  safe_bind (safe_lift _) fun _ hx =>
    h fun _ hk => safe_valueAt (exactObject_keys (lift_eq_ok.mp hx) hk)

/-- Behind its check a label is a string. -/
theorem safe_shortString {f : Unit → Checked α} (h : Safe (getString v) → Safe (f ())) :
    Safe (lift (shortString v path) >>= f) := by
  refine safe_bind (safe_lift _) fun _ hx => h ?_
  have hx := lift_eq_ok.mp hx
  unfold shortString at hx
  split at hx
  · exact safe_ok _
  · cases hx

end Safe

theorem safe_validateModelType : ∀ (levels : Nat) (v : Json) (path : String) (nodes : Nat),
    Safe (validateModelType levels v path nodes)
  | 0, _, _, _ => safe_refuse _
  | levels + 1, v, path, nodes => by
    have ih := safe_validateModelType levels
    unfold validateModelType
    split
    · exact safe_refuse _
    split
    · split
      · exact safe_exactObject fun _ => safe_ok _
      split
      · exact safe_exactObject fun h => safe_bind (h _ (by simp)) fun _ _ => ih _ _ _
      split
      · refine safe_exactObject fun h => safe_bind (h _ (by simp)) fun _ _ => ?_
        split
        · exact safe_refuse _
        · exact safe_foldlM (fun _ _ => ih _ _ _) _ _
      split
      · refine safe_exactObject fun h => safe_bind (h _ (by simp)) fun _ _ => ?_
        split
        · exact safe_refuse _
        · refine safe_bind (safe_foldlM (fun _ _ => ?_) _ _) fun _ _ => safe_ok _
          refine safe_exactObject fun h => safe_bind (h _ (by simp)) fun _ _ => ?_
          refine safe_shortString fun hs => safe_bind hs fun _ _ => ?_
          split
          · exact safe_refuse _
          · exact safe_bind (h _ (by simp)) fun _ _ => safe_bind (ih _ _ _) fun _ _ => safe_ok _
      split
      · refine safe_exactObject fun h => safe_bind (h _ (by simp)) fun _ _ => ?_
        exact safe_bind (ih _ _ _) fun _ _ => safe_bind (h _ (by simp)) fun _ _ => ih _ _ _
      split
      · refine safe_exactObject fun h => safe_bind (h _ (by simp)) fun _ _ => ?_
        exact safe_shortString fun _ => safe_ok _
      · exact safe_refuse _
    · exact safe_refuse _

theorem safe_validateLiteral : ∀ (levels : Nat) (v : Json) (path : String),
    Safe (validateLiteral levels v path)
  | 0, _, _ => safe_refuse _
  | levels + 1, v, path => by
    have ih := safe_validateLiteral levels
    unfold validateLiteral
    split
    · exact safe_refuse _
    refine safe_bind (safe_lift _) fun kind _ => ?_
    split
    · exact safe_lift _
    split
    · refine safe_exactObject fun h => safe_bind (h _ (by simp)) fun _ _ => ?_
      split
      · split
        · exact safe_ok _
        · exact safe_refuse _
      · refine safe_bind (safe_lift _) fun _ _ => ?_
        split
        · exact safe_ok _
        split
        · exact safe_ok _
        · exact safe_refuse _
    split
    · refine safe_exactObject fun h => safe_bind (h _ (by simp)) fun _ _ => ?_
      split
      · exact safe_refuse _
      · exact safe_forM (fun _ => ih _ _) _
    split
    · refine safe_exactObject fun h => safe_bind (h _ (by simp)) fun _ _ => ?_
      split
      · exact safe_refuse _
      · refine safe_forM (fun _ => safe_exactObject fun h => ?_) _
        split
        · exact safe_bind (safe_lift _) fun _ _ => safe_bind (h _ (by simp)) fun _ _ => ih _ _
        · rename_i hk
          refine safe_bind (h _ (by simp [hk])) fun _ _ => safe_bind (ih _ _) fun _ _ => ?_
          exact safe_bind (h _ (by simp)) fun _ _ => ih _ _
    split
    · refine safe_exactObject fun h => safe_bind (safe_lift _) fun _ _ => ?_
      exact safe_bind (h _ (by simp)) fun _ _ => ih _ _
    · exact safe_refuse _

theorem safe_validatePathSegment (v : Json) (path : String) :
    Safe (validatePathSegment v path) := by
  unfold validatePathSegment
  split
  · split
    · exact safe_lift _
    split
    · split
      · split
        · exact safe_ok _
        · exact safe_refuse _
      · exact safe_refuse _
    split
    · exact safe_validateLiteral _ _ _
    · exact safe_refuse _
  · exact safe_refuse _

theorem safe_validateExpectedType (v : Json) (path : String) (nodes : Nat) :
    Safe (validateExpectedType v path nodes) := by
  unfold validateExpectedType
  split
  · rename_i h
    refine safe_bind (safe_valueAt h) fun _ _ => ?_
    split
    · exact safe_ok _
    · exact safe_validateModelType _ _ _ _
  · exact safe_ok _

theorem safe_validateInput (v : Json) (path : String) (nodes : Nat) :
    Safe (validateInput v path nodes) := by
  unfold validateInput
  refine safe_exactObject fun h => safe_bind (h _ (by simp)) fun _ _ => ?_
  refine safe_shortString fun _ => safe_bind (h _ (by simp)) fun _ _ => ?_
  refine safe_exactObject fun h => ?_
  split
  · exact safe_refuse _
  split
  · exact safe_refuse _
  refine safe_bind (h _ (by simp)) fun _ _ => ?_
  split
  · exact safe_refuse _
  split
  · exact safe_refuse _
  · exact safe_bind (safe_forM (fun _ => safe_validatePathSegment _ _) _) fun _ _ =>
      safe_validateExpectedType _ _ _

theorem safe_validateContractAction (v : Json) (path : String) (nodes : Nat) :
    Safe (validateContractAction v path nodes) := by
  unfold validateContractAction
  refine safe_exactObject fun h => safe_bind (h _ (by simp)) fun _ _ => ?_
  refine safe_shortString fun _ => safe_bind (h _ (by simp)) fun _ _ => ?_
  refine safe_shortString fun _ => safe_bind (h _ (by simp)) fun _ _ => ?_
  refine safe_bind (h _ (by simp)) fun _ _ => ?_
  split
  · split
    · exact safe_refuse _
    · exact safe_bind (safe_forM (fun _ => safe_lift _) _) fun _ _ =>
        safe_foldlM (fun _ _ => safe_validateInput _ _ _) _ _
  · exact safe_refuse _

theorem safe_validateObservation (v : Json) (path : String) (nodes : Nat) :
    Safe (validateObservation v path nodes) := by
  unfold validateObservation
  refine safe_exactObject fun h => safe_bind (h _ (by simp)) fun _ _ => ?_
  refine safe_shortString fun _ => safe_bind (h _ (by simp)) fun _ _ => ?_
  refine safe_shortString fun _ => ?_
  split
  · exact safe_refuse _
  split
  · exact safe_refuse _
  · exact safe_validateExpectedType _ _ _

theorem safe_validateContractHead {v : Json} (h : ∀ key ∈ contractKeys, Safe (valueAt v key)) :
    Safe (validateContractHead v) := by
  unfold validateContractHead
  split
  · exact safe_refuse _
  split
  · exact safe_refuse _
  refine safe_bind (h _ (by simp [contractKeys])) fun _ _ => safe_shortString fun _ => ?_
  refine safe_bind (h _ (by simp [contractKeys])) fun _ _ => safe_exactObject fun hm => ?_
  refine safe_bind (hm _ (by simp)) fun _ _ => safe_shortString fun _ => ?_
  refine safe_bind (hm _ (by simp)) fun _ _ => safe_shortString fun _ => ?_
  refine safe_bind (h _ (by simp [contractKeys])) fun _ _ => safe_exactObject fun hw => ?_
  refine safe_bind (hw _ (by simp)) fun _ _ => safe_shortString fun _ => ?_
  refine safe_bind (hw _ (by simp)) fun _ _ => ?_
  split
  · exact safe_ok _
  · exact safe_lift _

theorem safe_validateContract (v : Json) : Safe (validateContract v) := by
  unfold validateContract
  refine safe_exactObject fun h => safe_bind (safe_validateContractHead h) fun _ _ => ?_
  refine safe_bind (h _ (by simp [contractKeys])) fun _ _ => ?_
  refine safe_bind (h _ (by simp [contractKeys])) fun _ _ => ?_
  refine safe_bind (h _ (by simp [contractKeys])) fun _ _ => ?_
  split
  · split
    · exact safe_refuse _
    · refine safe_bind (safe_foldlM (fun _ _ => safe_validateContractAction _ _ _) _ _) fun _ _ =>
        ?_
      refine safe_bind (safe_foldlM (fun _ _ => safe_validateContractAction _ _ _) _ _) fun _ _ =>
        ?_
      exact safe_bind (safe_foldlM (fun _ _ => safe_validateObservation _ _ _) _ _) fun _ _ =>
        safe_ok _
  · exact safe_refuse _

end MirrorCpp.Interface
