import MirrorCpp.Sync.Programs
import MirrorCpp.Sync.Resources
import MirrorCpp.Lib.PrefixTree
import MirrorCpp.Lib.JsonCompact

/-!
# Exploring the decisions of an execution (`schedule_sync.cpp`, `explore`)

The worklist loop over decision prefixes, each replayed into a fresh execution. What the passes
meet (clock readings, exceptions, what an execution reports) is a parameter; `Attempted` says
when it is what an execution does. A complete exploration visited the tree of enabled choices,
each node once.
-/

namespace MirrorCpp.Sync

open PrefixTree

/-- What a pass of the loop meets. -/
inductive Tried where
  /-- `factory()` threw; the clock afterwards. -/
  | factoryThrew (late : Bool)
  /-- Time ran out during `factory()`. -/
  | factoryLate
  /-- An exception left a call of the execution. -/
  | threw
  | ran (r : Ran)

structure Pass where
  /-- The clock at the head of the loop. -/
  late : Bool
  tried : Tried

/-- The locals of `explore`. The stack of prefixes has its top first; `retained` are the ordinals
of the executions that are retained, `executed` (a ghost) the prefixes taken from the stack. -/
structure Explorer where
  prefixes : List (List String) := [[]]
  complete : Bool := true
  evidenceComplete : Bool := true
  totalBudgetExceeded : Bool := false
  runs : Nat := 0
  terminals : Nat := 0
  deadlocks : Nat := 0
  stopReason : String := ""
  rows : List Json := []
  retained : List Nat := []
  executed : List (List String) := []

structure Exploration where
  evidence : Json
  retained : List Nat
  executed : List (List String)

inductive ExploreFault where
  | invalidArgument (what : String)
  /-- An exception of an execution, or of the serialiser. -/
  | propagated
  deriving DecidableEq, Repr

def prefixJson (p : List String) : Json := .arr (p.map .str)

namespace Explorer

def evidence (e : Explorer) : Json :=
  .obj [("budgetExceeded", .obj [("total", .bool e.totalBudgetExceeded)]),
    ("complete", .bool (e.complete && e.prefixes.isEmpty)),
    ("coverage", .str "finite-enabled-prefix-tree"),
    ("deadlocks", .int e.deadlocks),
    ("evidenceComplete", .bool e.evidenceComplete),
    ("modelComparison", .bool false),
    ("profile", .str profile),
    ("rows", .arr e.rows),
    ("runs", .int e.runs),
    ("schema", .str "mirrors.controlled-sync-exploration/v1"),
    ("stopReason", .str e.stopReason),
    ("terminals", .int e.terminals)]

def failureReserve : Nat := 256

def stop (e : Explorer) (reason : String) : Explorer :=
  { e with complete := false, stopReason := if e.stopReason.isEmpty then reason else e.stopReason }

def expired (e : Explorer) (late : Bool) : Explorer :=
  if late then { e with totalBudgetExceeded := true }.stop "total_timeout" else e

/-- False where the row did not fit and an omission took its place; `none` where `dump` throws. -/
def retainRow (lib : JsonLib) (policy : Policy) (e : Explorer) (row : Json) (cleanup : Cleanup) :
    Option (Bool × Explorer) :=
  let fits := { e with rows := e.rows ++ [row] }
  (lib.dumpSize fits.evidence).map fun size =>
    if size + failureReserve ≤ policy.maxEvidenceBytes then (true, fits)
    else
      let e := { e with evidenceComplete := false }.stop "evidence_exhausted"
      (false, { e with rows := e.rows ++ [.obj [("cleanup", .str cleanup.name),
        ("evidenceError", .str "receipt_byte_bound_exceeded"), ("ordinal", .int (e.runs - 1))]] })

def factoryRow (e : Explorer) (p : List String) (error : String) : Json :=
  .obj [("cleanup", .str "not_started"), ("error", .str error), ("ordinal", .int (e.runs - 1)),
    ("prefix", prefixJson p), ("stage", .str "adapter_factory")]

def runRow (e : Explorer) (p : List String) (r : Ran) : Json :=
  .obj [("enabled", prefixJson r.enabled), ("ordinal", .int (e.runs - 1)),
    ("prefix", prefixJson p), ("receipt", r.receipt)]

/-- The stop an attempt causes by itself. -/
def judge (e : Explorer) (r : Ran) : Explorer :=
  if r.cleanup.cleanup ≠ .confirmed then e.stop "cleanup_incomplete"
  else if r.cleanup.executionBudgetExceeded || r.cleanup.cleanupBudgetExceeded then
    e.stop "callback_timeout"
  else if r.primary.outcome ≠ .completed ∧ r.primary.outcome ≠ .controlledDeadlock then
    e.stop "execution_failed"
  else e

/-- Count a leaf or push the children, the first enabled actor on top. -/
def count (policy : Policy) (e : Explorer) (p : List String) (r : Ran) : Bool × Explorer :=
  if r.primary.outcome = .controlledDeadlock then (true, { e with deadlocks := e.deadlocks + 1 })
  else if r.primary.finished then (true, { e with terminals := e.terminals + 1 })
  else if policy.maxDecisions ≤ p.length then (false, e.stop "decision_bound")
  else (true, { e with prefixes := r.enabled.map (fun actor => p ++ [actor]) ++ e.prefixes })

/-- The loop's body behind the pop; false where it breaks. -/
def attempt (lib : JsonLib) (policy : Policy) (e : Explorer) (p : List String) :
    Tried → Option (Bool × Explorer)
  | .factoryThrew late =>
    let e := (e.stop "factory_failed").expired late
    (e.retainRow lib policy (e.factoryRow p "adapter factory threw") .notStarted).map
      fun (_, e) => (false, e)
  | .factoryLate =>
    let e := e.expired true
    (e.retainRow lib policy (e.factoryRow p "total deadline during adapter factory")
      .notStarted).map fun (_, e) => (false, e)
  | .threw => none
  | .ran r =>
    let e := (e.expired r.late).judge r
    (e.retainRow lib policy (e.runRow p r) r.cleanup.cleanup).map fun (retained, e) =>
      let e := e.expired r.lateRow
      let e := if r.cleanup.cleanup = .incomplete then
        { e with retained := e.retained ++ [e.runs - 1] } else e
      if !e.complete || !retained then (false, e) else e.count policy p r

/-- Take the top of the stack. -/
def pop (e : Explorer) (p : List String) (rest : List (List String)) : Explorer :=
  { e with prefixes := rest, runs := e.runs + 1, executed := e.executed ++ [p] }

/-- The loop; `left` runs are left before `run_bound`. -/
def loop (lib : JsonLib) (policy : Policy) (world : Nat → Pass) :
    (left : Nat) → Explorer → Option Explorer
  | left, e =>
    match e.prefixes with
    | [] => some e
    | p :: rest =>
      let late := (world e.runs).late
      if late then some (e.expired late)
      else match left with
        | 0 => some (e.stop "run_bound")
        | left + 1 =>
          if 4096 < e.prefixes.length then some (e.stop "prefix_bound")
          else match (e.pop p rest).attempt lib policy p (world e.runs).tried with
            | none => none
            | some (false, e) => some e
            | some (true, e) => loop lib policy world left e

end Explorer

/-- `explore`; `late₁` and `late₂` are the clock behind the loop. -/
def explore (lib : JsonLib) (factory : Bool) (maxRuns : Nat) (policy : Policy)
    (world : Nat → Pass) (late₁ late₂ : Bool) : Except ExploreFault Exploration :=
  if !factory || maxRuns == 0 || decide (4096 < maxRuns) || !policy.valid then
    .error (.invalidArgument "exploration bound")
  else match lib.dumpSize ({} : Explorer).evidence with
    | none => .error .propagated
    | some size =>
      if policy.maxEvidenceBytes < size + Explorer.failureReserve then
        .error (.invalidArgument "exploration evidence bound cannot retain failure metadata")
      else match Explorer.loop lib policy world maxRuns {} with
        | none => .error .propagated
        | some e =>
          let e := (e.expired late₁).expired late₂
          .ok ⟨e.evidence, e.retained, e.executed⟩

/-! ## What stays complete -/

namespace Explorer

variable {lib : JsonLib} {policy : Policy} {e e' e₁ e₂ : Explorer} {r : Ran} {p : List String}
  {rest : List (List String)} {b : Bool} {world : Nat → Pass}

/-- Rows were added, or the exploration is no longer complete. -/
structure Kept (e e' : Explorer) : Prop where
  executed : e'.executed = e.executed
  complete : e'.complete = true →
    ∃ rows retained, e' = { e with rows := rows, retained := retained }

namespace Kept

theorem refl (e : Explorer) : Kept e e := ⟨rfl, fun _ => ⟨e.rows, e.retained, rfl⟩⟩

theorem trans (h : Kept e e₁) (h' : Kept e₁ e₂) : Kept e e₂ where
  executed := h'.executed.trans h.executed
  complete hc := by
    obtain ⟨rows, retained, rfl⟩ := h'.complete hc
    obtain ⟨rows', retained', e⟩ := h.complete hc
    exact ⟨rows, retained, by rw [e]⟩

theorem stop (e : Explorer) (reason : String) : Kept e (e.stop reason) := ⟨rfl, nofun⟩

theorem expired (e : Explorer) (late : Bool) : Kept e (e.expired late) := by
  cases late
  · exact refl e
  · exact ⟨rfl, nofun⟩

theorem judge (e : Explorer) (r : Ran) : Kept e (e.judge r) := by
  unfold Explorer.judge
  split
  · exact stop e _
  split
  · exact stop e _
  split
  · exact stop e _
  · exact refl e

theorem retainRow {row : Json} {cleanup : Cleanup}
    (h : e.retainRow lib policy row cleanup = some (b, e')) : Kept e e' := by
  obtain ⟨size, -, h⟩ := Option.map_eq_some_iff.mp h
  split at h
  · cases h; exact ⟨rfl, fun _ => ⟨_, e.retained, rfl⟩⟩
  · cases h; exact ⟨rfl, nofun⟩

end Kept

theorem expired_complete {late : Bool} (h : (e.expired late).complete = true) : late = false := by
  cases late
  · rfl
  · cases h

theorem judge_complete (h : (e.judge r).complete = true) :
    r.primary.outcome = .completed ∨ r.primary.outcome = .controlledDeadlock := by
  by_contra hn
  simp only [not_or] at hn
  unfold judge at h
  split at h
  · cases h
  split at h <;> cases h

/-- The loop goes on or stays complete behind a run in time that did not fail. -/
theorem attempt_cases {t : Tried} (h : e.attempt lib policy p t = some (b, e')) :
    (b = false ∧ e'.complete = false ∧ e'.executed = e.executed) ∨
    ∃ r e₂, t = .ran r ∧ r.late = false ∧
      (r.primary.outcome = .completed ∨ r.primary.outcome = .controlledDeadlock) ∧
      Kept e e₂ ∧ e₂.complete = true ∧ e₂.count policy p r = (b, e') := by
  cases t with
  | factoryThrew late =>
    obtain ⟨⟨b', e₁⟩, h1, h⟩ := Option.map_eq_some_iff.mp h
    cases h
    have hk := (Kept.stop e "factory_failed").trans ((Kept.expired _ late).trans (.retainRow h1))
    refine .inl ⟨rfl, ?_, hk.executed⟩
    rw [Bool.eq_false_iff]
    intro hc
    obtain ⟨rows, retained, h2⟩ := ((Kept.expired _ late).trans (.retainRow h1)).complete hc
    rw [h2] at hc; cases hc
  | factoryLate =>
    obtain ⟨⟨b', e₁⟩, h1, h⟩ := Option.map_eq_some_iff.mp h
    cases h
    refine .inl ⟨rfl, ?_, ((Kept.expired e true).trans (.retainRow h1)).executed⟩
    rw [Bool.eq_false_iff]
    intro hc
    obtain ⟨rows, retained, h2⟩ := (Kept.retainRow h1).complete hc
    rw [h2] at hc; cases hc
  | threw => cases h
  | ran r =>
    obtain ⟨⟨b', e₁⟩, h1, h⟩ := Option.map_eq_some_iff.mp h
    dsimp only at h
    have hj : Kept (e.expired r.late) e₁ := (Kept.judge _ r).trans (.retainRow h1)
    have hlast : Kept e₁ (if r.cleanup.cleanup = .incomplete then
        { e₁.expired r.lateRow with retained := (e₁.expired r.lateRow).retained ++
          [(e₁.expired r.lateRow).runs - 1] } else e₁.expired r.lateRow) := by
      refine (Kept.expired e₁ r.lateRow).trans ?_
      split
      · exact ⟨rfl, fun _ => ⟨_, _, rfl⟩⟩
      · exact .refl _
    generalize (if r.cleanup.cleanup = .incomplete then
        { e₁.expired r.lateRow with retained := (e₁.expired r.lateRow).retained ++
          [(e₁.expired r.lateRow).runs - 1] } else e₁.expired r.lateRow) = e₂ at h hlast
    have hk : Kept e e₂ := (Kept.expired e r.late).trans (hj.trans hlast)
    split at h
    · rename_i hstop
      cases h
      refine .inl ⟨rfl, ?_, hk.executed⟩
      rcases Bool.or_eq_true_iff.mp hstop with hc | hb
      · simpa using hc
      · -- a row that was not retained stopped the exploration
        rw [Bool.eq_false_iff]
        intro hc
        obtain ⟨rows, retained, rfl⟩ := hlast.complete hc
        obtain ⟨size, -, h1⟩ := Option.map_eq_some_iff.mp h1
        split at h1
        · cases h1; cases hb
        · cases h1; cases hc
    · rename_i hstop
      simp only [Bool.or_eq_true, Bool.not_eq_true', not_or, Bool.not_eq_false] at hstop
      have hc : e₂.complete = true := hstop.1
      obtain ⟨rows, retained, he₂⟩ := hlast.complete hc
      have hc₁ : e₁.complete = true := by rw [he₂] at hc; exact hc
      obtain ⟨rows', retained', he₁⟩ := (Kept.retainRow h1).complete hc₁
      have hcj : ((e.expired r.late).judge r).complete = true := by rw [he₁] at hc₁; exact hc₁
      obtain ⟨rows'', retained'', hej⟩ := (Kept.judge (e.expired r.late) r).complete hcj
      have hce : (e.expired r.late).complete = true := by rw [hej] at hcj; exact hcj
      exact .inr ⟨r, e₂, rfl, expired_complete hce, judge_complete hcj, hk, hc, h⟩

theorem count_executed (h : e.count policy p r = (b, e')) : e'.executed = e.executed := by
  unfold count at h
  split at h
  · cases h; rfl
  split at h
  · cases h; rfl
  split at h <;> cases h <;> rfl

/-- The prefixes taken from the stack are kept in order, and nothing completes what is not
complete. -/
theorem attempt_mono {t : Tried} (h : e.attempt lib policy p t = some (b, e')) :
    e'.executed = e.executed ∧ (e'.complete = true → e.complete = true) := by
  rcases attempt_cases h with ⟨-, hc, h⟩ | ⟨r, e₂, -, -, -, hk, hc, hcount⟩
  · exact ⟨h, fun hc' => by rw [hc] at hc'; cases hc'⟩
  · refine ⟨(count_executed hcount).trans hk.executed, fun _ => ?_⟩
    obtain ⟨rows, retained, rfl⟩ := hk.complete hc
    exact hc

theorem loop_mono {n : Nat} (h : loop lib policy world n e = some e') :
    e.executed <+: e'.executed ∧ (e'.complete = true → e.complete = true) := by
  have same : ∀ e : Explorer, e.executed <+: e.executed ∧ (e.complete = true → e.complete = true) :=
    fun e => ⟨⟨[], List.append_nil _⟩, id⟩
  have late : ∀ (e : Explorer) (l : Bool), e.executed <+: (e.expired l).executed ∧
      ((e.expired l).complete = true → e.complete = true) := fun e l => by
    cases l
    · exact same e
    · exact ⟨⟨[], List.append_nil _⟩, nofun⟩
  induction n generalizing e with
  | zero =>
    unfold loop at h
    split at h
    · cases h; exact same _
    dsimp only at h
    split at h
    · cases h; exact late e _
    · cases h; exact ⟨⟨[], List.append_nil _⟩, nofun⟩
  | succ n ih =>
    unfold loop at h
    split at h
    · cases h; exact same _
    rename_i p rest hp
    dsimp only at h
    split at h
    · cases h; exact late e _
    split at h
    · cases h; exact ⟨⟨[], List.append_nil _⟩, nofun⟩
    have hpop : e.executed <+: (e.pop p rest).executed := ⟨[p], rfl⟩
    split at h
    · cases h
    · rename_i ha
      cases h
      obtain ⟨hex, hc⟩ := attempt_mono ha
      exact ⟨by rw [hex]; exact hpop, hc⟩
    · rename_i ha
      obtain ⟨hex, hc⟩ := attempt_mono ha
      obtain ⟨hex', hc'⟩ := ih h
      rw [hex] at hex'
      exact ⟨hpop.trans hex', fun h => hc (hc' h)⟩

end Explorer

/-! ## The tree of enabled choices -/

section

universe u

variable (lib : JsonLib) {U : Type u} (M : Maker U) (policy : Policy)

/-- What the passes met is what executions of the factory's programs do, whichever prefix they
were given. -/
def Faithful (world : Nat → Pass) (executed : List (List String)) : Prop :=
  ∀ n p r, executed[n]? = some p → (world n).tried = .ran r → Sys.Attempted lib M policy p r

open Classical in
/-- A complete exploration between two passes. -/
structure Explorer.Sound (e : Explorer) : Prop where
  frontier : Frontier (Offered lib M policy) e.executed e.prefixes
  runs : e.runs = e.executed.length
  terminals : e.terminals = e.executed.countP fun p => Terminal lib M policy p
  deadlocks : e.deadlocks = e.executed.countP fun p => Deadlocked lib M policy p
  stopReason : e.stopReason = ""
  evidenceComplete : e.evidenceComplete = true
  totalBudgetExceeded : e.totalBudgetExceeded = false

variable {lib M policy} {e e' : Explorer} {r : Ran} {p : List String} {rest : List (List String)}
  {b : Bool} {world : Nat → Pass} {t : Tried}

namespace Explorer

theorem Sound.init : Sound lib M policy ({} : Explorer) where
  frontier := .init
  runs := rfl
  terminals := rfl
  deadlocks := rfl
  stopReason := rfl
  evidenceComplete := rfl
  totalBudgetExceeded := rfl

/-- Only a bound stops the exploration where a leaf is counted. -/
theorem count_complete (h : e.count policy p r = (b, e')) (hc : e'.complete = true) : b = true := by
  unfold count at h
  split at h
  · cases h; rfl
  split at h
  · cases h; rfl
  split at h
  · cases h; cases hc
  · cases h; rfl

/-- A pass that leaves the exploration complete visits its prefix. -/
theorem Sound.attempt (hdet : Deterministic lib M policy) (h : Sound lib M policy e)
    (hp : e.prefixes = p :: rest) (hreal : ∀ r, t = .ran r → Sys.Attempted lib M policy p r)
    (ha : (e.pop p rest).attempt lib policy p t = some (b, e')) (hc : e'.complete = true) :
    b = true ∧ Sound lib M policy e' := by
  rcases attempt_cases ha with ⟨-, hc', -⟩ | ⟨r, e₂, rfl, hlate, ho, hk, hc₂, hcount⟩
  · rw [hc] at hc'; cases hc'
  refine ⟨count_complete hcount hc, ?_⟩
  obtain ⟨rows, retained, rfl⟩ := hk.complete hc₂
  obtain ⟨x, hr, hx, hen, hdl, hfin⟩ := (hreal r rfl).visit hlate ho
  have hnd : r.enabled.Nodup := hen ▸ Sys.enabledAt_nodup hr
  have hoff : ∀ a, a ∈ r.enabled ↔ Offered lib M policy p a := fun a => by
    rw [hen]; exact hdet.offered hx a
  have hfr := h.frontier
  rw [hp] at hfr
  have hvisit := hfr.visit hnd hoff
  have hruns : (e.pop p rest).runs = (e.executed ++ [p]).length := by
    simp [pop, h.runs]
  unfold count at hcount
  split at hcount
  · rename_i hd
    cases hcount
    have hdx := hdl.mp hd
    obtain ⟨hnil, hnf⟩ := Sys.enabledAt_of_deadlocked hx.1 hdx
    rw [hen, hnil] at hvisit
    have hD : Deadlocked lib M policy p := ⟨x, hx, hdx⟩
    have hT : ¬Terminal lib M policy p := by rw [← hdet.terminal hx, hnf]; simp
    refine ⟨hvisit, hruns, ?_, ?_, h.stopReason, h.evidenceComplete, h.totalBudgetExceeded⟩
    · simp [pop, h.terminals, List.countP_append, hT]
    · simp [pop, h.deadlocks, List.countP_append, hD]
  rename_i hd
  have hD : ¬Deadlocked lib M policy p := by rw [← hdet.deadlocked hx, ← hdl]; exact hd
  have hfin := hfin (ho.resolve_right hd)
  split at hcount
  · rename_i hf
    cases hcount
    rw [hen, Sys.enabledAt_of_finished (hfin.mp hf)] at hvisit
    have hT : Terminal lib M policy p := ⟨x, hx, hfin.mp hf⟩
    refine ⟨hvisit, hruns, ?_, ?_, h.stopReason, h.evidenceComplete, h.totalBudgetExceeded⟩
    · simp [pop, h.terminals, List.countP_append, hT]
    · simp [pop, h.deadlocks, List.countP_append, hD]
  rename_i hf
  have hT : ¬Terminal lib M policy p := by rw [← hdet.terminal hx, ← hfin]; exact hf
  split at hcount
  · cases hcount; cases hc
  · cases hcount
    refine ⟨hvisit, hruns, ?_, ?_, h.stopReason, h.evidenceComplete, h.totalBudgetExceeded⟩
    · simp [pop, h.terminals, List.countP_append, hT]
    · simp [pop, h.deadlocks, List.countP_append, hD]

/-- A loop that ends complete has emptied its stack. -/
theorem Sound.loop (hdet : Deterministic lib M policy) {n : Nat} (h : Sound lib M policy e)
    (hl : loop lib policy world n e = some e') (hc : e'.complete = true)
    (hreal : Faithful lib M policy world e'.executed) :
    Sound lib M policy e' ∧ e'.prefixes = [] := by
  induction n generalizing e with
  | zero =>
    unfold Explorer.loop at hl
    split at hl
    · rename_i hp; cases hl; exact ⟨h, hp⟩
    dsimp only at hl
    split at hl
    · rename_i hlate
      cases hl
      rw [expired_complete hc] at hlate; cases hlate
    · cases hl; cases hc
  | succ n ih =>
    unfold Explorer.loop at hl
    split at hl
    · rename_i hp; cases hl; exact ⟨h, hp⟩
    rename_i p rest hp
    dsimp only at hl
    split at hl
    · rename_i hlate
      cases hl
      rw [expired_complete hc] at hlate; cases hlate
    split at hl
    · cases hl; cases hc
    -- the pass is that of the next ordinal
    have hpass : ∀ {e₁ : Explorer} {b : Bool},
        (e.pop p rest).attempt lib policy p (world e.runs).tried = some (b, e₁) →
        e₁.executed <+: e'.executed → ∀ r, (world e.runs).tried = .ran r →
        Sys.Attempted lib M policy p r := by
      intro e₁ b ha hpre r hr
      rw [(attempt_mono ha).1] at hpre
      obtain ⟨more, hmore⟩ := hpre
      refine hreal e.runs p r ?_ hr
      rw [← hmore, h.runs]
      simp [pop]
    split at hl
    · cases hl
    · rename_i ha
      cases hl
      have := (h.attempt hdet hp (hpass ha ⟨[], List.append_nil _⟩) ha hc).1
      cases this
    · rename_i e₁ ha
      obtain ⟨hex, hc₁⟩ := loop_mono hl
      obtain ⟨-, h₁⟩ := h.attempt hdet hp (hpass ha hex) ha (hc₁ hc)
      exact ih h₁ hl

end Explorer

/-- **A complete exploration is exhaustive and visits nothing twice.** The prefixes it took are
the nodes of the tree of enabled choices; it counted the leaves and met no bound. -/
theorem explore_complete {factory late₁ late₂ : Bool} {maxRuns : Nat} {result : Exploration}
    (hdet : Deterministic lib M policy)
    (h : explore lib factory maxRuns policy world late₁ late₂ = .ok result)
    (hreal : Faithful lib M policy world result.executed)
    (hc : result.evidence.field? "complete" = some (.bool true)) :
    result.executed.Nodup ∧ (∀ p, p ∈ result.executed ↔ Node (Offered lib M policy) p) ∧
    result.evidence.field? "runs" = some (.int result.executed.length) ∧
    result.evidence.field? "terminals" = some (.int (Set.ncard {p |
      Node (Offered lib M policy) p ∧ Leaf lib M policy p ∧ Terminal lib M policy p})) ∧
    result.evidence.field? "deadlocks" = some (.int (Set.ncard {p |
      Node (Offered lib M policy) p ∧ Leaf lib M policy p ∧ Deadlocked lib M policy p})) ∧
    result.evidence.field? "stopReason" = some (.str "") ∧
    result.evidence.field? "evidenceComplete" = some (.bool true) ∧
    result.evidence.field? "budgetExceeded" = some (.obj [("total", .bool false)]) := by
  classical
  simp only [explore] at h
  split at h
  · cases h
  split at h
  · cases h
  split at h
  · cases h
  split at h
  · cases h
  rename_i e hl
  have hcomplete : ∀ e : Explorer, e.evidence.field? "complete" = some (.bool true) →
      e.complete = true ∧ e.prefixes = [] := by
    intro e he
    have := Json.bool.inj (Option.some.inj he)
    simpa using this
  have hlast : (e.expired late₁).expired late₂ = e ∧ e.complete = true := by
    have hc' := (hcomplete _ (by rw [← Except.ok.inj h] at hc; exact hc)).1
    have h₂ := Explorer.expired_complete hc'
    subst h₂
    have h₁ := Explorer.expired_complete (e := e) hc'
    subst h₁
    exact ⟨rfl, hc'⟩
  rw [hlast.1] at h
  obtain rfl := Except.ok.inj h
  obtain ⟨hs, hnil⟩ := Explorer.Sound.init.loop hdet hl hlast.2 hreal
  have hfr := hs.frontier
  rw [hnil] at hfr
  obtain ⟨hnd, hmem⟩ := hfr.complete
  have hleaf : ∀ P : List String → Prop, (∀ p, P p → Leaf lib M policy p) →
      {p | Node (Offered lib M policy) p ∧ Leaf lib M policy p ∧ P p} =
        {p | Node (Offered lib M policy) p ∧ P p} := fun P hP => by
    ext p
    exact ⟨fun h => ⟨h.1, h.2.2⟩, fun h => ⟨h.1, hP p h.2, h.2⟩⟩
  refine ⟨hnd, hmem, ?_, ?_, ?_, ?_, ?_, ?_⟩
  · rw [← hs.runs]; rfl
  · rw [hleaf _ fun _ => hdet.leaf_of_terminal, hfr.ncard, ← hs.terminals]; rfl
  · rw [hleaf _ fun _ => hdet.leaf_of_deadlocked, hfr.ncard, ← hs.deadlocks]; rfl
  · rw [← hs.stopReason]; rfl
  · rw [← hs.evidenceComplete]; rfl
  · rw [← hs.totalBudgetExceeded]; rfl

end

/-! ## Two actors -/

namespace Pair

open Sys

/-- Both workers receive from an empty queue: a branching tree, its leaves deadlocks. -/
def app : App Unit Unit where
  next _ r _ _ := (match r with
    | .value _ => .receive "q"
    | _ => .throw_, (), ())
  observe _ := (some (.obj []), ())

def adapter : Adapter where
  identity := ⟨zeros, zeros, zeros⟩
  actors := ["a", "b"]
  resources := [⟨"q", .queue, 1⟩]
  factory := .returns ⟨[("a", true), ("b", true)], true, true⟩

abbrev Own := (Nat → Unit) × Unit

def maker : Maker Own := App.maker app adapter (fun _ => (), ())

/-- The sections of its runs. -/
def ok (k : Sys × Own) : Choice → Bool
  | .observed (some (.obj [])) false false false =>
    (retain Compact.lib k.1.state (some (.obj [])) false false false).isSome
  | .user i c =>
    match k.1.pc i with
    | .user r => decide (c = (app.next i r () ()).1)
    | _ => false
  | .observed _ _ _ _ => false
  | c => c.prompt && !c.call

theorem of_ok {k : Sys × Own} {c : Choice} (h : ok k c = true) :
    maker.plays k.2 k.1 c ∧ c.call = false ∧ Returns Compact.lib k.1 c := by
  unfold ok at h
  split at h
  · refine ⟨⟨rfl, rfl⟩, rfl, ?_⟩
    rintro v l₁ l₂ l₃ ⟨rfl, rfl, rfl, rfl⟩ hn
    rw [hn] at h; cases h
  · split at h
    · rename_i r hr
      exact ⟨⟨rfl, r, hr, of_decide_eq_true h⟩, rfl, nofun⟩
    · cases h
  · cases h
  · rename_i huser hobs
    simp only [Bool.and_eq_true, Bool.not_eq_true'] at h
    refine ⟨⟨h.1, ?_⟩, h.2, fun v l₁ l₂ l₃ e => absurd e (hobs v l₁ l₂ l₃)⟩
    cases c with
    | user i call => exact absurd rfl (huser i call)
    | observed v l₁ l₂ l₃ => exact absurd rfl (hobs v l₁ l₂ l₃)
    | _ => trivial

def start : Sys × Own := (construct adapter {} false false, (fun _ => (), ()))

/-- Sections until the client holds control. -/
def settle (cs : List Choice) (k : Sys × Own) : Option (Sys × Own) :=
  ((maker.lts Compact.lib).exec (fun k c => ok k c && !c.ends) cs k).filter fun m => m.1.ctl = .idle

def call (c : Choice) (k : Sys × Own) : Option (Sys × Own) :=
  if c.prompt then (maker.lts Compact.lib).step k c else none

def observe : List Choice := [.observe false, .observed (some (.obj [])) false false false]

def opening : List Choice :=
  [.spawn true, .spawn true, .register 0, .request 0, .register 1, .request 1,
    .barrier false false] ++ observe

/-- The first turn of an actor; it has no other. -/
def turn (actor : String) : List Choice :=
  let i := adapter.actors.idxOf actor
  [.wake i, .user i (.receive "q"), .request i, .granted false false false] ++ observe

def drive : List String → Sys × Own → Option (Sys × Own)
  | [], k => some k
  | actor :: p, k =>
    if k.1.state.report.outcome = .completed then
      (call (.advance actor false) k).bind fun m => (settle (turn actor) m).bind (drive p)
    else none

/-- A worker leaves its request, from the user's function if that has begun. -/
def leave (begun : Bool) (i : Nat) : List Choice :=
  (if begun then [.wake i, .user i .throw_] else [.wake i]) ++ [.caught i, .close i]

def closing (p : List String) : List Choice :=
  leave (p.contains "a") 0 ++ leave (p.contains "b") 1 ++
    [.cleanupWake false false, .cleanupJoined false false, .cleanupJoined false false,
      .cleanupTorn false false]

/-- The attempt at a prefix. -/
def attempt (p : List String) : Option Ran :=
  (settle opening start).bind fun k₁ => (drive p k₁).bind fun k₂ =>
  (call (.enabled false) k₂).bind fun k₄ => (call (.cleanup false) k₄).bind fun k₇ =>
  (((maker.lts Compact.lib).exec ok (closing p) k₇).filter fun m => m.1.ctl = .idle).map fun k₈ =>
  ⟨false, (queryEnabled k₂.1.state false).1, k₄.1.state.report, k₈.1.state.report,
    k₈.1.state.receipt adapter.identity "", false⟩

theorem of_settle {cs : List Choice} {k m : Sys × Own} (h : settle cs k = some m) :
    Settles Compact.lib maker k m := by
  obtain ⟨h, hi⟩ := Option.filter_eq_some_iff.mp h
  refine ⟨.exec (fun k c hc => ?_) h, by simpa using hi⟩
  simp only [Bool.and_eq_true, Bool.not_eq_true'] at hc
  obtain ⟨hp, hcall, hr⟩ := of_ok hc.1
  exact ⟨hp, hcall, hc.2, hr⟩

theorem of_call {c : Choice} {k m : Sys × Own} (hc : app.plays k.2 k.1 c) (h : call c k = some m) :
    Calls Compact.lib maker k c m := by
  simp only [call, Option.ite_none_right_eq_some] at h
  exact ⟨⟨h.1, hc⟩, h.2⟩

theorem of_drive {p : List String} {k m : Sys × Own} (hi : k.1.ctl = .idle)
    (h : drive p k = some m) : Driven Compact.lib maker false k p m ∧ m.1.ctl = .idle := by
  induction p generalizing k with
  | nil => cases h; exact ⟨.done, hi⟩
  | cons actor p ih =>
    simp only [drive, Option.ite_none_right_eq_some] at h
    obtain ⟨ho, h⟩ := h
    obtain ⟨m₁, hm₁, h⟩ := Option.bind_eq_some_iff.mp h
    obtain ⟨m₂, hm₂, h⟩ := Option.bind_eq_some_iff.mp h
    obtain ⟨hd, hi'⟩ := ih (of_settle hm₂).2 h
    exact ⟨.next ho ⟨.refl, hi⟩ (of_call trivial hm₁) (of_settle hm₂) hd, hi'⟩

theorem attempted {p : List String} {r : Ran} (h : attempt p = some r) :
    Attempted Compact.lib maker {} p r := by
  obtain ⟨k₁, h₁, h⟩ := Option.bind_eq_some_iff.mp h
  obtain ⟨k₂, h₂, h⟩ := Option.bind_eq_some_iff.mp h
  obtain ⟨k₄, h₄, h⟩ := Option.bind_eq_some_iff.mp h
  obtain ⟨k₇, h₇, h⟩ := Option.bind_eq_some_iff.mp h
  obtain ⟨k₈, h₈, rfl⟩ := Option.map_eq_some_iff.mp h
  obtain ⟨h₈, hi₈⟩ := Option.filter_eq_some_iff.mp h₈
  have hs₁ := of_settle h₁
  obtain ⟨hd, hi₂⟩ := of_drive hs₁.2 h₂
  have hc₄ := of_call (c := .enabled false) trivial h₄
  have hi₄ : k₄.1.ctl = .idle := by
    have := step_of_step hc₄.2
    simp only [step, Option.ite_none_right_eq_some, Option.some.injEq] at this
    rw [← this.2]; exact this.1
  exact .mk (a := adapter) ⟨rfl, rfl⟩ hs₁ hd ⟨.refl, hi₂⟩ hc₄ ⟨.refl, hi₄⟩ ⟨.refl, hi₄⟩
    (of_call (c := .cleanup false) trivial h₇)
    (.exec (fun k c hc => ⟨(of_ok hc).1, (of_ok hc).2.1⟩) h₈) (by simpa using hi₈)

/-- The nodes of its tree, in the order of their visits. -/
def visited : List (List String) := [[], ["a"], ["a", "b"], ["b"], ["b", "a"]]

def world (n : Nat) : Pass := ⟨false, (visited[n]?.bind attempt).elim .threw .ran⟩

def explored : Option (List (List String) × Bool) :=
  (explore Compact.lib true 16 {} world false false).toOption.map fun r =>
    (r.executed, match r.evidence.field? "complete" with
      | some (.bool b) => b
      | _ => false)

theorem explored_eq : explored = some (visited, true) := by decide +kernel

theorem faithful : Faithful Compact.lib maker {} world visited := by
  intro n p r hp hr
  simp only [world, hp, Option.bind_some] at hr
  cases ha : attempt p with
  | some r' => rw [ha] at hr; cases hr; exact attempted ha
  | none => rw [ha] at hr; cases hr

theorem explore_complete_pair : (∀ p, p ∈ visited ↔ Node (Offered Compact.lib maker {}) p) ∧
    ∃ result, explore Compact.lib true 16 {} world false false = .ok result ∧
      result.evidence.field? "terminals" = some (.int (Set.ncard {p |
        Node (Offered Compact.lib maker {}) p ∧ Leaf Compact.lib maker {} p ∧
          Terminal Compact.lib maker {} p})) ∧
      result.evidence.field? "deadlocks" = some (.int (Set.ncard {p |
        Node (Offered Compact.lib maker {}) p ∧ Leaf Compact.lib maker {} p ∧
          Deadlocked Compact.lib maker {} p})) := by
  have h := explored_eq
  unfold explored at h
  generalize hok : explore Compact.lib true 16 {} world false false = outcome at h
  cases outcome with
  | error e => cases h
  | ok result =>
  simp only [Except.toOption, Option.map_some, Option.some.injEq, Prod.mk.injEq] at h
  obtain ⟨hex, hc⟩ := h
  have hc' : result.evidence.field? "complete" = some (.bool true) := by
    split at hc
    · rename_i b h; rw [h, hc]
    · cases hc
  obtain ⟨-, hmem, -, hterm, hdead, -⟩ := explore_complete
    (App.deterministic app adapter _ _ {}) hok (hex ▸ faithful) hc'
  rw [hex] at hmem
  exact ⟨hmem, result, rfl, hterm, hdead⟩

end Pair

end MirrorCpp.Sync
