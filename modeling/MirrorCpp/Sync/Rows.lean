import MirrorCpp.Sync.Explore

/-!
# The rows of an exploration

The evidence is an object around the array of rows: what is written around them is bounded by
`frame` and the counters (`weight`). A row that fits leaves the reserve; the row that takes the
place of one that does not, the reason to stop and what the counters grow stay below it. So the
evidence of every exploration fits, with one row for each attempt.
-/

namespace MirrorCpp.Sync.Explorer

/-! ## The reasons to stop -/

/-- What `expired` says. -/
def lateStops (late : Bool) : List String := if late then ["total_timeout"] else []

def judgeStops (r : Ran) : List String :=
  if r.cleanup.cleanup ≠ .confirmed then ["cleanup_incomplete"]
  else if r.cleanup.executionBudgetExceeded || r.cleanup.cleanupBudgetExceeded then
    ["callback_timeout"]
  else if r.primary.outcome ≠ .completed ∧ r.primary.outcome ≠ .controlledDeadlock then
    ["execution_failed"]
  else []

def rowStops (lib : JsonLib) (policy : Policy) (e : Explorer) (row : Json) (cleanup : Cleanup) :
    List String :=
  match e.retainRow lib policy row cleanup with
  | some (false, _) => ["evidence_exhausted"]
  | _ => []

def countStops (policy : Policy) (p : List String) (r : Ran) : List String :=
  if r.primary.outcome = .controlledDeadlock then []
  else if r.primary.finished then []
  else if policy.maxDecisions ≤ p.length then ["decision_bound"]
  else []

/-- The reasons an attempt gives to `stop`, in order. -/
def attemptStops (lib : JsonLib) (policy : Policy) (e : Explorer) (p : List String) :
    Tried → List String
  | .factoryThrew late =>
    let e := (e.stop "factory_failed").expired late
    "factory_failed" :: lateStops late ++
      e.rowStops lib policy (e.factoryRow p "adapter factory threw") .notStarted
  | .factoryLate =>
    let e := e.expired true
    lateStops true ++
      e.rowStops lib policy (e.factoryRow p "total deadline during adapter factory") .notStarted
  | .threw => []
  | .ran r =>
    let e := (e.expired r.late).judge r
    lateStops r.late ++ judgeStops r ++ e.rowStops lib policy (e.runRow p r) r.cleanup.cleanup ++
      match e.retainRow lib policy (e.runRow p r) r.cleanup.cleanup with
      | none => []
      | some (retained, e) =>
        lateStops r.lateRow ++
          if !(e.expired r.lateRow).complete || !retained then [] else countStops policy p r

/-- The reasons given in the loop. -/
def loopStops (lib : JsonLib) (policy : Policy) (world : Nat → Pass) :
    (left : Nat) → Explorer → List String
  | left, e =>
    match e.prefixes with
    | [] => []
    | p :: rest =>
      let late := (world e.runs).late
      if late then lateStops late
      else match left with
        | 0 => ["run_bound"]
        | left + 1 =>
          if 4096 < e.prefixes.length then ["prefix_bound"]
          else
            let tried := (world e.runs).tried
            (e.pop p rest).attemptStops lib policy p tried ++
              match (e.pop p rest).attempt lib policy p tried with
              | some (true, e) => loopStops lib policy world left e
              | _ => []

/-- The reasons given in an exploration. -/
def stops (lib : JsonLib) (maxRuns : Nat) (policy : Policy) (world : Nat → Pass)
    (late₁ late₂ : Bool) : List String :=
  loopStops lib policy world maxRuns {} ++ lateStops late₁ ++ lateStops late₂

/-- Reasons were given on the way, the first of them is recorded unless one was before. -/
structure Says (e : Explorer) (reasons : List String) (e' : Explorer) : Prop where
  named : ∀ r ∈ reasons, r ≠ ""
  first : e'.stopReason = if e.stopReason = "" then reasons.headD "" else e.stopReason

variable {lib : JsonLib} {policy : Policy} {e e' e₁ : Explorer} {rs rs' : List String}
  {p : List String} {rest : List (List String)} {r : Ran} {b : Bool} {world : Nat → Pass}

theorem Says.refl (h : e'.stopReason = e.stopReason) : Says e [] e' where
  named := nofun
  first := by rw [h]; split <;> simp_all

theorem Says.trans (h : Says e rs e₁) (h' : Says e₁ rs' e') : Says e (rs ++ rs') e' where
  named r hr := by
    rcases List.mem_append.mp hr with hr | hr
    · exact h.named r hr
    · exact h'.named r hr
  first := by
    rw [h'.first, h.first]
    cases rs with
    | nil => split <;> simp_all
    | cons r rs =>
      have hr := h.named r List.mem_cons_self
      split <;> simp_all

theorem Says.stop (e : Explorer) {reason : String} (h : reason ≠ "") :
    Says e [reason] (e.stop reason) where
  named r hr := by rw [List.mem_singleton.mp hr]; exact h
  first := by simp [Explorer.stop, String.isEmpty_iff]

theorem Says.expired (e : Explorer) (late : Bool) : Says e (lateStops late) (e.expired late) := by
  cases late
  · exact .refl rfl
  · have h : "total_timeout" ≠ "" := by decide
    have hs := Says.stop { e with totalBudgetExceeded := true } h
    exact ⟨hs.named, hs.first⟩

theorem Says.judge (e : Explorer) (r : Ran) : Says e (judgeStops r) (e.judge r) := by
  unfold judgeStops Explorer.judge
  split
  · exact .stop e (by decide)
  split
  · exact .stop e (by decide)
  split
  · exact .stop e (by decide)
  · exact .refl rfl

theorem Says.retainRow {row : Json} {cleanup : Cleanup}
    (h : e.retainRow lib policy row cleanup = some (b, e')) :
    Says e (e.rowStops lib policy row cleanup) e' := by
  unfold rowStops
  rw [h]
  obtain ⟨size, -, h⟩ := Option.map_eq_some_iff.mp h
  split at h
  · cases h
    exact .refl rfl
  · cases h
    have h : "evidence_exhausted" ≠ "" := by decide
    have hs := Says.stop { e with evidenceComplete := false } h
    exact ⟨hs.named, hs.first⟩

theorem Says.count (h : e.count policy p r = (b, e')) : Says e (countStops policy p r) e' := by
  unfold Explorer.count at h
  unfold countStops
  by_cases hd : r.primary.outcome = .controlledDeadlock
  · rw [if_pos hd] at h ⊢
    cases h
    exact .refl rfl
  rw [if_neg hd] at h ⊢
  by_cases hf : r.primary.finished = true
  · rw [if_pos hf] at h ⊢
    cases h
    exact .refl rfl
  rw [if_neg hf] at h ⊢
  by_cases hm : policy.maxDecisions ≤ p.length
  · rw [if_pos hm] at h ⊢
    cases h
    exact .stop e (by decide)
  · rw [if_neg hm] at h ⊢
    cases h
    exact .refl rfl

theorem Says.attempt {t : Tried} (h : e.attempt lib policy p t = some (b, e')) :
    Says e (e.attemptStops lib policy p t) e' := by
  cases t with
  | factoryThrew late =>
    obtain ⟨⟨b', e₁⟩, hrow, h⟩ := Option.map_eq_some_iff.mp h
    cases h
    have hstop : Says e ["factory_failed"] (e.stop "factory_failed") := .stop e (by decide)
    exact (hstop.trans (.expired _ late)).trans (.retainRow hrow)
  | factoryLate =>
    obtain ⟨⟨b', e₁⟩, hrow, h⟩ := Option.map_eq_some_iff.mp h
    cases h
    exact (Says.expired e true).trans (.retainRow hrow)
  | threw => cases h
  | ran r =>
    obtain ⟨⟨retained, e₁⟩, hrow, h⟩ := Option.map_eq_some_iff.mp h
    have hbefore := ((Says.expired e r.late).trans (.judge _ r)).trans (.retainRow hrow)
    simp only [attemptStops, hrow]
    refine hbefore.trans ((Says.expired e₁ r.lateRow).trans ?_)
    dsimp only at h
    generalize he₂ : (if r.cleanup.cleanup = .incomplete then
        { e₁.expired r.lateRow with retained := (e₁.expired r.lateRow).retained ++
          [(e₁.expired r.lateRow).runs - 1] } else e₁.expired r.lateRow) = e₂ at h
    have hsame : e₂.stopReason = (e₁.expired r.lateRow).stopReason ∧
        e₂.complete = (e₁.expired r.lateRow).complete := by
      rw [← he₂]
      split <;> exact ⟨rfl, rfl⟩
    rw [hsame.2] at h
    split at h
    · rename_i hend
      rw [if_pos hend]
      cases h
      exact .refl hsame.1
    · rename_i hend
      rw [if_neg hend]
      exact (Says.refl hsame.1).trans (.count h)

/-- The reason the loop ends with is the first one given. -/
theorem Says.loop {n : Nat} (h : loop lib policy world n e = some e') :
    Says e (loopStops lib policy world n e) e' := by
  induction n generalizing e with
  | zero =>
    cases hp : e.prefixes with
    | nil =>
      unfold Explorer.loop at h
      unfold loopStops
      rw [hp] at h ⊢
      cases h
      exact .refl rfl
    | cons p rest =>
      unfold Explorer.loop at h
      unfold loopStops
      rw [hp] at h ⊢
      dsimp only at h ⊢
      by_cases hl : (world e.runs).late = true
      · rw [if_pos hl] at h ⊢
        cases h
        exact .expired e _
      · rw [if_neg hl] at h ⊢
        cases h
        exact .stop e (by decide)
  | succ n ih =>
    cases hp : e.prefixes with
    | nil =>
      unfold Explorer.loop at h
      unfold loopStops
      rw [hp] at h ⊢
      cases h
      exact .refl rfl
    | cons p rest =>
      unfold Explorer.loop at h
      unfold loopStops
      rw [hp] at h ⊢
      dsimp only at h ⊢
      by_cases hl : (world e.runs).late = true
      · rw [if_pos hl] at h ⊢
        cases h
        exact .expired e _
      rw [if_neg hl] at h ⊢
      by_cases hb : 4096 < (p :: rest).length
      · rw [if_pos hb] at h ⊢
        cases h
        exact .stop e (by decide)
      rw [if_neg hb] at h ⊢
      have hpop : Says e [] (e.pop p rest) := .refl rfl
      cases ha : (e.pop p rest).attempt lib policy p (world e.runs).tried with
      | none =>
        rw [ha] at h
        cases h
      | some t =>
        rw [ha] at h
        obtain ⟨goes, e₁⟩ := t
        cases goes with
        | false =>
          cases h
          exact hpop.trans ((Says.attempt ha).trans (.refl rfl))
        | true => exact hpop.trans ((Says.attempt ha).trans (ih h))

/-! ## Sizes -/

/-- What the evidence prints apart from its flags, its counters, its rows and the text of the
reason. -/
def frame (lib : JsonLib) : Nat :=
  15 + (["budgetExceeded", "complete", "coverage", "deadlocks", "evidenceComplete",
      "modelComparison", "profile", "rows", "runs", "schema", "stopReason", "terminals"].map
        fun k => lib.len (.str k) + 1).sum +
    (lib.len (.str "total") + 3) + lib.len (.str "finite-enabled-prefix-tree") +
    lib.len (.bool false) + lib.len (.str profile) +
    lib.len (.str "mirrors.controlled-sync-exploration/v1")

/-- What grows: the rows and the counters. -/
def weight (lib : JsonLib) (e : Explorer) : Nat :=
  lib.len (.arr e.rows) + lib.len (.int e.runs) + lib.len (.int e.terminals) +
    lib.len (.int e.deadlocks)

def flags (lib : JsonLib) (e : Explorer) : Nat :=
  lib.len (.bool e.totalBudgetExceeded) + lib.len (.bool (e.complete && e.prefixes.isEmpty)) +
    lib.len (.bool e.evidenceComplete)

theorem utf8_evidence (h : Json.utf8Elems e.rows = true) (hs : Text.plain e.stopReason = true) :
    e.evidence.utf8 = true := by
  have hk : ["budgetExceeded", "complete", "coverage", "deadlocks", "evidenceComplete",
    "modelComparison", "profile", "rows", "runs", "schema", "stopReason", "terminals", "total",
    "finite-enabled-prefix-tree", profile, "mirrors.controlled-sync-exploration/v1"].all
    Text.utf8 = true := by decide
  have hr := Text.utf8_of_ascii (Text.ascii_of_plain hs)
  simp only [List.all_cons, List.all_nil, Bool.and_eq_true, and_true] at hk
  simp [evidence, Json.utf8Members, hk, h, hr]

theorem rows_of_evidence (h : e.evidence.utf8 = true) : Json.utf8Elems e.rows = true := by
  simp only [evidence, Json.utf8_obj, Json.utf8Members_iff] at h
  simpa using (h ("rows", .arr e.rows) (by simp)).2

theorem len_evidence (hlib : lib.PrintsPlainly) (h : e.evidence.utf8 = true)
    (hs : Text.plain e.stopReason = true) :
    lib.len e.evidence = frame lib + flags lib e + weight lib e + e.stopReason.length := by
  have htotal : Json.utf8Members [("total", .bool e.totalBudgetExceeded)] = true := by
    simp [Json.utf8Members, show Text.utf8 "total" = true by decide]
  have hreason := hlib.len_str hs
  rw [evidence, Json.utf8_obj] at h
  rw [evidence, lib.len_obj h]
  simp only [List.map_cons, List.map_nil, List.sum_cons, List.sum_nil, List.length_cons,
    List.length_nil, lib.len_obj htotal, frame, flags, weight]
  omega

theorem flags_bounds (hlib : lib.PrintsPlainly) (e : Explorer) :
    12 ≤ flags lib e ∧ flags lib e ≤ 15 := by
  have h1 := hlib.len_bool e.totalBudgetExceeded
  have h2 := hlib.len_bool (e.complete && e.prefixes.isEmpty)
  have h3 := hlib.len_bool e.evidenceComplete
  unfold flags
  omega

/-- The row in place of one that does not fit. -/
def omission (ordinal : Int) (cleanup : Cleanup) : Json :=
  .obj [("cleanup", .str cleanup.name), ("evidenceError", .str "receipt_byte_bound_exceeded"),
    ("ordinal", .int ordinal)]

theorem utf8_omission (ordinal : Int) (cleanup : Cleanup) :
    (omission ordinal cleanup).utf8 = true := by
  have hk : ["cleanup", "evidenceError", "ordinal", "receipt_byte_bound_exceeded"].all Text.utf8 =
    true := by decide
  have hc : Text.utf8 cleanup.name = true := by cases cleanup <;> decide
  simp only [List.all_cons, List.all_nil, Bool.and_eq_true, and_true] at hk
  simp [omission, Json.utf8Members, hk, hc]

theorem len_omission (hlib : lib.PrintsPlainly) {n : Nat} (hn : n < 10000) (cleanup : Cleanup) :
    lib.len (omission n cleanup) ≤ 90 := by
  have hu := utf8_omission n cleanup
  rw [omission, Json.utf8_obj] at hu
  have hname : Text.plain cleanup.name = true ∧ cleanup.name.length ≤ 15 := by
    cases cleanup <;> decide
  have hvalue := hlib.len_str hname.1
  have h1 := hlib.len_str (s := "cleanup") (by decide)
  have h2 := hlib.len_str (s := "evidenceError") (by decide)
  have h3 := hlib.len_str (s := "receipt_byte_bound_exceeded") (by decide)
  have h4 := hlib.len_str (s := "ordinal") (by decide)
  have hlens : "cleanup".length = 7 ∧ "evidenceError".length = 13 ∧
    "receipt_byte_bound_exceeded".length = 27 ∧ "ordinal".length = 7 := by decide
  have hdigits : lib.len (.int n) ≤ 4 := by
    rw [hlib.len_nat, Nat.length_repr_le_iff (by decide)]
    exact hn
  rw [omission, lib.len_obj hu]
  simp only [List.map_cons, List.map_nil, List.sum_cons, List.sum_nil, List.length_cons,
    List.length_nil]
  omega

/-! ## The ledger -/

/-- All attempts but the last `owed` have a row, and `spare` bytes are left. -/
structure Ledger (lib : JsonLib) (policy : Policy) (owed spare : Nat) (e : Explorer) : Prop where
  prints : Json.utf8Elems e.rows = true
  length : e.rows.length + owed = e.runs
  ordinals : ∀ (i : Nat) (row : Json), e.rows[i]? = some row → row.field? "ordinal" = some (.int i)
  executed : e.executed.length = e.runs
  runs : e.runs ≤ 4096
  plain : Text.plain e.stopReason = true
  short : e.stopReason.length ≤ 18
  room : frame lib + weight lib e + spare ≤ policy.maxEvidenceBytes

namespace Ledger

variable {owed spare less : Nat}

theorem weaken (h : Ledger lib policy owed spare e) (hl : less ≤ spare) :
    Ledger lib policy owed less e where
  prints := h.prints
  length := h.length
  ordinals := h.ordinals
  executed := h.executed
  runs := h.runs
  plain := h.plain
  short := h.short
  room := by have := h.room; omega

/-- Only the flags, the stack and the retained executions differ. -/
theorem congr (h : Ledger lib policy owed spare e) (hrows : e'.rows = e.rows)
    (hruns : e'.runs = e.runs) (hex : e'.executed = e.executed) (hr : e'.stopReason = e.stopReason)
    (hw : weight lib e' = weight lib e) : Ledger lib policy owed spare e' where
  prints := hrows ▸ h.prints
  length := by rw [hrows, hruns]; exact h.length
  ordinals := hrows ▸ h.ordinals
  executed := by rw [hex, hruns]; exact h.executed
  runs := hruns ▸ h.runs
  plain := hr ▸ h.plain
  short := hr ▸ h.short
  room := by rw [hw]; exact h.room

theorem stop (h : Ledger lib policy owed spare e) {reason : String}
    (hp : Text.plain reason = true) (hl : reason.length ≤ 18) :
    Ledger lib policy owed spare (e.stop reason) where
  prints := h.prints
  length := h.length
  ordinals := h.ordinals
  executed := h.executed
  runs := h.runs
  plain := by
    simp only [Explorer.stop]
    split
    · exact hp
    · exact h.plain
  short := by
    simp only [Explorer.stop]
    split
    · exact hl
    · exact h.short
  room := h.room

theorem expired (h : Ledger lib policy owed spare e) (late : Bool) :
    Ledger lib policy owed spare (e.expired late) := by
  cases late
  · exact h
  · have hflag : Ledger lib policy owed spare { e with totalBudgetExceeded := true } :=
      h.congr rfl rfl rfl rfl rfl
    exact hflag.stop (by decide) (by decide)

theorem judge (h : Ledger lib policy owed spare e) (r : Ran) :
    Ledger lib policy owed spare (e.judge r) := by
  unfold Explorer.judge
  split
  · exact h.stop (by decide) (by decide)
  split
  · exact h.stop (by decide) (by decide)
  split
  · exact h.stop (by decide) (by decide)
  · exact h

theorem pop (hlib : lib.PrintsPlainly) (h : Ledger lib policy 0 (spare + 1) e)
    (hr : e.runs < 4096) : Ledger lib policy 1 spare (e.pop p rest) where
  prints := h.prints
  length := congrArg (· + 1) h.length
  ordinals := h.ordinals
  executed := by
    have := h.executed
    simpa [Explorer.pop] using this
  runs := hr
  plain := h.plain
  short := h.short
  room := by
    have hroom := h.room
    have hsucc := hlib.len_succ e.runs
    have hw : weight lib (e.pop p rest) =
        lib.len (.arr e.rows) + lib.len (.int (e.runs + 1 : Nat)) + lib.len (.int e.terminals) +
          lib.len (.int e.deadlocks) := rfl
    rw [hw]
    unfold weight at hroom
    omega

/-- A row is added, and pays for the attempt. -/
theorem push (h : Ledger lib policy 1 spare e) {row : Json} (hu : row.utf8 = true)
    (ho : row.field? "ordinal" = some (.int (e.runs - 1)))
    (hroom : frame lib + weight lib { e with rows := e.rows ++ [row] } + less ≤
      policy.maxEvidenceBytes) : Ledger lib policy 0 less { e with rows := e.rows ++ [row] } where
  prints := by simp [Json.utf8Elems_append, h.prints, Json.utf8Elems, hu]
  length := by
    have := h.length
    simpa using this
  ordinals i r hi := by
    rcases Nat.lt_or_ge i e.rows.length with hlt | hge
    · rw [List.getElem?_append_left hlt] at hi
      exact h.ordinals i r hi
    · -- the new row comes last
      rw [List.getElem?_append_right hge] at hi
      have hlen := h.length
      obtain ⟨hz, rfl⟩ : i - e.rows.length = 0 ∧ row = r := by
        cases hk : i - e.rows.length with
        | zero => rw [hk] at hi; exact ⟨rfl, by simpa using hi⟩
        | succ k => rw [hk] at hi; simp at hi
      have hcast : ((e.runs : Int) - 1) = (i : Int) := by omega
      rw [ho, hcast]
  executed := h.executed
  runs := h.runs
  plain := h.plain
  short := h.short
  room := hroom

theorem weight_push (h : Json.utf8Elems e.rows = true) {row : Json} (hu : row.utf8 = true) :
    weight lib { e with rows := e.rows ++ [row] } ≤ weight lib e + lib.len row + 1 := by
  have hall : Json.utf8Elems (e.rows ++ [row]) = true := by
    simp [Json.utf8Elems_append, h, Json.utf8Elems, hu]
  have happ := lib.len_append hall
  unfold weight
  dsimp only
  rw [happ]
  split <;> omega

/-- The row is retained with the reserve left, or the omission takes its place within it. -/
theorem retainRow (hlib : lib.PrintsPlainly) (h : Ledger lib policy 1 266 e) {row : Json}
    {cleanup : Cleanup} (ho : row.field? "ordinal" = some (.int (e.runs - 1)))
    (hr : e.retainRow lib policy row cleanup = some (b, e')) :
    Ledger lib policy 0 175 e' ∧ (b = true → Ledger lib policy 0 268 e') := by
  obtain ⟨size, hsize, hr⟩ := Option.map_eq_some_iff.mp hr
  split at hr
  · rename_i hfits
    cases hr
    have hu : ({ e with rows := e.rows ++ [row] } : Explorer).evidence.utf8 = true := by
      by_contra hn
      rw [lib.dumpSize_eq_none.mpr (by simpa using hn)] at hsize
      cases hsize
    rw [lib.dumpSize_eq_some hu, Option.some.injEq, len_evidence hlib hu h.plain] at hsize
    have hflags := (flags_bounds hlib { e with rows := e.rows ++ [row] }).1
    have hrow : row.utf8 = true := Json.utf8Elems_iff.mp (rows_of_evidence hu) row (by simp)
    have hl : Ledger lib policy 0 268 { e with rows := e.rows ++ [row] } := by
      refine h.push hrow ho ?_
      unfold failureReserve at hfits
      omega
    exact ⟨hl.weaken (by decide), fun _ => hl⟩
  · cases hr
    have hflag : Ledger lib policy 1 266 { e with evidenceComplete := false } :=
      h.congr rfl rfl rfl rfl rfl
    have hstop : Ledger lib policy 1 266 (Explorer.stop _ "evidence_exhausted") :=
      hflag.stop (by decide) (by decide)
    refine ⟨hstop.push (utf8_omission _ cleanup) rfl ?_, nofun⟩
    have hw := @weight_push lib _ hstop.prints _ (utf8_omission (e.runs - 1) cleanup)
    have hcast : ((e.runs : Int) - 1) = ((e.runs - 1 : Nat) : Int) := by
      have := h.length
      omega
    have hlen : lib.len (omission (e.runs - 1) cleanup) ≤ 90 := by
      rw [hcast]
      exact len_omission hlib (by have := h.runs; omega) cleanup
    have hroom := hstop.room
    refine (Nat.add_le_add_right (Nat.add_le_add_left hw _) _).trans ?_
    omega

theorem count (hlib : lib.PrintsPlainly) (h : Ledger lib policy 0 (spare + 1) e)
    (hc : e.count policy p r = (b, e')) : Ledger lib policy 0 spare e' := by
  have hroom := h.room
  have hweak : Ledger lib policy 0 spare e := h.weaken (Nat.le_succ spare)
  unfold Explorer.count at hc
  split at hc
  · cases hc
    have hsucc := hlib.len_succ e.deadlocks
    refine ⟨h.prints, h.length, h.ordinals, h.executed, h.runs, h.plain, h.short, ?_⟩
    change frame lib + (lib.len (.arr e.rows) + lib.len (.int e.runs) +
      lib.len (.int e.terminals) + lib.len (.int (e.deadlocks + 1 : Nat))) + spare ≤ _
    unfold weight at hroom
    omega
  split at hc
  · cases hc
    have hsucc := hlib.len_succ e.terminals
    refine ⟨h.prints, h.length, h.ordinals, h.executed, h.runs, h.plain, h.short, ?_⟩
    change frame lib + (lib.len (.arr e.rows) + lib.len (.int e.runs) +
      lib.len (.int (e.terminals + 1 : Nat)) + lib.len (.int e.deadlocks)) + spare ≤ _
    unfold weight at hroom
    omega
  split at hc
  · cases hc
    exact hweak.stop (by decide) (by decide)
  · cases hc
    exact hweak.congr rfl rfl rfl rfl rfl

theorem attempt (hlib : lib.PrintsPlainly) {t : Tried} (h : Ledger lib policy 1 266 e)
    (ha : e.attempt lib policy p t = some (b, e')) :
    Ledger lib policy 0 175 e' ∧ (b = true → Ledger lib policy 0 267 e') := by
  cases t with
  | factoryThrew late =>
    obtain ⟨⟨b', e₁⟩, hrow, ha⟩ := Option.map_eq_some_iff.mp ha
    cases ha
    have hstop : Ledger lib policy 1 266 (e.stop "factory_failed") :=
      h.stop (by decide) (by decide)
    exact ⟨((hstop.expired late).retainRow hlib rfl hrow).1, nofun⟩
  | factoryLate =>
    obtain ⟨⟨b', e₁⟩, hrow, ha⟩ := Option.map_eq_some_iff.mp ha
    cases ha
    exact ⟨((h.expired true).retainRow hlib rfl hrow).1, nofun⟩
  | threw => cases ha
  | ran r =>
    obtain ⟨⟨retained, e₁⟩, hrow, ha⟩ := Option.map_eq_some_iff.mp ha
    have hkept := ((h.expired r.late).judge r).retainRow hlib rfl hrow
    dsimp only at ha
    generalize he₂ : (if r.cleanup.cleanup = .incomplete then
        { e₁.expired r.lateRow with retained := (e₁.expired r.lateRow).retained ++
          [(e₁.expired r.lateRow).runs - 1] } else e₁.expired r.lateRow) = e₂ at ha
    have hlast : ∀ {spare : Nat}, Ledger lib policy 0 spare e₁ → Ledger lib policy 0 spare e₂ := by
      intro spare h₁
      have hx := h₁.expired r.lateRow
      rw [← he₂]
      split
      · exact hx.congr rfl rfl rfl rfl rfl
      · exact hx
    split at ha
    · cases ha
      exact ⟨hlast hkept.1, nofun⟩
    · rename_i hgo
      simp only [Bool.or_eq_true, Bool.not_eq_true', not_or, Bool.not_eq_false] at hgo
      have hc := (hlast (hkept.2 hgo.2)).count hlib ha
      exact ⟨hc.weaken (by decide), fun _ => hc⟩

theorem loop (hlib : lib.PrintsPlainly) {n : Nat} (h : Ledger lib policy 0 267 e)
    (hn : e.runs + n ≤ 4096) (hl : loop lib policy world n e = some e') :
    Ledger lib policy 0 175 e' := by
  have hweak : Ledger lib policy 0 175 e := h.weaken (by decide)
  induction n generalizing e with
  | zero =>
    unfold Explorer.loop at hl
    split at hl
    · cases hl
      exact hweak
    dsimp only at hl
    split at hl
    · cases hl
      exact hweak.expired _
    · cases hl
      exact hweak.stop (by decide) (by decide)
  | succ n ih =>
    unfold Explorer.loop at hl
    split at hl
    · cases hl
      exact hweak
    rename_i p rest _
    dsimp only at hl
    split at hl
    · cases hl
      exact hweak.expired _
    split at hl
    · cases hl
      exact hweak.stop (by decide) (by decide)
    have hpop : Ledger lib policy 1 266 (e.pop p rest) := h.pop hlib (by omega)
    split at hl
    · cases hl
    · rename_i ha
      cases hl
      exact (hpop.attempt hlib ha).1
    · rename_i e₁ ha
      have hgo := (hpop.attempt hlib ha).2 rfl
      have hruns : e₁.runs = e.runs + 1 := by
        rw [← hgo.executed, (attempt_mono ha).1, ← h.executed]
        simp [Explorer.pop]
      exact ih hgo (by omega) hl (hgo.weaken (by decide))

theorem init (hlib : lib.PrintsPlainly) {size : Nat}
    (hs : lib.dumpSize ({} : Explorer).evidence = some size)
    (hfits : size + failureReserve ≤ policy.maxEvidenceBytes) : Ledger lib policy 0 267 {} where
  prints := rfl
  length := rfl
  ordinals := nofun
  executed := rfl
  runs := by decide
  plain := by decide
  short := by decide
  room := by
    have hu : ({} : Explorer).evidence.utf8 = true := utf8_evidence rfl (by decide)
    rw [lib.dumpSize_eq_some hu, Option.some.injEq, len_evidence hlib hu (by decide)] at hs
    have hflags := (flags_bounds hlib {}).1
    unfold failureReserve at hfits
    omega

/-- The evidence prints within the budget. -/
theorem evidence (hlib : lib.PrintsPlainly) (h : Ledger lib policy 0 175 e) :
    ∃ t, lib.dump e.evidence = some t ∧ t.length ≤ policy.maxEvidenceBytes := by
  have hu := utf8_evidence h.prints h.plain
  obtain ⟨t, ht⟩ := lib.dump_eq_some hu
  refine ⟨t, ht, ?_⟩
  have hlen : lib.len e.evidence = t.length := by rw [JsonLib.len, ht, Option.getD_some]
  rw [← hlen, len_evidence hlib hu h.plain]
  have hflags := (flags_bounds hlib e).2
  have hroom := h.room
  have hshort := h.short
  omega

end Ledger

end MirrorCpp.Sync.Explorer

namespace MirrorCpp.Sync

variable {lib : JsonLib} {policy : Policy} {world : Nat → Pass} {factory late₁ late₂ : Bool}
  {maxRuns : Nat} {result : Exploration}

/-- **The reserve suffices.** On every return the evidence prints within its budget, with one row
for each attempt, in order, and the first reason to stop that was given. -/
theorem evidence_fits (hlib : lib.PrintsPlainly)
    (h : explore lib factory maxRuns policy world late₁ late₂ = .ok result) :
    (∃ t, lib.dump result.evidence = some t ∧ t.length ≤ policy.maxEvidenceBytes) ∧
    (∃ rows, result.evidence.field? "rows" = some (.arr rows) ∧
      result.evidence.field? "runs" = some (.int rows.length) ∧
      rows.length = result.executed.length ∧
      ∀ (i : Nat) (row : Json), rows[i]? = some row → row.field? "ordinal" = some (.int i)) ∧
    result.evidence.field? "stopReason" =
      some (.str ((Explorer.stops lib maxRuns policy world late₁ late₂).headD "")) := by
  simp only [explore] at h
  split at h
  · cases h
  rename_i hargs
  simp only [Bool.or_eq_true, decide_eq_true_eq, not_or, Nat.not_lt] at hargs
  split at h
  · cases h
  rename_i size hsize
  split at h
  · cases h
  rename_i hfits
  split at h
  · cases h
  rename_i e hl
  obtain rfl := Except.ok.inj h
  have hinit : Explorer.Ledger lib policy 0 267 {} := .init hlib hsize (Nat.not_lt.mp hfits)
  have hruns : ({} : Explorer).runs + maxRuns ≤ 4096 := by
    have := hargs.1.2
    simpa using this
  have hend := ((hinit.loop hlib hruns hl).expired late₁).expired late₂
  have hsays := ((Explorer.Says.loop hl).trans (.expired e late₁)).trans (.expired _ late₂)
  refine ⟨hend.evidence hlib, ⟨_, rfl, ?_, ?_, hend.ordinals⟩, ?_⟩
  · exact congrArg (fun n : Nat => some (Json.int n)) hend.length.symm
  · exact hend.length.trans hend.executed.symm
  · exact congrArg (fun s => some (Json.str s)) hsays.first

theorem evidence_fits_pair : ∃ result,
    explore Compact.lib true 16 {} Pair.world false false = .ok result ∧
      ∃ rows, result.evidence.field? "rows" = some (.arr rows) ∧ rows.length = 5 ∧
        ∀ (i : Nat) (row : Json), rows[i]? = some row → row.field? "ordinal" = some (.int i) := by
  have h := Pair.explored_eq
  unfold Pair.explored at h
  generalize hok : explore Compact.lib true 16 {} Pair.world false false = outcome at h
  cases outcome with
  | error e => cases h
  | ok result =>
    simp only [Except.toOption, Option.map_some, Option.some.injEq, Prod.mk.injEq] at h
    obtain ⟨-, ⟨rows, hrows, -, hlen, hord⟩, -⟩ := evidence_fits Compact.printsPlainly hok
    exact ⟨result, rfl, rows, hrows, by rw [hlen, h.1]; rfl, hord⟩

end MirrorCpp.Sync
