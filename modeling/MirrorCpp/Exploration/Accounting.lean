import MirrorCpp.Exploration.Completeness

/-!
# The account of a campaign

Every attempted run has its row, its place in the categories and in the first failure, whatever
the runner does: as long as the rows print. A row that does not print leaves the campaign, and
nothing of the account with it.
-/

namespace MirrorCpp.Exploration

open Schedule Itf Fallible SortedMap

variable {lib : Libraries} {space : FiniteSpace} {limits : ExplorationLimits} {s : Surroundings}
  {runner : Nat → Schedule → Answer} {readings : Nat → Readings} {all rest : List Candidate}
  {start c c' : Campaign} {candidate : Candidate}

/-! ## Rows that print -/

/-- What a row holds is UTF-8, its schedule apart. -/
def Row.Printable (r : Row) : Prop :=
  (∀ e ∈ r.execution, e.utf8 = true) ∧ (∀ j ∈ r.comparison, j.utf8 = true) ∧
    ∀ t ∈ r.error, Text.utf8 t = true

theorem utf8_optional {key : String} {value : Option Json} {ms : List (String × Json)}
    (hk : Text.utf8 key = true) : Json.utf8Members (optional key value ++ ms) = true ↔
      (∀ j ∈ value, j.utf8 = true) ∧ Json.utf8Members ms = true := by
  cases value with
  | none => simp [optional]
  | some j => simp [optional, Json.utf8Members, hk]

theorem utf8_category (d : Disposition) : Text.utf8 d.name = true := by
  cases d <;> decide

theorem utf8_toJson {r : Row} (h : r.schedule.utf8 = true) :
    r.toJson.utf8 = true ↔ r.Printable := by
  have hkeys : ∀ key ∈ ["category", "comparison", "error", "execution", "inputIndex", "ordinal",
      "schedule"], Text.utf8 key = true := by decide
  simp only [List.forall_mem_cons, List.not_mem_nil, false_implies, implies_true, and_true] at hkeys
  obtain ⟨h1, h2, h3, h4, h5, h6, h7⟩ := hkeys
  have herror : (∀ j ∈ r.error.map Json.str, j.utf8 = true) ↔
      ∀ t ∈ r.error, Text.utf8 t = true := by
    cases r.error <;> simp [Json.utf8]
  unfold Row.toJson Row.Printable
  simp only [Json.utf8, Json.utf8Members, List.append_assoc, List.nil_append,
    List.cons_append, utf8_category, h1, Bool.and_self, Bool.true_and]
  rw [utf8_optional h2, utf8_optional h3, utf8_optional h4, herror]
  simp only [Json.utf8Members, Json.utf8, h, h5, h6, h7, Bool.and_self, and_true]
  constructor
  · rintro ⟨hc, he, hx⟩
    exact ⟨hx, hc, he⟩
  · rintro ⟨hx, hc, he⟩
    exact ⟨hc, he, hx⟩

theorem utf8_encoded {schedule : Schedule} {t : String}
    (h : encodeSchedule lib.toJsonScan schedule = .ok t) : (scheduleJson schedule).utf8 = true := by
  unfold encodeSchedule at h
  obtain ⟨_, -, h⟩ := bind_eq_ok.mp h
  cases hd : lib.dump (scheduleJson schedule) with
  | none =>
    rw [hd] at h
    cases h
  | some t =>
    rw [← lib.dump_isSome, hd]
    rfl

/-- The row of a candidate prints where what it holds is UTF-8. -/
theorem utf8_rowOf (h : Encodes lib candidate.schedule) :
    (rowOf lib space runner c candidate).toJson.utf8 = true ↔
      (rowOf lib space runner c candidate).Printable := by
  obtain ⟨t, -, ht, -⟩ := h
  exact utf8_toJson (utf8_encoded ht)

/-! ## What every run adds to -/

/-- What the runner returned. -/
def Answer.execution : Answer → Option Json
  | .returns sample => some sample.execution
  | .throws _ => none

/-- The row of a candidate, with what the runner returned. -/
def Shows (runner : Nat → Schedule → Answer) (k : Nat) (candidate : Candidate) (run : Run) :
    Prop :=
  run.ordinal = k ∧ ∀ row, run = .full row → row.schedule = scheduleJson candidate.schedule ∧
    row.inputIndex = candidate.inputIndex ∧
    row.execution = (runner k candidate.schedule).execution

/-- The cleanup behind the `k`-th run has been confirmed. -/
def Confirmed (lib : Libraries) (runner : Nat → Schedule → Answer) (all : List Candidate)
    (k : Nat) : Prop :=
  ∃ candidate sample, all[k]? = some candidate ∧ runner k candidate.schedule = .returns sample ∧
    cleanupKnown lib.toJsonLib sample.execution = .ok true

/-- The bytes of the full rows. -/
def fullBytes (lib : Libraries) : List Run → Nat
  | [] => 0
  | .full row :: runs => lib.len row.toJson + fullBytes lib runs
  | .omitted _ _ :: runs => fullBytes lib runs

theorem fullBytes_append (runs runs' : List Run) :
    fullBytes lib (runs ++ runs') = fullBytes lib runs + fullBytes lib runs' := by
  induction runs with
  | nil => simp [fullBytes]
  | cons run runs ih =>
    cases run with
    | full row => rw [List.cons_append, fullBytes, fullBytes, ih, Nat.add_assoc]
    | omitted ordinal category => rw [List.cons_append, fullBytes, fullBytes, ih]

/-- The rows of the runs so far, counted and within their bytes; all but the last are whole, and
behind all but the last the cleanup is known. -/
structure Tallied (lib : Libraries) (limits : ExplorationLimits)
    (runner : Nat → Schedule → Answer) (all : List Candidate) (c : Campaign) : Prop where
  rows : c.runs.length = c.attempted
  shows_ : ∀ k run, c.runs[k]? = some run → ∃ candidate, all[k]? = some candidate ∧
    Shows runner k candidate run
  sorted : Sorted c.categories
  counts : ∀ d : Disposition, counter d.name c.categories = (c.runs.map Run.category).count d
  total : SortedMap.total c.categories = c.attempted
  completed : c.completed = (c.runs.map Run.category).count .passed
  bytes : fullBytes lib c.runs = c.bytes
  fits : c.bytes ≤ limits.maxEvidenceBytes
  firstFailure : c.firstFailure.map (fun f => (f.ordinal, f.category)) =
    (c.runs.find? (·.category ≠ .passed)).map fun run => (run.ordinal, run.category)
  cut : ∀ k ordinal d, c.runs[k]? = some (.omitted ordinal d) → k + 1 = c.attempted
  whole : c.halt = false → ∀ ordinal d, Run.omitted ordinal d ∉ c.runs
  known : ∀ k, k + 1 < c.attempted → Confirmed lib runner all k
  last : c.halt = false → ∀ k, k + 1 = c.attempted → Confirmed lib runner all k

theorem tallied_start {reason : String} :
    Tallied lib limits runner all { stopReason := reason } where
  rows := rfl
  shows_ k run h := by simp at h
  sorted := sorted_nil
  counts _ := rfl
  total := rfl
  completed := rfl
  bytes := rfl
  fits := Nat.zero_le _
  firstFailure := rfl
  cut k ordinal d h := by simp at h
  whole _ ordinal d h := by simp at h
  known k h := by simp at h
  last _ k h := by simp at h

theorem name_injective {d d' : Disposition} (h : d.name = d'.name) : d = d' := by
  cases d <;> cases d' <;> first | rfl | (exact absurd h (by decide))

/-- The row a run leaves, whole or cut. -/
theorem Recorded.run {row : Row} {b : Campaign} (h : Recorded lib limits row b c') :
    ∃ run, c'.runs = b.runs ++ [run] ∧ run.ordinal = row.ordinal ∧ run.category = row.category ∧
      (∀ row', run = .full row' → row' = row) ∧ c'.bytes = b.bytes + fullBytes lib [run] ∧
      (b.bytes ≤ limits.maxEvidenceBytes → c'.bytes ≤ limits.maxEvidenceBytes) ∧
      (c'.halt = false → ∀ ordinal d, run ≠ .omitted ordinal d) := by
  cases h with
  | whole hr hb hf =>
    refine ⟨_, hr, rfl, rfl, fun row' h => (Run.full.inj h).symm, ?_, fun h => ?_, ?_⟩
    · rw [hb, fullBytes, fullBytes, Nat.add_zero]
    · rw [hb]
      omega
    · rintro - ordinal d ⟨⟩
  | cut hr hb hhalt =>
    refine ⟨_, hr, rfl, rfl, ?_, ?_, fun h => hb ▸ h, fun h => ?_⟩
    · rintro row' ⟨⟩
    · rw [hb, fullBytes, fullBytes, Nat.add_zero]
    · rw [hhalt] at h
      cases h

theorem attempt_execution (schedule : Schedule) (printed : Json) (answer : Answer) :
    (attempt lib space schedule printed c answer).execution = answer.execution := by
  cases answer with
  | throws f => rfl
  | returns sample =>
    unfold attempt examine
    dsimp only
    split
    · rfl
    · split
      · rfl
      · split <;> rfl

/-- The first failure, with one more run. -/
theorem first_append {first : Option Finding} {runs : List Run} {run : Run} {k : Nat}
    {d : Disposition} {printed : Json}
    (h : first.map (fun f => (f.ordinal, f.category)) =
      (runs.find? (·.category ≠ .passed)).map fun run => (run.ordinal, run.category))
    (hk : run.ordinal = k) (hd : run.category = d) :
    (if d ≠ .passed ∧ first.isNone = true then some ⟨k, d, printed⟩ else first).map
        (fun f => (f.ordinal, f.category)) =
      ((runs ++ [run]).find? (·.category ≠ .passed)).map fun run =>
        (run.ordinal, run.category) := by
  rw [List.find?_append]
  cases hf : runs.find? (·.category ≠ .passed) with
  | some r =>
    rw [hf] at h
    obtain ⟨f, rfl, -⟩ := Option.map_eq_some_iff.mp h
    rw [if_neg (by simp), h]
    rfl
  | none =>
    rw [hf] at h
    obtain rfl := Option.map_eq_none_iff.mp h
    by_cases hp : d = .passed
    · simp [hp, hd]
    · simp [hp, hk, hd]

/-- One more run. -/
theorem Tallied.step (he : Encodes lib candidate.schedule)
    (h : Tallied lib limits runner all c) (hhalt : c.halt = false)
    (hat : all[c.attempted]? = some candidate)
    (hran : runCandidate lib space limits runner readings c candidate = (c', none)) :
    Tallied lib limits runner all c' := by
  have hcon := (concluded_of_ran he hran).2
  have hkeeps : Keeps { c with attempted := c.attempted + 1 }
      (ran lib space runner c candidate).campaign := keeps_attempt _ _
  have hattempted : c'.attempted = c.attempted + 1 := hcon.attempted.trans hkeeps.attempted
  have hordinal : (ran lib space runner c candidate).campaign.attempted - 1 = c.attempted := by
    rw [hkeeps.attempted]
    rfl
  obtain ⟨run, hruns, hrord, hrcat, hrfull, hbytes, hfits, hwhole⟩ := hcon.recorded.run
  rw [hkeeps.runs] at hruns
  rw [hkeeps.bytes] at hbytes hfits
  have hruns : c'.runs = c.runs ++ [run] := hruns
  have hrord : run.ordinal = c.attempted := hrord.trans hordinal
  have hrcat : run.category = disposition (ran lib space runner c candidate).verdict := hrcat
  have hcategories := hcon.categories
  rw [hkeeps.categories] at hcategories
  have hlast : ∀ {k : Nat} {r : Run}, c'.runs[k]? = some r →
      c.runs[k]? = some r ∨ k = c.attempted ∧ r = run := by
    intro k r hk
    rw [hruns, List.getElem?_append] at hk
    split at hk
    · exact .inl hk
    · rename_i hle
      rw [h.rows] at hk hle
      have hk' := List.getElem?_eq_some_iff.mp hk
      have hone : k - c.attempted < 1 := hk'.1
      have h0 : k - c.attempted = 0 := by omega
      rw [h0] at hk
      exact .inr ⟨by omega, (Option.some.inj hk).symm⟩
  refine ⟨?_, fun k r hk => ?_, ?_, fun d => ?_, ?_, ?_, ?_, hfits h.fits, ?_, fun k o d hk => ?_,
    fun hgoes o d hm => ?_, fun k hk => ?_, fun hgoes k hk => ?_⟩
  · rw [hruns, List.length_append, List.length_singleton, h.rows, hattempted]
  · rcases hlast hk with hk | ⟨rfl, rfl⟩
    · exact h.shows_ k r hk
    · refine ⟨candidate, hat, hrord, fun row hrow => ?_⟩
      obtain rfl := hrfull row hrow
      exact ⟨rfl, rfl, attempt_execution _ _ _⟩
  · rw [hcategories]
    exact h.sorted.tally _
  · rw [hcategories, h.sorted.counter_tally]
    show counter d.name c.categories + _ = _
    rw [h.counts, hruns, List.map_append, List.count_append, List.map_singleton, hrcat,
      List.count_singleton]
    by_cases hd : d = disposition (ran lib space runner c candidate).verdict
    · simp [hd]
    · rw [if_neg fun hn => hd (name_injective hn), if_neg fun hb => hd (beq_iff_eq.mp hb).symm]
  · rw [hcategories, total_tally]
    show SortedMap.total c.categories + 1 = _
    rw [h.total, hattempted]
  · rw [hcon.completed, hruns, List.map_append, List.count_append, List.map_singleton, hrcat,
      List.count_singleton]
    rcases @attempt_cases lib space candidate.schedule (scheduleJson candidate.schedule)
      { c with attempted := c.attempted + 1 } (runner c.attempted candidate.schedule) with
      ⟨hne, hcompleted⟩ | ⟨sample, -, hverdict, -, hcredited⟩
    · have hne : disposition (ran lib space runner c candidate).verdict ≠ .passed := hne
      rw [if_neg fun hb => hne (beq_iff_eq.mp hb), ← h.completed]
      exact hcompleted
    · have hpassed : disposition (ran lib space runner c candidate).verdict = .passed :=
        congrArg disposition hverdict
      rw [hpassed, ← h.completed]
      exact hcredited.completed
  · rw [hruns, fullBytes_append, h.bytes, hbytes]
  · rw [hcon.firstFailure, hkeeps.firstFailure, hruns, hordinal]
    exact first_append h.firstFailure hrord hrcat
  · rw [hattempted]
    rcases hlast hk with hk | ⟨rfl, -⟩
    · exact absurd (List.mem_of_getElem? hk) (h.whole hhalt o d)
    · rfl
  · rw [hruns] at hm
    rcases List.mem_append.mp hm with hm | hm
    · exact h.whole hhalt o d hm
    · exact hwhole hgoes o d (List.mem_singleton.mp hm).symm
  · rw [hattempted] at hk
    by_cases hk' : k + 1 = c.attempted
    · exact h.last hhalt k hk'
    · exact h.known k (by omega)
  · rw [hattempted] at hk
    obtain rfl : k = c.attempted := by omega
    obtain ⟨sample, hreturns, hclean⟩ := attempt_cleanupKnown (hcon.known hgoes)
    exact ⟨candidate, sample, hat, hreturns, hclean⟩

/-! ## From the first run on -/

theorem Before.going (hs : start.halt = false)
    (h : Before lib space limits runner readings all start rest c) : c.halt = false := by
  cases h with
  | start => exact hs
  | next _ _ _ goes => exact goes

/-- The candidates behind are as many as the attempts. -/
theorem Before.behind (he : ∀ candidate ∈ all, Encodes lib candidate.schedule)
    (hs : start.attempted = 0) (h : Before lib space limits runner readings all start rest c) :
    ∃ done, all = done ++ rest ∧ done.length = c.attempted := by
  induction h with
  | start => exact ⟨[], rfl, hs.symm⟩
  | @next candidate rest c c' _ _ hran _ ih =>
    obtain ⟨done, hall, hdone⟩ := ih
    have hmem : candidate ∈ all := by
      rw [hall]
      exact List.mem_append_right _ List.mem_cons_self
    have hcon := (concluded_of_ran (he candidate hmem) hran).2
    have hattempted : c'.attempted = c.attempted + 1 :=
      hcon.attempted.trans (keeps_attempt _ _).attempted
    refine ⟨done ++ [candidate], ?_, ?_⟩
    · rw [hall, List.append_assoc, List.singleton_append]
    · rw [hattempted, List.length_append, List.length_singleton, hdone]

theorem Before.head (he : ∀ candidate ∈ all, Encodes lib candidate.schedule)
    (hs : start.attempted = 0)
    (h : Before lib space limits runner readings all start (candidate :: rest) c) :
    all[c.attempted]? = some candidate ∧ Encodes lib candidate.schedule := by
  obtain ⟨done, hall, hdone⟩ := h.behind he hs
  refine ⟨?_, he candidate ?_⟩
  · rw [hall, ← hdone]
    simp
  · rw [hall]
    exact List.mem_append_right _ List.mem_cons_self

/-- Before the first of two candidates nothing has been run, before the second one of them. -/
theorem Before.either {x y : Candidate} (he : ∀ candidate ∈ [x, y], Encodes lib candidate.schedule)
    (hs : start.attempted = 0)
    (h : Before lib space limits runner readings [x, y] start (candidate :: rest) c) :
    candidate = x ∧ c = start ∨ candidate = y ∧ c.attempted = 1 := by
  obtain ⟨done, hall, hdone⟩ := h.behind he hs
  have hlen := congrArg List.length hall
  rw [List.length_append, List.length_cons, List.length_cons, List.length_cons,
    List.length_nil] at hlen
  cases h with
  | start => exact .inl ⟨rfl, rfl⟩
  | next hbefore hopen hran hgoes =>
    -- a run has been made, so one candidate is behind
    obtain ⟨done', hall', hdone'⟩ := hbefore.behind he hs
    have hlen' := congrArg List.length hall'
    rw [List.length_append, List.length_cons, List.length_cons, List.length_cons,
      List.length_cons, List.length_nil] at hlen'
    obtain rfl : done' = [] := List.eq_nil_of_length_eq_zero (by omega)
    obtain rfl : rest = [] := List.eq_nil_of_length_eq_zero (by omega)
    obtain ⟨rfl, hrest⟩ := List.cons.inj hall'
    obtain rfl := (List.cons.inj hrest).1
    refine .inr ⟨rfl, ?_⟩
    rw [← hdone]
    simp only [List.length_nil] at hlen
    omega

theorem Tallied.before (he : ∀ candidate ∈ all, Encodes lib candidate.schedule) {reason : String}
    (h : Before lib space limits runner readings all { stopReason := reason } rest c) :
    Tallied lib limits runner all c := by
  induction h with
  | start => exact tallied_start
  | next hbefore _ hran _ ih =>
    obtain ⟨hat, hencodes⟩ := hbefore.head he rfl
    exact ih.step hencodes (hbefore.going rfl) hat hran

/-- What the result says of the attempts: none is missing, none is said twice. -/
structure Accounted (lib : Libraries) (limits : ExplorationLimits)
    (runner : Nat → Schedule → Answer) (all : List Candidate) (r : FiniteExploration) : Prop where
  status : r.status ≠ .invalidDeclaration
  rows : r.runs.length = r.attemptedRuns
  shows_ : ∀ k run, r.runs[k]? = some run → ∃ candidate, all[k]? = some candidate ∧
    Shows runner k candidate run
  counts : ∀ d : Disposition, counter d.name r.categories = (r.runs.map Run.category).count d
  total : SortedMap.total r.categories = r.attemptedRuns
  completed : r.completedRuns = counter Disposition.passed.name r.categories
  bytes : fullBytes lib r.runs ≤ limits.maxEvidenceBytes
  firstFailure : r.firstFailure.map (fun f => (f.ordinal, f.category)) =
    (r.runs.find? (·.category ≠ .passed)).map fun run => (run.ordinal, run.category)
  cut : ∀ k ordinal d, r.runs[k]? = some (.omitted ordinal d) → k + 1 = r.attemptedRuns
  known : ∀ k, k + 1 < r.attemptedRuns → Confirmed lib runner all k

/-- A run is made: nothing has stopped the campaign before it. -/
def Reached (lib : Libraries) (space : FiniteSpace) (limits : ExplorationLimits) (s : Surroundings)
    (runner : Nat → Schedule → Answer) (c : Campaign) (candidate : Candidate) : Prop :=
  ∃ rest, Before lib space limits runner s.readings (eligible space limits s)
      (opening space limits s) (candidate :: rest) c ∧
    (s.readings c.attempted).interruption (decide (limits.maxRuns ≤ c.attempted)) = none

theorem Tallied.report {r : Enumeration} {n : Nat} (h : Tallied lib limits runner all c) :
    Accounted lib limits runner all (report r n c none) where
  status := by
    show (if _ then ExplorationStatus.complete else .incomplete) ≠ _
    split <;> decide
  rows := h.rows
  shows_ := h.shows_
  counts := h.counts
  total := h.total
  completed := h.completed.trans (h.counts .passed).symm
  bytes := by
    show fullBytes lib c.runs ≤ _
    rw [h.bytes]
    exact h.fits
  firstFailure := h.firstFailure
  cut := h.cut
  known := h.known

theorem Tallied.stop {reason : String} (h : Tallied lib limits runner all c) :
    Tallied lib limits runner all (c.stop reason) :=
  { h with
    whole := by rintro ⟨⟩
    last := by rintro ⟨⟩ }

/-- The second run of two throws. -/
def pairFailing : Nat → Schedule → Answer
  | 0, _ => .returns { execution := pairExecution "a" "b" firstId }
  | _ + 1, _ => .throws .nonstandard

theorem reached_pair {runner : Nat → Schedule → Answer}
    (h : Reached sampleLibraries pairSpace {} (pairRun runner) runner c candidate) :
    candidate = ⟨pairSchedule "a" "b", 0⟩ ∧ c = { stopReason := "" } ∨
      candidate = ⟨pairSchedule "b" "a", 0⟩ ∧ c.attempted = 1 := by
  obtain ⟨rest, hbefore, -⟩ := h
  rw [eligible_pair, opening_pair] at hbefore
  refine hbefore.either (fun candidate hm => ?_) rfl
  rcases List.mem_cons.mp hm with rfl | hm
  · exact encodes_pair.1
  · rw [List.mem_singleton.mp hm]
    exact encodes_pair.2

theorem printable_pair
    (h : Reached sampleLibraries pairSpace {} (pairRun pairFailing) pairFailing c candidate) :
    (rowOf sampleLibraries pairSpace pairFailing c candidate).Printable := by
  rcases reached_pair h with ⟨rfl, rfl⟩ | ⟨rfl, hc⟩
  · obtain ⟨coverage, _, hcover, -⟩ := covered_pair
    have hrow : rowOf sampleLibraries pairSpace pairFailing { stopReason := "" }
        ⟨pairSchedule "a" "b", 0⟩ = passedRow 0 ⟨pairSchedule "a" "b", 0⟩
          (pairExecution "a" "b" firstId) := rowOf_passed rfl rfl passing_pair hcover
    rw [hrow]
    refine ⟨?_, ?_, ?_⟩
    · rintro e ⟨⟩
      decide +kernel
    · rintro j ⟨⟩
    · rintro t ⟨⟩
  · have hthrows : pairFailing c.attempted (pairSchedule "b" "a") = .throws .nonstandard := by
      rw [hc]
      rfl
    rw [rowOf, ran, hthrows]
    refine ⟨?_, ?_, ?_⟩
    · rintro e ⟨⟩
    · rintro j ⟨⟩
    · rintro t ⟨⟩
      decide

end MirrorCpp.Exploration
