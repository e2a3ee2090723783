import MirrorCpp.Exploration.Campaign
import MirrorCpp.Exploration.Qualified
import MirrorCpp.Exploration.Admissible

/-!
# The runs of a campaign

What one run can do to the campaign: its `try` block touches coverage, counters and identities
only, and has passed exactly when everything was accepted; its row is printed, cut or kept. And
the ways a campaign ends, from the states before its runs.
-/

namespace MirrorCpp.Exploration

open Schedule Itf Fallible SortedMap

variable {lib : Libraries} {space : FiniteSpace} {schedule : Schedule} {printed : Json}
  {sample : ExplorationSample} {c c' : Campaign} {d : Disposition}

/-! ## Inside the `try` block -/

/-- What the `try` block of a run leaves as it is. -/
structure Keeps (c c' : Campaign) : Prop where
  runs : c'.runs = c.runs
  categories : c'.categories = c.categories
  firstFailure : c'.firstFailure = c.firstFailure
  attempted : c'.attempted = c.attempted
  bytes : c'.bytes = c.bytes
  stopReason : c'.stopReason = c.stopReason
  halt : c'.halt = c.halt

theorem Keeps.refl (c : Campaign) : Keeps c c := ⟨rfl, rfl, rfl, rfl, rfl, rfl, rfl⟩

theorem Keeps.trans {c'' : Campaign} (h : Keeps c c') (h' : Keeps c' c'') : Keeps c c'' where
  runs := h'.runs.trans h.runs
  categories := h'.categories.trans h.categories
  firstFailure := h'.firstFailure.trans h.firstFailure
  attempted := h'.attempted.trans h.attempted
  bytes := h'.bytes.trans h.bytes
  stopReason := h'.stopReason.trans h.stopReason
  halt := h'.halt.trans h.halt

/-- The run has passed every check of its evidence, and has been credited. -/
structure Credited (lib : Libraries) (space : FiniteSpace) (schedule : Schedule) (printed : Json)
    (sample : ExplorationSample) (c c' : Campaign) : Prop where
  bound : ∃ id, bound lib space c.executions printed sample.execution = .ok id ∧
    c'.executions = id :: c.executions
  cleanup : cleanupKnown lib.toJsonLib sample.execution = .ok true
  category : category lib.toJsonLib sample.execution sample.comparison = .ok .passed
  compared : space.requireModelComparison = true → sample.comparison.isNull = false
  valid : validateSuccess lib.toJsonLib sample.execution schedule = .ok ()
  covered : ∃ observations, sample.execution.field "observations" = .ok observations ∧
    c.coverage.cover lib space observations observations.size 0 none = (c'.coverage, .ok ())
  completed : c'.completed = c.completed + 1

theorem failure_ne_passed (outcome : String) : failure outcome ≠ .passed := by
  unfold failure
  split_ifs <;> decide

theorem compared_ne_passed {execution comparison : Json} :
    compared lib.toJsonLib execution comparison ≠ .ok (some .passed) := by
  intro h
  simp only [compared, bind_eq_ok] at h
  obtain ⟨_, -, _, -, _, -, _, -, b, -, h⟩ := h
  split at h
  · obtain ⟨_, -, h⟩ := bind_eq_ok.mp h
    obtain ⟨_, -, h⟩ := bind_eq_ok.mp h
    cases h
  · obtain ⟨matched, -, h⟩ := bind_eq_ok.mp h
    cases matched <;> cases h

/-- A passed category: clean, the comparison (if any) matched, and the execution passed. -/
theorem category_passed {execution comparison : Json} :
    category lib.toJsonLib execution comparison = .ok .passed ↔
      cleanupKnown lib.toJsonLib execution = .ok true ∧
      (comparison.isNull = true ∨ compared lib.toJsonLib execution comparison = .ok none) ∧
      agrees lib.toJsonLib execution [("passed", .bool true)] = .ok true := by
  unfold category
  cases hk : cleanupKnown lib.toJsonLib execution with
  | error e => simp
  | ok known =>
    cases known with
    | false => simp
    | true =>
      have hpassed : (do
          let passed ← agrees lib.toJsonLib execution [("passed", .bool true)]
          if passed then return .passed
          else failure <$> read (execution.field "outcome" >>= Json.getStr)) =
            (.ok .passed : Except Itf.Thrown Disposition) ↔
          agrees lib.toJsonLib execution [("passed", .bool true)] = .ok true := by
        cases agrees lib.toJsonLib execution [("passed", .bool true)] with
        | error e => simp
        | ok passed =>
          cases passed with
          | true => simp
          | false =>
            simp only [ok_bind, Bool.false_eq_true, if_false, map_eq_ok, Except.ok.injEq, iff_false,
              not_exists, not_and]
            exact fun outcome _ => failure_ne_passed outcome
      cases hn : comparison.isNull with
      | true => simpa using hpassed
      | false =>
        have hne := @compared_ne_passed lib execution comparison
        cases hc : compared lib.toJsonLib execution comparison with
        | error e => simp
        | ok differs =>
          cases differs with
          | none => simpa using hpassed
          | some d =>
            rw [hc] at hne
            simpa using fun h => hne (by rw [h])

theorem keeps_credit {e : Json} (c : Campaign) : Keeps c (credit lib space schedule e c).1 := by
  unfold credit
  dsimp only
  split
  · exact .refl c
  · split <;> exact ⟨rfl, rfl, rfl, rfl, rfl, rfl, rfl⟩

theorem keeps_compare (c : Campaign) (comparison : Json) : Keeps c (c.compare comparison) := by
  unfold Campaign.compare
  split
  · exact .refl c
  · exact ⟨rfl, rfl, rfl, rfl, rfl, rfl, rfl⟩

theorem keeps_judge (c : Campaign) : Keeps c (judge lib space schedule printed sample d c).1 := by
  have hc := keeps_compare c sample.comparison
  unfold judge
  dsimp only
  split
  · exact hc.trans (keeps_credit _)
  split
  · exact hc.trans ⟨rfl, rfl, rfl, rfl, rfl, rfl, rfl⟩
  · exact hc

theorem keeps_executions (c : Campaign) (executions : List String) :
    Keeps c { c with executions } := ⟨rfl, rfl, rfl, rfl, rfl, rfl, rfl⟩

theorem keeps_examine (c : Campaign) :
    Keeps c (examine lib space schedule printed sample c).campaign := by
  unfold examine
  dsimp only
  split
  · exact .refl c
  · split
    · exact keeps_executions c _
    · split
      · exact keeps_executions c _
      · exact (keeps_executions c _).trans (keeps_judge _)

theorem keeps_attempt (c : Campaign) (answer : Answer) :
    Keeps c (attempt lib space schedule printed c answer).campaign := by
  cases answer with
  | returns sample => exact keeps_examine c
  | throws f => exact .refl c

/-! ## Runs that pass -/

/-- Crediting a run either fails, the count of completed runs as before, or has passed. -/
theorem credit_cases {e : Json} (c : Campaign) :
    (∃ f, (credit lib space schedule e c).2 = .error f ∧
      (credit lib space schedule e c).1.completed = c.completed) ∨
    (credit lib space schedule e c).2 = .ok .passed ∧
      validateSuccess lib.toJsonLib e schedule = .ok () ∧
      (∃ observations, e.field "observations" = .ok observations ∧
        c.coverage.cover lib space observations observations.size 0 none =
          ((credit lib space schedule e c).1.coverage, .ok ())) ∧
      (credit lib space schedule e c).1.completed = c.completed + 1 ∧
      (credit lib space schedule e c).1.executions = c.executions := by
  unfold credit
  dsimp only
  split
  · exact .inl ⟨_, rfl, rfl⟩
  · rename_i observations hacc
    obtain ⟨_, hvalid, hobs⟩ := bind_eq_ok.mp hacc
    split
    · exact .inl ⟨_, rfl, rfl⟩
    · rename_i hcov
      exact .inr ⟨rfl, hvalid, ⟨observations, read_ok.mp hobs, hcov⟩, rfl, rfl⟩

theorem demand_passed {comparison : Json} : demand space comparison d = .passed ↔
    d = .passed ∧ (space.requireModelComparison = true → comparison.isNull = false) := by
  unfold demand
  cases space.requireModelComparison <;> cases comparison.isNull <;> simp

/-- The verdict of a run, and what it says of the campaign. -/
theorem judge_cases (c : Campaign) :
    ((judge lib space schedule printed sample d c).2 ≠ .ok .passed ∧
      (judge lib space schedule printed sample d c).1.completed = c.completed) ∨
    (judge lib space schedule printed sample d c).2 = .ok .passed ∧ d = .passed ∧
      (space.requireModelComparison = true → sample.comparison.isNull = false) ∧
      validateSuccess lib.toJsonLib sample.execution schedule = .ok () ∧
      (∃ observations, sample.execution.field "observations" = .ok observations ∧
        c.coverage.cover lib space observations observations.size 0 none =
          ((judge lib space schedule printed sample d c).1.coverage, .ok ())) ∧
      (judge lib space schedule printed sample d c).1.completed = c.completed + 1 ∧
      (judge lib space schedule printed sample d c).1.executions = c.executions := by
  have hcompare : (c.compare sample.comparison).completed = c.completed ∧
      (c.compare sample.comparison).coverage = c.coverage ∧
      (c.compare sample.comparison).executions = c.executions := by
    unfold Campaign.compare
    split <;> exact ⟨rfl, rfl, rfl⟩
  obtain ⟨hcompleted, hcoverage, hexecutions⟩ := hcompare
  unfold judge
  dsimp only
  split
  · rename_i hd
    have hcases := @credit_cases lib space schedule sample.execution (c.compare sample.comparison)
    rw [hcompleted, hcoverage, hexecutions] at hcases
    rcases hcases with ⟨f, hf, hc⟩ | ⟨hp, hv, hcov, hc, he⟩
    · exact .inl ⟨by rw [hf]; simp, hc⟩
    · obtain ⟨hd, hthere⟩ := demand_passed.mp hd
      exact .inr ⟨hp, hd, hthere, hv, hcov, hc, he⟩
  · rename_i hd
    split
    · exact .inl ⟨fun h => hd (Except.ok.inj h), hcompleted⟩
    · exact .inl ⟨fun h => hd (Except.ok.inj h), hcompleted⟩

/-- **What the verdict of a run says**: it has been credited, or it has not passed and is not
counted as completed. -/
theorem attempt_cases (c : Campaign) (answer : Answer) :
    (disposition (attempt lib space schedule printed c answer).verdict ≠ .passed ∧
      (attempt lib space schedule printed c answer).campaign.completed = c.completed) ∨
    ∃ sample, answer = .returns sample ∧
      (attempt lib space schedule printed c answer).verdict = .ok .passed ∧
      (attempt lib space schedule printed c answer).execution = some sample.execution ∧
      Credited lib space schedule printed sample c
        (attempt lib space schedule printed c answer).campaign := by
  have herror : ∀ f, disposition (.error f) ≠ .passed := by
    intro f
    cases f <;> simp [disposition]
  cases answer with
  | throws f => exact .inl ⟨herror f, rfl⟩
  | returns sample =>
    unfold attempt examine
    dsimp only
    split
    · exact .inl ⟨herror _, rfl⟩
    · rename_i id hbound
      split
      · exact .inl ⟨herror _, rfl⟩
      · rename_i known hknown
        split
        · exact .inl ⟨herror _, rfl⟩
        · rename_i d hd
          have hcases := @judge_cases lib space schedule printed sample d
            { c with executions := id :: c.executions }
          rcases hcases with ⟨hne, hc⟩ | ⟨hp, rfl, hthere, hv, hcov, hc, he⟩
          · refine .inl ⟨fun h => hne ?_, hc⟩
            dsimp only at h
            generalize (judge lib space schedule printed sample d _).2 = verdict at h
            cases verdict with
            | ok d' => exact congrArg Except.ok h
            | error f => exact absurd h (herror f)
          · have hclean := (category_passed.mp hd).1
            exact .inr ⟨sample, rfl, hp, rfl,
              ⟨⟨id, hbound, he⟩, hclean, hd, hthere, hv, hcov, hc⟩⟩

/-- Every check of the evidence is passed; the observations are still to be covered. -/
structure Passing (lib : Libraries) (space : FiniteSpace) (executions : List String)
    (schedule : Schedule) (execution observations : Json) (id : String) : Prop where
  bound : bound lib space executions (scheduleJson schedule) execution = .ok id
  cleanup : cleanupKnown lib.toJsonLib execution = .ok true
  category : category lib.toJsonLib execution .null = .ok .passed
  valid : validateSuccess lib.toJsonLib execution schedule = .ok ()
  observations : execution.field "observations" = .ok observations

/-- The run of accepted evidence, by what its observations come to. -/
theorem attempt_covered {execution observations : Json} {id : String} {coverage : Coverage}
    {result : Except Failure Unit} (hrequired : space.requireModelComparison = false)
    (h : Passing lib space c.executions schedule execution observations id)
    (hcover : c.coverage.cover lib space observations observations.size 0 none =
      (coverage, result)) :
    attempt lib space schedule (scheduleJson schedule) c (.returns { execution }) =
      { campaign := { c with
          executions := id :: c.executions
          coverage
          completed := c.completed + if result.isOk then 1 else 0 }
        execution := some execution
        cleanupKnown := true
        verdict := result.map fun _ => .passed } := by
  have hcredit : credit lib space schedule execution { c with executions := id :: c.executions } =
      ({ c with
          executions := id :: c.executions
          coverage
          completed := c.completed + if result.isOk then 1 else 0 },
        result.map fun _ => .passed) := by
    unfold credit
    rw [h.valid, h.observations]
    dsimp only [read, bind, Except.bind]
    rw [hcover]
    cases result <;> rfl
  have hjudge : judge lib space schedule (scheduleJson schedule) { execution } .passed
      { c with executions := id :: c.executions } = credit lib space schedule execution
      { c with executions := id :: c.executions } := by
    unfold judge demand Campaign.compare
    rw [hrequired]
    rfl
  unfold attempt examine
  dsimp only
  rw [h.bound]
  dsimp only
  rw [h.cleanup]
  dsimp only
  rw [h.category]
  dsimp only
  rw [hjudge, hcredit]
  rfl

/-- Only evidence says that the cleanup is known. -/
theorem attempt_cleanupKnown {answer : Answer}
    (h : (attempt lib space schedule printed c answer).cleanupKnown = true) :
    ∃ sample, answer = .returns sample ∧
      cleanupKnown lib.toJsonLib sample.execution = .ok true := by
  cases answer with
  | throws f => cases h
  | returns sample =>
    refine ⟨sample, rfl, ?_⟩
    unfold attempt examine at h
    dsimp only at h
    split at h
    · cases h
    · split at h
      · cases h
      · rename_i hknown
        split at h <;> exact hknown.trans (congrArg Except.ok h)

/-! ## The row of a run -/

section
variable {limits : ExplorationLimits} {late : Bool} {inputIndex : Nat} {e : Examined}

/-- How a row is kept: whole, or without its evidence where that is over the budget. -/
inductive Recorded (lib : Libraries) (limits : ExplorationLimits) (row : Row) (c c' : Campaign) :
    Prop
  | whole (runs : c'.runs = c.runs ++ [.full row])
      (bytes : c'.bytes = c.bytes + lib.len row.toJson)
      (fits : lib.len row.toJson ≤ limits.maxEvidenceBytes - min c.bytes limits.maxEvidenceBytes)
  | cut (runs : c'.runs = c.runs ++ [.omitted row.ordinal row.category])
      (bytes : c'.bytes = c.bytes) (halt : c'.halt = true)

/-- What follows the `try` block does to the campaign. -/
structure Concluded (lib : Libraries) (limits : ExplorationLimits) (inputIndex : Nat)
    (printed : Json) (e : Examined) (c' : Campaign) : Prop where
  attempted : c'.attempted = e.campaign.attempted
  completed : c'.completed = e.campaign.completed
  executions : c'.executions = e.campaign.executions
  coverage : c'.coverage = e.campaign.coverage
  categories : c'.categories = tally (disposition e.verdict).name e.campaign.categories
  firstFailure : c'.firstFailure =
    if disposition e.verdict ≠ .passed ∧ e.campaign.firstFailure.isNone = true then
      some ⟨e.campaign.attempted - 1, disposition e.verdict, printed⟩
    else e.campaign.firstFailure
  recorded : Recorded lib limits (e.row inputIndex printed) e.campaign c'
  known : c'.halt = false → e.cleanupKnown = true

theorem caught_cases (c : Campaign) (v : Except Failure Disposition) :
    c.caught v = c ∨ c.caught v = c.stop "coverage_limit" := by
  rcases v with (_ | _ | _) | _
  · exact .inr rfl
  all_goals exact .inl rfl

theorem concluded_of_caught {b : Campaign} (hb : b = e.campaign ∨
    b = e.campaign.stop "coverage_limit") :
    b.attempted = e.campaign.attempted ∧ b.completed = e.campaign.completed ∧
      b.executions = e.campaign.executions ∧ b.coverage = e.campaign.coverage ∧
      b.categories = e.campaign.categories ∧ b.firstFailure = e.campaign.firstFailure ∧
      b.runs = e.campaign.runs ∧ b.bytes = e.campaign.bytes := by
  rcases hb with rfl | rfl <;> exact ⟨rfl, rfl, rfl, rfl, rfl, rfl, rfl, rfl⟩

/-- A row that prints is recorded; one that does not leaves the campaign. -/
theorem conclude_cases :
    ((e.row inputIndex printed).toJson.utf8 = false ∧
      ∃ c', conclude lib limits late inputIndex printed e = (c', some (lib.what .badUtf8))) ∨
    (e.row inputIndex printed).toJson.utf8 = true ∧
      ∃ c', conclude lib limits late inputIndex printed e = (c', none) ∧
        Concluded lib limits inputIndex printed e c' := by
  obtain ⟨h1, h2, h3, h4, h5, h6, h7, h8⟩ :=
    concluded_of_caught (caught_cases e.campaign e.verdict)
  unfold conclude
  dsimp only
  generalize e.campaign.caught e.verdict = b at h1 h2 h3 h4 h5 h6 h7 h8
  have hcat : tally (disposition e.verdict).name b.categories =
      tally (disposition e.verdict).name e.campaign.categories := by rw [h5]
  have hfirst : (b.book (disposition e.verdict) printed).firstFailure =
      if disposition e.verdict ≠ .passed ∧ e.campaign.firstFailure.isNone = true then
        some ⟨e.campaign.attempted - 1, disposition e.verdict, printed⟩
      else e.campaign.firstFailure := by
    unfold Campaign.book
    rw [h1, h6]
  cases hd : lib.dump (e.row inputIndex printed).toJson with
  | none => exact .inl ⟨lib.dump_eq_none.mp hd, _, rfl⟩
  | some text =>
    have hu : (e.row inputIndex printed).toJson.utf8 = true := by
      rw [← lib.dump_isSome, hd]
      rfl
    have hlen : lib.len (e.row inputIndex printed).toJson = text.length := by
      rw [JsonLib.len, hd, Option.getD_some]
    refine .inr ⟨hu, ?_⟩
    dsimp only
    by_cases hover : text.length > limits.maxEvidenceBytes -
        min (b.book (disposition e.verdict) printed).bytes limits.maxEvidenceBytes
    · rw [if_pos hover]
      refine ⟨_, rfl, h1, h2, h3, h4, hcat, hfirst, .cut ?_ h8 rfl, by rintro ⟨⟩⟩
      show b.runs ++ [_] = _
      rw [h7]
      show _ ++ [Run.omitted (b.attempted - 1) _] = _
      rw [h1]
      rfl
    · rw [if_neg hover]
      have hfit : lib.len (e.row inputIndex printed).toJson ≤
          limits.maxEvidenceBytes - min e.campaign.bytes limits.maxEvidenceBytes := by
        rw [hlen, ← h8]
        exact Nat.le_of_not_lt hover
      have hrec : ∀ {c' : Campaign}, c'.runs = b.runs ++ [.full (e.row inputIndex printed)] →
          c'.bytes = b.bytes + text.length →
          Recorded lib limits (e.row inputIndex printed) e.campaign c' :=
        fun hr hb => .whole (by rw [hr, h7]) (by rw [hb, h8, hlen]) hfit
      split
      · rename_i hhalt
        exact ⟨_, rfl, h1, h2, h3, h4, hcat, hfirst, hrec rfl rfl,
          fun h => absurd (hhalt.symm.trans h) (by simp)⟩
      · split
        · exact ⟨_, rfl, h1, h2, h3, h4, hcat, hfirst, hrec rfl rfl, by rintro ⟨⟩⟩
        · rename_i hknown
          rw [Bool.not_eq_true', Bool.not_eq_false] at hknown
          split
          · exact ⟨_, rfl, h1, h2, h3, h4, hcat, hfirst, hrec rfl rfl, by rintro ⟨⟩⟩
          · exact ⟨_, rfl, h1, h2, h3, h4, hcat, hfirst, hrec rfl rfl, fun _ => hknown⟩

/-- A row that fits is kept whole, and the campaign goes on where the cleanup is known. -/
theorem conclude_whole {text : String} (hd : lib.dump (e.row inputIndex printed).toJson = some text)
    (hfit : e.campaign.bytes + text.length ≤ limits.maxEvidenceBytes)
    (hhalt : (e.campaign.caught e.verdict).halt = false) (hknown : e.cleanupKnown = true) :
    conclude lib limits false inputIndex printed e =
      ({ (e.campaign.caught e.verdict).book (disposition e.verdict) printed with
          bytes := e.campaign.bytes + text.length
          runs := e.campaign.runs ++ [.full (e.row inputIndex printed)] }, none) := by
  obtain ⟨-, -, -, -, -, -, hruns, hbytes⟩ :=
    concluded_of_caught (caught_cases e.campaign e.verdict)
  unfold conclude
  dsimp only
  rw [hd]
  dsimp only
  have hroom : ¬text.length > limits.maxEvidenceBytes -
      min ((e.campaign.caught e.verdict).book (disposition e.verdict) printed).bytes
        limits.maxEvidenceBytes := by
    show ¬text.length > limits.maxEvidenceBytes -
      min (e.campaign.caught e.verdict).bytes limits.maxEvidenceBytes
    rw [hbytes]
    omega
  rw [if_neg hroom, if_neg (by rw [Campaign.book, hhalt]; simp), hknown]
  simp only [Campaign.book, hruns, hbytes, Bool.not_true, Bool.false_eq_true, if_false]

end

/-! ## A candidate -/

/-- The schedule prints, and its text is read back as the value it was printed from. -/
def Encodes (lib : Libraries) (s : Schedule) : Prop :=
  ∃ text d, encodeSchedule lib.toJsonScan s = .ok text ∧ lib.parse text = some d ∧
    d.toJson = scheduleJson s

theorem encodes_of_encodeSchedule {s : Schedule} {t : String} (hw : s.inputs.wf = true)
    (h : encodeSchedule lib.toJsonScan s = .ok t) : Encodes lib s := by
  obtain ⟨hplain, hdump, -, -⟩ := (encodeSchedule_eq_ok hw).mp h
  have hj := wf_scheduleJson hw
  have hp : (scheduleJson s).plainBelow 29 = true := plainBelow_scheduleJson (k := 26) hplain
  exact ⟨t, _, h, lib.parse_dump 29 _ t hj hp hdump, Doc.toJson_ofJson hj⟩

section
variable {limits : ExplorationLimits} {runner : Nat → Schedule → Answer}
  {readings : Nat → Readings}

/-- The run of a candidate, behind its `try` block. -/
def ran (lib : Libraries) (space : FiniteSpace) (runner : Nat → Schedule → Answer)
    (c : Campaign) (candidate : Candidate) : Examined :=
  attempt lib space candidate.schedule (scheduleJson candidate.schedule)
    { c with attempted := c.attempted + 1 } (runner c.attempted candidate.schedule)

/-- The row of its run. -/
def rowOf (lib : Libraries) (space : FiniteSpace) (runner : Nat → Schedule → Answer)
    (c : Campaign) (candidate : Candidate) : Row :=
  (ran lib space runner c candidate).row candidate.inputIndex (scheduleJson candidate.schedule)

theorem runCandidate_eq {candidate : Candidate} (h : Encodes lib candidate.schedule) :
    runCandidate lib space limits runner readings c candidate =
      conclude lib limits (readings c.attempted).lateAfter candidate.inputIndex
        (scheduleJson candidate.schedule) (ran lib space runner c candidate) := by
  obtain ⟨text, d, he, hp, hd⟩ := h
  unfold runCandidate
  rw [he]
  dsimp only
  rw [hp]
  dsimp only
  rw [hd]
  rfl

/-- **A run of a candidate**: its row does not print, which leaves the campaign, or is recorded. -/
theorem runCandidate_cases {candidate : Candidate} (h : Encodes lib candidate.schedule) :
    ((rowOf lib space runner c candidate).toJson.utf8 = false ∧
      ∃ c', runCandidate lib space limits runner readings c candidate =
        (c', some (lib.what .badUtf8))) ∨
    (rowOf lib space runner c candidate).toJson.utf8 = true ∧
      ∃ c', runCandidate lib space limits runner readings c candidate = (c', none) ∧
        Concluded lib limits candidate.inputIndex (scheduleJson candidate.schedule)
          (ran lib space runner c candidate) c' := by
  rw [runCandidate_eq h]
  exact conclude_cases

theorem concluded_of_ran {candidate : Candidate} (h : Encodes lib candidate.schedule)
    (hran : runCandidate lib space limits runner readings c candidate = (c', none)) :
    (rowOf lib space runner c candidate).toJson.utf8 = true ∧
      Concluded lib limits candidate.inputIndex (scheduleJson candidate.schedule)
        (ran lib space runner c candidate) c' := by
  rcases @runCandidate_cases lib space c limits runner readings candidate h with
    ⟨-, c'', hc⟩ | ⟨hu, c'', hc, hcon⟩
  · cases hran.symm.trans hc
  · cases hran.symm.trans hc
    exact ⟨hu, hcon⟩

/-! ## A run that passes -/

def passedRow (ordinal : Nat) (candidate : Candidate) (execution : Json) : Row where
  ordinal := ordinal
  inputIndex := candidate.inputIndex
  schedule := scheduleJson candidate.schedule
  execution := some execution
  comparison := none
  error := none
  category := .passed

section
variable {candidate : Candidate} {execution observations : Json} {coverage : Coverage} {id : String}

theorem ran_passed (hrequired : space.requireModelComparison = false)
    (hanswer : runner c.attempted candidate.schedule = .returns { execution })
    (h : Passing lib space c.executions candidate.schedule execution observations id)
    (hcover : c.coverage.cover lib space observations observations.size 0 none =
      (coverage, .ok ())) :
    ran lib space runner c candidate =
      { campaign := { c with
          attempted := c.attempted + 1
          executions := id :: c.executions
          coverage
          completed := c.completed + 1 }
        execution := some execution
        cleanupKnown := true
        verdict := .ok .passed } := by
  unfold ran
  rw [hanswer]
  exact @attempt_covered lib space candidate.schedule { c with attempted := c.attempted + 1 }
    _ _ _ _ _ hrequired h hcover

theorem rowOf_passed (hrequired : space.requireModelComparison = false)
    (hanswer : runner c.attempted candidate.schedule = .returns { execution })
    (h : Passing lib space c.executions candidate.schedule execution observations id)
    (hcover : c.coverage.cover lib space observations observations.size 0 none =
      (coverage, .ok ())) :
    rowOf lib space runner c candidate = passedRow c.attempted candidate execution := by
  rw [rowOf, ran_passed hrequired hanswer h hcover]
  rfl

/-- A run that passes, and whose row fits, is counted and recorded. -/
theorem runCandidate_passed {size : Nat} (he : Encodes lib candidate.schedule)
    (hrequired : space.requireModelComparison = false)
    (hanswer : runner c.attempted candidate.schedule = .returns { execution })
    (h : Passing lib space c.executions candidate.schedule execution observations id)
    (hcover : c.coverage.cover lib space observations observations.size 0 none =
      (coverage, .ok ()))
    (hsize : lib.dumpSize (passedRow c.attempted candidate execution).toJson = some size)
    (hfit : c.bytes + size ≤ limits.maxEvidenceBytes) (hhalt : c.halt = false)
    (hlate : (readings c.attempted).lateAfter = false) :
    runCandidate lib space limits runner readings c candidate =
      ({ c with
          runs := c.runs ++ [.full (passedRow c.attempted candidate execution)]
          categories := tally Disposition.passed.name c.categories
          coverage
          executions := id :: c.executions
          attempted := c.attempted + 1
          completed := c.completed + 1
          bytes := c.bytes + size }, none) := by
  rw [lib.dumpSize_eq] at hsize
  obtain ⟨text, htext, rfl⟩ := Option.map_eq_some_iff.mp hsize
  rw [runCandidate_eq he, hlate, ran_passed hrequired hanswer h hcover]
  refine (conclude_whole htext hfit ?_ rfl).trans ?_
  · exact hhalt
  · simp only [Campaign.book, Campaign.caught, disposition, ne_eq, not_true_eq_false, false_and,
      if_false]
    rfl

end

/-! ## The states of a campaign -/

/-- The campaign goes on with `rest`, in this state. -/
inductive Before (lib : Libraries) (space : FiniteSpace) (limits : ExplorationLimits)
    (runner : Nat → Schedule → Answer) (readings : Nat → Readings) (all : List Candidate)
    (start : Campaign) : List Candidate → Campaign → Prop
  | start : Before lib space limits runner readings all start all start
  | next {candidate : Candidate} {rest : List Candidate} {c c' : Campaign}
      (before : Before lib space limits runner readings all start (candidate :: rest) c)
      (open_ : (readings c.attempted).interruption (decide (limits.maxRuns ≤ c.attempted)) = none)
      (ran : runCandidate lib space limits runner readings c candidate = (c', none))
      (goes : c'.halt = false) : Before lib space limits runner readings all start rest c'

/-- How a campaign ends. -/
inductive Ends (lib : Libraries) (space : FiniteSpace) (limits : ExplorationLimits)
    (runner : Nat → Schedule → Answer) (readings : Nat → Readings) (all : List Candidate)
    (start : Campaign) : Campaign × Option String → Prop
  | through {c : Campaign} (before : Before lib space limits runner readings all start [] c) :
      Ends lib space limits runner readings all start (c, none)
  | interrupted {candidate : Candidate} {rest : List Candidate} {c : Campaign} {reason : String}
      (before : Before lib space limits runner readings all start (candidate :: rest) c) :
      Ends lib space limits runner readings all start (c.stop reason, none)
  | halted {candidate : Candidate} {rest : List Candidate} {c c' : Campaign}
      (before : Before lib space limits runner readings all start (candidate :: rest) c)
      (open_ : (readings c.attempted).interruption (decide (limits.maxRuns ≤ c.attempted)) = none)
      (ran : runCandidate lib space limits runner readings c candidate = (c', none))
      (halt : c'.halt = true) : Ends lib space limits runner readings all start (c', none)
  | thrown {candidate : Candidate} {rest : List Candidate} {c c' : Campaign} {what : String}
      (before : Before lib space limits runner readings all start (candidate :: rest) c)
      (open_ : (readings c.attempted).interruption (decide (limits.maxRuns ≤ c.attempted)) = none)
      (ran : runCandidate lib space limits runner readings c candidate = (c', some what)) :
      Ends lib space limits runner readings all start (c', some what)

theorem ends_from {all : List Candidate} {start : Campaign} {rest : List Candidate} :
    ∀ {c : Campaign}, Before lib space limits runner readings all start rest c →
      Ends lib space limits runner readings all start
        (campaign lib space limits runner readings rest c) := by
  induction rest with
  | nil => exact fun h => .through h
  | cons candidate rest ih =>
    intro c h
    unfold campaign
    split
    · exact .interrupted h
    · rename_i hopen
      split
      · rename_i hran
        exact .thrown h hopen hran
      · rename_i c' hran
        by_cases hhalt : c'.halt = true
        · rw [if_pos hhalt]
          exact .halted h hopen hran hhalt
        · rw [if_neg hhalt]
          exact ih (.next h hopen hran (Bool.not_eq_true _ ▸ hhalt))

/-- The campaign goes on behind a run that does not halt it. -/
theorem campaign_cons {candidate : Candidate} {rest : List Candidate}
    (hopen : (readings c.attempted).interruption (decide (limits.maxRuns ≤ c.attempted)) = none)
    (hran : runCandidate lib space limits runner readings c candidate = (c', none))
    (hgoes : c'.halt = false) :
    campaign lib space limits runner readings (candidate :: rest) c =
      campaign lib space limits runner readings rest c' := by
  conv => lhs; rw [campaign]
  rw [hopen, hran]
  dsimp only
  rw [hgoes]
  rfl

/-- The campaign over all candidates. -/
theorem campaign_ends (lib : Libraries) (space : FiniteSpace) (limits : ExplorationLimits)
    (runner : Nat → Schedule → Answer) (readings : Nat → Readings) (all : List Candidate)
    (start : Campaign) :
    Ends lib space limits runner readings all start
      (campaign lib space limits runner readings all start) := ends_from .start

end

/-! ## The result -/

section
variable {limits : ExplorationLimits} {s : Surroundings} {runner : Nat → Schedule → Answer}
  {actors : List ActorChain}

/-- The enumeration of a declared space. -/
def enumerated (space : FiniteSpace) (limits : ExplorationLimits) (s : Surroundings) :
    Enumeration :=
  enumerate (sortActors space.actors) space.maxPreemptions limits.maxEnumeratedSchedules s.visits

/-- What there is to run. -/
def eligible (space : FiniteSpace) (limits : ExplorationLimits) (s : Surroundings) :
    List Candidate :=
  candidates space (enumerated space limits s).schedules

/-- The campaign at its beginning. -/
def opening (space : FiniteSpace) (limits : ExplorationLimits) (s : Surroundings) : Campaign :=
  { stopReason := (enumerated space limits s).stopReason }

theorem exploreFinite_eq (hr : s.runner = some runner)
    (hd : declared lib.toJsonScan space limits true = .ok actors) :
    exploreFinite lib space limits s =
      report (enumerated space limits s)
        ((enumerated space limits s).schedules.length * space.inputs.length)
        (campaign lib space limits runner s.readings (eligible space limits s)
          (opening space limits s)).1
        (campaign lib space limits runner s.readings (eligible space limits s)
          (opening space limits s)).2 := by
  obtain ⟨rfl, -⟩ := declared_ok hd
  have hsome : s.runner.isSome = true := by rw [hr]; rfl
  unfold exploreFinite
  rw [hsome, hd, hr]
  rfl

/-- Every candidate prints. -/
theorem encodes_eligible (hw : ∀ input ∈ space.inputs, input.wf = true)
    (hd : declared lib.toJsonScan space limits true = .ok actors) :
    ∀ candidate ∈ eligible space limits s, Encodes lib candidate.schedule := by
  intro candidate hc
  unfold eligible candidates at hc
  obtain ⟨steps, hs, hc⟩ := List.mem_flatMap.mp hc
  obtain ⟨⟨input, k⟩, hk, rfl⟩ := List.mem_map.mp hc
  have hi : input ∈ space.inputs := List.mem_of_getElem? (List.mem_zipIdx_iff_getElem?.mp hk)
  obtain ⟨t, ht⟩ := enumerate_encodes (hw input hi) (declared_ok hd).2 hs hi
  exact encodes_of_encodeSchedule (hw input hi) ht

theorem complete_cases (h : (exploreFinite lib space limits s).complete = true) :
    ∃ runner actors, s.runner = some runner ∧
      declared lib.toJsonScan space limits true = .ok actors := by
  unfold exploreFinite at h
  split at h
  · rename_i hr hd
    rw [hr] at hd
    exact ⟨_, _, hr, hd⟩
  · cases h
  · cases h

theorem report_complete {r : Enumeration} {n : Nat} {c : Campaign} {thrown : Option String}
    (h : (report r n c thrown).complete = true) :
    thrown = none ∧ r.exhausted = true ∧ c.attempted = n ∧ c.completed = n ∧ c.halt = false := by
  unfold report at h
  dsimp only at h
  split at h
  · cases h
  · simp only [Bool.and_eq_true, beq_iff_eq, Bool.not_eq_true'] at h
    exact ⟨rfl, h.1.1.1, h.1.1.2, h.1.2, h.2⟩

theorem runs_report (r : Enumeration) (n : Nat) (c : Campaign) (thrown : Option String) :
    (report r n c thrown).runs = c.runs := by
  unfold report
  cases thrown <;> rfl

end

/-! ## A space of two actors -/

def sampleLibraries : Libraries where
  toJsonScan := sampleLib
  late := false
  invalidIterator := "cannot use key() for non-object iterators"
  runtimeError := "unexpected content"

/-- `a` and `b` have no point but their end; `x` says who is there. -/
def pairSpace : FiniteSpace where
  identity := sampleIdentity
  actors := [⟨⟨"a", "run"⟩, ["$done"]⟩, ⟨⟨"b", "run"⟩, ["$done"]⟩]
  inputs := [.obj []]
  maxPreemptions := 0
  stateVariables := ["x"]

def pairSchedule (first second : String) : Schedule :=
  pairSpace.candidate [⟨first, "$done"⟩, ⟨second, "$done"⟩] (.obj [])

/-- A runner that nothing interrupts. -/
def pairRun (runner : Nat → Schedule → Answer) : Surroundings where
  runner := some runner
  visits _ := none
  readings _ := {}

def seen (afterSteps : Nat) (x : Int) : Json :=
  .obj [("afterSteps", .int afterSteps), ("state", .obj [("x", .int x)])]

def pairObservations (first : String) : List Json :=
  [seen 0 0, seen 1 (if first = "a" then 1 else 2), seen 2 3]

/-- The events of an actor that ends at its permit. -/
def ends (actor : String) (step : Nat) : List Json :=
  [.obj [("actor", .str actor), ("kind", .str "permit"), ("ordinal", .int (2 * step)),
      ("step", .int step)],
    .obj [("actor", .str actor), ("checkpoint", .str "$done"), ("kind", .str "arrival"),
      ("ordinal", .int (2 * step + 1)), ("step", .int step)]]

def firstId : String := "0123456789abcdef0123456789abcdef"

def secondId : String := "123456789abcdef0123456789abcdef0"

/-- What a run of it would report. -/
def pairExecution (first second id : String) : Json :=
  .obj [("actors", .arr [.obj [("actor", .str "a"), ("operation", .str "run")],
      .obj [("actor", .str "b"), ("operation", .str "run")]]),
    ("cleanup", .str "confirmed"),
    ("events", .arr (ends first 0 ++ ends second 1)),
    ("executionId", .str id),
    ("observations", .arr (pairObservations first)),
    ("outcome", .str "completed"), ("passed", .bool true), ("remainingActors", .arr []),
    ("schedule", scheduleJson (pairSchedule first second)), ("scheduleCompleted", .bool true),
    ("schema", .str receiptSchema)]

theorem declared_pair : declared sampleLibraries.toJsonScan pairSpace {} true =
    .ok (sortActors pairSpace.actors) := by
  obtain ⟨t, ht⟩ : ∃ t, encodeSchedule sampleLibraries.toJsonScan (pairSchedule "a" "b") = .ok t :=
    encodeSchedule_of_size (n := 459) rfl (by decide) (by decide)
      ⟨by decide, rfl, by decide +kernel, by decide +kernel⟩ (by decide +kernel) (by decide)
  have hi : declareInputs sampleLibraries.toJsonScan { identity := pairSpace.identity, steps :=
      ((sortActors pairSpace.actors).map ActorChain.steps).flatten } [] pairSpace.inputs =
        .ok () := by
    change (do
      let _ ← encodeSchedule sampleLibraries.toJsonScan (pairSchedule "a" "b")
      _) = _
    rw [ht]
    rfl
  simp only [declared, hi]
  rfl

section
variable (runner : Nat → Schedule → Answer)

theorem enumerated_pair : enumerated pairSpace {} (pairRun runner) =
    { schedules := [[⟨"a", "$done"⟩, ⟨"b", "$done"⟩], [⟨"b", "$done"⟩, ⟨"a", "$done"⟩]]
      visits := 5 } := by
  show enumerate _ _ _ (fun _ => none) = _
  rfl

theorem eligible_pair : eligible pairSpace {} (pairRun runner) =
    [⟨pairSchedule "a" "b", 0⟩, ⟨pairSchedule "b" "a", 0⟩] := by
  rw [eligible, enumerated_pair]
  rfl

theorem opening_pair : opening pairSpace {} (pairRun runner) = { stopReason := "" } := by
  rw [opening, enumerated_pair]

end

theorem encodes_pair : Encodes sampleLibraries (pairSchedule "a" "b") ∧
    Encodes sampleLibraries (pairSchedule "b" "a") := by
  have he : ∀ candidate ∈ eligible pairSpace {} (pairRun fun _ _ => .throws .nonstandard),
      Encodes sampleLibraries candidate.schedule := encodes_eligible (by decide) declared_pair
  rewrite [eligible_pair] at he
  exact ⟨he ⟨pairSchedule "a" "b", 0⟩ List.mem_cons_self,
    he ⟨pairSchedule "b" "a", 0⟩ (List.mem_cons_of_mem _ List.mem_cons_self)⟩

end MirrorCpp.Exploration
