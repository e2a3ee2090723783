import MirrorCpp.Schedule.Binding

/-!
# What a binding session keeps

`Kept` is what holds of the records of a session, call or no call; `Stands` is what a session may
rely on at its place in a call. Together with the counts they are kept by every step.
-/

namespace MirrorCpp.Schedule

open Protocol Fallible
open Client (Exn)

variable {lib : JsonLib}

/-! ## One record -/

theorem passedRecord_receipt (x : Sys) :
    BindingSession.passedRecord lib x.receipt = x.state.report.passed := by
  have h := lib.eq_bool (.bool x.state.report.passed) true
  unfold BindingSession.passedRecord
  rw [Sys.receipt_passed, Bool.eq_iff_iff]
  simpa using h

theorem dumpSize_len {j : Json} {n : Nat} (h : lib.dumpSize j = some n) : n = lib.len j := by
  rw [lib.dumpSize_eq] at h
  obtain ⟨t, ht, rfl⟩ := Option.map_eq_some_iff.mp h
  rw [JsonLib.len, ht]; rfl

namespace BindingSession

/-- The generation of the execution, as long as it has no record. -/
def pending (s : BindingSession) : List Nat :=
  match s.execution with
  | some x => if s.retained then [] else [x.generation]
  | none => []

/-- The generation of the execution. -/
def current (s : BindingSession) : List Nat :=
  match s.execution with
  | some x => [x.generation]
  | none => []

/-- What holds of the records. -/
structure Kept (lib : JsonLib) (s : BindingSession) : Prop where
  records : s.executions = s.entries.map Entry.json
  complete : s.receiptComplete = s.entries.all Entry.fits
  bytes : s.receiptBytes = (s.entries.map (Entry.size lib)).sum
  bound : s.receiptBytes ≤ maxReceiptBytes
  /-- Every generation that was started has one record, but for that of the execution. -/
  owned : s.entries.map Entry.generation ++ s.pending = s.generations
  replaced : s.released.map Report.generation ++ s.current = s.generations
  passed : ∀ r ∈ s.released, r.passed = true
  vacant : s.execution = none → s.receiptComplete = true

variable {s t : BindingSession} {x y : Sys}

/-- The execution moves. -/
theorem Kept.moved (H : Kept lib s) (hx : s.execution = some x)
    (hg : y.generation = x.generation) : Kept lib { s with execution := some y } where
  records := H.records
  complete := H.complete
  bytes := H.bytes
  bound := H.bound
  owned := by
    have h := H.owned
    simp only [pending, hx] at h
    simpa only [pending, hg] using h
  replaced := by
    have h := H.replaced
    simp only [current, hx] at h
    simpa only [current, hg] using h
  passed := H.passed
  vacant := nofun

/-- `retain` does nothing, or it adds a record. -/
theorem retain_ok (h : s.retain lib = .ok t) :
    (t = s ∧ (s.execution = none ∨ s.retained = true)) ∨
    ∃ x fits, s.execution = some x ∧ s.retained = false ∧
      (fits = true → s.receiptBytes + Entry.size lib ⟨x, fits⟩ ≤ maxReceiptBytes) ∧
      t = { s.keep ⟨x, fits⟩ with
        receiptBytes := s.receiptBytes + Entry.size lib ⟨x, fits⟩
        receiptComplete := s.receiptComplete && fits } := by
  unfold retain at h
  split at h
  · rename_i hn
    cases h
    exact .inl ⟨rfl, .inl hn⟩
  · rename_i x hx
    split at h
    · rename_i hr
      cases h
      exact .inl ⟨rfl, .inr hr⟩
    · rename_i hr
      have hr : s.retained = false := by simpa using hr
      split at h
      · cases h
      · rename_i bytes hb
        have hb := dumpSize_len hb
        subst hb
        split at h
        · cases h
          refine .inr ⟨x, false, hx, hr, nofun, ?_⟩
          simp [Entry.size, keep]
        · rename_i hle
          cases h
          refine .inr ⟨x, true, hx, hr, fun _ => ?_, ?_⟩
          · simpa [Entry.size] using hle
          · simp [Entry.size, keep]

/-- What `retain` leaves alone. -/
structure Same (s t : BindingSession) : Prop where
  execution : t.execution = s.execution
  initializations : t.initializations = s.initializations
  disposed : t.disposed = s.disposed
  disposal : t.disposal = s.disposal
  generations : t.generations = s.generations
  released : t.released = s.released
  lost : t.lost = s.lost

theorem retain_same (h : s.retain lib = .ok t) : Same s t := by
  obtain ⟨rfl, -⟩ | ⟨x, fits, -, -, -, rfl⟩ := retain_ok h
  · exact ⟨rfl, rfl, rfl, rfl, rfl, rfl, rfl⟩
  · exact ⟨rfl, rfl, rfl, rfl, rfl, rfl, rfl⟩

theorem retain_pending (h : s.retain lib = .ok t) : t.pending = [] := by
  obtain ⟨rfl, hn | hr⟩ | ⟨x, fits, hx, -, -, rfl⟩ := retain_ok h
  · simp [pending, hn]
  · unfold pending
    split
    · rw [if_pos hr]
    · rfl
  · simp [pending, keep, hx]

theorem Kept.retain (H : Kept lib s) (h : s.retain lib = .ok t) : Kept lib t := by
  have hp := retain_pending h
  obtain ⟨rfl, -⟩ | ⟨x, fits, hx, hr, hb, rfl⟩ := retain_ok h
  · exact H
  · have hs : s.pending = [x.generation] := by simp [pending, hx, hr]
    have hlen : ((s.entries ++ [(⟨x, fits⟩ : Entry)]).map (Entry.size lib)).sum =
        s.receiptBytes + Entry.size lib ⟨x, fits⟩ := by
      rw [List.map_append, List.sum_append, ← H.bytes]; simp
    constructor
    · simp [keep, H.records]
    · simp [keep, H.complete]
    · exact hlen.symm
    · cases fits with
      | true => exact hb rfl
      | false => simpa [Entry.size] using H.bound
    · rw [hp, List.append_nil]
      have := H.owned
      rw [hs] at this
      simpa [keep, Entry.generation] using this
    · simpa [keep, current] using H.replaced
    · exact H.passed
    · intro hn
      rw [show s.execution = none from hn] at hx; cases hx

/-- The next generation is about to start. -/
theorem Kept.begin (H : Kept lib s) (hc : s.receiptComplete = true) (hp : s.pending = [])
    {rs : List Report} (hr : rs.map Report.generation = s.current)
    (hrs : ∀ r ∈ rs, r.passed = true) :
    Kept lib { s.begin with released := s.released ++ rs } where
  records := H.records
  complete := H.complete
  bytes := H.bytes
  bound := H.bound
  owned := by
    have h := H.owned
    rw [hp] at h
    exact h
  replaced := by
    have h := H.replaced
    rw [← hr, ← List.map_append] at h
    simpa [current, BindingSession.begin] using h
  passed r hm := by
    obtain hm | hm := List.mem_append.mp hm
    · exact H.passed r hm
    · exact hrs r hm
  vacant _ := hc

/-- Disposal concerns no record. -/
theorem Kept.closed (H : Kept lib s) (d : Bool) (n : Nat) (r : Result Unit) :
    Kept lib { s with disposed := d, disposals := n, disposal := r } :=
  ⟨H.records, H.complete, H.bytes, H.bound, H.owned, H.replaced, H.passed, H.vacant⟩

end BindingSession

/-! ## The calls -/

open BindingSession

variable {b c : Binding} {s : BindingSession} {x y : Sys}

/-- An initialisation that is counted and has not started its generation yet. -/
def Point.counted : Point → Nat
  | .opening => 1
  | _ => 0

/-- Nothing was disposed, nor is it being disposed. -/
structure Undisposed (b : Binding) : Prop where
  disposed : b.session.disposed = false
  disposal : b.session.disposal = .ok ()
  answers : ∀ r, Answer.disposed r ∉ b.answers

/-- The call that disposes is under way. -/
structure Disposing (b : Binding) : Prop where
  disposed : b.session.disposed = true
  disposal : b.session.disposal = .ok ()
  answers : ∀ r, Answer.disposed r ∉ b.answers

structure Disposed (b : Binding) : Prop where
  disposed : b.session.disposed = true
  answers : ∀ r, Answer.disposed r ∈ b.answers → r = b.session.disposal
  clean : b.session.disposal = .ok () → b.session.pending = []

/-- What a session may rely on at its place. -/
def Stands (b : Binding) : Prop :=
  match b.point with
  | .idle => Undisposed b ∨ Disposed b
  | .finishing => Undisposed b ∧ b.session.initializations < maxExecutions
  | .finished prior => Undisposed b ∧ b.session.initializations < maxExecutions ∧
      [prior.generation] = b.session.current
  | .opening => Undisposed b ∧ b.session.execution = none ∧ b.session.retained = false ∧
      b.session.receiptComplete = true
  | .disposing | .wound _ => Disposing b
  | .starting | .advancing => Undisposed b

structure Booked (lib : JsonLib) (b : Binding) : Prop where
  kept : Kept lib b.session
  count : b.session.initializations =
    b.session.generations.length + b.session.lost + b.point.counted
  limit : b.session.initializations ≤ maxExecutions
  rising : b.session.generations.Pairwise (· < ·)
  fresh : ∀ g ∈ b.session.generations, g < b.nextGeneration
  stands : Stands b

namespace Booked

/-- A call returns that has counted nothing. -/
theorem answer (H : Booked lib b) (hp : b.point.counted = 0) (hk : Kept lib s)
    (hi : s.initializations = b.session.initializations)
    (hg : s.generations = b.session.generations) (hl : s.lost = b.session.lost) {a : Answer}
    (hs : Undisposed (b.answer s a) ∨ Disposed (b.answer s a)) : Booked lib (b.answer s a) where
  kept := hk
  count := by
    have h := H.count
    rw [hp] at h
    rw [show (b.answer s a).session = s from rfl, hi, hg, hl, h]; rfl
  limit := by
    rw [show (b.answer s a).session = s from rfl, hi]; exact H.limit
  rising := by
    rw [show (b.answer s a).session = s from rfl, hg]; exact H.rising
  fresh g hm := H.fresh g (by rw [← hg]; exact hm)
  stands := hs

/-- The execution moves. -/
theorem during (H : Booked lib b) {p : Point} (hx : b.session.execution = some x)
    (hg : y.generation = x.generation) (hc : p.counted = b.point.counted)
    (hs : Stands (b.during y p)) : Booked lib (b.during y p) where
  kept := H.kept.moved hx hg
  count := by rw [show (b.during y p).point = p from rfl, hc]; exact H.count
  limit := H.limit
  rising := H.rising
  fresh := H.fresh
  stands := hs

end Booked

theorem Undisposed.answer (H : Undisposed b) {a : Answer} (hd : s.disposed = false)
    (hr : s.disposal = .ok ()) (ha : ∀ r, a ≠ .disposed r) : Undisposed (b.answer s a) where
  disposed := hd
  disposal := hr
  answers r hm := by
    obtain hm | hm := List.mem_append.mp hm
    · exact H.answers r hm
    · exact ha r (List.mem_singleton.mp hm).symm

theorem Disposed.answer (H : Disposed b) {a : Answer}
    (ha : ∀ r, a = .disposed r → r = b.session.disposal) : Disposed (b.answer b.session a) where
  disposed := H.disposed
  answers r hm := by
    obtain hm | hm := List.mem_append.mp hm
    · exact H.answers r hm
    · exact ha r (List.mem_singleton.mp hm).symm
  clean := H.clean

/-- The first disposal ends. -/
theorem Disposed.first (ha : ∀ r, Answer.disposed r ∉ b.answers) (hd : s.disposed = true)
    (hs : s.disposal = .ok () → s.pending = []) :
    Disposed (b.answer s (.disposed s.disposal)) where
  disposed := hd
  answers r hm := by
    obtain hm | hm := List.mem_append.mp hm
    · exact absurd hm (ha r)
    · exact Answer.disposed.inj (List.mem_singleton.mp hm)
  clean := hs

namespace Booked

theorem idle (H : Booked lib b) (hp : b.point = .idle) : Undisposed b ∨ Disposed b := by
  have h := H.stands
  unfold Stands at h
  rwa [hp] at h

/-- A call that leaves the session as it was. -/
theorem same (H : Booked lib b) (hp : b.point.counted = 0) (hs : Undisposed b ∨ Disposed b)
    {a : Answer} (ha : ∀ r, a ≠ .disposed r) : Booked lib (b.answer b.session a) := by
  refine H.answer hp H.kept rfl rfl rfl ?_
  obtain hu | hd := hs
  · exact .inl (hu.answer hu.disposed hu.disposal ha)
  · exact .inr (hd.answer fun r hr => absurd hr (ha r))

theorem initialize_ (H : Booked lib b) (hp : b.point = .idle) (owner : Bool) :
    Booked lib (b.initialize_ owner) := by
  have hc : b.point.counted = 0 := by rw [hp]; rfl
  unfold Binding.initialize_
  dsimp only
  split
  · exact H.same hc (H.idle hp) nofun
  · rename_i hl
    simp only [Bool.or_eq_true, decide_eq_true_eq, not_or, Bool.not_eq_true] at hl
    have hu : Undisposed b := by
      obtain hu | hd := H.idle hp
      · exact hu
      · rw [hd.disposed] at hl; exact absurd hl.1 (by decide)
    split
    · rename_i hn
      have hpend : b.session.pending = [] := by simp [pending, hn]
      have hcur : b.session.current = [] := by simp [current, hn]
      have hk := @Kept.begin _ _ H.kept (H.kept.vacant hn) hpend [] hcur.symm (by simp)
      rw [List.append_nil] at hk
      constructor
      · exact hk
      · have h := H.count
        rw [hc] at h
        exact congrArg (· + 1) h
      · have h := hl.2
        exact Nat.lt_of_not_le h
      · exact H.rising
      · exact H.fresh
      · exact ⟨⟨hu.disposed, hu.disposal, hu.answers⟩, rfl, rfl, H.kept.vacant hn⟩
    · rename_i x hx
      split
      · exact H.during hx (Sys.generation_finish x) hc.symm
          ⟨⟨hu.disposed, hu.disposal, hu.answers⟩, Nat.lt_of_not_le hl.2⟩
      · exact H.same hc (.inl hu) nofun

theorem replace (H : Booked lib b) {prior : Report} (hp : b.point = .finished prior) :
    Booked lib (b.replace lib prior) := by
  have hc : b.point.counted = 0 := by rw [hp]; rfl
  obtain ⟨hu, hl, hg⟩ : Undisposed b ∧ b.session.initializations < maxExecutions ∧
      [prior.generation] = b.session.current := by
    have h := H.stands
    unfold Stands at h
    rwa [hp] at h
  unfold Binding.replace
  dsimp only
  split
  · exact H.same hc (.inl hu) nofun
  · rename_i s hs
    have hk := H.kept.retain hs
    have hsame := retain_same hs
    have hd : s.disposed = false := hsame.disposed.trans hu.disposed
    have hr : s.disposal = .ok () := hsame.disposal.trans hu.disposal
    split
    · exact H.answer hc hk hsame.initializations hsame.generations hsame.lost
        (.inl (hu.answer hd hr nofun))
    · rename_i hok
      simp only [Bool.or_eq_true, Bool.not_eq_true', not_or, Bool.not_eq_false] at hok
      have hcur : [prior.generation] = s.current := by
        rw [hg, current, current, hsame.execution]
      have hn : s.initializations = s.generations.length + s.lost := by
        rw [hsame.initializations, hsame.generations, hsame.lost, H.count, hc]; rfl
      constructor
      · exact @Kept.begin _ _ hk hok.2 (retain_pending hs) [prior] hcur (by simpa using hok.1)
      · exact congrArg (· + 1) hn
      · exact Nat.succ_le_of_lt (hsame.initializations ▸ hl)
      · exact hsame.generations ▸ H.rising
      · exact hsame.generations ▸ H.fresh
      · exact ⟨⟨hd, hr, hu.answers⟩, rfl, rfl, hok.2⟩

theorem start {lib : JsonScan} (H : Booked lib.toJsonLib b) (hp : b.point = .opening)
    (st : Starting) : Booked lib.toJsonLib (b.start lib st) := by
  obtain ⟨hu, hn, hr, hc⟩ : Undisposed b ∧ b.session.execution = none ∧
      b.session.retained = false ∧ b.session.receiptComplete = true := by
    have h := H.stands
    unfold Stands at h
    rwa [hp] at h
  have hg := Sys.generation_start lib (b.opening st)
  constructor
  · refine ⟨H.kept.records, H.kept.complete, H.kept.bytes, H.kept.bound, ?_, ?_, H.kept.passed,
      fun _ => hc⟩
    · have h := H.kept.owned
      simp only [pending, hn, List.append_nil] at h
      simp [Binding.start, pending, hr, hg, h]
    · have h := H.kept.replaced
      simp only [current, hn, List.append_nil] at h
      simp only [Binding.start, current, hg, h]
  · have h := H.count
    rw [hp] at h
    simp only [Binding.start, Point.counted, List.length_append, List.length_singleton] at h ⊢
    omega
  · exact H.limit
  · refine List.pairwise_append.mpr ⟨H.rising, List.pairwise_singleton _ _, fun g hm k hk => ?_⟩
    rw [List.mem_singleton.mp hk]
    exact Nat.lt_of_lt_of_le (H.fresh g hm) (Nat.le_add_right _ _)
  · intro g hm
    obtain hm | hm := List.mem_append.mp hm
    · exact Nat.lt_of_lt_of_le (H.fresh g hm)
        (Nat.le_succ_of_le (Nat.le_add_right _ _))
    · rw [List.mem_singleton.mp hm]
      exact Nat.lt_succ_self _
  · exact ⟨hu.disposed, hu.disposal, hu.answers⟩

theorem startThrew (H : Booked lib b) (hp : b.point = .opening) (e : Exn) :
    Booked lib (b.startThrew e) := by
  have h := H.stands
  unfold Stands at h
  rw [hp] at h
  obtain ⟨hu, -, -, -⟩ := h
  constructor
  · exact ⟨H.kept.records, H.kept.complete, H.kept.bytes, H.kept.bound, H.kept.owned,
      H.kept.replaced, H.kept.passed, H.kept.vacant⟩
  · have h := H.count
    rw [hp] at h
    exact h
  · exact H.limit
  · exact H.rising
  · exact H.fresh
  · exact .inl (hu.answer (s := { b.session with lost := b.session.lost + 1 }) hu.disposed
      hu.disposal nofun)

theorem advance (H : Booked lib b) (hp : b.point = .idle) (requested : Step)
    (owner late : Bool) : Booked lib (b.advance requested owner late) := by
  have hc : b.point.counted = 0 := by rw [hp]; rfl
  have hi := H.idle hp
  unfold Binding.advance
  dsimp only
  split
  · rename_i x hl hx
    split
    · exact H.same hc hi nofun
    · split
      · exact H.same hc hi nofun
      · obtain hu | hd := hi
        · exact H.during hx (Sys.generation_advance x requested late) hc.symm
            ⟨hu.disposed, hu.disposal, hu.answers⟩
        · simp [live, hd.disposed] at hl
  · exact H.same hc hi nofun

/-- The first disposal ends in `r`. -/
theorem first (H : Booked lib b) (hp : b.point.counted = 0)
    (ha : ∀ r, Answer.disposed r ∉ b.answers) (hk : Kept lib s)
    (hi : s.initializations = b.session.initializations)
    (hg : s.generations = b.session.generations) (hl : s.lost = b.session.lost)
    (hd : s.disposed = true) {r : Result Unit} (hs : r = .ok () → s.pending = []) :
    Booked lib (b.answer { s with disposal := r } (.disposed r)) :=
  H.answer hp (hk.closed s.disposed s.disposals r) hi hg hl
    (.inr (Disposed.first (s := { s with disposal := r }) ha hd hs))

theorem dispose (H : Booked lib b) (hp : b.point = .idle) (owner : Bool) :
    Booked lib (b.dispose owner) := by
  have hc : b.point.counted = 0 := by rw [hp]; rfl
  unfold Binding.dispose
  split
  · rename_i hd
    obtain hu | hd' := H.idle hp
    · rw [hu.disposed] at hd; cases hd
    · exact H.answer hc H.kept rfl rfl rfl
        (.inr (hd'.answer fun r hr => (Answer.disposed.inj hr).symm))
  · rename_i hd
    obtain hu | hd' := H.idle hp
    · have hk := H.kept.closed true (b.session.disposals + 1) b.session.disposal
      have hfail : ∀ what, Booked lib (b.answer
          { b.session with
            disposed := true
            disposals := b.session.disposals + 1
            disposal := .error (cleanupError what) }
          (.disposed (.error (cleanupError what)))) := fun what =>
        H.first hc hu.answers hk rfl rfl rfl rfl nofun
      have hduring : ∀ {x y : Sys}, b.session.execution = some x → y.generation = x.generation →
          Booked lib ({ b with session := { b.session with
            disposed := true
            disposals := b.session.disposals + 1 } }.during y .disposing) := fun hx hg =>
        ⟨hk.moved hx hg, by rw [Binding.during, H.count, hc]; rfl, H.limit, H.rising, H.fresh,
          ⟨rfl, hu.disposal, hu.answers⟩⟩
      dsimp only
      split
      · rename_i hn
        exact H.first hc hu.answers hk rfl rfl rfl rfl fun _ => by simp [pending, hn]
      · rename_i x hx
        split
        · split
          · exact hduring hx (Sys.generation_finish x)
          · exact hfail _
        · split
          · exact hfail _
          · split
            · exact hfail _
            · exact hduring hx (Sys.generation_cleanup x _)
    · rw [hd'.disposed] at hd; exact absurd rfl hd

theorem conclude (H : Booked lib b) {after : Report} (hp : b.point = .wound after) :
    Booked lib (b.conclude lib after) := by
  have hc : b.point.counted = 0 := by rw [hp]; rfl
  have hd : Disposing b := by
    have h := H.stands
    unfold Stands at h
    rwa [hp] at h
  unfold Binding.conclude
  dsimp only
  split
  · exact H.first hc hd.answers H.kept rfl rfl rfl hd.disposed nofun
  · rename_i s hs
    have hsame := retain_same hs
    have hfirst : ∀ r, Booked lib (b.answer { s with disposal := r } (.disposed r)) := fun r =>
      H.first hc hd.answers (H.kept.retain hs) hsame.initializations hsame.generations hsame.lost
        (hsame.disposed.trans hd.disposed) fun _ => retain_pending hs
    split
    · exact hfirst _
    · split
      · exact hfirst _
      · exact hfirst _

/-- Another place in the same call. -/
theorem onward (H : Booked lib b) {p : Point} (hc : p.counted = b.point.counted)
    (hs : Stands { b with point := p }) : Booked lib { b with point := p } :=
  ⟨H.kept, by rw [H.count, ← hc], H.limit, H.rising, H.fresh, hs⟩

theorem proceed (H : Booked lib b) (h : b.proceed lib = some c) : Booked lib c := by
  have hst := H.stands
  unfold Stands at hst
  unfold Binding.proceed at h
  split at h
  · cases h; exact H.replace ‹_›
  · cases h; exact H.conclude ‹_›
  · split at h
    · cases h
    · rename_i x hx
      dsimp only at h
      split at h
      · cases h
      · cases hp : b.point with
        | finishing =>
          rw [hp] at h hst
          cases h
          refine H.onward (by rw [hp]; rfl) ⟨⟨hst.1.disposed, hst.1.disposal, hst.1.answers⟩,
            hst.2, ?_⟩
          rw [current, hx]; rfl
        | starting | advancing =>
          rw [hp] at h hst
          cases h
          exact H.same (by rw [hp]; rfl) (.inl hst) nofun
        | disposing =>
          rw [hp] at h hst
          cases h
          exact H.onward (by rw [hp]; rfl) ⟨hst.disposed, hst.disposal, hst.answers⟩
        | idle | opening | finished | wound =>
          rw [hp] at h
          cases h

/-- The execution moves on its own. -/
theorem inner (H : Booked lib b) {k : Choice} (hx : b.session.execution = some x)
    (h : x.step lib k = some y) : Booked lib (b.during y b.point) := by
  have hg := Sys.generation_step h
  have hst := H.stands
  refine H.during hx hg rfl ?_
  unfold Stands at hst ⊢
  rw [show (b.during y b.point).point = b.point from rfl]
  cases hp : b.point with
  | idle =>
    rw [hp] at hst
    obtain hu | hd := hst
    · exact .inl ⟨hu.disposed, hu.disposal, hu.answers⟩
    · refine .inr ⟨hd.disposed, hd.answers, fun hok => ?_⟩
      have hp := hd.clean hok
      simp only [pending, hx] at hp
      simpa [pending, Binding.during, hg] using hp
  | finished prior =>
    rw [hp] at hst
    refine ⟨⟨hst.1.disposed, hst.1.disposal, hst.1.answers⟩, hst.2.1, ?_⟩
    have hc := hst.2.2
    simp only [current, hx] at hc
    simpa [current, Binding.during, hg] using hc
  | opening =>
    rw [hp] at hst
    rw [hst.2.1] at hx; cases hx
  | finishing =>
    rw [hp] at hst
    exact ⟨⟨hst.1.disposed, hst.1.disposal, hst.1.answers⟩, hst.2⟩
  | starting | advancing | disposing | wound =>
    rw [hp] at hst
    exact ⟨hst.disposed, hst.disposal, hst.answers⟩

theorem step {lib : JsonScan} (H : Booked lib.toJsonLib b) {a : Act}
    (h : b.step lib a = some c) : Booked lib.toJsonLib c := by
  cases a with
  | inner k =>
    simp only [Binding.step] at h
    split at h
    · rename_i x hx
      split at h
      · cases h
      · obtain ⟨y, hy, rfl⟩ := Option.map_eq_some_iff.mp h
        exact H.inner hx hy
    · cases h
  | proceed => exact H.proceed h
  | start | startThrew =>
    simp only [Binding.step] at h
    split at h
    · rename_i hp
      cases h
      first | exact H.start hp _ | exact H.startThrew hp _
    · cases h
  | initialize_ | advance | dispose =>
    simp only [Binding.step] at h
    split at h
    · rename_i hp
      cases h
      first | exact H.initialize_ hp _ | exact H.advance hp _ _ _ | exact H.dispose hp _
    · cases h
  | observation | receipt =>
    simp only [Binding.step] at h
    split at h
    · rename_i hp
      cases h
      exact H.same (by rw [hp]; rfl) (H.idle hp) nofun
    · cases h

theorem reach {lib : JsonScan} (h : (bindings lib).Reach b) : Booked lib.toJsonLib b := by
  refine h.inv ?_ fun b a c H _ hs => H.step hs
  rintro b ⟨schedule, adapter, policy, next, rfl⟩
  refine ⟨⟨rfl, rfl, rfl, ?_, rfl, rfl, nofun, fun _ => rfl⟩, rfl, ?_, .nil, nofun,
    .inl ⟨rfl, rfl, nofun⟩⟩
  · exact Nat.zero_le _
  · exact Nat.zero_le _

end Booked

/-! ## What is asked of the evidence -/

namespace BindingSession

/-- Every generation that was started has its own receipt. -/
structure Receipted (s : BindingSession) (xs : List Sys) : Prop where
  receipts : s.executions = xs.map Sys.receipt
  own : xs.map Sys.generation = s.generations
  distinct : s.generations.Nodup

/-- All that was started has passed, and its receipt is retained. -/
structure Cleared (s : BindingSession) : Prop where
  receipted : ∃ xs, s.Receipted xs
  finished : s.released.map Report.generation = s.generations
  passed : ∀ r ∈ s.released, r.passed = true

/-- Disposed of without an error, and every generation has its own receipt, which says that it
passed. -/
structure Evident (s : BindingSession) : Prop where
  disposed : s.disposed = true
  clean : s.disposal = .ok ()
  some : s.executions ≠ []
  passed : ∃ xs, s.Receipted xs ∧ ∀ x ∈ xs, x.state.report.passed = true

end BindingSession

/-- All disposals come to the same. -/
theorem Booked.disposals (H : Booked lib b) {r : Result Unit} (hm : .disposed r ∈ b.answers) :
    r = b.session.disposal := by
  have h := H.stands
  unfold Stands at h
  cases hp : b.point with
  | idle =>
    obtain hu | hd := H.idle hp
    · exact absurd hm (hu.answers r)
    · exact hd.answers r hm
  | starting | advancing | disposing | wound =>
    rw [hp] at h
    exact absurd hm (h.answers r)
  | finishing | finished | opening =>
    rw [hp] at h
    exact absurd hm (h.1.answers r)

/-- A complete session without an execution of its own has the receipts of all generations. -/
theorem Booked.receipted (H : Booked lib b) (hc : b.session.receiptComplete = true)
    (hp : b.session.pending = []) : b.session.Receipted (b.session.entries.map Entry.source) := by
  have hfits : ∀ e ∈ b.session.entries, e.fits = true :=
    List.all_eq_true.mp (H.kept.complete.symm.trans hc)
  refine ⟨?_, ?_, H.rising.imp fun h => Nat.ne_of_lt h⟩
  · rw [H.kept.records, List.map_map]
    exact List.map_congr_left fun e he => by simp [Entry.json, hfits e he]
  · have h := H.kept.owned
    rw [hp, List.append_nil] at h
    rw [List.map_map]
    exact h

theorem Booked.cleared (H : Booked lib b) (hp : b.point = .opening) : b.session.Cleared := by
  have h := H.stands
  unfold Stands at h
  rw [hp] at h
  obtain ⟨-, hn, -, hc⟩ := h
  have hr := H.kept.replaced
  simp only [current, hn, List.append_nil] at hr
  exact ⟨⟨_, H.receipted hc (by simp [pending, hn])⟩, hr, H.kept.passed⟩

theorem Booked.evident (H : Booked lib b) (hp : b.point = .idle)
    (hf : b.session.fullyCompleted lib = true) : b.session.Evident ∧
      (b.session.executions.length = b.session.initializations ↔ b.session.lost = 0) := by
  simp only [fullyCompleted, Bool.and_eq_true, bne_iff_ne, ne_eq, Bool.not_eq_true',
    List.isEmpty_eq_false_iff] at hf
  obtain ⟨⟨⟨⟨⟨hd, -⟩, hc⟩, hr⟩, hsome⟩, hall⟩ := hf
  have hclean : b.session.disposal = .ok () := by
    revert hr
    generalize b.session.disposal = r
    cases r with
    | ok u => exact fun _ => rfl
    | error e => exact nofun
  have hpend : b.session.pending = [] := by
    obtain hu | hd' := H.idle hp
    · rw [hu.disposed] at hd; cases hd
    · exact hd'.clean hclean
  have hxs := H.receipted hc hpend
  refine ⟨⟨hd, hclean, hsome, _, hxs, fun x hx => ?_⟩, ?_⟩
  · have hm : x.receipt ∈ b.session.executions := by
      rw [hxs.receipts]
      exact List.mem_map_of_mem hx
    rw [← @passedRecord_receipt lib]
    exact List.all_eq_true.mp hall _ hm
  · have hlen : b.session.executions.length = b.session.generations.length := by
      rw [hxs.receipts, ← hxs.own]; simp
    have h := H.count
    rw [hp] at h
    simp only [Point.counted] at h
    omega

/-- A start that returns. -/
def Act.returns : Act → Bool
  | .startThrew _ => false
  | _ => true

theorem lost_replace (b : Binding) (prior : Report) :
    (b.replace lib prior).session.lost = b.session.lost := by
  unfold Binding.replace
  dsimp only
  split
  · rfl
  · rename_i s hs
    have hl := (retain_same hs).lost
    split <;> exact hl

theorem lost_conclude (b : Binding) (after : Report) :
    (b.conclude lib after).session.lost = b.session.lost := by
  unfold Binding.conclude
  dsimp only
  split
  · rfl
  · rename_i s hs
    have hl := (retain_same hs).lost
    split
    · exact hl
    · split <;> exact hl

theorem lost_proceed (h : b.proceed lib = some c) : c.session.lost = b.session.lost := by
  unfold Binding.proceed at h
  split at h
  · cases h; exact lost_replace b _
  · cases h; exact lost_conclude b _
  · split at h
    · cases h
    · dsimp only at h
      repeat' split at h
      all_goals cases h <;> rfl

/-- Only a start that throws is lost. -/
theorem lost_step {lib : JsonScan} {a : Act} (h : b.step lib a = some c) :
    c.session.lost = b.session.lost + if a.returns then 0 else 1 := by
  cases a with
  | proceed => exact lost_proceed h
  | inner k =>
    simp only [Binding.step] at h
    split at h
    · split at h
      · cases h
      · obtain ⟨y, -, rfl⟩ := Option.map_eq_some_iff.mp h
        rfl
    · cases h
  | initialize_ | advance | dispose =>
    simp only [Binding.step] at h
    split at h
    · cases h
      simp only [Binding.initialize_, Binding.advance, Binding.dispose, Act.returns, if_true,
        Nat.add_zero]
      repeat' split
      all_goals rfl
    · cases h
  | start | startThrew | observation | receipt =>
    simp only [Binding.step] at h
    split at h <;> cases h
    rfl

theorem lost_reach {lib : JsonScan} (h : (bindings lib).ReachBy (fun _ a => a.returns = true) b) :
    b.session.lost = 0 := by
  refine h.inv (P := fun b => b.session.lost = 0) ?_ fun b a c hb ha hs => ?_
  · rintro b ⟨schedule, adapter, policy, next, rfl⟩
    rfl
  · rw [lost_step hs, hb, if_pos ha]

end MirrorCpp.Schedule
