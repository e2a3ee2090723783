import MirrorCpp.Client.Session
import MirrorCpp.Client.Conformance

/-!
# The traffic of exploration sessions

Each transport goes through rounds, one send and one receive, until an operation ends them by a
close; from then on nothing passes. A program may move its sessions around meanwhile: one variable
at most owns a transport.
-/

namespace MirrorCpp.Client

open Itf Protocol

variable {ι κ : Type}

/-! ## One operation -/

namespace Entry

def Succeeds (e : Entry κ) : Prop := e.result = .ok (.ok ())

/-- What passed in the operation: the command, and the message that answers it. -/
def Exchanged (lib : Library) (e : Entry κ) (ts : List Traffic) : Prop :=
  ∃ line reply m, ts = [.send line, .recv reply] ∧ lib.encode e.op.message = some line ∧
    answer lib reply = some m ∧ e.op.answeredBy m = true

/-- An operation that went well and left the session open. -/
def Round (lib : Library) (e : Entry κ) : Prop :=
  e.op.isDone = false ∧ e.Succeeds ∧ e.Exchanged lib e.traffic

/-- An operation that closed the transport. -/
def Last (lib : Library) (e : Entry κ) : Prop :=
  ∃ ts, e.traffic = ts ++ [.close] ∧
    (∃ line, ts = [.send line] ∨ ∃ reply, ts = [.send line, .recv reply]) ∧
    (e.Succeeds → e.op.isDone = true ∧ e.Exchanged lib ts)

/-- An operation on a closed session. -/
def Silent (e : Entry κ) : Prop := e.traffic = [] ∧ (e.Succeeds → e.op.isDone = true)

end Entry

/-- The codec returns in an operation. -/
def CodecReturns (lib : Library) (op : Op) (a : Answers) : Prop :=
  (lib.encode op.message).isSome = true ∧
    ∀ line, a.recv = .ok line → ∃ r, lib.decode line = .ok r

namespace Session

variable {lib : Library} {s : Session κ} {a : Answers} {k : κ}

/-- A session in use. -/
structure Open (s : Session κ) (k : κ) : Prop where
  transport : s.transport = some k
  done : s.done = false
  guard : s.guard = .exploring

theorem Open.not_closed (h : s.Open k) : s.isClosed = false := by
  simp [isClosed, h.transport, h.done]

/-- What an operation on an open session comes to: an answer, or an abort. -/
inductive Asked {α : Type} (lib : Library) (s : Session κ) (line : String)
    (pick : MirrorMessage → Option α) : Outcome κ α → Prop where
  | answered {reply : Reply} {m : MirrorMessage} {guard : Phase} {v : α} :
    answer lib reply = some m → Phase.received .exploring m = .ok guard → pick m = some v →
    Asked lib s line pick ⟨{ s with guard }, [.send line, .recv reply], .ok (.ok v)⟩
  | aborted {guard : Phase} {ts : List Traffic} {e : Error} :
    (ts = [.send line] ∨ ∃ reply, ts = [.send line, .recv reply]) →
    Asked lib s line pick (abort { s with guard } ts e)

theorem command_asked {msg : ClientMessage} (h : s.Open k) (hm : msg.isCommand = true)
    {line : String} (hline : lib.encode msg = some line)
    (hdec : ∀ line, a.recv = .ok line → ∃ r, lib.decode line = .ok r) :
    Asked lib s line some (s.command lib a msg) := by
  unfold command
  rw [h.not_closed, sent_command hm, h.guard]
  simp only [Bool.false_eq_true, if_false, ne_eq, not_true, hline]
  cases a.send with
  | some e => exact .aborted (.inl rfl)
  | none =>
    cases hr : a.recv with
    | error e => exact .aborted (.inr ⟨_, rfl⟩)
    | ok text =>
      obtain ⟨r, hd⟩ := hdec text hr
      simp only [hd]
      split
      · rename_i hx
        cases hx
      · exact .aborted (.inr ⟨_, rfl⟩)
      · exact .aborted (.inr ⟨_, rfl⟩)
      · rename_i m _ hm
        obtain rfl : r = .ok m := Except.ok.inj hm
        cases hg : Phase.received .exploring m with
        | error e => exact .aborted (.inr ⟨_, rfl⟩)
        | ok guard => exact .answered (answer_eq hd) hg rfl

theorem ask_asked {α : Type} {msg : ClientMessage} {expected : String}
    {pick : MirrorMessage → Option α} (h : s.Open k) (hm : msg.isCommand = true)
    {line : String} (hline : lib.encode msg = some line)
    (hdec : ∀ line, a.recv = .ok line → ∃ r, lib.decode line = .ok r) :
    Asked lib s line pick (s.ask lib a msg expected pick) := by
  unfold ask
  have hc := command_asked h hm hline hdec
  generalize s.command lib a msg = o at hc ⊢
  cases hc with
  | aborted hts => exact .aborted hts
  | answered ha hg hv =>
    cases hv
    dsimp only
    split
    · rename_i hp
      exact .answered ha hg hp
    · exact .aborted (.inr ⟨_, rfl⟩)

/-- What an operation on an open session does: a round, or the last operation. -/
inductive Performed (lib : Library) (s : Session κ) (k : κ) (op : Op) : Outcome κ Unit → Prop where
  | round {o : Outcome κ Unit} : o.session.Open k → (entryOf s op o).Round lib →
    Performed lib s k op o
  | last {o : Outcome κ Unit} : o.session.done = true →
    (o.session.transport = some k ∨ o.session.transport = none) →
    (entryOf s op o).Last lib → Performed lib s k op o

theorem performed_aborted {α : Type} {op : Op} {line : String} {guard : Phase}
    {ts : List Traffic} {e : Error} (h : s.Open k)
    (hts : ts = [.send line] ∨ ∃ reply, ts = [.send line, .recv reply]) :
    Performed lib s k op (abort (α := α) { s with guard } ts e).void :=
  .last rfl (.inl h.transport) ⟨ts, rfl, ⟨line, hts⟩, nofun⟩

/-- Replies but the end of the session leave it exploring. -/
theorem guard_of_answered {op : Op} {m : MirrorMessage} {guard : Phase}
    (hop : op.isDone = false) (hm : op.answeredBy m = true)
    (hg : Phase.received .exploring m = .ok guard) : guard = .exploring := by
  cases op <;> cases m <;> first | (cases hm; done) | (cases hop; done) | (cases hg; rfl)

theorem performed_ask {α : Type} {op : Op} {expected : String} {pick : MirrorMessage → Option α}
    (h : s.Open k) (hop : op.isDone = false) (hc : CodecReturns lib op a)
    (hpick : ∀ m v, pick m = some v → op.answeredBy m = true) :
    Performed lib s k op (s.ask lib a op.message expected pick).void := by
  obtain ⟨line, hline⟩ := Option.isSome_iff_exists.mp hc.1
  have ha := @ask_asked _ _ _ _ _ _ _ expected pick h op.message_isCommand _ hline hc.2
  generalize s.ask lib a op.message expected pick = o at ha ⊢
  cases ha with
  | aborted hts => exact performed_aborted h hts
  | answered ha hg hp =>
    have hm := hpick _ _ hp
    exact .round ⟨h.transport, h.done, guard_of_answered hop hm hg⟩
      ⟨hop, rfl, _, _, _, rfl, hline, ha, hm⟩

theorem performed {op : Op} (h : s.Open k) (hc : CodecReturns lib op a) :
    Performed lib s k op (s.perform lib a op) := by
  cases op with
  | done =>
    obtain ⟨line, hline⟩ := Option.isSome_iff_exists.mp hc.1
    unfold perform finish
    rw [h.not_closed]
    simp only [Bool.false_eq_true, if_false]
    generalize hask : s.ask lib a .exploreDone _ _ = o
    have ha : Asked lib s line _ o := hask ▸ ask_asked h rfl hline hc.2
    cases ha with
    | aborted hts => exact performed_aborted (α := Unit) h hts
    | @answered reply m guard _ ha hg hp =>
      have hm : Op.done.answeredBy m = true := by
        cases m <;> first | (cases hp; done) | rfl
      exact .last rfl (.inr rfl)
        ⟨_, rfl, ⟨line, .inr ⟨_, rfl⟩⟩, fun _ => ⟨rfl, _, _, _, rfl, hline, ha, hm⟩⟩
  | _ =>
    refine performed_ask h rfl hc fun m v hv => ?_
    cases m <;> first | (cases hv; done) | rfl

/-- An operation on a closed session does nothing. -/
theorem perform_closed {op : Op} (h : s.isClosed = true) : (s.perform lib a op).session = s ∧
    (∃ r, (s.perform lib a op).result = .ok r) ∧ (entryOf s op (s.perform lib a op)).Silent := by
  cases op with
  | done =>
    simp [perform, finish, h, Entry.Silent, entryOf, Op.isDone]
  | _ =>
    simp [perform, assumeTransition, nextStep, queryState, checkInvariant, assumeState, rollback,
      ask, command, h, Outcome.void, entryOf, Entry.Silent, Entry.Succeeds]

end Session

/-! ## The history of a transport -/

inductive Status where
  | live
  | dead
  deriving DecidableEq, Repr

/-- One operation on a transport. -/
def Entry.Moves (lib : Library) (e : Entry κ) : Status → Status → Prop
  | .live, .live => e.Round lib
  | .live, .dead => e.Last lib
  | .dead, .dead => e.Silent
  | .dead, .live => False

/-- The operations on a transport, one after the other. -/
def Follows (lib : Library) : Status → List (Entry κ) → Status → Prop
  | st, [], st' => st = st'
  | st, e :: es, st' => ∃ mid, e.Moves lib st mid ∧ Follows lib mid es st'

variable {lib : Library} {es es' : List (Entry κ)} {e : Entry κ} {st st' : Status} {k : κ}

theorem follows_append : Follows lib st (es ++ es') st' ↔
    ∃ mid, Follows lib st es mid ∧ Follows lib mid es' st' := by
  induction es generalizing st with
  | nil => simp [Follows]
  | cons e es ih =>
    simp only [List.cons_append, Follows, ih]
    constructor
    · rintro ⟨m, hm, n, hn, h⟩
      exact ⟨n, ⟨m, hm, hn⟩, h⟩
    · rintro ⟨n, ⟨m, hm, hn⟩, h⟩
      exact ⟨m, hm, n, hn, h⟩

theorem follows_concat {mid : Status} (h : Follows lib st es mid) (he : e.Moves lib mid st') :
    Follows lib st (es ++ [e]) st' := follows_append.mpr ⟨mid, h, st', he, rfl⟩

def traffic (es : List (Entry κ)) : List Traffic := es.flatMap Entry.traffic

/-- What was sent and received. -/
def passed (ts : List Traffic) : List Traffic :=
  ts.filter fun
    | .close => false
    | _ => true

/-- Sends and receives in turn, from a send on. -/
def alternates : List Traffic → Bool
  | [] => true
  | [.send _] => true
  | .send _ :: .recv _ :: ts => alternates ts
  | _ => false

theorem traffic_cons : traffic (e :: es) = e.traffic ++ traffic es := rfl

theorem passed_append (ts ts' : List Traffic) : passed (ts ++ ts') = passed ts ++ passed ts' :=
  List.filter_append ..

theorem traffic_dead (h : Follows lib .dead es st) : traffic es = [] ∧ st = .dead := by
  induction es with
  | nil => exact ⟨rfl, h.symm⟩
  | cons e es ih =>
    obtain ⟨mid, hm, h⟩ := h
    cases mid with
    | live => exact hm.elim
    | dead => rw [traffic_cons, hm.1, (ih h).1]; exact ⟨rfl, (ih h).2⟩

theorem alternates_live (h : Follows lib .live es st) : alternates (passed (traffic es)) =
    true := by
  induction es with
  | nil => rfl
  | cons e es ih =>
    obtain ⟨mid, hm, h⟩ := h
    rw [traffic_cons, passed_append]
    cases mid with
    | live =>
      obtain ⟨-, -, line, reply, m, ht, -⟩ := hm
      rw [ht]
      exact ih h
    | dead =>
      obtain ⟨ts, ht, ⟨line, hts⟩, -⟩ := hm
      rw [(traffic_dead h).1, ht]
      rcases hts with rfl | ⟨reply, rfl⟩ <;> rfl

/-- A transport that is dead was closed. -/
theorem close_mem (h : Follows lib .live es .dead) : .close ∈ traffic es := by
  induction es with
  | nil => cases h
  | cons e es ih =>
    obtain ⟨mid, hm, h⟩ := h
    rw [traffic_cons, List.mem_append]
    cases mid with
    | live => exact .inr (ih h)
    | dead =>
      obtain ⟨ts, ht, -⟩ := hm
      exact .inl (by rw [ht]; simp)

/-- After a failure, or `done()`, nothing passes, and the transport is closed. -/
theorem ended (h : Follows lib .live (es ++ e :: es') st) (he : ¬e.Succeeds ∨ e.op.isDone = true) :
    .close ∈ traffic (es ++ [e]) ∧ traffic es' = [] := by
  obtain ⟨mid, hes, mid', hm, hes'⟩ := follows_append.mp h
  have hdead : mid' = .dead := by
    cases mid with
    | live =>
      cases mid' with
      | dead => rfl
      | live =>
        obtain ⟨hop, hs, -⟩ := hm
        rcases he with he | he
        · exact absurd hs he
        · rw [hop] at he
          cases he
    | dead =>
      cases mid' with
      | dead => rfl
      | live => exact hm.elim
  subst hdead
  exact ⟨close_mem (follows_concat hes hm), (traffic_dead hes').1⟩

theorem mem_moves (h : Follows lib st es st') (he : e ∈ es) :
    ∃ mid mid', e.Moves lib mid mid' := by
  obtain ⟨xs, ys, rfl⟩ := List.append_of_mem he
  obtain ⟨mid, -, mid', hm, -⟩ := follows_append.mp h
  exact ⟨mid, mid', hm⟩

/-- An operation that succeeds got its own answer, or had nothing left to do. -/
theorem answered_of_moves (h : e.Moves lib st st') (hs : e.Succeeds) :
    e.Exchanged lib (passed e.traffic) ∨ e.op.isDone = true ∧ e.traffic = [] := by
  cases st with
  | live =>
    cases st' with
    | live =>
      obtain ⟨-, -, line, reply, m, ht, hx⟩ := h
      exact .inl ⟨line, reply, m, by rw [ht]; rfl, hx⟩
    | dead =>
      obtain ⟨ts, ht, -, hd⟩ := h
      obtain ⟨-, line, reply, m, rfl, hx⟩ := hd hs
      exact .inl ⟨line, reply, m, by rw [ht]; rfl, hx⟩
  | dead =>
    cases st' with
    | live => exact h.elim
    | dead => exact .inr ⟨h.2 hs, h.1⟩

/-! ## A session and its transport -/

section

variable {s : Session κ} {op : Op} {a : Answers}

theorem openSession_open {transport : Option κ} {spec : ApalacheSpec}
    {invariants exports : List String}
    (ho : openSession lib transport spec invariants exports a = .ok (.ok s)) :
    ∃ k, transport = some k ∧ s.Open k := by
  unfold openSession at ho
  cases transport with
  | none => cases ho
  | some k =>
    have hsent : Phase.sent .idle (.registerExploreSession spec invariants exports) =
        .ok .exploring := rfl
    simp only [hsent] at ho
    split at ho
    · cases ho
    split at ho
    · cases ho
    · cases ho
    split at ho
    · cases ho
    · cases ho
    · rename_i m _
      cases m <;> cases ho
      exact ⟨k, rfl, rfl, rfl, rfl⟩

/-- A session and the history of its transport. -/
def Fits (lib : Library) (s : Session κ) (k : κ) (es : List (Entry κ)) : Prop :=
  s.Open k ∧ Follows lib .live es .live ∨ s.done = true ∧ Follows lib .live es .dead

theorem conn_entryOf (s : Session κ) (op : Op) (o : Outcome κ Unit) :
    (entryOf s op o).conn = s.transport := rfl

/-- What `perform` may come to. -/
structure Performs (lib : Library) (s : Session κ) (op : Op) (o : Outcome κ Unit) : Prop where
  closed : s.isClosed = true → o.session = s ∧ (entryOf s op o).Silent
  opened : ∀ k, s.Open k → s.Performed lib k op o

theorem performs (hc : CodecReturns lib op a) : Performs lib s op (s.perform lib a op) where
  closed h := ⟨(Session.perform_closed h).1, (Session.perform_closed h).2.2⟩
  opened _ h := Session.performed h hc

/-- An operation is one move of the transport it is on. -/
theorem performed_fits {o : Outcome κ Unit} {es : List (Entry κ)} (hp : Performs lib s op o)
    (hk : s.transport = some k) (hs : Fits lib s k es) :
    (∀ k', o.session.transport = some k' → k' = k ∧ Fits lib o.session k (es ++ [entryOf s op o])) ∧
    ∃ st, Follows lib .live (es ++ [entryOf s op o]) st := by
  rcases hs with ⟨hopen, hlive⟩ | ⟨hdone, hdead⟩
  · cases hp.opened k hopen with
    | round hopen' hround =>
      have hf := @follows_concat _ _ _ _ _ .live _ hlive hround
      exact ⟨fun k' hk' => ⟨Option.some.inj (hk'.symm.trans hopen'.transport), .inl ⟨hopen', hf⟩⟩,
        _, hf⟩
    | last hdone htr hlast =>
      have hf := @follows_concat _ _ _ _ _ .dead _ hlive hlast
      refine ⟨fun k' hk' => ⟨?_, .inr ⟨hdone, hf⟩⟩, _, hf⟩
      rw [hk'] at htr
      simpa using htr
  · obtain ⟨hsame, hsilent⟩ := hp.closed (by simp [Session.isClosed, hdone])
    have hf := @follows_concat _ _ _ _ _ .dead _ hdead hsilent
    refine ⟨fun k' hk' => ?_, _, hf⟩
    rw [hsame, hk] at hk'
    cases hk'
    rw [hsame]
    exact ⟨rfl, .inr ⟨hdone, hf⟩⟩

end

/-! ## Programs -/

section Programs

variable [DecidableEq ι] [DecidableEq κ] {w w' : World ι κ} {i j : ι} {s : Session κ} {op : Op}
  {a : Answers}

/-- What was done on a transport. -/
def entriesOf (k : κ) (log : List (Entry κ)) : List (Entry κ) :=
  log.filter fun e => decide (e.conn = some k)

theorem entriesOf_append (log log' : List (Entry κ)) :
    entriesOf k (log ++ log') = entriesOf k log ++ entriesOf k log' := List.filter_append ..

theorem entriesOf_single : entriesOf k [e] = if e.conn = some k then [e] else [] := by
  by_cases h : e.conn = some k <;> simp [entriesOf, h]

structure Inv (lib : Library) (w : World ι κ) : Prop where
  /-- One variable at most owns a transport. -/
  owner : ∀ i j s t k, w.slots i = some s → w.slots j = some t → s.transport = some k →
    t.transport = some k → i = j
  held : ∀ i s k, w.slots i = some s → s.transport = some k →
    k ∈ w.opened ∧ Fits lib s k (entriesOf k w.log)
  follows : ∀ k, ∃ st, Follows lib .live (entriesOf k w.log) st
  logged : ∀ e ∈ w.log, (∃ k, e.conn = some k ∧ k ∈ w.opened) ∨ e.conn = none ∧ e.Silent

omit [DecidableEq ι] in
theorem inv_init : Inv lib (⟨fun _ => none, [], []⟩ : World ι κ) where
  owner _ _ _ _ _ h := by cases h
  held _ _ _ h := by cases h
  follows _ := ⟨.live, rfl⟩
  logged _ h := by cases h

/-- An operation on the session in `i`. -/
theorem inv_call (h : Inv lib w) (hi : w.slots i = some s) {o : Outcome κ Unit}
    (hp : Performs lib s op o) : Inv lib { w with
      slots := Function.update w.slots i (some o.session)
      log := w.log ++ [entryOf s op o] } := by
  have hentries : ∀ k, entriesOf k (w.log ++ [entryOf s op o]) =
      if s.transport = some k then entriesOf k w.log ++ [entryOf s op o]
      else entriesOf k w.log := by
    intro k
    rw [entriesOf_append, entriesOf_single, conn_entryOf]
    split
    · rfl
    · rw [List.append_nil]
  have hnone : s.transport = none → o.session = s ∧ (entryOf s op o).Silent := fun ht =>
    hp.closed (by simp [Session.isClosed, ht])
  have hfits := fun k hk => performed_fits (k := k) hp hk (h.held i s k hi hk).2
  have hkeep : ∀ k, o.session.transport = some k → s.transport = some k := by
    intro k hk
    cases ht : s.transport with
    | none => rw [(hnone ht).1, ht] at hk; cases hk
    | some k' => rw [((hfits k' ht).1 k hk).1]
  -- whoever owns a transport now owned it before
  have hback : ∀ j t k, Function.update w.slots i (some o.session) j = some t →
      t.transport = some k → ∃ t', w.slots j = some t' ∧ t'.transport = some k ∧
        (j = i ∧ t = o.session ∨ j ≠ i ∧ t = t') := by
    intro j t k hj hk
    by_cases hji : j = i
    · subst hji
      rw [Function.update_self] at hj
      cases hj
      exact ⟨s, hi, hkeep k hk, .inl ⟨rfl, rfl⟩⟩
    · rw [Function.update_of_ne hji] at hj
      exact ⟨t, hj, hk, .inr ⟨hji, rfl⟩⟩
  constructor
  · intro j₁ j₂ t₁ t₂ k h₁ h₂ hk₁ hk₂
    obtain ⟨u₁, hu₁, hku₁, -⟩ := hback j₁ t₁ k h₁ hk₁
    obtain ⟨u₂, hu₂, hku₂, -⟩ := hback j₂ t₂ k h₂ hk₂
    exact h.owner j₁ j₂ u₁ u₂ k hu₁ hu₂ hku₁ hku₂
  · intro j t k hj hk
    obtain ⟨u, hu, hku, hcase⟩ := hback j t k hj hk
    have hold := h.held j u k hu hku
    refine ⟨hold.1, ?_⟩
    show Fits lib t k (entriesOf k (w.log ++ [entryOf s op o]))
    rw [hentries]
    rcases hcase with ⟨rfl, rfl⟩ | ⟨hne, rfl⟩
    · rw [if_pos (hkeep k hk)]
      exact ((hfits k (hkeep k hk)).1 k hk).2
    · rw [if_neg fun hs => hne (h.owner j i t s k hu hi hku hs)]
      exact hold.2
  · intro k
    show ∃ st, Follows lib .live (entriesOf k (w.log ++ [entryOf s op o])) st
    rw [hentries]
    split
    · exact (hfits k ‹_›).2
    · exact h.follows k
  · intro e he
    rcases List.mem_append.mp he with he | he
    · exact h.logged e he
    · obtain rfl := List.mem_singleton.mp he
      cases ht : s.transport with
      | none => exact .inr ⟨ht, (hnone ht).2⟩
      | some k => exact .inl ⟨k, ht, (h.held i s k hi ht).1⟩

/-- A variable that goes away. -/
theorem inv_drop (h : Inv lib w) (i : ι) :
    Inv lib { w with slots := Function.update w.slots i none } := by
  have hback : ∀ j t, Function.update w.slots i none j = some t → w.slots j = some t := by
    intro j t hj
    by_cases hji : j = i
    · subst hji
      rw [Function.update_self] at hj
      cases hj
    · rwa [Function.update_of_ne hji] at hj
  exact {
    owner := fun j₁ j₂ t₁ t₂ k h₁ h₂ => h.owner j₁ j₂ t₁ t₂ k (hback _ _ h₁) (hback _ _ h₂)
    held := fun j t k hj => h.held j t k (hback _ _ hj)
    follows := h.follows
    logged := h.logged }

/-- A session moved from `i` to `j`. -/
theorem inv_move (h : Inv lib w) (hi : w.slots i = some s) (hij : i ≠ j) : Inv lib { w with
    slots := Function.update (Function.update w.slots i (some s.movedFrom)) j (some s) } := by
  have hback : ∀ j' t k,
      Function.update (Function.update w.slots i (some s.movedFrom)) j (some s) j' = some t →
      t.transport = some k → ∃ j'', w.slots j'' = some t ∧ (j' = j ∧ j'' = i ∨ j' ≠ j ∧
        j'' ≠ i ∧ j'' = j') := by
    intro j' t k hj' hk
    by_cases hj : j' = j
    · subst hj
      rw [Function.update_self] at hj'
      cases hj'
      exact ⟨i, hi, .inl ⟨rfl, rfl⟩⟩
    rw [Function.update_of_ne hj] at hj'
    by_cases hji : j' = i
    · subst hji
      rw [Function.update_self] at hj'
      cases hj'
      cases hk
    · rw [Function.update_of_ne hji] at hj'
      exact ⟨j', hj', .inr ⟨hj, hji, rfl⟩⟩
  constructor
  · intro j₁ j₂ t₁ t₂ k h₁ h₂ hk₁ hk₂
    obtain ⟨l₁, hl₁, c₁⟩ := hback j₁ t₁ k h₁ hk₁
    obtain ⟨l₂, hl₂, c₂⟩ := hback j₂ t₂ k h₂ hk₂
    have hl := h.owner l₁ l₂ t₁ t₂ k hl₁ hl₂ hk₁ hk₂
    rcases c₁ with ⟨rfl, rfl⟩ | ⟨-, hne₁, rfl⟩ <;> rcases c₂ with ⟨rfl, rfl⟩ | ⟨-, hne₂, rfl⟩
    · rfl
    · exact absurd hl.symm hne₂
    · exact absurd hl hne₁
    · exact hl
  · intro j' t k hj' hk
    obtain ⟨l, hl, -⟩ := hback j' t k hj' hk
    exact h.held l t k hl hk
  · exact h.follows
  · exact h.logged

/-- A session opened on a fresh transport. -/
theorem inv_open (h : Inv lib w) (hi : w.slots i = none) (hk : k ∉ w.opened) (hs : s.Open k) :
    Inv lib { w with slots := Function.update w.slots i (some s), opened := k :: w.opened } := by
  have hnil : entriesOf k w.log = [] := by
    refine List.filter_eq_nil_iff.mpr fun e he => ?_
    rcases h.logged e he with ⟨k', hk', hmem⟩ | ⟨hnone, -⟩
    · rw [hk']
      simp only [Option.some.injEq, decide_eq_true_eq]
      rintro rfl
      exact hk hmem
    · simp [hnone]
  have hback : ∀ j t k', Function.update w.slots i (some s) j = some t → t.transport = some k' →
      j = i ∧ t = s ∧ k' = k ∨ k' ≠ k ∧ w.slots j = some t := by
    intro j t k' hj hk'
    by_cases hji : j = i
    · subst hji
      rw [Function.update_self] at hj
      cases hj
      exact .inl ⟨rfl, rfl, Option.some.inj (hk'.symm.trans hs.transport)⟩
    · rw [Function.update_of_ne hji] at hj
      exact .inr ⟨fun e => hk (e ▸ (h.held j t k' hj hk').1), hj⟩
  constructor
  · intro j₁ j₂ t₁ t₂ k' h₁ h₂ hk₁ hk₂
    rcases hback j₁ t₁ k' h₁ hk₁ with ⟨rfl, -, rfl⟩ | ⟨hne₁, h₁⟩ <;>
      rcases hback j₂ t₂ k' h₂ hk₂ with ⟨rfl, -, he⟩ | ⟨hne₂, h₂⟩
    · rfl
    · exact absurd rfl hne₂
    · exact absurd he hne₁
    · exact h.owner j₁ j₂ t₁ t₂ k' h₁ h₂ hk₁ hk₂
  · intro j t k' hj hk'
    rcases hback j t k' hj hk' with ⟨-, rfl, rfl⟩ | ⟨-, hj⟩
    · refine ⟨List.mem_cons_self, .inl ⟨hs, ?_⟩⟩
      show Follows lib .live (entriesOf k' w.log) .live
      rw [hnil]
      rfl
    · exact ⟨List.mem_cons_of_mem _ (h.held j t k' hj hk').1, (h.held j t k' hj hk').2⟩
  · exact h.follows
  · intro e he
    rcases h.logged e he with ⟨k', hk', hmem⟩ | hnone
    · exact .inl ⟨k', hk', List.mem_cons_of_mem _ hmem⟩
    · exact .inr hnone

/-- The codec returns in every operation of an action. -/
def ReturnsIn (lib : Library) (_ : World ι κ) : Action ι κ → Prop
  | .call _ op a => CodecReturns lib op a
  | .destroy _ a => CodecReturns lib .done a
  | _ => True

theorem inv_step {action : Action ι κ} (h : Inv lib w) (hc : ReturnsIn lib w action)
    (hs : World.step lib w action = some w') : Inv lib w' := by
  cases action with
  | opening i transport spec invariants exports a =>
    simp only [World.step] at hs
    split at hs
    · cases hs
    rename_i hfresh
    simp only [Bool.or_eq_true, not_or, Bool.not_eq_true, Option.isSome_eq_false_iff,
      Option.isNone_iff_eq_none] at hfresh
    obtain ⟨hi, hfresh⟩ := hfresh
    have hmore : Inv lib { w with opened := transport.toList ++ w.opened } := {
      owner := h.owner
      held := fun i s k hi hk => ⟨List.mem_append_right _ (h.held i s k hi hk).1,
        (h.held i s k hi hk).2⟩
      follows := h.follows
      logged := fun e he => (h.logged e he).imp
        (fun ⟨k, hk, hm⟩ => ⟨k, hk, List.mem_append_right _ hm⟩) id }
    split at hs
    · rename_i s ho
      obtain ⟨k, rfl, hopen⟩ := openSession_open ho
      cases hs
      exact inv_open h hi (by simpa using hfresh) hopen
    · cases hs
      exact hmore
  | call i op a =>
    obtain ⟨s, hi, rfl⟩ := Option.map_eq_some_iff.mp hs
    exact inv_call h hi (performs hc)
  | moveConstruct i j =>
    simp only [World.step] at hs
    split at hs
    · rename_i s hi hj
      cases hs
      exact inv_move h hi fun e => by rw [e, hj] at hi; cases hi
    · cases hs
  | moveAssign i j =>
    simp only [World.step] at hs
    split at hs
    · rename_i s t hi hj
      split at hs
      · cases hs
        exact h
      · cases hs
        exact inv_move h hi ‹_›
    · cases hs
  | destroy i a =>
    obtain ⟨s, hi, hs⟩ := Option.bind_eq_some_iff.mp hs
    dsimp only at hs
    split at hs
    · cases hs
      exact inv_drop h i
    · split at hs
      · cases hs
        have hd := inv_drop (inv_call h hi (@performs _ _ _ .done _ hc)) i
        rwa [Function.update_idem] at hd
      · cases hs

theorem inv_reach (h : (programs lib).ReachBy (ReturnsIn lib) w) : Inv lib w := by
  refine h.inv (fun w hw => ?_) fun _ _ _ hi hc hs => inv_step hi hc hs
  obtain rfl : w = _ := hw
  exact inv_init

/-- Command discipline, of everything sessions did. -/
structure Disciplined (lib : Library) (log : List (Entry κ)) : Prop where
  alternates : ∀ k, alternates (passed (traffic (entriesOf k log))) = true
  /-- A moved-from session has no traffic. -/
  unowned : ∀ e ∈ log, e.conn = none → e.traffic = []
  /-- Success is an answer to the command; `done()` on a closed session has nothing to do. -/
  answered : ∀ e ∈ log, e.Succeeds →
    e.Exchanged lib (passed e.traffic) ∨ e.op.isDone = true ∧ e.traffic = []
  /-- After a failure, or `done()`, the transport is closed and nothing passes any more. -/
  ended : ∀ es e es' k, log = es ++ e :: es' → e.conn = some k →
    (¬e.Succeeds ∨ e.op.isDone = true) →
    .close ∈ traffic (entriesOf k (es ++ [e])) ∧ traffic (entriesOf k es') = []

/-- **Sessions keep the command discipline**, whatever a program does with them, as long as the
codec returns. -/
theorem sessions_disciplined (h : (programs lib).ReachBy (ReturnsIn lib) w) :
    Disciplined lib w.log := by
  have hinv := inv_reach h
  have hunowned : ∀ e ∈ w.log, e.conn = none → e.Silent := by
    intro e he hn
    rcases hinv.logged e he with ⟨k, hk, -⟩ | ⟨-, hs⟩
    · rw [hn] at hk
      cases hk
    · exact hs
  constructor
  · intro k
    obtain ⟨st, hf⟩ := hinv.follows k
    exact alternates_live hf
  · exact fun e he hn => (hunowned e he hn).1
  · intro e he hs
    cases hk : e.conn with
    | none => exact .inr ⟨(hunowned e he hk).2 hs, (hunowned e he hk).1⟩
    | some k =>
      obtain ⟨st, hf⟩ := hinv.follows k
      obtain ⟨mid, mid', hm⟩ := mem_moves hf (e := e) (List.mem_filter.mpr ⟨he, by simp [hk]⟩)
      exact answered_of_moves hm hs
  · intro es e es' k hlog hk he
    obtain ⟨st, hf⟩ := hinv.follows k
    have hsplit : entriesOf k w.log = entriesOf k es ++ e :: entriesOf k es' := by
      rw [hlog, List.append_cons, entriesOf_append, entriesOf_append, entriesOf_single, if_pos hk,
        List.append_assoc]
      rfl
    rw [hsplit] at hf
    rw [entriesOf_append, entriesOf_single, if_pos hk]
    exact ended hf he

/-! ### A sample program -/

/-- Follow actions as long as the codec returns in each. -/
def returnsIn (lib : Library) (_ : World ι κ) : Action ι κ → Bool
  | .call _ op a => returns op a
  | .destroy _ a => returns .done a
  | _ => true
where
  returns (op : Op) (a : Answers) : Bool :=
    (lib.encode op.message).isSome && match a.recv with
      | .ok line => (lib.decode line).isOk
      | .error _ => true

omit [DecidableEq ι] [DecidableEq κ] in
theorem returnsIn_eq_true {action : Action ι κ} (h : returnsIn lib w action = true) :
    ReturnsIn lib w action := by
  have hret : ∀ {op a}, returnsIn.returns lib op a = true → CodecReturns lib op a := by
    intro op a h
    simp only [returnsIn.returns, Bool.and_eq_true] at h
    refine ⟨h.1, fun line hl => ?_⟩
    have hok : (lib.decode line).isOk = true := by
      rw [hl] at h
      exact h.2
    cases hd : lib.decode line with
    | ok r => exact ⟨r, rfl⟩
    | error e => rw [hd] at hok; cases hok
  cases action <;> first | exact hret h | trivial

end Programs

def replied (j : Json) : Answers := ⟨none, .ok (sampleText j), none⟩

def doneReply : Answers := replied (.obj [("proto_step", .str "explore_session_done")])

/-- Open a session, query it, end it twice. -/
def sampleProgram : List (Action Nat Nat) := [
  .opening 0 (some 0) ⟨["MODULE Spec"]⟩ [] [] (replied (.obj [("initTransitions", .int 1),
    ("nextTransitions", .int 1), ("proto_step", .str "explorer_ready"),
    ("stateInvariants", .int 0)])),
  .call 0 .queryState (replied (.obj [("proto_step", .str "explore_state"), ("state", .obj [])])),
  .call 0 .done doneReply,
  .call 0 .done doneReply]

def sampleRun : Option (World Nat Nat) :=
  (programs compactLibrary).exec (returnsIn compactLibrary) sampleProgram ⟨fun _ => none, [], []⟩

theorem sampleRun_reach {w : World Nat Nat} (h : sampleRun = some w) :
    (programs compactLibrary).ReachBy (ReturnsIn compactLibrary) w :=
  Lts.ReachBy.exec (fun _ _ => returnsIn_eq_true) (.init rfl) h

/-- What an entry shows: whether it is `done()`, how much traffic it made, whether it succeeded. -/
def Entry.sketch (e : Entry κ) : Bool × Nat × Bool :=
  (e.op.isDone, e.traffic.length, match e.result with
    | .ok (.ok _) => true
    | _ => false)

theorem sampleRun_log : sampleRun.map (fun w => w.log.map Entry.sketch) =
    some [(false, 2, true), (true, 3, true), (true, 0, true)] := by decide +kernel

theorem sessions_disciplined_sample : ∃ w : World Nat Nat, sampleRun = some w ∧
    Disciplined compactLibrary w.log := by
  obtain ⟨w, hw, -⟩ := Option.map_eq_some_iff.mp sampleRun_log
  exact ⟨w, hw, sessions_disciplined (sampleRun_reach hw)⟩

/-- The second `done()` succeeds without a reply. -/
theorem done_unanswered : ∃ w : World Nat Nat,
    (programs compactLibrary).ReachBy (ReturnsIn compactLibrary) w ∧
    ∃ e ∈ w.log, e.Succeeds ∧ ¬e.Exchanged compactLibrary (passed e.traffic) := by
  obtain ⟨w, hw, hl⟩ := Option.map_eq_some_iff.mp sampleRun_log
  have hmem : (true, 0, true) ∈ w.log.map Entry.sketch := by rw [hl]; simp
  obtain ⟨e, he, hs⟩ := List.mem_map.mp hmem
  simp only [Entry.sketch, Prod.mk.injEq, List.length_eq_zero_iff] at hs
  obtain ⟨-, ht, hs⟩ := hs
  refine ⟨w, sampleRun_reach hw, e, he, ?_, ?_⟩
  · unfold Entry.Succeeds
    split at hs
    · rename_i h
      exact h
    · cases hs
  · rintro ⟨line, reply, m, hp, -⟩
    rw [ht] at hp
    cases hp

end MirrorCpp.Client
