import MirrorCpp.Client.Negotiated
import MirrorCpp.Client.Conformance

/-!
# Negotiated runs fail closed

Behind the reply a run takes one of few courses: it is refused, its factory fails, or a binding is
made, tried and disposed. A run with callbacks that dispose of everything tells the primary outcome
from that of the disposal.
-/

namespace MirrorCpp.Client

open Itf Protocol Interface

variable {σ : Type}

/-! ## Events -/

namespace Event

/-- Events of the stepping loop. -/
def isTraffic : Event → Bool
  | send _ _ | recv _ | close | compute _ => true
  | _ => false

def isFactory : Event → Bool
  | factory _ _ => true
  | _ => false

def isDispose : Event → Bool
  | dispose _ => true
  | _ => false

/-- A binding was made that has a callback to dispose it. -/
def isDisposable : Event → Bool
  | factory _ (some c) => c.disposable
  | _ => false

/-- What cleaning up came to. -/
def cleanup : Event → Option (Result Unit)
  | dispose result => some (disposed result)
  | factory _ (some c) => if c.disposable then none else some (.error noDispose)
  | _ => none

/-- Neither makes a binding nor disposes of one. -/
def isInner : Event → Bool
  | factory _ _ | dispose _ => false
  | _ => true

theorem isInner_traffic {e : Event} (h : e.isTraffic = true) : e.isInner = true := by
  cases e <;> first | rfl | cases h

theorem inner_facts {e : Event} (h : e.isInner = true) : e.isFactory = false ∧
    e.isDispose = false ∧ e.isDisposable = false ∧ e.cleanup = none := by
  cases e <;> first | exact ⟨rfl, rfl, rfl, rfl⟩ | cases h

section Inner

variable {es : List Event} (h : ∀ e ∈ es, e.isInner = true)
include h

theorem countP_isFactory_inner : es.countP isFactory = 0 :=
  List.countP_eq_zero.mpr fun e he => by simp [(inner_facts (h e he)).1]

theorem countP_isDispose_inner : es.countP isDispose = 0 :=
  List.countP_eq_zero.mpr fun e he => by simp [(inner_facts (h e he)).2.1]

theorem countP_isDisposable_inner : es.countP isDisposable = 0 :=
  List.countP_eq_zero.mpr fun e he => by simp [(inner_facts (h e he)).2.2.1]

theorem cleanups_inner : es.filterMap cleanup = [] :=
  List.filterMap_eq_nil_iff.mpr fun e he => (inner_facts (h e he)).2.2.2

end Inner

end Event

/-- Every event comes at a place where `P` allows it; `seen` came before. -/
def Ordered (P : List Event → Event → Prop) : List Event → List Event → Prop
  | _, [] => True
  | seen, e :: es => P seen e ∧ Ordered P (seen ++ [e]) es

section Ordered

variable {P : List Event → Event → Prop}

theorem ordered_append : ∀ {es fs seen : List Event},
    Ordered P seen (es ++ fs) ↔ Ordered P seen es ∧ Ordered P (seen ++ es) fs
  | [], fs, seen => by simp [Ordered]
  | e :: es, fs, seen => by
    simp only [List.cons_append, Ordered, @ordered_append es, List.append_assoc,
      List.nil_append, and_assoc]

theorem ordered_of_forall : ∀ {es seen : List Event}, (∀ e ∈ es, ∀ more, P (seen ++ more) e) →
    Ordered P seen es
  | [], _, _ => trivial
  | e :: es, seen, h => by
    refine ⟨by simpa using h e List.mem_cons_self [], ordered_of_forall fun e' he more => ?_⟩
    rw [List.append_assoc]
    exact h e' (List.mem_cons_of_mem _ he) _

theorem ordered_split {before after es : List Event} {e : Event} (h : Ordered P [] es)
    (he : es = before ++ e :: after) : P before e := by
  rw [he, ordered_append] at h
  exact h.2.1

end Ordered

/-! ## The stepping loop only talks and computes -/

namespace Run

def Traffic (r : Run σ) : Prop := ∀ e ∈ r.events, e.isTraffic = true

variable {r : Run σ} {u : σ}

theorem traffic_after {e : Event} (he : e.isTraffic = true) (h : r.Traffic) :
    (r.after e).Traffic := by
  rintro e' (_ | ⟨_, hm⟩)
  · exact he
  · exact h e' hm

theorem traffic_fail (x : Error) : (fail u x).Traffic := by
  rintro e (_ | ⟨_, hm⟩)
  · rfl
  · cases hm

theorem traffic_nil (x : Exit) : (⟨[], x, u⟩ : Run σ).Traffic := fun _ h => by cases h

theorem traffic_close (x : Exit) : (⟨[.close], x, u⟩ : Run σ).Traffic := by
  rintro e (_ | ⟨_, hm⟩)
  · rfl
  · cases hm

end Run

section Stepping

open Run

variable {lib : Library} {sends : Nat → Option Error} {compute : Computer σ}

theorem traffic_receive {reply : Reply} {guard : Phase} {u : σ}
    {next : Phase → MirrorMessage → Run σ} (h : ∀ g m, (next g m).Traffic) :
    (receive lib reply guard u next).Traffic := by
  unfold receive
  refine traffic_after rfl ?_
  split
  · exact traffic_fail _
  split
  · exact traffic_nil _
  · exact traffic_fail _
  split
  · exact traffic_fail _
  · exact h _ _

theorem traffic_sendMessage {n : Nat} {msg : ClientMessage} {u : σ} {next : Run σ}
    (h : next.Traffic) : (sendMessage lib sends n msg u next).Traffic := by
  unfold sendMessage
  split
  · exact traffic_nil _
  refine traffic_after rfl ?_
  split
  · exact traffic_fail _
  · exact h

theorem traffic_report {n : Nat} {guard : Phase} {action : String} {params prev : State} {u : σ}
    {next : Phase → State → σ → Run σ} (h : ∀ g s u, (next g s u).Traffic) :
    (report lib sends compute n guard action params prev u next).Traffic := by
  unfold report
  split
  · exact traffic_after rfl (traffic_close _)
  refine traffic_after rfl ?_
  split
  · exact traffic_fail _
  · exact traffic_sendMessage (h _ _ _)

theorem traffic_loop : ∀ (replies : List Reply) (n : Nat) (guard : Phase) (prev : State)
    (last : String) (u : σ), (loop lib sends compute replies n guard prev last u).Traffic
  | [], _, _, _, _, _ => traffic_nil _
  | _ :: rest, n, _, prev, last, _ => by
    have ih := traffic_loop rest
    rw [loop]
    refine traffic_receive fun g m => ?_
    split
    · exact traffic_report fun g s u => ih _ g s _ u
    · exact traffic_report fun g s u => ih _ g s _ u
    · exact ih n g prev last _
    · exact traffic_close _
    · split
      · exact traffic_fail _
      · exact traffic_nil _
    · exact traffic_fail _
    · exact traffic_fail _
    · exact traffic_fail _

theorem traffic_runSteppingLoop (replies : List Reply) (n : Nat) (guard : Phase) (u : σ) :
    (runSteppingLoop lib sends compute replies n guard u).Traffic := by
  unfold runSteppingLoop
  split
  · exact traffic_nil _
  refine traffic_receive fun g m => ?_
  split
  · split
    · exact traffic_fail _
    · exact traffic_loop _ _ _ _ _ _
  · exact traffic_fail _
  · exact traffic_fail _
  · exact traffic_fail _

end Stepping

/-! ## What is asked for, and what allows a factory -/

/-- The four-part key a selection asks for. -/
def CompiledAdapterSelection.requested (selection : CompiledAdapterSelection σ) :
    Option CompiledAdapterKey :=
  match semanticDigestFromHex selection.metadata.semanticDigest with
  | .ok semanticDigest => some {
      semanticDigest
      adapterId := selection.adapterId
      targetProfile := selection.targetProfile
      stateComputerContractVersion := selection.stateComputerContractVersion }
  | .error _ => none

/-- The line is an answer to the registration that validates the specification and allows a factory:
that of the key by a reply matched with the digest, the fallback by a reply that is missing or
declines, under `prefer`. -/
def Authorizes (lib : Negotiator) (selection : CompiledAdapterSelection σ)
    (digest : SemanticDigest) (line : String) (fallback : Bool) : Prop :=
  ∃ raw decoded, strictParse lib.strict line = .ok raw ∧
    decodeRegistrationReply lib.strict lib.toLibrary.decode line = .ok (.ok decoded) ∧
    decoded.message = .specValidated ⟨none⟩ ∧
    match fallback with
    | false => ∃ extension, raw.field? "modelInterface" = some extension ∧ Matched extension digest
    | true => selection.policy = .prefer ∧ selection.fallbackFactory.isSome = true ∧
      (absent raw "modelInterface" = true ∨
        ∃ extension, raw.field? "modelInterface" = some extension ∧ Declined extension)

section Preparation

variable {lib : Negotiator} {selection : CompiledAdapterSelection σ}
  {prepared : PreparedCompiledAdapter σ}

/-- A prepared adapter is that of the one entry with the requested key. -/
structure Prepared (rd : StrictReader) (selection : CompiledAdapterSelection σ)
    (prepared : PreparedCompiledAdapter σ) : Prop where
  requested : selection.requested = some prepared.key
  policy : prepared.request.policy = selection.policy
  fallback : prepared.fallbackFactory = selection.fallbackFactory
  registry : ∃ registry, selection.registry = some registry ∧
    registry.exact prepared.key = [⟨prepared.key, prepared.factory⟩]
  only : prepareCompiledAdapter rd
    { selection with registry := some [⟨prepared.key, prepared.factory⟩] } = .ok prepared

theorem makeVerifyRequest_ok {rd : StrictReader} {metadata : GeneratedModelInterface}
    {policy : NegotiationPolicy} {request : ModelInterfaceVerifyRequest}
    (h : makeVerifyRequest rd metadata policy = .ok request) :
    semanticDigestFromHex metadata.semanticDigest = .ok request.expectedSemanticDigest ∧
      request.policy = policy := by
  obtain ⟨digest, hd, h⟩ := Fallible.bind_eq_ok.mp h
  obtain ⟨contract, -, h⟩ := Fallible.bind_eq_ok.mp h
  obtain ⟨⟨⟩, -, h⟩ := Fallible.bind_eq_ok.mp h
  cases h
  exact ⟨lift_eq_ok.mp hd, rfl⟩

theorem prepareCompiledAdapter_ok {rd : StrictReader}
    (h : prepareCompiledAdapter rd selection = .ok prepared) : Prepared rd selection prepared := by
  unfold prepareCompiledAdapter at h
  split at h
  · cases h
  rename_i hprofile
  split at h
  · cases h
  rename_i hversion
  split at h
  · cases h
  rename_i registry hregistry
  obtain ⟨request, hrequest, h⟩ := Fallible.bind_eq_ok.mp h
  obtain ⟨factory, hfactory, h⟩ := Fallible.bind_eq_ok.mp h
  cases h
  have hfactory := resolve_eq_ok.mp (lift_eq_ok.mp hfactory)
  obtain ⟨hdigest, hpolicy⟩ := makeVerifyRequest_ok hrequest
  refine ⟨?_, hpolicy, rfl, ⟨registry, hregistry, hfactory⟩, ?_⟩
  · unfold CompiledAdapterSelection.requested
    rw [hdigest]
  · unfold prepareCompiledAdapter
    rw [if_neg hprofile, if_neg hversion, hrequest]
    simp only [Fallible.ok_bind, resolve_single]
    rfl

theorem fallback_ok {required : Error} {missing : String} {fb : Bool} {factory : AdapterFactory σ}
    (h : prepared.fallback required missing = .ok (fb, factory)) :
    fb = true ∧ prepared.request.policy = .prefer ∧ prepared.fallbackFactory.isSome = true := by
  unfold PreparedCompiledAdapter.fallback at h
  split at h
  · cases h
  rename_i hp
  split at h
  · cases h
  · rename_i hf
    cases h
    exact ⟨rfl, not_not.mp hp, by rw [hf]; rfl⟩

/-- Whatever a reply authorises, its text allows. -/
theorem authorizes_of_ok (hp : Prepared lib.strict selection prepared) {line : String}
    {decoded : DecodedReply} {fb : Bool} {factory : AdapterFactory σ}
    (hd : decodeRegistrationReply lib.strict lib.toLibrary.decode line = .ok (.ok decoded))
    (h : authorizeCompiledReply decoded prepared = .ok (fb, factory)) :
    Authorizes lib selection prepared.key.semanticDigest line fb := by
  have hdecode := hd
  unfold decodeRegistrationReply at hd
  split at hd
  · cases hd
  rename_i raw hraw
  split at hd
  · cases hd
  split at hd
  · cases hd
  · cases hd
  rename_i message hmirror
  obtain ⟨hmessage, hext⟩ := decodeExtension_ok (Except.ok.inj hd)
  unfold authorizeCompiledReply at h
  split at h
  · cases h
  · split at h
    · cases h
    · split at h <;> cases h
  · cases h
  · rename_i hvalid
    refine ⟨raw, decoded, hraw, hdecode, hvalid, ?_⟩
    obtain ⟨hreply, -, habsent⟩ | ⟨extension, hfield, ⟨r, hreply, hr, -, -⟩ | ⟨hreply, htag⟩⟩ :=
      hext
    · rw [hreply] at h
      obtain ⟨rfl, hpolicy, hsome⟩ := fallback_ok h
      exact ⟨hp.policy ▸ hpolicy, hp.fallback ▸ hsome, .inl habsent⟩
    · rw [hreply] at h
      dsimp only at h
      split at h
      · rename_i hs
        split at h
        · cases h
        · rename_i hne
          cases h
          exact ⟨extension, hfield, matched_of_decodeReply hr hs (not_not.mp hne)⟩
      · rename_i hs
        obtain ⟨rfl, hpolicy, hsome⟩ := fallback_ok h
        exact ⟨hp.policy ▸ hpolicy, hp.fallback ▸ hsome,
          .inr ⟨extension, hfield, declined_of_decodeReply hr (.inl hs)⟩⟩
      · rename_i hs
        obtain ⟨rfl, hpolicy, hsome⟩ := fallback_ok h
        exact ⟨hp.policy ▸ hpolicy, hp.fallback ▸ hsome,
          .inr ⟨extension, hfield, declined_of_decodeReply hr (.inr hs)⟩⟩
      all_goals cases h
    · rw [← hmessage, hvalid] at hmirror
      obtain ⟨j, tag, hj, htag', hm⟩ := decode_eq_ok hmirror
      obtain rfl : raw = j := Except.ok.inj ((lib.agrees line raw hraw).symm.trans hj)
      obtain rfl : "register_error" = tag := by simpa [htag] using htag'
      rcases name_decodeTagged _ _ _ hm with hn | ⟨e, he⟩
      · exact absurd hn (by decide)
      · cases he
  · cases h

end Preparation

/-! ## The courses of a run -/

/-- What comes between the making of a binding and its disposal. -/
inductive Trial (digest : SemanticDigest) (binding : LocalBinding σ) : List Event → Prop
  | rejected : Trial digest binding []
  | incompatible : Trial digest binding [.assertConfig false]
  | stepped (hd : binding.semanticDigest = digest) {es : List Event}
      (hes : ∀ e ∈ es, e.isTraffic = true) : Trial digest binding (.assertConfig true :: es)

/-- A run behind the making of a binding. -/
inductive Bound (digest : SemanticDigest) (binding : LocalBinding σ) : Run σ → Prop
  | settled {es : List Event} (h : Trial digest binding es) (u : σ) (primary : Result Unit) :
      Bound digest binding ((settle binding u primary).behind es)
  | waits {es : List Event} (h : Trial digest binding es) (u : σ) :
      Bound digest binding ⟨es, .waiting, u⟩

/-- A run behind the reply. -/
inductive Course (allowed : Bool → Prop) (digest : SemanticDigest) : Run σ → Prop
  | refused (u : σ) (e : Error) : Course allowed digest (.fail u e)
  | failed {fallback : Bool} (h : allowed fallback) (u : σ) (e : Error) :
      Course allowed digest (.after (.factory fallback none) (.fail u e))
  | bound {fallback : Bool} (h : allowed fallback) (binding : LocalBinding σ) {r : Run σ}
      (hr : Bound digest binding r) :
      Course allowed digest (.after (.factory fallback (some binding.created)) r)

section Courses

variable {lib : Negotiator} {peer : Peer} {config : ApalacheConfig} {digest : SemanticDigest}
  {binding : LocalBinding σ} {u : σ}

theorem bound_failAfterBinding {es : List Event} (h : Trial digest binding es) (e : Error) :
    Bound digest binding ((failAfterBinding binding u e).behind es) := .settled h u (.error e)

theorem bound_stepBinding (hd : binding.semanticDigest = digest) (computer : Computer σ)
    (line : String) (rest : List Reply) (guard : Phase) :
    Bound digest binding
      ((stepBinding lib peer binding computer line rest guard u).after (.assertConfig true)) := by
  have htraffic := @traffic_runSteppingLoop _ lib.toLibrary peer.sends computer
    (.ok line :: rest) 1 guard u
  unfold stepBinding
  generalize runSteppingLoop lib.toLibrary peer.sends computer (.ok line :: rest) 1 guard u = r
    at htraffic
  obtain ⟨events, exit, user⟩ := r
  have htrial : Trial digest binding (.assertConfig true :: events.tail) :=
    .stepped hd fun e he => htraffic e (List.mem_of_mem_tail he)
  cases exit with
  | waiting => simpa [Run.behind, Run.after] using Bound.waits htrial user
  | raised x => exact .settled htrial _ _
  | returned primary => exact .settled htrial _ _

theorem bound_checkBinding {next : Computer σ → σ → Run σ}
    (hnext : binding.semanticDigest = digest → ∀ computer u,
      Bound digest binding ((next computer u).after (.assertConfig true))) :
    Bound digest binding (checkBinding config digest binding u next) := by
  unfold checkBinding
  split
  · exact bound_failAfterBinding .rejected _
  rename_i hd
  split
  · exact bound_failAfterBinding .rejected _
  · exact bound_failAfterBinding .rejected _
  · split
    · exact bound_failAfterBinding .incompatible _
    · exact bound_failAfterBinding .incompatible _
    · exact hnext (not_not.mp hd) _ _

theorem course_createBinding {allowed : Bool → Prop} {fallback : Bool} (h : allowed fallback)
    {factory : AdapterFactory σ} {next : LocalBinding σ → σ → Run σ}
    (hnext : ∀ binding u, Bound digest binding (next binding u)) :
    Course allowed digest (createBinding lib config fallback factory u next) := by
  unfold createBinding
  split
  · exact .refused _ _
  split
  · exact .failed h _ _
  · exact .failed h _ _
  · exact .bound h _ (hnext _ _)

theorem course_answered {selection : CompiledAdapterSelection σ}
    {prepared : PreparedCompiledAdapter σ} (hp : Prepared lib.strict selection prepared)
    {line : String} (hdec : ∃ r, lib.toLibrary.decode line = .ok r) (rest : List Reply)
    (guard : Phase) :
    Course (Authorizes lib selection prepared.key.semanticDigest line)
      prepared.key.semanticDigest (answered lib peer config prepared line rest guard u) := by
  unfold answered
  split
  · rename_i x hx
    obtain ⟨r, hr⟩ := hdec
    unfold decodeRegistrationReply at hx
    rw [hr] at hx
    split at hx
    · cases hx
    split at hx
    · cases hx
    · cases r <;> cases hx
  · exact .refused _ _
  rename_i decoded hd
  split
  · exact .refused _ _
  · rename_i ha
    refine course_createBinding (authorizes_of_ok hp hd ha) fun binding u => ?_
    exact bound_checkBinding fun hdigest computer u => bound_stepBinding hdigest ..

end Courses

/-! ## What every course keeps -/

/-- What came before an event. -/
def Event.Justified (lib : Negotiator) (selection : CompiledAdapterSelection σ)
    (digest : SemanticDigest) (before : List Event) : Event → Prop
  | .factory fallback _ => ∃ registration line,
      before = [.send registration none, .recv (.ok line)] ∧
        Authorizes lib selection digest line fallback
  | .compute _ => .assertConfig true ∈ before ∧ ∃ fallback created,
      .factory fallback (some created) ∈ before ∧ created.semanticDigest = digest
  | .dispose _ => ∃ fallback created,
      .factory fallback (some created) ∈ before ∧ created.disposable = true
  | _ => True

/-- A run behind the events `seen`. -/
structure Guarded (lib : Negotiator) (selection : CompiledAdapterSelection σ)
    (digest : SemanticDigest) (seen : List Event) (r : Run σ) : Prop where
  ordered : Ordered (Event.Justified lib selection digest) seen r.events
  once : r.events.countP Event.isFactory ≤ 1
  disposes : r.exit ≠ .waiting → r.events.countP Event.isDispose =
    r.events.countP Event.isDisposable
  returns : ∀ x, r.exit ≠ .raised x
  closes : r.exit ≠ .waiting → r.events.getLast? = some .close

section Guarded

variable {lib : Negotiator} {selection : CompiledAdapterSelection σ} {digest : SemanticDigest}
  {seen : List Event} {binding : LocalBinding σ}

theorem guarded_fail (u : σ) (e : Error) :
    Guarded lib selection digest seen (.fail u e) where
  ordered := ⟨trivial, trivial⟩
  once := Nat.zero_le _
  disposes _ := rfl
  returns := nofun
  closes _ := rfl

theorem guarded_waiting (u : σ) :
    Guarded lib selection digest seen ⟨[], .waiting, u⟩ where
  ordered := trivial
  once := Nat.zero_le _
  disposes h := absurd rfl h
  returns := nofun
  closes h := absurd rfl h

/-- An event that neither makes a binding nor disposes of one goes before a run. -/
theorem guarded_after {e : Event} {r : Run σ} (he : e.isInner = true)
    (hj : e.Justified lib selection digest seen)
    (h : Guarded lib selection digest (seen ++ [e]) r) :
    Guarded lib selection digest seen (r.after e) := by
  have hcount : ∀ p : Event → Bool, p e = false → (r.after e).events.countP p = r.events.countP p :=
    fun p hp => List.countP_cons_of_neg (by simp [hp])
  obtain ⟨hfactory, hdispose, hdisposable, -⟩ := Event.inner_facts he
  exact {
    ordered := ⟨hj, h.ordered⟩
    once := by
      rw [hcount _ hfactory]
      exact h.once
    disposes := fun hw => by
      rw [hcount _ hdispose, hcount _ hdisposable]
      exact h.disposes hw
    returns := h.returns
    closes := fun hw => List.mem_getLast?_cons (h.closes hw) }

theorem inner_trial {es : List Event} (h : Trial digest binding es) :
    ∀ e ∈ es, e.isInner = true := by
  cases h with
  | rejected => exact fun _ h => by cases h
  | incompatible => simp [Event.isInner]
  | stepped _ hes =>
    rintro e (_ | ⟨_, he⟩)
    · rfl
    · exact Event.isInner_traffic (hes e he)

theorem ordered_trial {es : List Event} (h : Trial digest binding es) {fallback : Bool}
    (hf : .factory fallback (some binding.created) ∈ seen) :
    Ordered (Event.Justified lib selection digest) seen es := by
  cases h with
  | rejected => trivial
  | incompatible => exact ⟨trivial, trivial⟩
  | stepped hd hes =>
    refine ⟨trivial, ordered_of_forall fun e he more => ?_⟩
    cases e with
    | compute c => exact ⟨by simp, fallback, binding.created, by simp [hf], hd⟩
    | factory _ _ | dispose _ => cases hes _ he
    | _ => trivial

/-- The events of the disposal and the close. -/
theorem settle_cases (binding : LocalBinding σ) (u : σ) (primary : Result Unit) :
    (binding.dispose = none ∧ (settle binding u primary).events = [.close] ∧
        (settle binding u primary).exit = .returned (outcome primary (.error noDispose))) ∨
      (binding.created.disposable = true ∧ ∃ result,
        (settle binding u primary).events = [.dispose result, .close] ∧
        (settle binding u primary).exit = .returned (outcome primary (disposed result))) := by
  unfold settle disposeBinding LocalBinding.created
  cases hd : binding.dispose with
  | none => exact .inl ⟨rfl, rfl, rfl⟩
  | some dispose => exact .inr ⟨rfl, _, rfl, rfl⟩

/-- The making of a binding, and what comes behind it. -/
theorem guarded_bound {fallback : Bool} {r : Run σ} (hr : Bound digest binding r)
    (hj : (Event.factory fallback (some binding.created)).Justified lib selection digest seen) :
    Guarded lib selection digest seen
      (r.after (.factory fallback (some binding.created))) := by
  have hmem : Event.factory fallback (some binding.created) ∈
      seen ++ [.factory fallback (some binding.created)] := by simp
  cases hr with
  | waits h u =>
    exact {
      ordered := ⟨hj, ordered_trial h hmem⟩
      once := by
        simp [Run.after, List.countP_cons, Event.countP_isFactory_inner (inner_trial h),
          Event.isFactory]
      disposes := fun hw => absurd rfl hw
      returns := nofun
      closes := fun hw => absurd rfl hw }
  | settled h u primary =>
    have hinner := inner_trial h
    obtain ⟨hd, hevents, hexit⟩ | ⟨hd, result, hevents, hexit⟩ := settle_cases binding u primary
    · have hc : binding.created.disposable = false := by simp [LocalBinding.created, hd]
      exact {
        ordered := by
          simp only [Run.after, Run.behind, hevents]
          exact ⟨hj, ordered_append.mpr ⟨ordered_trial h hmem, trivial, trivial⟩⟩
        once := by
          simp [Run.after, Run.behind, hevents, List.countP_cons, Event.isFactory,
            Event.countP_isFactory_inner hinner]
        disposes := fun _ => by
          simp [Run.after, Run.behind, hevents, Event.isDispose, Event.isDisposable, hc,
            Event.countP_isDispose_inner hinner, Event.countP_isDisposable_inner hinner]
        returns := fun x hx => by simp [Run.after, Run.behind, hexit] at hx
        closes := fun _ => by simp [Run.after, Run.behind, hevents, List.getLast?_cons] }
    · exact {
        ordered := by
          simp only [Run.after, Run.behind, hevents]
          refine ⟨hj, ordered_append.mpr ⟨ordered_trial h hmem, ?_, trivial, trivial⟩⟩
          exact ⟨fallback, binding.created, by simp, hd⟩
        once := by
          simp [Run.after, Run.behind, hevents, List.countP_cons, Event.isFactory,
            Event.countP_isFactory_inner hinner]
        disposes := fun _ => by
          simp [Run.after, Run.behind, hevents, List.countP_cons, Event.isDispose,
            Event.isDisposable, hd, Event.countP_isDispose_inner hinner,
            Event.countP_isDisposable_inner hinner]
        returns := fun x hx => by simp [Run.after, Run.behind, hexit] at hx
        closes := fun _ => by simp [Run.after, Run.behind, hevents, List.getLast?_cons] }

theorem guarded_course {registration line : String} {r : Run σ}
    (hr : Course (Authorizes lib selection digest line) digest r) :
    Guarded lib selection digest [.send registration none, .recv (.ok line)] r := by
  cases hr with
  | refused u e => exact guarded_fail u e
  | failed h u e =>
    exact {
      ordered := ⟨⟨registration, line, rfl, h⟩, trivial, trivial⟩
      once := Nat.le_refl _
      disposes := fun _ => rfl
      returns := nofun
      closes := fun _ => rfl }
  | bound h binding hr => exact guarded_bound hr ⟨registration, line, rfl, h⟩

end Guarded

/-! ## The primary outcome -/

/-- The same callbacks, but disposal always goes well. -/
def LocalBinding.quiet (binding : LocalBinding σ) : LocalBinding σ :=
  { binding with dispose := some fun u => (.ok (.ok ()), u) }

def AdapterFactory.quiet (factory : AdapterFactory σ) : AdapterFactory σ :=
  factory.map fun create config u =>
    match create config u with
    | (.ok (.ok binding), u) => (.ok (.ok binding.quiet), u)
    | (.ok (.error e), u) => (.ok (.error e), u)
    | (.error x, u) => (.error x, u)

def CompiledAdapterSelection.quiet (selection : CompiledAdapterSelection σ) :
    CompiledAdapterSelection σ :=
  { selection with
    registry := selection.registry.map fun registry => registry.map (·.map AdapterFactory.quiet)
    fallbackFactory := selection.fallbackFactory.map AdapterFactory.quiet }

def PreparedCompiledAdapter.quiet (prepared : PreparedCompiledAdapter σ) :
    PreparedCompiledAdapter σ :=
  { prepared with
    factory := prepared.factory.quiet
    fallbackFactory := prepared.fallbackFactory.map AdapterFactory.quiet }

/-- The run `r` reports what `q` does; only when that is a success, how cleaning up went. -/
def Run.Reports (q r : Run σ) (cleanups : List (Result Unit)) : Prop :=
  match q.exit with
  | .returned (.ok ()) => ∃ c, cleanups = [c] ∧ r.exit = .returned c
  | x => r.exit = x

/-- What cleaning up came to, over a run. -/
def Run.cleanups (r : Run σ) : List (Result Unit) := r.events.filterMap Event.cleanup

section Quiet

open Run

variable {q r : Run σ} {binding : LocalBinding σ} {cs : List (Result Unit)}

/-- The outcomes of a cleanup that called nothing. -/
def LocalBinding.missing (binding : LocalBinding σ) : List (Result Unit) :=
  if binding.dispose.isSome then [] else [.error noDispose]

theorem reports_of_eq (h : q.exit = r.exit) (hs : ¬q.Succeeds) : Reports q r cs := by
  unfold Reports
  split
  · exact absurd ‹_› hs
  · exact h.symm

theorem reports_settle (u : σ) (primary : Result Unit) :
    Reports (settle binding.quiet u primary) (settle binding u primary)
      (binding.missing ++ (settle binding u primary).cleanups) := by
  cases primary with
  | error e => exact reports_of_eq rfl nofun
  | ok _ =>
    show ∃ c, _ = [c] ∧ _ = Exit.returned c
    obtain ⟨hd, hevents, hexit⟩ | ⟨hd, result, hevents, hexit⟩ := settle_cases binding u (.ok ())
    · exact ⟨_, by simp [LocalBinding.missing, cleanups, hd, hevents, Event.cleanup, outcome],
        hexit⟩
    · have hd : binding.dispose.isSome = true := hd
      exact ⟨_, by simp [LocalBinding.missing, cleanups, hd, hevents, Event.cleanup, outcome],
        hexit⟩

theorem reports_failAfterBinding (u : σ) (e : Error) :
    Reports (failAfterBinding binding.quiet u e) (failAfterBinding binding u e) cs :=
  reports_of_eq rfl nofun

/-- Events that clean nothing up go before both runs. -/
theorem reports_behind {es : List Event} (hes : ∀ e ∈ es, e.isInner = true)
    (h : Reports q r (cs ++ r.cleanups)) (es' : List Event) :
    Reports (q.behind es') (r.behind es) (cs ++ (r.behind es).cleanups) := by
  have hc : (r.behind es).cleanups = r.cleanups := by
    simp [cleanups, behind, Event.cleanups_inner hes]
  rw [hc]
  exact h

theorem reports_after {e : Event} (he : e.cleanup = none) (h : Reports q r r.cleanups)
    (e' : Event) : Reports (q.after e') (r.after e) (r.after e).cleanups := by
  have hc : (r.after e).cleanups = r.cleanups := List.filterMap_cons_none he
  rw [hc]
  exact h

section Stages

variable {lib : Negotiator} {peer : Peer} {config : ApalacheConfig} {digest : SemanticDigest}

theorem reports_stepBinding (computer : Computer σ) (line : String) (rest : List Reply)
    (guard : Phase) (u : σ) :
    Reports (stepBinding lib peer binding.quiet computer line rest guard u)
      (stepBinding lib peer binding computer line rest guard u)
      (binding.missing ++ (stepBinding lib peer binding computer line rest guard u).cleanups) := by
  have htraffic := @traffic_runSteppingLoop _ lib.toLibrary peer.sends computer
    (.ok line :: rest) 1 guard u
  unfold stepBinding
  generalize runSteppingLoop lib.toLibrary peer.sends computer (.ok line :: rest) 1 guard u = r
    at htraffic
  obtain ⟨events, exit, user⟩ := r
  have hinner : ∀ e ∈ events.tail, e.isInner = true := fun e he =>
    Event.isInner_traffic (htraffic e (List.mem_of_mem_tail he))
  refine reports_behind hinner ?_ _
  cases exit with
  | waiting => exact reports_of_eq rfl nofun
  | raised x => exact reports_settle _ _
  | returned primary => exact reports_settle _ _

theorem reports_checkBinding {next next' : Computer σ → σ → Run σ}
    (h : ∀ computer u, Reports (next' computer u) (next computer u)
      (binding.missing ++ (next computer u).cleanups)) (u : σ) :
    Reports (checkBinding config digest binding.quiet u next')
      (checkBinding config digest binding u next)
      (binding.missing ++ (checkBinding config digest binding u next).cleanups) := by
  have hdigest : binding.quiet.semanticDigest = binding.semanticDigest := rfl
  have hcomputer : binding.quiet.computer = binding.computer := rfl
  have hconfig : binding.quiet.assertCompatibleConfig = binding.assertCompatibleConfig := rfl
  unfold checkBinding
  rw [hdigest, hcomputer, hconfig]
  split
  · exact reports_failAfterBinding _ _
  cases binding.computer with
  | none => exact reports_failAfterBinding _ _
  | some computer =>
    cases binding.assertCompatibleConfig with
    | none => exact reports_failAfterBinding _ _
    | some check =>
      have hassert (passed : Bool) : ∀ e ∈ [Event.assertConfig passed], e.isInner = true := by
        simp [Event.isInner]
      dsimp only
      split
      · exact reports_behind (hassert false) (reports_failAfterBinding _ _) [.assertConfig false]
      · exact reports_behind (hassert false) (reports_failAfterBinding _ _) [.assertConfig false]
      · exact reports_behind (hassert true) (h _ _) [.assertConfig true]

theorem reports_createBinding {fallback : Bool} {factory : AdapterFactory σ}
    {next next' : LocalBinding σ → σ → Run σ}
    (h : ∀ binding u, Reports (next' binding.quiet u) (next binding u)
      (binding.missing ++ (next binding u).cleanups)) (u : σ) :
    Reports (createBinding lib config fallback factory.quiet u next')
      (createBinding lib config fallback factory u next)
      (createBinding lib config fallback factory u next).cleanups := by
  unfold createBinding AdapterFactory.quiet
  cases factory with
  | none => exact reports_of_eq rfl nofun
  | some create =>
    dsimp only [Option.map_some]
    obtain ⟨_ | _ | binding, u⟩ := create config u
    · exact reports_of_eq rfl nofun
    · exact reports_of_eq rfl nofun
    · have hc : (Run.after (.factory fallback (some binding.created)) (next binding u)).cleanups =
          binding.missing ++ (next binding u).cleanups := by
        unfold LocalBinding.missing cleanups
        cases hd : binding.dispose <;> simp [Run.after, Event.cleanup, LocalBinding.created, hd]
      dsimp only
      rw [hc]
      exact h binding u

theorem fallback_quiet (prepared : PreparedCompiledAdapter σ) (required : Error)
    (missing : String) : prepared.quiet.fallback required missing =
      (fun p => (p.1, p.2.quiet)) <$> prepared.fallback required missing := by
  unfold PreparedCompiledAdapter.fallback PreparedCompiledAdapter.quiet
  dsimp only
  split
  · rfl
  · cases prepared.fallbackFactory <;> rfl

theorem authorize_quiet (decoded : DecodedReply) (prepared : PreparedCompiledAdapter σ) :
    authorizeCompiledReply decoded prepared.quiet =
      (fun p => (p.1, p.2.quiet)) <$> authorizeCompiledReply decoded prepared := by
  obtain ⟨message, reply, failure⟩ := decoded
  unfold authorizeCompiledReply
  cases message with
  | registerError error =>
    cases failure with
    | none => rfl
    | some failure =>
      show (if failure.expectedSemanticDigest ≠ none ∧
          failure.expectedSemanticDigest ≠ some prepared.key.semanticDigest then _ else _) =
        _ <$> if failure.expectedSemanticDigest ≠ none ∧
          failure.expectedSemanticDigest ≠ some prepared.key.semanticDigest then _ else _
      split <;> rfl
  | specValidated m =>
    obtain ⟨_ | text⟩ := m
    · cases reply with
      | none => exact fallback_quiet ..
      | some reply =>
        dsimp only
        cases reply.status with
        | matched =>
          show (if reply.semanticDigest ≠ some prepared.key.semanticDigest then _ else _) =
            _ <$> if reply.semanticDigest ≠ some prepared.key.semanticDigest then _ else _
          split <;> rfl
        | unsupported | unavailable => exact fallback_quiet ..
        | _ => rfl
    · rfl
  | _ => rfl

theorem reports_answered (prepared : PreparedCompiledAdapter σ) (line : String)
    (rest : List Reply) (guard : Phase) (u : σ) :
    Reports (answered lib peer config prepared.quiet line rest guard u)
      (answered lib peer config prepared line rest guard u)
      (answered lib peer config prepared line rest guard u).cleanups := by
  unfold answered
  split
  · exact reports_of_eq rfl nofun
  · exact reports_of_eq rfl nofun
  rename_i decoded _
  rw [authorize_quiet]
  cases authorizeCompiledReply decoded prepared with
  | error e => exact reports_of_eq rfl nofun
  | ok p =>
    refine reports_createBinding (fun binding u => ?_) u
    exact reports_checkBinding (fun computer u => reports_stepBinding ..) u

theorem reports_negotiate (prepared : PreparedCompiledAdapter σ) (encoded : String)
    (guard : Phase) (u : σ) :
    Reports (negotiate lib peer config prepared.quiet encoded guard u)
      (negotiate lib peer config prepared encoded guard u)
      (negotiate lib peer config prepared encoded guard u).cleanups := by
  unfold negotiate
  refine reports_after rfl ?_ _
  split
  · exact reports_of_eq rfl nofun
  split
  · exact reports_of_eq rfl nofun
  · exact reports_of_eq rfl nofun
  · exact reports_after rfl (reports_answered ..) _

theorem prepare_quiet (rd : StrictReader) (selection : CompiledAdapterSelection σ) :
    prepareCompiledAdapter rd selection.quiet =
      PreparedCompiledAdapter.quiet <$> prepareCompiledAdapter rd selection := by
  obtain ⟨metadata, adapterId, targetProfile, version, registry, policy, fallbackFactory⟩ :=
    selection
  unfold prepareCompiledAdapter CompiledAdapterSelection.quiet
  dsimp only
  split
  · rfl
  split
  · rfl
  cases registry with
  | none => rfl
  | some registry =>
    dsimp only [Option.map_some]
    cases makeVerifyRequest rd metadata policy with
    | error e => rfl
    | ok request =>
      simp only [Fallible.ok_bind]
      rw [resolve_map]
      cases registry.resolve _ with
      | error e => rfl
      | ok factory => rfl

theorem reports_run (registration : ClientMessage) (selection : CompiledAdapterSelection σ)
    (u : σ) :
    Reports (runCompiledNegotiated lib peer config registration selection.quiet u)
      (runCompiledNegotiated lib peer config registration selection u)
      (runCompiledNegotiated lib peer config registration selection u).cleanups := by
  unfold runCompiledNegotiated
  rw [prepare_quiet]
  cases prepareCompiledAdapter lib.strict selection with
  | error e => cases e <;> exact reports_of_eq rfl nofun
  | ok prepared =>
    have hrequest : prepared.quiet.request = prepared.request := rfl
    rw [Fallible.map_ok]
    dsimp only
    rw [hrequest]
    cases encodeRegistration lib.json registration prepared.request with
    | error e => exact reports_of_eq rfl nofun
    | ok encoded =>
      dsimp only
      cases Phase.sent .idle registration with
      | error e => exact reports_of_eq rfl nofun
      | ok guard => exact reports_negotiate ..

end Stages

end Quiet

/-! ## The runs -/

section Runs

variable {lib : Negotiator} {peer : Peer} {config : ApalacheConfig}
  {selection : CompiledAdapterSelection σ}

theorem safe_prepareCompiledAdapter (rd : StrictReader) (selection : CompiledAdapterSelection σ) :
    Safe (prepareCompiledAdapter rd selection) := by
  unfold prepareCompiledAdapter
  split
  · exact nofun
  split
  · exact nofun
  split
  · exact nofun
  · exact safe_bind (safe_makeVerifyRequest _ _ _) fun _ _ =>
      safe_bind (safe_lift _) fun _ _ => safe_ok _

/-- A run that is refused before anything happens, or that sends its registration. -/
theorem runCompiledNegotiated_cases (registration : ClientMessage) (u : σ) :
    (∃ e, runCompiledNegotiated lib peer config registration selection u =
        ⟨[], .returned (.error e), u⟩) ∨
      ∃ prepared encoded guard, Prepared lib.strict selection prepared ∧
        (∀ s : CompiledAdapterSelection σ, prepareCompiledAdapter lib.strict s = .ok prepared →
          runCompiledNegotiated lib peer config registration s u =
            negotiate lib peer config prepared encoded guard u) ∧
        prepareCompiledAdapter lib.strict selection = .ok prepared := by
  cases hp : prepareCompiledAdapter lib.strict selection with
  | error e =>
    cases e with
    | refused e => exact .inl ⟨e, by rw [runCompiledNegotiated, hp]⟩
    | threw f => exact absurd hp (safe_prepareCompiledAdapter _ _ f)
  | ok prepared =>
    cases he : encodeRegistration lib.json registration prepared.request with
    | error e => exact .inl ⟨e, by rw [runCompiledNegotiated, hp]; simp only [he]⟩
    | ok encoded =>
      cases hg : Phase.sent .idle registration with
      | error e => exact .inl ⟨e, by rw [runCompiledNegotiated, hp]; simp only [he, hg]⟩
      | ok guard =>
        refine .inr ⟨prepared, encoded, guard, prepareCompiledAdapter_ok hp, fun s hs => ?_, rfl⟩
        rw [runCompiledNegotiated, hs]
        simp only [he, hg]

theorem guarded_negotiate {prepared : PreparedCompiledAdapter σ}
    (hp : Prepared lib.strict selection prepared) (hdec : Decodes lib.toLibrary peer.replies)
    (encoded : String) (guard : Phase) (u : σ) :
    Guarded lib selection prepared.key.semanticDigest []
      (negotiate lib peer config prepared encoded guard u) := by
  unfold negotiate
  refine guarded_after rfl trivial ?_
  split
  · exact guarded_fail _ _
  rename_i hsent
  split
  · exact guarded_waiting _
  · exact guarded_after rfl trivial (guarded_fail _ _)
  · rename_i line rest hreplies
    refine guarded_after rfl trivial ?_
    rw [hsent]
    exact guarded_course (course_answered hp (hdec line (by simp [hreplies])) rest guard)

end Runs

/-- The flows with a compiled adapter, with their arguments. -/
inductive NegotiatedFlow where
  | withTraces (itfTracePaths : List String)
  | generated (traceConfig : TraceGenerationConfig) (inlineSpec : Option ApalacheSpec)

namespace NegotiatedFlow

variable (lib : Negotiator) (peer : Peer) (config : ApalacheConfig)
  (selection : CompiledAdapterSelection σ) (u : σ)

def registration : NegotiatedFlow → ClientMessage
  | withTraces paths => .registerTraces config paths
  | generated traceConfig inlineSpec => .register config traceConfig inlineSpec

def run : NegotiatedFlow → Run σ
  | withTraces paths => runClientWithTracesNegotiated lib peer config paths selection u
  | generated traceConfig inlineSpec =>
    runClientNegotiated lib peer config traceConfig selection inlineSpec u

theorem run_eq (flow : NegotiatedFlow) : flow.run lib peer config selection u =
    runCompiledNegotiated lib peer config (flow.registration config) selection u := by
  cases flow <;> rfl

end NegotiatedFlow

/-- The runs of a flow, one for each selection, fail closed. -/
structure FailsClosed (lib : Negotiator) (selection : CompiledAdapterSelection σ)
    (run : CompiledAdapterSelection σ → Run σ) : Prop where
  /-- Nothing happens unless one entry has the requested key; no other entry counts. -/
  registered : (run selection).events ≠ [] → ∃ key factory registry,
    selection.requested = some key ∧ selection.registry = some registry ∧
    registry.exact key = [⟨key, factory⟩] ∧
    run { selection with registry := some [⟨key, factory⟩] } = run selection
  /-- Factories, computers and disposals come only behind what allows them. -/
  justified : ∀ key before e after, selection.requested = some key →
    (run selection).events = before ++ e :: after → e.Justified lib selection key.semanticDigest
      before
  once : (run selection).events.countP Event.isFactory ≤ 1
  disposes : (run selection).exit ≠ .waiting →
    (run selection).events.countP Event.isDispose = (run selection).events.countP Event.isDisposable
  /-- An error counts before that of the disposal, which counts when there is no other. -/
  primary : Run.Reports (run selection.quiet) (run selection) (run selection).cleanups
  returns : ∀ x, (run selection).exit ≠ .raised x
  closes : (run selection).events ≠ [] → (run selection).exit ≠ .waiting →
    (run selection).events.getLast? = some .close

/-- **Negotiated runs fail closed.** -/
theorem fails_closed (lib : Negotiator) (flow : NegotiatedFlow) (peer : Peer)
    (hdec : Decodes lib.toLibrary peer.replies) (config : ApalacheConfig)
    (selection : CompiledAdapterSelection σ) (u : σ) :
    FailsClosed lib selection fun s => flow.run lib peer config s u := by
  simp only [NegotiatedFlow.run_eq]
  have hprimary := @reports_run _ lib peer config (flow.registration config) selection u
  obtain ⟨e, h⟩ | ⟨prepared, encoded, guard, hp, hrun, hprepared⟩ :=
    @runCompiledNegotiated_cases _ lib peer config selection (flow.registration config) u
  · exact {
      registered := fun hne => absurd (by rw [h]) hne
      justified := fun _ before e after _ he => by simp [h] at he
      once := by simp [h]
      disposes := fun _ => by simp [h]
      primary := hprimary
      returns := fun x => by simp [h]
      closes := fun hne => absurd (by rw [h]) hne }
  · have hd := @guarded_negotiate _ _ peer config _ _ hp hdec encoded guard u
    have heq := hrun selection hprepared
    obtain ⟨registry, hregistry, hexact⟩ := hp.registry
    refine {
      registered := fun _ => ⟨prepared.key, prepared.factory, registry, hp.requested, hregistry,
        hexact, (hrun _ hp.only).trans heq.symm⟩
      justified := ?_
      once := heq ▸ hd.once
      disposes := heq ▸ hd.disposes
      primary := hprimary
      returns := heq ▸ hd.returns
      closes := fun _ => heq ▸ hd.closes }
    rintro key before e after hkey he
    cases hp.requested.symm.trans hkey
    exact ordered_split (heq ▸ hd.ordered) he

/-! ## A sample run -/

/-- What the sample library does with a text. -/
def compactScan (text : String) : List ParseEvent × Except String Doc :=
  match Compact.parse text with
  | some d =>
    if d.toJson.utf8 then (d.events, .ok d)
    else ([], .error (compactReader.parseWhat text))
  | none => ([], .error (compactReader.parseWhat text))

theorem compactScan_agrees (line : String) (raw : Json)
    (h : strictParse ⟨compactScan⟩ line = .ok raw) : compactReader.parse line = .ok raw := by
  unfold strictParse compactScan at h
  unfold compactReader
  dsimp only at h ⊢
  split at h
  · cases h
  cases hp : Compact.parse line with
  | none => simp [hp] at h
  | some d =>
    by_cases hu : d.toJson.utf8 = true
    · simp only [hp, hu, if_true] at h ⊢
      split at h
      · cases h
      · rename_i heq
        cases heq
      · rename_i heq
        cases heq
        exact congrArg Except.ok (Except.ok.inj h)
    · simp [hp, hu] at h

def compactNegotiator : Negotiator where
  toLibrary := compactLibrary
  strict := ⟨compactScan⟩
  callWhat := "bad_function_call"
  agrees := compactScan_agrees

def sampleHex : String := "0000000000000000000000000000000000000000000000000000000000000000"

def sampleContract : Json :=
  .obj [("actions", .arr []), ("initializers", .arr []), ("interfaceVersion", .str "1"),
    ("model", .obj [("module", .str "Spec"), ("source", .str "Spec.tla")]),
    ("observations", .arr []), ("schema", .str modelInterfaceContractSchema),
    ("wire", .obj [("actionVariable", .str "action"), ("parameterVariable", .null)])]

def sampleDigest : SemanticDigest := ⟨List.replicate 32 0, rfl⟩

/-- A binding that counts the calls of its computer; its disposal fails. -/
def sampleFactory : AdapterFactory Nat := some fun _ n =>
  (.ok (.ok {
    semanticDigest := sampleDigest
    computer := some countCalls
    assertCompatibleConfig := some fun _ n => (.ok (.ok ()), n)
    dispose := some fun n => (.error .unknown, n) }), n)

def sampleSelection : CompiledAdapterSelection Nat where
  metadata := { semanticDigest := sampleHex, contractJson := sampleText sampleContract }
  adapterId := "counter"
  registry := some [⟨⟨sampleDigest, "counter", mirrorcppTargetProfile,
    stateComputerContractVersion⟩,
    sampleFactory⟩]
  policy := .prefer
  fallbackFactory := some sampleFactory

/-- The mirror of the sample session does not negotiate; the fallback takes over. -/
theorem fails_closed_sample : FailsClosed compactNegotiator sampleSelection fun s =>
    (NegotiatedFlow.withTraces ["trace.itf.json"]).run compactNegotiator samplePeer
      { specPath := "Spec.tla" } s 0 :=
  fails_closed compactNegotiator _ samplePeer decodes_samplePeer _ _ _

end MirrorCpp.Client
