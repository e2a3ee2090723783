import MirrorCpp.Protocol.Phase
import MirrorCpp.Protocol.Hints
import MirrorCpp.Interface.Strict

/-!
# Flows over a transport (`client.cpp`)

A flow talks to a transport and runs the callbacks it was given. The transport is a `Peer`: the
replies it will give, in order, and which sends fail. A flow that asks for one reply more than
there are waits; so all replies there may ever be are covered by the finite lists. A `Run` is what
a flow did.
-/

namespace MirrorCpp.Client

open Itf Protocol

/-- The codec with what it takes from the JSON library. -/
structure Library where
  late : Bool
  reader : Reader
  json : JsonLib
  /-- `what()` of an exception that leaves the decoder. -/
  escapeWhat : Escape → String
  /-- `what()` of the exception of `dump()`. -/
  dumpWhat : String

def Library.decode (lib : Library) (line : String) : Except Escape (Result MirrorMessage) :=
  decodeMirrorMessage lib.late lib.reader line

def Library.encode (lib : Library) (m : ClientMessage) : Option String :=
  encodeClientMessage lib.json m

/-- An exception, as far as callers tell them apart. -/
inductive Exn where
  /-- `ModelInterfaceBindingError`. -/
  | binding (code message : String)
  /-- Another `std::exception`. -/
  | std (what : String)
  | unknown
  deriving DecidableEq, Repr

/-- What `recv_line` returns. -/
abbrev Reply := Except Error String

structure Peer where
  replies : List Reply
  /-- The error of the `n`-th `send_line`, if it fails. -/
  sends : Nat → Option Error

/-- A call of the state computer. -/
structure Call where
  action : String
  params : State
  prev : State
  result : Except Exn State

/-- What a flow sees of a new binding. -/
structure Created where
  semanticDigest : Interface.SemanticDigest
  /-- It has a callback to dispose it. -/
  disposable : Bool

inductive Event where
  | send (line : String) (failed : Option Error)
  | recv (reply : Reply)
  | close
  | compute (c : Call)
  /-- A call of an adapter factory; `fallback`: of that of the caller. -/
  | factory (fallback : Bool) (created : Option Created)
  | assertConfig (passed : Bool)
  | dispose (result : Except Exn (Result Unit))

inductive Exit where
  | returned (r : Result Unit)
  | raised (e : Exn)
  /-- `recv_line` has not returned. -/
  | waiting

/-- The events of a flow in order, how it ended, and the state the callbacks are left in. -/
structure Run (σ : Type) where
  events : List Event
  exit : Exit
  user : σ

/-- A state computer; its own state is part of `σ`. -/
abbrev Computer (σ : Type) := String → State → State → σ → Except Exn State × σ

namespace Run

variable {σ : Type}

def after (e : Event) (r : Run σ) : Run σ := { r with events := e :: r.events }

/-- A run with events before its own. -/
def behind (es : List Event) (r : Run σ) : Run σ := { r with events := es ++ r.events }

/-- Close, then return an error. -/
def fail (u : σ) (e : Error) : Run σ := ⟨[.close], .returned (.error e), u⟩

/-- The lines sent, in order. -/
def lines (r : Run σ) : List String :=
  r.events.filterMap fun
    | .send line _ => some line
    | _ => none

/-- The replies received. -/
def received (r : Run σ) : List Reply :=
  r.events.filterMap fun
    | .recv reply => some reply
    | _ => none

/-- The calls of the computer. -/
def calls (r : Run σ) : List Call :=
  r.events.filterMap fun
    | .compute c => some c
    | _ => none

/-- Every send succeeded. -/
def Delivered (r : Run σ) : Prop := ∀ line f, .send line f ∈ r.events → f = none

/-- No call of the computer threw. -/
def Computed (r : Run σ) : Prop := ∀ c ∈ r.calls, ∃ s, c.result = .ok s

def Succeeds (r : Run σ) : Prop := r.exit = .returned (.ok ())

/-- Closed once, at the end; or waiting, and never closed. -/
def Closed (r : Run σ) : Prop :=
  match r.exit with
  | .waiting => .close ∉ r.events
  | _ => ∃ es, r.events = es ++ [.close] ∧ .close ∉ es

section Projections

variable {r : Run σ} {e : Event} {u : σ}

@[simp] theorem lines_fail {x : Error} : (fail u x).lines = [] := rfl

@[simp] theorem received_fail {x : Error} : (fail u x).received = [] := rfl

@[simp] theorem calls_fail {x : Error} : (fail u x).calls = [] := rfl

@[simp] theorem exit_after : (r.after e).exit = r.exit := rfl

@[simp] theorem lines_send {line : String} {f : Option Error} :
    (r.after (.send line f)).lines = line :: r.lines := rfl

@[simp] theorem lines_recv {reply : Reply} : (r.after (.recv reply)).lines = r.lines := rfl

@[simp] theorem lines_compute {c : Call} : (r.after (.compute c)).lines = r.lines := rfl

@[simp] theorem received_send {line : String} {f : Option Error} :
    (r.after (.send line f)).received = r.received := rfl

@[simp] theorem received_recv {reply : Reply} :
    (r.after (.recv reply)).received = reply :: r.received := rfl

@[simp] theorem received_compute {c : Call} : (r.after (.compute c)).received = r.received := rfl

@[simp] theorem calls_send {line : String} {f : Option Error} :
    (r.after (.send line f)).calls = r.calls := rfl

@[simp] theorem calls_recv {reply : Reply} : (r.after (.recv reply)).calls = r.calls := rfl

@[simp] theorem calls_compute {c : Call} : (r.after (.compute c)).calls = c :: r.calls := rfl

@[simp] theorem delivered_send {line : String} {f : Option Error} :
    (r.after (.send line f)).Delivered ↔ f = none ∧ r.Delivered := by
  simp only [Delivered, after, List.mem_cons, Event.send.injEq]
  constructor
  · exact fun h => ⟨h line f (.inl ⟨rfl, rfl⟩), fun l g hg => h l g (.inr hg)⟩
  · rintro ⟨rfl, h⟩ l g (⟨-, rfl⟩ | hg)
    · rfl
    · exact h l g hg

@[simp] theorem delivered_recv {reply : Reply} :
    (r.after (.recv reply)).Delivered ↔ r.Delivered := by
  simp [Delivered, after]

@[simp] theorem delivered_compute {c : Call} : (r.after (.compute c)).Delivered ↔ r.Delivered := by
  simp [Delivered, after]

theorem closed_after (he : e ≠ .close) : (r.after e).Closed ↔ r.Closed := by
  have hne : Event.close ≠ e := fun h => he h.symm
  have hcons : (∃ es, e :: r.events = es ++ [.close] ∧ Event.close ∉ es) ↔
      ∃ es, r.events = es ++ [.close] ∧ .close ∉ es := by
    constructor
    · rintro ⟨es, h, hes⟩
      cases es with
      | nil => exact absurd (List.cons.inj h).1 he
      | cons e' es =>
        exact ⟨es, (List.cons.inj h).2, fun hm => hes (List.mem_cons_of_mem _ hm)⟩
    · rintro ⟨es, h, hes⟩
      exact ⟨e :: es, by rw [h]; rfl, by simp [hes, hne]⟩
  unfold Closed after
  dsimp only
  cases r.exit with
  | waiting => simp [hne]
  | _ => exact hcons

@[simp] theorem closed_send {line : String} {f : Option Error} :
    (r.after (.send line f)).Closed ↔ r.Closed := closed_after nofun

@[simp] theorem closed_recv {reply : Reply} : (r.after (.recv reply)).Closed ↔ r.Closed :=
  closed_after nofun

@[simp] theorem closed_compute {c : Call} : (r.after (.compute c)).Closed ↔ r.Closed :=
  closed_after nofun

/-- Nothing but the close. -/
theorem closed_close {x : Exit} (hx : x ≠ .waiting) :
    (⟨[.close], x, u⟩ : Run σ).Closed := by
  unfold Closed
  cases x with
  | waiting => exact absurd rfl hx
  | _ => exact ⟨[], rfl, by simp⟩

@[simp] theorem closed_fail {x : Error} : (fail u x).Closed := closed_close nofun

end Projections

end Run

end MirrorCpp.Client
