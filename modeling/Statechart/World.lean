import Statechart.DispatchError
import Statechart.History
import Statechart.Journal

/-!
# The world of a machine

All that a machine keeps next to the markings of its regions.

* `Mailbox` : the queue of pending events, first in first out, with an optional capacity;
* `Exchange` : mailbox and journal, the parts that every callback reaches by raising events;
* `Course.play` : runs a callback's course against them;
* `World`.
-/

set_option autoImplicit false

namespace Statechart

/-- The queue of events that wait to be dispatched. -/
structure Mailbox where
  pending : List Event := []
  capacity : Option Nat := none
  /-- Whether a shared machine was ever attached to dispatch what is posted. -/
  attached : Bool := false
deriving DecidableEq, Repr

namespace Mailbox

/-- Puts an event behind the pending ones if there is room. -/
def offer (b : Mailbox) (e : Event) : Receipt × Mailbox :=
  match b.capacity with
  | some capacity =>
    if capacity ≤ b.pending.length then (.refused capacity, b)
    else (.queued, { b with pending := b.pending ++ [e] })
  | none => (.queued, { b with pending := b.pending ++ [e] })

/-- Takes the oldest pending event. -/
def take? (b : Mailbox) : Option (Event × Mailbox) :=
  match b.pending with
  | [] => none
  | e :: rest => some (e, { b with pending := rest })

end Mailbox

/-- Mailbox and journal. -/
structure Exchange (σ : Type) where
  mailbox : Mailbox := {}
  journal : Journal σ := {}
deriving DecidableEq, Repr

namespace Exchange

variable {σ : Type}

def note (x : Exchange σ) (n : Note σ) : Exchange σ := { x with journal := x.journal.write n }

/-- Offers an event to the mailbox and notes the receipt. -/
def offer (x : Exchange σ) (e : Event) : Receipt × Exchange σ :=
  match x.mailbox.offer e with
  | (.queued, b) => (.queued, { x with mailbox := b }.note (.queued e))
  | (.refused capacity, b) => (.refused capacity, { x with mailbox := b }.note (.refused e))

end Exchange

/-- What a course comes to: the last state with a value or the message of a panic. -/
structure Course.Outcome (κ α : Type) where
  result : Except String α
  state : κ

/-- Runs a course, offering the events it raises. -/
def Course.play {σ κ α : Type} : Course κ α → Exchange σ → Course.Outcome κ α × Exchange σ
  | .done s a, x => (⟨.ok a, s⟩, x)
  | .panic s message, x => (⟨.error message, s⟩, x)
  | .raise e next, x => (next (x.offer e).1).play (x.offer e).2

/-- What a machine keeps next to the markings of its regions. -/
structure World (σ γ : Type) where
  context : γ
  exchange : Exchange σ := {}
  history : History σ := {}
  /-- The time that records of the history get; the host sets it. -/
  clock : Instant := ⟨0, 0⟩

end Statechart
