import Statechart.Machine
import Statechart.Text.Quoted

/-!
# Shared machines

A shared machine dispatches what is posted to it at once. It lets in one caller at a time; a panic
poisons it, and from then on nothing runs until the machine is taken out again.

* `Machine.post`, `Machine.exclusively` : posting to a machine that is not shared queues the event; working on it
  and then dispatching;
* `Lock`, `Shared`, `Shared.wrap`, `Shared.clone`, `Shared.drop`, `Shared.unwrap` : sharing a machine and
  taking it back;
* `Shared.drive` : dispatches what is pending if nobody else does;
* `Shared.post`, `Shared.processPending`, `Shared.exclusively`.

Callbacks that raise events while they hold the lock only queue them; whoever holds the lock empties
the queue before releasing it. A mailbox is attached to one sharing in its life, the first. In a later
one, posts only queue.
-/

set_option autoImplicit false

namespace Statechart

variable {σ γ δ α : Type} [DecidableEq σ] [Named σ]

/-- Queues an event for a machine that is not being shared. -/
def Machine.post (m : Machine σ γ δ) (e : Event) : Except Halt Unit × Machine σ γ δ :=
  m.run (Turn.offer e)

/-- The lock of a shared machine. -/
inductive Lock where
  | free
  /-- Somebody works on the machine. -/
  | held
  /-- Whoever held the lock panicked. -/
  | poisoned
deriving DecidableEq, Repr

/-- A machine behind a lock. -/
structure Shared (σ γ δ : Type) where
  machine : Machine σ γ δ
  /-- Whether posts to the mailbox reach this sharing. -/
  driving : Bool
  lock : Lock := .free
  /-- How many handles there are besides the first. -/
  extraHandles : Nat := 0

/-- Marks the mailbox as attached to a sharing; only the first mark makes a difference. -/
def Machine.attach (m : Machine σ γ δ) : Machine σ γ δ :=
  { m with configuration.world.exchange.mailbox.attached := true }

/-- Lets `f` work on the machine and then dispatches what is pending. What `f` returns is its value or the message
of a panic. -/
def Machine.exclusively (bound : Nat) (m : Machine σ γ δ)
    (f : Machine σ γ δ → Except String α × Machine σ γ δ) : Except Halt α × Machine σ γ δ :=
  match f m with
  | (.error message, m) => (.error (.panic message), m)
  | (.ok a, m) =>
    match m.run (m.chart.processPending bound) with
    | (.ok _, m) => (.ok a, m)
    | (.error h, m) => (.error h, m)

namespace Shared

/-- Shares a machine. -/
def wrap (m : Machine σ γ δ) : Shared σ γ δ where
  machine := m.attach
  driving := !m.mailbox.attached

/-- Makes one more handle. -/
def clone (s : Shared σ γ δ) : Shared σ γ δ := { s with extraHandles := s.extraHandles + 1 }

/-- Gives up one of the extra handles, if there is one. -/
def drop (s : Shared σ γ δ) : Shared σ γ δ := { s with extraHandles := s.extraHandles - 1 }

/-- The machine, if the handle is the last one. A poisoned machine is given back too. -/
def unwrap (s : Shared σ γ δ) : Option (Machine σ γ δ) :=
  if s.extraHandles = 0 then some s.machine else none

/-- Whether a call ended in a panic, which poisons the lock. -/
def isPanic : Except Halt α → Bool
  | .error (.panic _) => true
  | _ => false

/-- Takes the free lock, lets `f` work on the machine and releases the lock. -/
def locked (s : Shared σ γ δ) (f : Machine σ γ δ → Except Halt α × Machine σ γ δ) :
    Except Halt α × Shared σ γ δ :=
  let (result, m) := f s.machine
  (result, { s with machine := m, lock := if isPanic result then .poisoned else .free })

/-- Dispatches what is pending, and again if something was queued after that before the lock was released.
Whoever holds the lock sees to it otherwise. -/
def drive (bound : Nat) : Nat → Shared σ γ δ → Except Halt Unit × Shared σ γ δ
  | 0, s => (.error .unfinished, s)
  | rounds + 1, s =>
    match s.lock with
    | .held => (.ok (), s)
    | .poisoned => (.error (.error .poisoned), s)
    | .free =>
      match s.locked fun m => m.run (m.chart.processPending bound) with
      | (.error h, s) => (.error h, s)
      | (.ok _, s) => if s.machine.mailbox.pending.isEmpty then (.ok (), s) else s.drive bound rounds

/-- Dispatches what is pending. -/
def processPending (bound : Nat) (s : Shared σ γ δ) : Except Halt Unit × Shared σ γ δ :=
  s.drive bound (bound + 1)

/-- Queues an event and, if the sharing drives its mailbox, dispatches what is pending. -/
def post (bound : Nat) (s : Shared σ γ δ) (e : Event) : Except Halt Unit × Shared σ γ δ :=
  match s.machine.post e with
  | (.error h, m) => (.error h, { s with machine := m })
  | (.ok _, m) =>
    let s := { s with machine := m }
    if s.driving then s.processPending bound else (.ok (), s)

/-- Gives `f` the machine alone, dispatches what is pending before the lock is released, and once more
after. Who asks for a lock that he holds himself waits for ever. -/
def exclusively (bound : Nat) (s : Shared σ γ δ)
    (f : Machine σ γ δ → Except String α × Machine σ γ δ) : Except Halt α × Shared σ γ δ :=
  match s.lock with
  | .held => (.error .unfinished, s)
  | .poisoned => (.error (.error .poisoned), s)
  | .free =>
    match s.locked fun m => m.exclusively bound f with
    | (.error h, s) => (.error h, s)
    | (.ok a, s) =>
      match s.processPending bound with
      | (.ok _, s) => (.ok a, s)
      | (.error h, s) => (.error h, s)

/-- Diagnostic text, which tells nothing about the machine. -/
def render (_ : Shared σ γ δ) : String := "SharedMachine \x7b .. \x7d"

/-- Diagnostic text of a handle that takes the listed events. -/
def renderHandle (events : String) : String :=
  "MachineRef \x7b whitelist: " ++ Text.quote events ++ " \x7d"

end Shared

end Statechart
