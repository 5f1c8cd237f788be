import Statechart.Script.Callbacks
import Statechart.World

/-!
# The bench

Guards, actions, rows and behaviours can be tried on their own, without a machine around them.

* `Answer`, `Trial` : what a call came to, and the context it left;
* `tryGuard`, `tryAction`, `tryRow` : calls on a context;
* `BehaviorCall`, `tryBehavior` : calls on a behaviour and its local data.
-/

set_option autoImplicit false

namespace Statechart.Script

/-- What a call came to. -/
inductive Answer (α : Type) where
  | value (a : α)
  | failed (message : String)
  | panicked (message : String)
deriving DecidableEq, Repr

namespace Answer

def map {α β : Type} (f : α → β) : Answer α → Answer β
  | value a => value (f a)
  | failed message => failed message
  | panicked message => panicked message

end Answer

/-- Calls a callback outside a machine; what it raises is lost. -/
def onBench {κ α : Type} (x : Fallible κ α) (s : κ) : Answer α × κ :=
  let (outcome, _) := (x.run s).play ({} : Exchange StateId)
  match outcome.result with
  | .ok (.ok a) => (.value a, outcome.state)
  | .ok (.error message) => (.failed message, outcome.state)
  | .error message => (.panicked message, outcome.state)

def tryGuard (g : Guard Context) (e : Event) (c : Context) : Answer Bool × Context :=
  onBench (g.check e) c

def tryAction (a : Action Context) (e : Event) (c : Context) : Answer Unit × Context :=
  onBench (a.run e) c

/-- Asks whether a row fires and, if it does and has an action, runs that too. -/
def tryRow (row : Transition StateId Context StateId) (active : StateId) (e : Event) (c : Context) :
    Answer Bool × Option (Answer Unit) × Context :=
  let (fires, c) := onBench (row.canFire active e) c
  match fires, row.action with
  | .value true, some a =>
    let (ran, c) := tryAction a e c
    (fires, some ran, c)
  | _, _ => (fires, none, c)

/-- The calls of a behaviour. -/
inductive BehaviorCall where
  | entry
  | exit
  | event
  | accepts
deriving DecidableEq, Repr

/-- Calls a behaviour on a context and its local data. Entries and exits answer nothing. -/
def tryBehavior (b : Behavior Context Nat) (call : BehaviorCall) (e : Event) (s : Context × Nat) :
    Answer (Option Bool) × Context × Nat :=
  match call with
  | .entry => (onBench (b.onEntry e) s).map (·.map fun _ => none) id
  | .exit => (onBench (b.onExit e) s).map (·.map fun _ => none) id
  | .event => (onBench (b.onEvent e) s).map (·.map some) id
  | .accepts => (.value (some (b.accepts s.1 s.2 e)), s)

end Statechart.Script
