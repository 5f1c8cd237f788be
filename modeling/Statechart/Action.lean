import Statechart.Callback

/-!
# Actions

An action is a callback that runs when a transition fires or a state reacts.

* `Action.new`, `Action.fallible`, `Action.on` : actions from callbacks that cannot fail, that can,
  and that attend to one kind of event;
* `Action.followedBy` : one action after another, ending at the first failure.
-/

set_option autoImplicit false

namespace Statechart

/-- A side effect on the context, given the event being dispatched. -/
def Action (γ : Type) : Type := Event → Fallible γ Unit

namespace Action

variable {γ : Type}

def run (a : Action γ) (e : Event) : Fallible γ Unit := a e

def fallible (f : Event → Fallible γ Unit) : Action γ := f

/-- An action that cannot fail. -/
def new (f : Event → Callback γ Unit) : Action γ := fun e => ExceptT.lift (f e)

/-- An action that does nothing on events of another kind. -/
def on (k : EventKind) (f : Event → Callback γ Unit) : Action γ :=
  new fun e => if e.kind = k then f e else pure ()

/-- Runs `a`, then `b` unless `a` failed. -/
def followedBy (a b : Action γ) : Action γ := fun e => do
  a.run e
  b.run e

end Action

end Statechart
