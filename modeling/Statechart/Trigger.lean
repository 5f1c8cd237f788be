import Statechart.Event

/-!
# Triggers

A trigger is a predicate on the kind of an event. The completion event stands apart: only the
trigger that is exactly `Trigger.completion` accepts it, and that one accepts nothing else.

* `Trigger`, `Trigger.accepts`.
-/

set_option autoImplicit false

namespace Statechart

/-- A predicate on the kind of the dispatched event. -/
inductive Trigger where
  | is (k : EventKind)
  | any
  | completion
  | not (t : Trigger)
  | and (t u : Trigger)
  | or (t u : Trigger)
deriving DecidableEq, Repr

namespace Trigger

/-- Acceptance of the kinds other than completion. -/
def acceptsKind : Trigger → EventKind → Bool
  | is expected, k => expected = k
  | any, _ => true
  | completion, _ => false
  | not t, k => !t.acceptsKind k
  | and t u, k => t.acceptsKind k && u.acceptsKind k
  | or t u, k => t.acceptsKind k || u.acceptsKind k

def isCompletion (t : Trigger) : Bool := t = completion

/-- Whether an event sets the trigger off. -/
def accepts (t : Trigger) (e : Event) : Bool :=
  if e.isCompletion then t.isCompletion else t.acceptsKind e.kind

end Trigger

end Statechart
