import Statechart.Action
import Statechart.Guard
import Statechart.Trigger

/-!
# Transitions

A transition is one row of a region's table: where it starts, what triggers it, where it leads,
and optionally a guard and an action. Rows name their targets by state when they are declared and by
position once they are built, so the type of targets is a parameter.

* `Named` : states with a display name;
* `Source`, `Source.accepts` : predicates on the active state;
* `Target` : another state, the same configuration (internal), or the end of the region;
* `Transition`, `Transition.concerns` (source and trigger accept), `Transition.canFire`.
-/

set_option autoImplicit false

namespace Statechart

/-- State identities with a name for messages and paths. -/
class Named (σ : Type) where
  name : σ → String

/-- A predicate on the active state of a region. -/
inductive Source (σ : Type) where
  | state (s : σ)
  | any
  | anyOf (states : List σ)
  | anyBut (states : List σ)
deriving DecidableEq, Repr

namespace Source

variable {σ : Type}

def accepts [DecidableEq σ] : Source σ → σ → Bool
  | state s, active => s = active
  | any, _ => true
  | anyOf states, active => states.contains active
  | anyBut states, active => !states.contains active

/-- The members of a set of states that the source lists. -/
def listed : Source σ → List σ
  | state _ => []
  | any => []
  | anyOf states => states
  | anyBut states => states

/-- The single state that the source names. -/
def single? : Source σ → Option σ
  | state s => some s
  | _ => none

end Source

/-- Where a transition leads. -/
inductive Target (τ : Type) where
  | state (t : τ)
  | internal
  | final
deriving DecidableEq, Repr

namespace Target

/-- The state that the target names. -/
def state? {τ : Type} : Target τ → Option τ
  | state t => some t
  | _ => none

end Target

/-- One row of a transition table over states `σ`, contexts `γ` and targets `τ`. -/
structure Transition (σ γ τ : Type) where
  source : Source σ
  trigger : Trigger
  target : Target τ
  action : Option (Action γ) := none
  guard : Option (Guard γ) := none

namespace Transition

variable {σ γ τ : Type} [DecidableEq σ]

/-- Whether source and trigger accept; only then is the guard asked. -/
def concerns (row : Transition σ γ τ) (active : σ) (e : Event) : Bool :=
  row.source.accepts active && row.trigger.accepts e

/-- Whether the row fires for the active state and the event. -/
def canFire (row : Transition σ γ τ) (active : σ) (e : Event) : Fallible γ Bool :=
  if row.concerns active e then
    match row.guard with
    | some guard => guard.check e
    | none => return true
  else
    return false

end Transition

end Statechart
