import Statechart.Transition

/-!
# Drafts of transitions

A draft collects the parts of a transition call by call. Later sources, triggers and targets replace
earlier ones, guards are conjoined and actions run in the order in which they were added.

* `Draft` and its steps (`starting`, `on`, `to`, `guarded`, `doing`, …);
* `Draft.build` : the transition, or the first part that is missing.
-/

set_option autoImplicit false

namespace Statechart

/-- The parts that a transition cannot do without. -/
inductive MissingPart where
  | source
  | event
  | target
deriving DecidableEq, Repr

/-- A transition under construction. -/
structure Draft (σ γ : Type) where
  source : Option (Source σ) := none
  trigger : Option Trigger := none
  target : Option (Target σ) := none
  action : Option (Action γ) := none
  guard : Option (Guard γ) := none

namespace Draft

variable {σ γ : Type}

def empty : Draft σ γ := {}

/-- Fires from the states that `s` accepts. -/
def starting (d : Draft σ γ) (s : Source σ) : Draft σ γ := { d with source := some s }

/-- Is triggered by the events that `t` accepts. -/
def triggered (d : Draft σ γ) (t : Trigger) : Draft σ γ := { d with trigger := some t }

/-- Leads to `t`. -/
def leading (d : Draft σ γ) (t : Target σ) : Draft σ γ := { d with target := some t }

/-- Adds an action behind those already there. -/
def doing (d : Draft σ γ) (a : Action γ) : Draft σ γ :=
  { d with action := some (match d.action with
      | some first => first.followedBy a
      | none => a) }

/-- Adds a guard to those already there. -/
def guarded (d : Draft σ γ) (g : Guard γ) : Draft σ γ :=
  { d with guard := some (match d.guard with
      | some first => first.and g
      | none => g) }

/-- An external transition between two states. -/
def between (source target : σ) : Draft σ γ :=
  empty.starting (.state source) |>.leading (.state target)

/-- A completion transition, taken as soon as its source is complete. -/
def completing (source target : σ) : Draft σ γ :=
  empty.starting (.state source) |>.triggered .completion |>.leading (.state target)

/-- An internal transition: its state is neither left nor entered. -/
def inside (s : σ) : Draft σ γ := empty.starting (.state s) |>.leading .internal

/-- The finished transition, or the first missing part in the order source, event, target. -/
def build (d : Draft σ γ) : Except MissingPart (Transition σ γ σ) := do
  let some source := d.source | throw .source
  let some trigger := d.trigger | throw .event
  let some target := d.target | throw .target
  return { source, trigger, target, action := d.action, guard := d.guard }

end Draft

end Statechart
