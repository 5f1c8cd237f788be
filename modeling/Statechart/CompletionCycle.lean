import Statechart.Plan

/-!
# Loops of completion rows

A region whose completion rows lead in a circle, without a guard that could break it, never comes to
rest. The search follows, from each simple state, the first completion row that accepts it.

* `Plan.stride` : where the completion rows take a state;
* `Plan.cycleFrom` : the walk from one state, with the states walked so far;
* `Plan.completionCycle` : the first loop found.
-/

set_option autoImplicit false

namespace Statechart

variable {σ γ δ : Type}

/-- Where the completion rows take a simple state. -/
inductive Stride (σ γ δ : Type) where
  /-- Nowhere, or to the end of the region, or only if a guard allows it. -/
  | ends
  /-- An internal row fires again and again. -/
  | stays
  | moves (next : PlanNode σ γ δ)

namespace Plan

variable [DecidableEq σ]

/-- The completion row that a state takes unless its guard refuses: the first that accepts it. -/
def completionRow? (p : Plan σ γ δ) (s : σ) : Option (Transition σ γ σ) :=
  p.data.rows.find? fun row => row.trigger.isCompletion && row.source.accepts s

/-- The first declaration of a state. -/
def node? (p : Plan σ γ δ) (s : σ) : Option (PlanNode σ γ δ) := p.nodes.find? (·.data.id = s)

def stride (p : Plan σ γ δ) (s : σ) : Stride σ γ δ :=
  match p.completionRow? s with
  | none => .ends
  | some row =>
    if row.guard.isSome then .ends
    else
      match row.target with
      | .internal => .stays
      | .final => .ends
      | .state t => (p.node? t).elim .ends .moves

/-- Walks on from `current`; a composite state ends the walk. `walked` are the states walked so far,
and at most `steps` more are walked. -/
def cycleFrom (p : Plan σ γ δ) (steps : Nat) (walked : List σ) (current : PlanNode σ γ δ) :
    Option (List σ) :=
  if current.isComposite then none
  else
    match walked.findIdx? (· = current.data.id) with
    | some position => some (walked.drop position ++ [current.data.id])
    | none =>
      match p.stride current.data.id with
      | .ends => none
      | .stays => some [current.data.id, current.data.id]
      | .moves next =>
        match steps with
        | 0 => none
        | steps + 1 => cycleFrom p steps (walked ++ [current.data.id]) next

/-- The first loop of completion rows, from the first state on that leads into one. A walk visits no
state twice, so as many steps as there are declared states suffice. -/
def completionCycle (p : Plan σ γ δ) : Option (List σ) :=
  p.nodes.findSome? (p.cycleFrom p.nodes.length [])

end Plan

end Statechart
