import Statechart.Declaration

/-!
# Plans of regions

A plan is a declaration that has been completed: its rows are finished, every state that a row names as
its single source or its target is declared, and every region has its path.

* `RegionPlan`, `Plan`, `Plan.initialPosition`;
* `Declaration.plan` : the plan of a declaration, or the first fault found in it;
* `declareImplicitly` : the states that rows name and nobody declared, in order of first appearance.
-/

set_option autoImplicit false

namespace Statechart

/-- The completed part of a region besides its states. -/
structure RegionPlan (σ γ : Type) where
  path : String
  initial : List σ
  rows : List (Transition σ γ σ)

abbrev Plan (σ γ δ : Type) := Region (RegionPlan σ γ) (StateDeclaration σ γ δ)

abbrev PlanNode (σ γ δ : Type) := Node (RegionPlan σ γ) (StateDeclaration σ γ δ)

variable {σ γ δ : Type}

/-- The states that a row names as its single source and as its target. -/
def Transition.named (row : Transition σ γ σ) : List σ :=
  row.source.single?.toList ++ row.target.state?.toList

section Position

variable [DecidableEq σ]

/-- Whether a state is among the declared ones. -/
def declares (nodes : List (PlanNode σ γ δ)) (s : σ) : Bool := nodes.any (·.data.id = s)

/-- The position of a state among the declared ones. -/
def position? (nodes : List (PlanNode σ γ δ)) (s : σ) : Option Nat :=
  nodes.findIdx? (·.data.id = s)

/-- Where the initial state stands: the first one designated, or else the first one declared. -/
def Plan.initialPosition (p : Plan σ γ δ) : Option Nat :=
  match p.data.initial with
  | [] => some 0
  | s :: _ => position? p.nodes s

/-- Declares a state without behaviour unless it is declared already. -/
def declareImplicitly [Inhabited δ] (nodes : List (PlanNode σ γ δ)) (s : σ) :
    List (PlanNode σ γ δ) :=
  if declares nodes s then nodes
  else nodes ++ [⟨⟨s, (pure (Reactions.behavior {}) : Callback γ (Behavior γ δ))⟩, []⟩]

end Position

/-- The path of a region that a state owns. -/
def childPath (path state name : String) : String := path ++ "/" ++ state ++ "/" ++ name

mutual

/-- Completes a declaration. Faults of its rows come before those of the regions below it. -/
def Declaration.plan [DecidableEq σ] [Named σ] [Inhabited δ] (path : String) :
    Declaration σ γ δ → Except BuildError (Plan σ γ δ)
  | ⟨d, nodes⟩ => do
    let rows ← (d.rows.mapM id).mapError .missing
    let declared ← Declaration.planNodes path nodes
    let states := (rows.flatMap Transition.named).foldl declareImplicitly declared
    if states.isEmpty then throw (.emptyRegion path)
    return ⟨{ path, initial := d.initial, rows }, states⟩

/-- Completes the regions of every state of a list. -/
def Declaration.planNodes [DecidableEq σ] [Named σ] [Inhabited δ] (path : String) :
    List (Node (RegionDeclaration σ γ) (StateDeclaration σ γ δ)) →
      Except BuildError (List (PlanNode σ γ δ))
  | [] => return []
  | node :: nodes => do
    let first ← Declaration.planNode path node
    return first :: (← Declaration.planNodes path nodes)

/-- Completes the regions of a state. -/
def Declaration.planNode [DecidableEq σ] [Named σ] [Inhabited δ] (path : String) :
    Node (RegionDeclaration σ γ) (StateDeclaration σ γ δ) → Except BuildError (PlanNode σ γ δ)
  | ⟨state, regions⟩ => do
    return ⟨state, ← Declaration.planRegions path (Named.name state.id) regions⟩

/-- Completes the regions of the state called `owner`. -/
def Declaration.planRegions [DecidableEq σ] [Named σ] [Inhabited δ] (path owner : String) :
    List (Declaration σ γ δ) → Except BuildError (List (Plan σ γ δ))
  | [] => return []
  | r :: rs => do
    let first ← r.plan (childPath path owner r.data.name)
    return first :: (← Declaration.planRegions path owner rs)

end

/-- Completes the top-level declarations; a top-level region's path is its name. -/
def Declaration.planAll [DecidableEq σ] [Named σ] [Inhabited δ] (regions : List (Declaration σ γ δ)) :
    Except BuildError (List (Plan σ γ δ)) :=
  regions.mapM fun r => r.plan r.data.name

end Statechart
