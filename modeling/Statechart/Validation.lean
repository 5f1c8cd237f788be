import Statechart.CompletionCycle

/-!
# Validation of plans

Every check runs on every region, outer regions first, and all faults are reported together.

* `Owners`, `registerStates` : a state may be declared only once in the whole tree;
* `Plan.initialViolation`, `Plan.sourceViolations`, `Plan.reachabilityViolations`,
  `Plan.cycleViolation` : the checks of one region;
* `violations`, `validate`.
-/

set_option autoImplicit false

namespace Statechart

variable {σ γ δ : Type} [DecidableEq σ] [Named σ]

/-- The states declared so far, with the paths of their regions. -/
abbrev Owners (σ : Type) := List (σ × String)

/-- Enters the states of the region at `path`, reporting those that have an owner already. -/
def registerStates (path : String) : Owners σ → List σ → List Violation × Owners σ
  | owners, [] => ([], owners)
  | owners, s :: states =>
    match owners.lookup s with
    | none => registerStates path ((s, path) :: owners) states
    | some owner =>
      let violation : Violation :=
        if owner = path then .duplicateState path (Named.name s)
        else .stateInMultipleRegions (Named.name s) owner path
      let (others, owners) := registerStates path owners states
      (violation :: others, owners)

namespace Plan

/-- At most one initial state may be designated, and it has to be declared. -/
def initialViolation (p : Plan σ γ δ) : Option Violation :=
  match p.data.initial with
  | [] => none
  | [s] => if declares p.nodes s then none else some (.unknownInitial p.data.path (Named.name s))
  | states => some (.ambiguousInitial p.data.path states.length)

/-- The members of source sets have to be declared in the region. -/
def sourceViolations (p : Plan σ γ δ) : List Violation :=
  (p.data.rows.flatMap (·.source.listed)).filter (!declares p.nodes ·) |>.map fun s =>
    .unknownSource p.data.path (Named.name s)

/-- Whether some row leads to the state. -/
def isTargeted (p : Plan σ γ δ) (s : σ) : Bool := p.data.rows.any (·.target = .state s)

/-- Every state but the initial one has to be the target of a row. -/
def reachabilityViolations (p : Plan σ γ δ) : List Violation :=
  p.nodes.zipIdx.filter (fun (node, position) =>
      some position ≠ p.initialPosition && !p.isTargeted node.data.id)
    |>.map fun (node, _) => .unreachableState p.data.path (Named.name node.data.id)

def cycleViolation (p : Plan σ γ δ) : Option Violation :=
  p.completionCycle.map fun states => .completionCycle p.data.path (states.map Named.name)

/-- The faults of one region besides those of ownership. -/
def ownViolations (p : Plan σ γ δ) : List Violation :=
  p.initialViolation.toList ++ p.sourceViolations ++ p.reachabilityViolations
    ++ p.cycleViolation.toList

end Plan

/-- The faults of regions in the given order. -/
def violationsFrom : Owners σ → List (Plan σ γ δ) → List Violation
  | _, [] => []
  | owners, p :: plans =>
    let (ownership, owners) := registerStates p.data.path owners (p.nodes.map (·.data.id))
    ownership ++ p.ownViolations ++ violationsFrom owners plans

/-- All faults of the given regions and of those below them. -/
def violations (plans : List (Plan σ γ δ)) : List Violation :=
  violationsFrom [] (Region.preorderOfRegions plans)

def validate (plans : List (Plan σ γ δ)) : Except BuildError Unit :=
  match violations plans with
  | [] => .ok ()
  | vs => .error (.invalidTable vs)

end Statechart
