import Statechart.Machine
import Statechart.Validation

/-!
# Building machines

A machine is built from a blueprint. All declarations are planned and validated before anything of the
user's is called; then the context is constructed, then every state, those of the regions that a state
owns before the state itself; at last the machine starts, if its settings say so.

* `Blueprint`, `Blueprint.build`, `Built`;
* `Plan.construct` : a region with its states constructed.
-/

set_option autoImplicit false

namespace Statechart

variable {σ γ δ : Type}

/-- A construction step: it may be refused, or halted by a callback. -/
abbrev Construction (σ γ δ α : Type) :=
  ExceptT BuildError (EStateM Halt (Configuration σ γ δ)) α

namespace Transition

/-- The row with its target as a position among the declared states, or the target if it is not among
them. -/
def locate [DecidableEq σ] (nodes : List (PlanNode σ γ δ)) (row : Transition σ γ σ) :
    Except σ (Transition σ γ Nat) := do
  let target : Target Nat ←
    match row.target with
    | .state s =>
      match position? nodes s with
      | some position => .ok (.state position)
      | none => .error s
    | .internal => .ok .internal
    | .final => .ok .final
  return { row with target }

end Transition

section Construct

variable [DecidableEq σ] [Named σ]

/-- Position of the initial state and rows with located targets. -/
def Plan.table (p : Plan σ γ δ) : Except BuildError (RegionTable σ γ) := do
  let unknown (violation : String → String → Violation) (s : String) : BuildError :=
    .invalidTable [violation p.data.path s]
  let some initial := p.initialPosition
    | throw (unknown .unknownInitial ((p.data.initial.head?.map Named.name).getD ""))
  let rows ← (p.data.rows.mapM (Transition.locate p.nodes)).mapError
    fun s => unknown .unknownTarget (Named.name s)
  return ⟨p.data.path, rows, initial⟩

mutual

/-- Constructs every state of a region. -/
def Plan.construct : Plan σ γ δ → Construction σ γ δ (BuiltRegion σ γ δ)
  | ⟨p, nodes⟩ => do
    let table ← ExceptT.mk (pure (Plan.table ⟨p, nodes⟩))
    return ⟨table, ← Plan.constructNodes nodes⟩

/-- Constructs the states of a list in order. -/
def Plan.constructNodes : List (PlanNode σ γ δ) → Construction σ γ δ (List (BuiltNode σ γ δ))
  | [] => return []
  | node :: nodes => do
    let first ← Plan.constructNode node
    return first :: (← Plan.constructNodes nodes)

/-- Constructs the regions of a state, then its behaviour. -/
def Plan.constructNode : PlanNode σ γ δ → Construction σ γ δ (BuiltNode σ γ δ)
  | ⟨s, regions⟩ => do
    let regions ← Plan.constructAll regions
    ExceptT.lift (Turn.note (.stateMade s.id))
    let behavior ← ExceptT.lift (Turn.perform s.factory)
    return ⟨⟨s.id, behavior⟩, regions⟩

/-- Constructs the regions of a list in order. -/
def Plan.constructAll : List (Plan σ γ δ) → Construction σ γ δ (List (BuiltRegion σ γ δ))
  | [] => return []
  | p :: plans => do
    let first ← p.construct
    return first :: (← Plan.constructAll plans)

end

end Construct

/-- What a machine is built from, besides its context. -/
structure Blueprint (σ γ δ : Type) where
  regions : List (Declaration σ γ δ) := []
  setup : Setup σ γ := {}

/-- Why a machine whose context exists was not built. -/
inductive BuildHalt where
  | error (e : BuildError)
  | panic (message : String)
  | unfinished
deriving DecidableEq, Repr

/-- An error of a dispatch while building is one of starting the machine. -/
def Halt.whileBuilding : Halt → BuildHalt
  | .error e => .error (.start e)
  | .panic message => .panic message
  | .unfinished => .unfinished

/-- What came of building a machine. -/
inductive Built (σ γ δ : Type) where
  /-- The declarations were refused before anything was called. -/
  | refused (e : BuildError)
  /-- The construction of the context panicked. -/
  | contextPanicked (message : String) (exchange : Exchange σ)
  /-- The machine was given up, and left the world behind. -/
  | abandoned (halt : BuildHalt) (world : World σ γ)
  | ready (m : Machine σ γ δ)

namespace Blueprint

variable [DecidableEq σ] [Named σ] [Inhabited δ]

/-- The validated plans of the regions, or the first reason to refuse them. -/
def plans (b : Blueprint σ γ δ) : Except BuildError (List (Plan σ γ δ)) := do
  if b.regions.isEmpty then throw .noRegions
  let plans ← Declaration.planAll b.regions
  validate plans
  return plans

/-- Constructs the states and starts the machine if the settings say so. -/
def assemble (b : Blueprint σ γ δ) (bound : Nat) (plans : List (Plan σ γ δ)) (world : World σ γ) :
    Built σ γ δ :=
  match (Plan.constructAll plans).run ⟨world, .fresh⟩ with
  | .error halt after => .abandoned halt.whileBuilding after.world
  | .ok (.error e) after => .abandoned (.error e) after.world
  | .ok (.ok regions) after =>
    let m : Machine σ γ δ := ⟨⟨regions, b.setup⟩, after⟩
    if b.setup.settings.autoStart then
      match m.run (m.chart.start bound) with
      | (.ok _, m) => .ready m
      | (.error halt, m) => .abandoned halt.whileBuilding m.configuration.world
    else .ready m

/-- Builds a machine around the context that `context` constructs, which may raise events already. At
most `bound` events are dispatched when the machine starts. -/
def build (b : Blueprint σ γ δ) (bound : Nat) (context : Callback Unit γ) : Built σ γ δ :=
  match b.plans with
  | .error e => .refused e
  | .ok plans =>
    let exchange : Exchange σ := { mailbox := { capacity := b.setup.settings.queueCapacity } }
    let (outcome, exchange) := (context ()).play (exchange.note .contextMade)
    match outcome.result with
    | .error message => .contextPanicked message exchange
    | .ok context => b.assemble bound plans { context, exchange }

end Blueprint

end Statechart
