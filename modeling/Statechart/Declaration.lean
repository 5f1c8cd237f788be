import Statechart.BuildError
import Statechart.Turn
import Statechart.Tree

/-!
# Declarations of regions

A region is declared call by call: states with what constructs their behaviour, rows, and the initial
state. A row that lacks a part is kept as that fault until the machine is built.

* `Factory`, `StateDeclaration`, `RegionDeclaration`, `Declaration`;
* `Declaration.state`, `Declaration.composite`, `Declaration.initial`, `Declaration.draft`,
  `Declaration.transition` add to a declaration.
-/

set_option autoImplicit false

namespace Statechart

/-- Constructs the behaviour of a state when the machine is built. -/
abbrev Factory (γ δ : Type) := Callback γ (Behavior γ δ)

/-- A declared state. -/
structure StateDeclaration (σ γ δ : Type) where
  id : σ
  factory : Factory γ δ

/-- The rows and initial states that were declared for a region. -/
structure RegionDeclaration (σ γ : Type) where
  name : String
  initial : List σ := []
  rows : List (Except MissingPart (Transition σ γ σ)) := []

abbrev Declaration (σ γ δ : Type) := Region (RegionDeclaration σ γ) (StateDeclaration σ γ δ)

namespace Declaration

variable {σ γ δ : Type}

/-- A region without states and rows. -/
def new (name : String) : Declaration σ γ δ := ⟨{ name }, []⟩

def name (d : Declaration σ γ δ) : String := d.data.name

/-- Designates an initial state. -/
def initial (d : Declaration σ γ δ) (s : σ) : Declaration σ γ δ :=
  ⟨{ d.data with initial := d.data.initial ++ [s] }, d.nodes⟩

/-- Declares a composite state, whose behaviour is constructed with the machine. -/
def compositeFrom (d : Declaration σ γ δ) (s : σ) (factory : Factory γ δ)
    (regions : List (Declaration σ γ δ)) : Declaration σ γ δ :=
  ⟨d.data, d.nodes ++ [⟨⟨s, factory⟩, regions⟩]⟩

/-- Declares a composite state with its behaviour. -/
def composite (d : Declaration σ γ δ) (s : σ) (b : Behavior γ δ)
    (regions : List (Declaration σ γ δ)) : Declaration σ γ δ :=
  d.compositeFrom s (pure b : Callback γ (Behavior γ δ)) regions

/-- Declares a simple state, whose behaviour is constructed with the machine. -/
def stateFrom (d : Declaration σ γ δ) (s : σ) (factory : Factory γ δ) : Declaration σ γ δ :=
  d.compositeFrom s factory []

/-- Declares a simple state with its behaviour. -/
def state (d : Declaration σ γ δ) (s : σ) (b : Behavior γ δ) : Declaration σ γ δ :=
  d.composite s b []

/-- Adds a finished row. -/
def transition (d : Declaration σ γ δ) (row : Transition σ γ σ) : Declaration σ γ δ :=
  ⟨{ d.data with rows := d.data.rows ++ [.ok row] }, d.nodes⟩

/-- Adds a row from its draft; a part that it lacks is reported when the machine is built. -/
def draft (d : Declaration σ γ δ) (row : Draft σ γ) : Declaration σ γ δ :=
  ⟨{ d.data with rows := d.data.rows ++ [row.build] }, d.nodes⟩

end Declaration

end Statechart
