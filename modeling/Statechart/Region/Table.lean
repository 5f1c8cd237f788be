import Statechart.Transition
import Statechart.Tree
import Statechart.Turn

/-!
# The table of a region

* `RegionTable`, `StateUnit` : what a finished machine keeps at a region and at a state;
  `BuiltRegion`, `BuiltNode` are its trees;
* `RegionTable.resolve` : the first row that fires, in the order of the table;
* `RegionTable.accepts` : the dry run, in which a failing guard counts as a refusal;
* `Node.isComplete` : a state is complete when all its regions are final.
-/

set_option autoImplicit false

namespace Statechart

/-- A region of a finished machine: its path, its rows and the position of its initial state. -/
structure RegionTable (σ γ : Type) where
  path : String
  rows : List (Transition σ γ Nat)
  initial : Nat

/-- A state of a finished machine. -/
structure StateUnit (σ γ δ : Type) where
  id : σ
  behavior : Behavior γ δ

abbrev BuiltRegion (σ γ δ : Type) := Region (RegionTable σ γ) (StateUnit σ γ δ)

abbrev BuiltNode (σ γ δ : Type) := Node (RegionTable σ γ) (StateUnit σ γ δ)

variable {σ γ δ α : Type}

/-- The end of a move at which the given state of a region is active. -/
def endpoint (nodes : List (BuiltNode σ γ δ)) : Active → Endpoint σ
  | .stopped => .stopped
  | .at i => (nodes[i]?).elim .stopped fun n => .state n.data.id
  | .final => .final

/-- Simple states are always complete, composite ones once each of their regions is final. -/
def Node.isComplete (n : BuiltNode σ γ δ) (position : Nat) (m : Marking δ) : Bool :=
  (List.range n.regions.length).all fun j => (m.child (position, j)).active = .final

namespace Turn

/-- Turns the cause that a callback reported into a failure of the dispatch. -/
def orFail [Named σ] (stage : Stage) (path : String) (s : σ) (e : Event)
    (x : Turn σ γ δ (Except Cause α)) : Turn σ γ δ α := do
  match ← x with
  | .ok a => return a
  | .error cause => do
    note (.failed ⟨stage, path, Named.name s, e.kind, cause⟩)
    fail (.failure ⟨stage, path, Named.name s, e.kind, cause⟩)

end Turn

/-- A row that was chosen for the active state, with the positions of both. -/
structure Choice (σ γ : Type) where
  position : Nat
  state : σ
  row : Nat
  transition : Transition σ γ Nat

namespace RegionTable

variable [DecidableEq σ]

/-- Asks one row. Only a row with a guard calls back. -/
def ask (path : String) (active : σ) (e : Event) (index : Nat) (row : Transition σ γ Nat) :
    Turn σ γ δ (Except Cause Bool) := do
  if row.concerns active e && row.guard.isSome then
    Turn.note (.guard path active index e)
  Turn.perform (row.canFire active e).run

/-- The first of the rows that fires, with its index; `index` is that of the first row. -/
def firstEnabled (path : String) (active : σ) (e : Event) :
    Nat → List (Transition σ γ Nat) → Turn σ γ δ (Except Cause (Option (Nat × Transition σ γ Nat)))
  | _, [] => return .ok none
  | index, row :: rows => do
    match ← ask path active e index row with
    | .error cause => return .error cause
    | .ok true => return .ok (some (index, row))
    | .ok false => firstEnabled path active e (index + 1) rows

/-- Chooses a row for the state at a position. A guard that fails ends the search. -/
def resolve [Named σ] (t : RegionTable σ γ) (position : Nat) (active : σ) (e : Event) :
    Turn σ γ δ (Option (Choice σ γ)) := do
  let found ← Turn.orFail .guard t.path active e (firstEnabled t.path active e 0 t.rows)
  return found.map fun (index, row) => ⟨position, active, index, row⟩

/-- Whether one of the rows fires, a failing guard counting as a refusal. -/
def anyEnabled (path : String) (active : σ) (e : Event) :
    Nat → List (Transition σ γ Nat) → Turn σ γ δ Bool
  | _, [] => return false
  | index, row :: rows => do
    match ← ask path active e index row with
    | .ok true => return true
    | _ => anyEnabled path active e (index + 1) rows

/-- Whether a row fires for the active state. -/
def accepts (t : RegionTable σ γ) (active : σ) (e : Event) : Turn σ γ δ Bool :=
  anyEnabled t.path active e 0 t.rows

end RegionTable

end Statechart
