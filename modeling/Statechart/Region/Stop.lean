import Statechart.Region.Table

/-!
# Stopping regions and leaving states

A state is left from the inside out: first the regions that it owns are stopped, in the order of their
declaration, then its own exit reaction runs.

* `Region.stop`, `Region.stopAll`;
* `Node.exit`, `Node.exitAt` (`exitAt_eq` : the state at an index).
-/

set_option autoImplicit false

namespace Statechart

variable {σ γ δ : Type} [Named σ] (setup : Setup σ γ)

mutual

/-- Leaves the active state and stops; does nothing in a stopped region. A final region stops without
an exit. -/
def Region.stop : BuiltRegion σ γ δ → Event → Turn σ γ δ Unit
  | ⟨table, nodes⟩, e => do
    let active ← Turn.active
    if active = .stopped then return
    let move := ⟨table.path, endpoint nodes active, .stopped, e⟩
    setup.hooks.beforeTransition move
    if let .at i := active then Node.exitAt table.path i nodes i e
    Turn.setActive .stopped
    setup.hooks.afterTransition move

/-- Leaves the state that is `n` places on in a list. -/
def Node.exitAt (path : String) (position : Nat) :
    List (BuiltNode σ γ δ) → Nat → Event → Turn σ γ δ Unit
  | [], _, _ => return
  | node :: _, 0, e => node.exit path position e
  | _ :: nodes, n + 1, e => Node.exitAt path position nodes n e

/-- Stops the regions of a state, then runs its exit reaction. -/
def Node.exit (path : String) (position : Nat) : BuiltNode σ γ δ → Event → Turn σ γ δ Unit
  | ⟨unit, regions⟩, e => do
    Region.stopAll position 0 regions e
    Turn.note (.exit path unit.id e)
    Turn.orFail .exit path unit.id e
      (Turn.performAt position unit.behavior.initial (unit.behavior.onExit e).run)

/-- Stops regions of the state at a position, the first of them being its region `index`. -/
def Region.stopAll (position index : Nat) : List (BuiltRegion σ γ δ) → Event → Turn σ γ δ Unit
  | [], _ => return
  | r :: rs, e => do
    Turn.inChild (position, index) (r.stop e)
    Region.stopAll position (index + 1) rs e

end

theorem Node.exitAt_eq (path : String) (position : Nat) :
    ∀ (nodes : List (BuiltNode σ γ δ)) (n : Nat) (e : Event),
      Node.exitAt setup path position nodes n e =
        (nodes[n]?).elim (pure ()) fun node => node.exit setup path position e
  | [], _, _ => rfl
  | _ :: _, 0, _ => rfl
  | _ :: nodes, n + 1, e => Node.exitAt_eq path position nodes n e

end Statechart
