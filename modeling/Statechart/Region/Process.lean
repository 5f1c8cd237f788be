import Statechart.Region.Start

/-!
# Offering events to regions

A region first looks for a row of its own. Only if none fires, the active state gets the event: it goes
to every region that the state owns, and if none of those processed it, to the state's own reaction.

* `Region.process`, `Region.processAll`, `Node.react`, `Node.reactAt` : whether the event was processed;
* `Region.check`, `Region.checkAny`, `Node.accepts`, `Node.acceptsAt` : the dry run, in which nothing but
  guards is called.
-/

set_option autoImplicit false

namespace Statechart

variable {σ γ δ : Type} [DecidableEq σ] [Named σ] (setup : Setup σ γ)

mutual

/-- Offers an event to a region. The completion event is never taken from outside: completion rows fire
when the region settles. -/
def Region.process : BuiltRegion σ γ δ → Event → Turn σ γ δ Bool
  | ⟨table, nodes⟩, e => do
    let .at i ← Turn.active | return false
    let some node := nodes[i]? | return false
    if e.isCompletion then return false
    match ← table.resolve i node.data.id e with
    | some choice =>
      Region.fire setup table nodes choice e
      if choice.transition.target ≠ .internal then Region.settle setup table nodes
      return true
    | none =>
      let processed ← Node.reactAt table.path i nodes i e
      if processed && node.isComposite then Region.settle setup table nodes
      return processed

/-- Offers an event to the state that is `n` places on in a list. -/
def Node.reactAt (path : String) (position : Nat) :
    List (BuiltNode σ γ δ) → Nat → Event → Turn σ γ δ Bool
  | [], _, _ => return false
  | node :: _, 0, e => node.react path position e
  | _ :: nodes, n + 1, e => Node.reactAt path position nodes n e

/-- Offers an event to the regions of a state, and to its own reaction if none of them processed it. -/
def Node.react (path : String) (position : Nat) : BuiltNode σ γ δ → Event → Turn σ γ δ Bool
  | ⟨unit, regions⟩, e => do
    if ← Region.processAll position 0 regions e then return true
    Turn.note (.consulted path unit.id e)
    let processed ← Turn.orFail .reaction path unit.id e
      (Turn.performAt position unit.behavior.initial (unit.behavior.onEvent e).run)
    if processed then Turn.note (.reaction path unit.id e)
    return processed

/-- Offers an event to every one of the regions, and says whether one of them processed it. -/
def Region.processAll (position index : Nat) : List (BuiltRegion σ γ δ) → Event → Turn σ γ δ Bool
  | [], _ => return false
  | r :: rs, e => do
    let first ← Turn.inChild (position, index) (r.process e)
    let others ← Region.processAll position (index + 1) rs e
    return first || others

end

theorem Node.reactAt_eq (path : String) (position : Nat) :
    ∀ (nodes : List (BuiltNode σ γ δ)) (n : Nat) (e : Event),
      Node.reactAt setup path position nodes n e =
        (nodes[n]?).elim (pure false) fun node => node.react setup path position e
  | [], _, _ => rfl
  | _ :: _, 0, _ => rfl
  | _ :: nodes, n + 1, e => Node.reactAt_eq path position nodes n e

mutual

/-- Whether the region would process an event. -/
def Region.check : BuiltRegion σ γ δ → Event → Turn σ γ δ Bool
  | ⟨table, nodes⟩, e => do
    let .at i ← Turn.active | return false
    let some node := nodes[i]? | return false
    if ← table.accepts node.data.id e then return true
    Node.acceptsAt i nodes i e

/-- Whether the state that is `n` places on in a list would process an event. -/
def Node.acceptsAt (position : Nat) : List (BuiltNode σ γ δ) → Nat → Event → Turn σ γ δ Bool
  | [], _, _ => return false
  | node :: _, 0, e => node.accepts position e
  | _ :: nodes, n + 1, e => Node.acceptsAt position nodes n e

/-- Whether a state or one of its regions would process an event. -/
def Node.accepts (position : Nat) : BuiltNode σ γ δ → Event → Turn σ γ δ Bool
  | ⟨unit, regions⟩, e => do
    if ← Region.checkAny position 0 regions e then return true
    let c ← get
    return unit.behavior.accepts c.world.context (c.marking.data position unit.behavior.initial) e

/-- Whether one of the regions would process an event; the first that would ends the search. -/
def Region.checkAny (position index : Nat) : List (BuiltRegion σ γ δ) → Event → Turn σ γ δ Bool
  | [], _ => return false
  | r :: rs, e => do
    if ← Turn.inChild (position, index) (r.check e) then return true
    Region.checkAny position (index + 1) rs e

end

omit [Named σ] in
theorem Node.acceptsAt_eq (position : Nat) :
    ∀ (nodes : List (BuiltNode σ γ δ)) (n : Nat) (e : Event),
      Node.acceptsAt position nodes n e =
        (nodes[n]?).elim (pure false) fun node => node.accepts position e
  | [], _, _ => rfl
  | _ :: _, 0, _ => rfl
  | _ :: nodes, n + 1, e => Node.acceptsAt_eq position nodes n e

end Statechart
