import Statechart.Region.Stop

/-!
# Firing rows, entering states, starting regions

A state is entered from the outside in: first its own entry reaction runs, then the regions that it
owns are started, in the order of their declaration. A region that starts enters its initial state and
then settles: as long as its active state is complete and a completion row fires, it takes that row.

* `Region.fireWith`, `Region.chain` : firing a row and chaining completion rows, given how states are
  left and entered;
* `Region.start`, `Region.startAll`, `Node.enter`, `Node.enterAt` (`enterAt_eq` : the state at an index);
* `Region.fire`, `Region.settle`; `start_eq` : a region that starts ends by settling.
-/

set_option autoImplicit false

namespace Statechart

variable {σ γ δ : Type} [DecidableEq σ] [Named σ] (setup : Setup σ γ)

namespace Region

/-- Runs the action of a row while `active` is the state that answers for it. -/
def act (path : String) (active : σ) (choice : Choice σ γ) (e : Event) : Turn σ γ δ Unit :=
  match choice.transition.action with
  | none => return
  | some action => do
    Turn.note (.action path active choice.row e)
    Turn.orFail .action path active e (Turn.perform (action.run e).run)

/-- Adds a completed transition to the history if the machine keeps one. -/
def remember (path : String) (source target : σ) (e : Event) : Turn σ γ δ Unit := do
  if setup.settings.trackHistory then
    modify fun c => { c with
      world.history := c.world.history.record ⟨path, source, target, e.typeName, c.world.clock⟩ }

/-- Fires a chosen row, where `leave` and `enter` leave and enter the state at a position. An external
row leaves its source before the region moves on, and runs its action before its target is entered. -/
def fireWith (table : RegionTable σ γ) (nodes : List (BuiltNode σ γ δ))
    (leave enter : Nat → Event → Turn σ γ δ Unit) (choice : Choice σ γ) (e : Event) :
    Turn σ γ δ Unit := do
  Turn.note (.fired table.path choice.state choice.row e)
  match choice.transition.target with
  | .internal => act table.path choice.state choice e
  | .state t =>
    let some target := nodes[t]? | return
    let move := ⟨table.path, .state choice.state, .state target.data.id, e⟩
    setup.hooks.beforeTransition move
    leave choice.position e
    Turn.setActive (.at t)
    act table.path target.data.id choice e
    enter t e
    remember setup table.path choice.state target.data.id e
    setup.hooks.afterTransition move
  | .final =>
    let move := ⟨table.path, .state choice.state, .final, e⟩
    setup.hooks.beforeTransition move
    leave choice.position e
    Turn.setActive .final
    act table.path choice.state choice e
    setup.hooks.afterTransition move

/-- The completion row that is due: the one chosen for the active state if that state is complete. -/
def due (table : RegionTable σ γ) (nodes : List (BuiltNode σ γ δ)) :
    Turn σ γ δ (Option (Choice σ γ)) := do
  let .at i ← Turn.active | return none
  let some node := nodes[i]? | return none
  if node.isComplete i (← get).marking then table.resolve i node.data.id .completion else return none

/-- Fires what is due at most `n` times; a further row that is due is an overflow. -/
def chain (table : RegionTable σ γ) (nodes : List (BuiltNode σ γ δ))
    (fire : Choice σ γ → Turn σ γ δ Unit) : Nat → Turn σ γ δ Unit
  | 0 => do
    if (← due table nodes).isSome then
      Turn.note (.overflowed table.path setup.settings.maxCompletionChain)
      Turn.fail (.completionOverflow table.path setup.settings.maxCompletionChain)
  | n + 1 => do
    let some choice ← due table nodes | return
    fire choice
    chain table nodes fire n

end Region

mutual

/-- Enters the initial state and settles; does nothing in a region that is running. -/
def Region.start : BuiltRegion σ γ δ → Event → Turn σ γ δ Unit
  | ⟨table, nodes⟩, e => do
    if (← Turn.active) ≠ .stopped then return
    let move := ⟨table.path, .stopped, endpoint nodes (.at table.initial), e⟩
    setup.hooks.beforeTransition move
    Turn.setActive (.at table.initial)
    Node.enterAt table.path table.initial nodes table.initial e
    setup.hooks.afterTransition move
    Region.chain setup table nodes
      (fun choice => Region.fireWith setup table nodes
        (fun i => Node.exitAt setup table.path i nodes i)
        (fun i => Node.enterAt table.path i nodes i) choice .completion)
      setup.settings.maxCompletionChain

/-- Enters the state that is `n` places on in a list. -/
def Node.enterAt (path : String) (position : Nat) :
    List (BuiltNode σ γ δ) → Nat → Event → Turn σ γ δ Unit
  | [], _, _ => return
  | node :: _, 0, e => node.enter path position e
  | _ :: nodes, n + 1, e => Node.enterAt path position nodes n e

/-- Runs the entry reaction of a state, then starts its regions. -/
def Node.enter (path : String) (position : Nat) : BuiltNode σ γ δ → Event → Turn σ γ δ Unit
  | ⟨unit, regions⟩, e => do
    Turn.note (.entry path unit.id e)
    Turn.orFail .entry path unit.id e
      (Turn.performAt position unit.behavior.initial (unit.behavior.onEntry e).run)
    Region.startAll position 0 regions e

/-- Starts regions of the state at a position, the first of them being its region `index`. -/
def Region.startAll (position index : Nat) : List (BuiltRegion σ γ δ) → Event → Turn σ γ δ Unit
  | [], _ => return
  | r :: rs, e => do
    Turn.inChild (position, index) (r.start e)
    Region.startAll position (index + 1) rs e

end

theorem Node.enterAt_eq (path : String) (position : Nat) :
    ∀ (nodes : List (BuiltNode σ γ δ)) (n : Nat) (e : Event),
      Node.enterAt setup path position nodes n e =
        (nodes[n]?).elim (pure ()) fun node => node.enter setup path position e
  | [], _, _ => rfl
  | _ :: _, 0, _ => rfl
  | _ :: nodes, n + 1, e => Node.enterAt_eq path position nodes n e

namespace Region

/-- Fires a chosen row of a region. -/
def fire (table : RegionTable σ γ) (nodes : List (BuiltNode σ γ δ)) (choice : Choice σ γ) (e : Event) :
    Turn σ γ δ Unit :=
  fireWith setup table nodes (fun i => Node.exitAt setup table.path i nodes i)
    (fun i => Node.enterAt setup table.path i nodes i) choice e

/-- Takes completion rows until none is due. -/
def settle (table : RegionTable σ γ) (nodes : List (BuiltNode σ γ δ)) : Turn σ γ δ Unit :=
  chain setup table nodes (fun choice => fire setup table nodes choice .completion)
    setup.settings.maxCompletionChain

theorem start_eq (table : RegionTable σ γ) (nodes : List (BuiltNode σ γ δ)) (e : Event) :
    start setup ⟨table, nodes⟩ e = (do
      if (← Turn.active) ≠ .stopped then return
      let move := ⟨table.path, .stopped, endpoint nodes (.at table.initial), e⟩
      setup.hooks.beforeTransition move
      Turn.setActive (.at table.initial)
      Node.enterAt setup table.path table.initial nodes table.initial e
      setup.hooks.afterTransition move
      settle setup table nodes) := rfl

end Region

end Statechart
