import Statechart.Behavior
import Statechart.Marking
import Statechart.Settings
import Statechart.World

/-!
# Turns

A turn is a computation of the engine. It works on the world and on the marking of one region, and
whatever ends it early leaves both as they were at that point.

* `Configuration`, `Turn`, `Setup`;
* `Turn.perform`, `Turn.performAt` : calls of the user's callbacks;
* `Turn.inChild` : a turn of a region that a state owns;
* `Turn.attempt` : a turn whose errors are a value; panics pass through;
* `Turn.callHook` : a call of a hook, if there is one.
-/

set_option autoImplicit false

namespace Statechart

/-- The world and the marking of a region. -/
structure Configuration (σ γ δ : Type) where
  world : World σ γ
  marking : Marking δ

/-- A computation of the engine. -/
abbrev Turn (σ γ δ α : Type) := EStateM Halt (Configuration σ γ δ) α

/-- What is fixed for the life of a machine besides its regions. -/
structure Setup (σ γ : Type) where
  hooks : Hooks σ γ := {}
  settings : Settings := {}

namespace Turn

variable {σ γ δ κ α : Type}

/-- Writes a note into the journal. -/
def note (n : Note σ) : Turn σ γ δ Unit :=
  modify fun c => { c with world.exchange := c.world.exchange.note n }

def fail (e : DispatchError) : Turn σ γ δ α := throw (.error e)

/-- What is active in the region. -/
def active : Turn σ γ δ Active := return (← get).marking.active

def setActive (a : Active) : Turn σ γ δ Unit :=
  modify fun c => { c with marking := c.marking.setActive a }

/-- Calls a callback on the part of the configuration that `part` reads and `put` writes. -/
def performOn (part : Configuration σ γ δ → κ)
    (put : κ → Configuration σ γ δ → Configuration σ γ δ) (f : Callback κ α) : Turn σ γ δ α := fun c =>
  let (outcome, exchange) := (f (part c)).play c.world.exchange
  match outcome.result with
  | .ok a => .ok a (put outcome.state { c with world.exchange := exchange })
  | .error message =>
    .error (.panic message)
      (put outcome.state { c with world.exchange := exchange.note (.panicked message) })

/-- Calls a callback on the context. -/
def perform (f : Callback γ α) : Turn σ γ δ α :=
  performOn (·.world.context) (fun s c => { c with world.context := s }) f

/-- Calls a callback on the context and on the local data of the state at a position. -/
def performAt (position : Nat) (initial : δ) (f : Callback (γ × δ) α) : Turn σ γ δ α :=
  performOn (fun c => (c.world.context, c.marking.data position initial))
    (fun s c => ⟨{ c.world with context := s.1 }, c.marking.setData position s.2⟩) f

/-- A turn of region `k.2` of the state at position `k.1`. -/
def inChild (k : Nat × Nat) (x : Turn σ γ δ α) : Turn σ γ δ α := fun c =>
  match x ⟨c.world, c.marking.child k⟩ with
  | .ok a c' => .ok a ⟨c'.world, c.marking.setChild k c'.marking⟩
  | .error h c' => .error h ⟨c'.world, c.marking.setChild k c'.marking⟩

/-- The same turn with its error as a value. -/
def attempt (x : Turn σ γ δ α) : Turn σ γ δ (Except DispatchError α) := fun c =>
  match x c with
  | .ok a c' => .ok (.ok a) c'
  | .error (.error e) c' => .ok (.error e) c'
  | .error h c' => .error h c'

/-- Offers an event to the machine's own queue. -/
def offer (e : Event) : Turn σ γ δ Unit := do
  let (receipt, exchange) := (← get).world.exchange.offer e
  modify fun c => { c with world.exchange := exchange }
  if let .refused capacity := receipt then fail (.queueFull capacity)

/-- Calls a hook, if there is one. -/
def callHook (call : HookCall σ) (hook : Option (Callback γ Unit)) : Turn σ γ δ Unit :=
  match hook with
  | none => return
  | some f => do
    note (.hook call)
    perform f

end Turn

namespace Hooks

variable {σ γ δ : Type}

def beforeTransition (h : Hooks σ γ) (m : Move σ) : Turn σ γ δ Unit :=
  Turn.callHook (.preTransition m) (h.preTransition.map (· m))

def afterTransition (h : Hooks σ γ) (m : Move σ) : Turn σ γ δ Unit :=
  Turn.callHook (.postTransition m) (h.postTransition.map (· m))

def beforeProcessing (h : Hooks σ γ) (e : Event) : Turn σ γ δ Unit :=
  Turn.callHook (.preProcessing e) (h.preProcessing.map (· e))

/-- The two hooks that follow the dispatch of an event. -/
def afterProcessing (h : Hooks σ γ) (e : Event) (processed : Bool) : Turn σ γ δ Unit := do
  Turn.callHook (.postProcessing e processed) (h.postProcessing.map (· e processed))
  if !processed then Turn.callHook (.unprocessed e) (h.unprocessed.map (· e))

end Hooks

end Statechart
