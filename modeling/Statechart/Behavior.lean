import Statechart.Action

/-!
# Behaviours of states

* `Behavior` : what a state does when it is entered and left and how it reacts to events that no
  transition took. A behaviour keeps local data in `δ` next to the machine's context;
* `Reactions` : behaviours given as lists of actions, without local data. Of the entry and exit
  actions all that match the event's kind run in order, of the reactions the first one.
-/

set_option autoImplicit false

namespace Statechart

/-- What one state does. Its callbacks work on the machine's context and on the state's local data;
`accepts` foretells whether `onEvent` would process an event, without any effect. -/
structure Behavior (γ δ : Type) where
  /-- The local data of a fresh instance. -/
  initial : δ
  onEntry : Event → Fallible (γ × δ) Unit := fun _ => return ()
  onExit : Event → Fallible (γ × δ) Unit := fun _ => return ()
  /-- The answer says whether the event was processed. -/
  onEvent : Event → Fallible (γ × δ) Bool := fun _ => return false
  accepts : γ → δ → Event → Bool := fun _ _ _ => false

/-- Entry and exit actions, each for all events or for one kind, and reactions by kind. -/
structure Reactions (γ : Type) where
  entry : List (Option EventKind × Action γ) := []
  exit : List (Option EventKind × Action γ) := []
  internal : List (EventKind × Action γ) := []

namespace Reactions

variable {γ δ : Type}

/-- Adds an entry action, for all events or for one kind. -/
def entering (r : Reactions γ) (kind : Option EventKind) (a : Action γ) : Reactions γ :=
  { r with entry := r.entry ++ [(kind, a)] }

/-- Adds an exit action, for all events or for one kind. -/
def leaving (r : Reactions γ) (kind : Option EventKind) (a : Action γ) : Reactions γ :=
  { r with exit := r.exit ++ [(kind, a)] }

/-- Adds a reaction to one kind of event. -/
def reacting (r : Reactions γ) (kind : EventKind) (a : Action γ) : Reactions γ :=
  { r with internal := r.internal ++ [(kind, a)] }

/-- Runs the actions that are meant for the event, in order. -/
def runMatching (e : Event) : List (Option EventKind × Action γ) → Fallible γ Unit
  | [] => return ()
  | (kind, a) :: rest => do
    if kind.all (· = e.kind) then a.run e
    runMatching e rest

/-- The reaction to an event: the first one listed for its kind. -/
def reaction? (r : Reactions γ) (e : Event) : Option (Action γ) :=
  r.internal.lookup e.kind

/-- A callback on the context alone, in a state with local data. -/
def onContext {α : Type} (x : Fallible γ α) : Fallible (γ × δ) α :=
  Callback.within Prod.fst (fun c s => (c, s.2)) x

/-- The behaviour that runs the listed actions; its local data is never touched. -/
def behavior [Inhabited δ] (r : Reactions γ) : Behavior γ δ where
  initial := default
  onEntry e := onContext (runMatching e r.entry)
  onExit e := onContext (runMatching e r.exit)
  onEvent e := onContext do
    match r.reaction? e with
    | some a =>
      a.run e
      return true
    | none => return false
  accepts _ _ e := (r.reaction? e).isSome

end Reactions

end Statechart
