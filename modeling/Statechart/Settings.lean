import Statechart.Document

/-!
# Settings of a machine

* `Settings` and its defaults;
* `Settings.read?` : settings from a document, where what is missing keeps its default;
* `Settings.render` : the settings as diagnostic text.
-/

set_option autoImplicit false

namespace Statechart

/-- Limits and switches of a machine. -/
structure Settings where
  /-- Start every region as the last step of building. -/
  autoStart : Bool := true
  /-- How many completion transitions a region may take in a row. -/
  maxCompletionChain : Nat := 64
  /-- How many events may be pending; `none` sets no bound. -/
  queueCapacity : Option Nat := none
  /-- Record every state-to-state transition. -/
  trackHistory : Bool := false
deriving DecidableEq, Repr

namespace Settings

def fieldNames : List String :=
  ["auto_start", "max_completion_chain", "queue_capacity", "track_history"]

/-- A part that is given has to be readable; one that is not keeps the default. -/
def orDefault? {α : Type} (default : α) (read? : Document → Option α) : Option Document → Option α
  | none => some default
  | some d => read? d

def read? (d : Document) : Option Settings := do
  let [autoStart, chain, capacity, track] ← d.parts? fieldNames | none
  let defaults : Settings := {}
  return {
    autoStart := ← orDefault? defaults.autoStart Document.bool? autoStart
    maxCompletionChain := ← orDefault? defaults.maxCompletionChain Document.natural? chain
    queueCapacity :=
      ← orDefault? defaults.queueCapacity (Document.nullable? Document.natural?) capacity
    trackHistory := ← orDefault? defaults.trackHistory Document.bool? track }

def renderCapacity : Option Nat → String
  | none => "None"
  | some n => "Some(" ++ toString n ++ ")"

def render (s : Settings) : String :=
  "MachineConfig \x7b auto_start: " ++ toString s.autoStart
    ++ ", max_completion_chain: " ++ toString s.maxCompletionChain
    ++ ", queue_capacity: " ++ renderCapacity s.queueCapacity
    ++ ", track_history: " ++ toString s.trackHistory ++ " \x7d"

end Settings

end Statechart
