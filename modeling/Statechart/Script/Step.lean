import Statechart.Callback
import Statechart.DispatchError
import Statechart.Script.Context
import Statechart.Script.Vocabulary

/-!
# Steps

A scripted callback is a list of steps. A step that errs ends the list.

* `Comparison`, `Step`;
* `Subject` : what a list of steps is run about;
* `run` : the steps as a callback that may fail; `quietly` : errors become log lines.
-/

set_option autoImplicit false

namespace Statechart.Script

inductive Comparison where
  | lt
  | le
  | eq
  | ne
  | ge
  | gt
deriving DecidableEq, Repr

def Comparison.holds : Comparison → Int → Int → Bool
  | .lt, x, y => x < y
  | .le, x, y => x ≤ y
  | .eq, x, y => x = y
  | .ne, x, y => x ≠ y
  | .ge, x, y => y ≤ x
  | .gt, x, y => y < x

inductive Step where
  | log (line : String)
  /-- Logs a text and the event. -/
  | logEvent (text : String)
  | set (var : String) (k : Int)
  | add (var : String) (k : Int)
  /-- Adds the number of the event. -/
  | addNumber (var : String)
  | raise (e : Event)
  /-- Raises an event; a refusal is only logged. -/
  | tryRaise (e : Event)
  /-- Raises the very event that is being dispatched. -/
  | reraise
  | fail (message : String)
  | failIf (var : String) (op : Comparison) (k : Int) (message : String)
  /-- Ends the list without an error. -/
  | stopIf (var : String) (op : Comparison) (k : Int)
  | panic (message : String)
deriving DecidableEq, Repr

/-- What a list of steps is run about. Callbacks over events of one kind have no envelope to pass on. -/
structure Subject where
  number : Int
  shown : String
  envelope : Option Event := none

namespace Subject

/-- An event as callbacks over all events see it. -/
def any (e : Event) : Subject := ⟨Script.number e, Script.shown e, some e⟩

/-- An event as callbacks over one kind see it. -/
def typed (e : Event) : Subject := ⟨Script.number e, Script.shown e, none⟩

end Subject

/-- Raises an event through the context's handle. -/
def raising (e : Event) : Fallible Context Unit := do
  if !(← ExceptT.lift Callback.get).hasHandle then throw "no machine handle"
  if let .refused capacity ← ExceptT.lift (Callback.raise e) then
    throw (DispatchError.queueFull capacity).message

def logging (line : String) : Callback Context Unit := Callback.modify (·.append line)

/-- Runs one step; the answer says whether the list goes on. -/
def Step.run (s : Subject) : Step → Fallible Context Bool
  | log line => do
    ExceptT.lift (logging line)
    return true
  | logEvent text => do
    ExceptT.lift (logging (text ++ " " ++ s.shown))
    return true
  | set v k => do
    ExceptT.lift (Callback.modify (·.setVar v k))
    return true
  | add v k => do
    ExceptT.lift (Callback.modify (·.addVar v k))
    return true
  | addNumber v => do
    ExceptT.lift (Callback.modify (·.addVar v s.number))
    return true
  | raise e => do
    raising e
    return true
  | tryRaise e => do
    if let .error message ← ExceptT.lift (raising e).run then
      ExceptT.lift (logging ("not raised: " ++ message))
    return true
  | reraise => do
    if let some e := s.envelope then
      if (← ExceptT.lift Callback.get).hasHandle then raising e
    return true
  | fail message => throw message
  | failIf v op k message => do
    if op.holds ((← ExceptT.lift Callback.get).var v) k then throw message
    return true
  | stopIf v op k => return !op.holds ((← ExceptT.lift Callback.get).var v) k
  | panic message => ExceptT.lift (Callback.panic message)

/-- Runs the steps in order. -/
def run (s : Subject) : List Step → Fallible Context Unit
  | [] => return
  | step :: steps => do
    if ← step.run s then run s steps

/-- Runs the steps; an error becomes a log line. -/
def quietly (s : Subject) (steps : List Step) : Callback Context Unit := do
  if let .error message ← (run s steps).run then logging ("ignored: " ++ message)

end Statechart.Script
