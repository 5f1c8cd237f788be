/-!
# Events, their kinds, and failures

* `EventKind` : all that triggers and filters look at; `EventKind.typeName` is its printed form;
* `Failure` : a fault of a user's callback, with the place where it arose (`Failure.message`);
* `Event` : a kind with an argument. `Event.completion` is raised by regions alone, and a failure
  is an event too, so that a transition table can route it.
-/

set_option autoImplicit false

namespace Statechart

/-- What a failing callback reports. -/
abbrev Cause := String

/-- The runtime tag of an event. -/
inductive EventKind where
  | start
  | stop
  | completion
  | failure
  | signal (name : String)
deriving DecidableEq, Repr

/-- The printed name of a kind; a signal prints as it is named. -/
def EventKind.typeName : EventKind → String
  | .start => "stateloom::core::event::Start"
  | .stop => "stateloom::core::event::Stop"
  | .completion => "stateloom::core::event::Completion"
  | .failure => "stateloom::core::error::Failure"
  | .signal name => name

/-- The kinds of callback that can fail. -/
inductive Stage where
  | guard
  | action
  | entry
  | exit
  | reaction
deriving DecidableEq, Repr

def Stage.render : Stage → String
  | .guard => "guard"
  | .action => "action"
  | .entry => "entry"
  | .exit => "exit"
  | .reaction => "reaction"

/-- A fault of a user's callback during a dispatch: the region that was dispatching, the state
whose callback or outgoing row failed, and the kind of the event being dispatched. -/
structure Failure where
  stage : Stage
  region : String
  state : String
  event : EventKind
  cause : Cause
deriving DecidableEq, Repr

def Failure.message (f : Failure) : String :=
  f.stage.render ++ " failed in region '" ++ f.region ++ "' (state " ++ f.state ++ ", event "
    ++ f.event.typeName ++ "): " ++ f.cause

/-- What a signal carries. -/
inductive Argument where
  | none
  | number (n : Int)
  | text (s : String)
deriving DecidableEq, Repr

/-- An event as it travels through a machine; it is never changed on the way. -/
inductive Event where
  | start
  | stop
  | completion
  | failure (f : Failure)
  | signal (name : String) (argument : Argument)
deriving DecidableEq, Repr

namespace Event

def kind : Event → EventKind
  | start => .start
  | stop => .stop
  | completion => .completion
  | failure _ => .failure
  | signal name _ => .signal name

def typeName (e : Event) : String := e.kind.typeName

def isCompletion (e : Event) : Bool := e.kind = .completion

theorem isCompletion_iff (e : Event) : e.isCompletion = true ↔ e = .completion := by
  cases e <;> simp [isCompletion, kind]

end Event

end Statechart
