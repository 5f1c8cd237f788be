import Statechart.Event

/-!
# Why an operation of a machine ends early

* `DispatchError`, `DispatchError.message` : what an operation reports to its caller;
* `Halt` : an error, a panic of a callback, or a bound on the number of dispatches that ran out.
-/

set_option autoImplicit false

namespace Statechart

/-- What an operation of a machine can report. -/
inductive DispatchError where
  | failure (f : Failure)
  /-- The completion transitions of a region did not come to rest. -/
  | completionOverflow (region : String) (limit : Nat)
  /-- The queue of pending events holds no more. -/
  | queueFull (capacity : Nat)
  /-- A callback panicked while the machine was shared. -/
  | poisoned
deriving DecidableEq, Repr

def DispatchError.message : DispatchError → String
  | .failure f => f.message
  | .completionOverflow region limit =>
    "completion transitions in region '" ++ region ++ "' did not settle within " ++ toString limit
      ++ " steps"
  | .queueFull capacity => "pending event queue is full (" ++ toString capacity ++ " events)"
  | .poisoned => "machine lock was poisoned by a panic during dispatch"

/-- What ends an operation before its last step. -/
inductive Halt where
  | error (e : DispatchError)
  | panic (message : String)
  /-- More events were dispatched than the caller allowed for. -/
  | unfinished
deriving DecidableEq, Repr

end Statechart
