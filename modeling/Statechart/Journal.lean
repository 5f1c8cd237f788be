import Statechart.Hooks

/-!
# The journal of a machine

A machine notes every event that its queue takes or refuses, every dispatch, every call of a callback
and every fault, in the order in which they happen.

* `HookCall`, `Note`;
* `Journal` : the notes, the latest first; `Journal.toList` lists them as they happened.
-/

set_option autoImplicit false

namespace Statechart

/-- A call of a hook with its arguments. -/
inductive HookCall (σ : Type) where
  | preTransition (m : Move σ)
  | postTransition (m : Move σ)
  | preProcessing (e : Event)
  | postProcessing (e : Event) (processed : Bool)
  | unprocessed (e : Event)
  | failure (f : Failure)
deriving DecidableEq, Repr

/-- One thing that happened in a machine. Regions are named by path, rows by their position in the
region's table, next to the state that was active. -/
inductive Note (σ : Type) where
  /-- The context was constructed. -/
  | contextMade
  /-- The behaviour of a state was constructed. -/
  | stateMade (s : σ)
  | queued (e : Event)
  | refused (e : Event)
  /-- The dispatch of an event began. -/
  | began (e : Event)
  /-- The dispatch of an event ended, recovery included. -/
  | ended (e : Event)
  | guard (region : String) (active : σ) (row : Nat) (e : Event)
  /-- A row was chosen and is about to fire. -/
  | fired (region : String) (source : σ) (row : Nat) (e : Event)
  | action (region : String) (active : σ) (row : Nat) (e : Event)
  | entry (region : String) (s : σ) (e : Event)
  | exit (region : String) (s : σ) (e : Event)
  /-- The reaction of a state was asked whether it processes the event. -/
  | consulted (region : String) (s : σ) (e : Event)
  /-- The reaction of a state has processed the event. -/
  | reaction (region : String) (s : σ) (e : Event)
  | hook (call : HookCall σ)
  /-- A callback reported a failure. -/
  | failed (f : Failure)
  | panicked (message : String)
  /-- The completion transitions of a region did not come to rest. -/
  | overflowed (region : String) (limit : Nat)
deriving DecidableEq, Repr

/-- The notes of a machine, the latest first. -/
structure Journal (σ : Type) where
  notes : List (Note σ) := []
deriving DecidableEq, Repr

namespace Journal

variable {σ : Type}

def write (j : Journal σ) (n : Note σ) : Journal σ := ⟨n :: j.notes⟩

/-- The notes in the order in which they were written. -/
def toList (j : Journal σ) : List (Note σ) := j.notes.reverse

@[simp] theorem toList_write (j : Journal σ) (n : Note σ) : (j.write n).toList = j.toList ++ [n] := by
  simp [write, toList]

end Journal

end Statechart
