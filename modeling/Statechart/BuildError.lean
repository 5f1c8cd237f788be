import Statechart.DispatchError
import Statechart.Transition.Draft

/-!
# Why a machine is not built

* `Violation`, `Violation.message` : a structural fault of the declared regions and tables;
* `BuildError`, `BuildError.message`.
-/

set_option autoImplicit false

namespace Statechart

/-- A structural fault of a declaration. Regions are named by path, states by name. -/
inductive Violation where
  | duplicateState (region state : String)
  | stateInMultipleRegions (state first second : String)
  | ambiguousInitial (region : String) (count : Nat)
  | unknownInitial (region state : String)
  | unknownSource (region state : String)
  | unknownTarget (region state : String)
  | unreachableState (region state : String)
  | completionCycle (region : String) (states : List String)
deriving DecidableEq, Repr

def Violation.message : Violation → String
  | .duplicateState region state =>
    "state " ++ state ++ " is declared twice in region '" ++ region ++ "'"
  | .stateInMultipleRegions state first second =>
    "state " ++ state ++ " is declared in regions '" ++ first ++ "' and '" ++ second ++ "'"
  | .ambiguousInitial region count =>
    "region '" ++ region ++ "' designates " ++ toString count ++ " initial states"
  | .unknownInitial region state =>
    "initial state " ++ state ++ " of region '" ++ region ++ "' is not declared there"
  | .unknownSource region state =>
    "transition in region '" ++ region ++ "' lists undeclared state " ++ state
  | .unknownTarget region state =>
    "transition in region '" ++ region ++ "' targets undeclared state " ++ state
  | .unreachableState region state =>
    "state " ++ state ++ " of region '" ++ region
      ++ "' is neither initial nor the target of any transition"
  | .completionCycle region states =>
    "completion transitions in region '" ++ region ++ "' loop unconditionally: "
      ++ " -> ".intercalate states

/-- What keeps a machine from being built. -/
inductive BuildError where
  | noRegions
  | emptyRegion (region : String)
  | missing (part : MissingPart)
  | invalidTable (violations : List Violation)
  /-- The machine was built but failed to start. -/
  | start (e : DispatchError)
deriving DecidableEq, Repr

def MissingPart.message : MissingPart → String
  | .source => "Transition source not specified. Call .from(state) or .from_any()"
  | .event => "Transition event not specified. Call .on::<E>(), .on_any() or .on_completion()"
  | .target => "Transition target not specified. Call .to(state), .internal() or .to_final()"

def BuildError.message : BuildError → String
  | .noRegions => "No regions defined. Add at least one region with .region(...)"
  | .emptyRegion region => "Region '" ++ region ++ "' declares no states and no transitions"
  | .missing part => part.message
  | .invalidTable violations =>
    "Transition table is malformed: " ++ "; ".intercalate (violations.map Violation.message)
  | .start e => "Machine failed to start: " ++ e.message

end Statechart
