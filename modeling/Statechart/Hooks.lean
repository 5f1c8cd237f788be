import Statechart.Callback

/-!
# Hooks

Optional callbacks of a machine that observe its transitions and its dispatches, and one that decides
what becomes of a failure.

* `Endpoint`, `Move` : a transition as the hooks see it;
* `Recovery` : the verdicts on a failure;
* `Hooks`.
-/

set_option autoImplicit false

namespace Statechart

/-- One end of a transition: a state, or a region that is stopped or finished. -/
inductive Endpoint (σ : Type) where
  | stopped
  | state (s : σ)
  | final
deriving DecidableEq, Repr

/-- A transition of the region with the given path. -/
structure Move (σ : Type) where
  region : String
  source : Endpoint σ
  target : Endpoint σ
  event : Event
deriving DecidableEq, Repr

/-- What becomes of a failure. -/
inductive Recovery where
  /-- It was dealt with. -/
  | handled
  /-- An event is queued behind those already pending. -/
  | raise (e : Event)
  /-- Every region is stopped. -/
  | stop
  /-- The caller gets it. -/
  | propagate
deriving DecidableEq, Repr

/-- Queues the failure itself as an event. -/
def Recovery.reinject (f : Failure) : Recovery := .raise (.failure f)

/-- The hooks of a machine; one that is absent does nothing. -/
structure Hooks (σ γ : Type) where
  preTransition : Option (Move σ → Callback γ Unit) := none
  postTransition : Option (Move σ → Callback γ Unit) := none
  /-- Called before an event is offered to the regions. -/
  preProcessing : Option (Event → Callback γ Unit) := none
  /-- Called when every region has seen an event, with whether one of them processed it. -/
  postProcessing : Option (Event → Bool → Callback γ Unit) := none
  /-- Called for an event that no region processed. -/
  unprocessed : Option (Event → Callback γ Unit) := none
  failure : Option (Failure → Callback γ Recovery) := none

namespace Hooks

variable {σ γ : Type}

/-- Turns every failure into an event. -/
def reinjecting (h : Hooks σ γ) : Hooks σ γ :=
  { h with failure := some fun f => return Recovery.reinject f }

end Hooks

end Statechart
