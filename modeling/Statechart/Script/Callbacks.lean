import Statechart.Behavior
import Statechart.Hooks
import Statechart.Script.Step

/-!
# Scripted callbacks

* `action`, `fallibleAction`, `actionOn` : actions that run steps;
* `constant`, `failing`, `comparing`, `ofKind`, `completing`, `comparingNumber` : tests for guards, each
  with a label that is logged when it is evaluated; `forgiving` : a guard whose errors count as false;
* `Counter` : behaviours that count events;
* `HookScripts` : hooks that log their calls and run steps.
-/

set_option autoImplicit false

namespace Statechart.Script

/-! ## Actions -/

/-- Runs steps quietly on every event. -/
def action (steps : List Step) : Action Context := Action.new fun e => quietly (.any e) steps

/-- Runs steps on every event; an error fails the action. -/
def fallibleAction (steps : List Step) : Action Context :=
  Action.fallible fun e => run (.any e) steps

/-- Runs steps quietly on the events of one kind. -/
def actionOn (k : EventKind) (steps : List Step) : Action Context :=
  Action.on k fun e => quietly (.typed e) steps

/-! ## Guards -/

/-- Logs that the test with a label is evaluated. -/
def evaluating (label : Option String) : Callback Context Unit :=
  match label with
  | none => return
  | some l => logging ("guard " ++ l)

def constant (b : Bool) (label : Option String) : Guard Context :=
  .when fun _ => do
    evaluating label
    return b

def failing (message : String) (label : Option String) : Guard Context :=
  .test fun _ => do
    ExceptT.lift (evaluating label)
    throw message

/-- Compares a variable. -/
def comparing (v : String) (op : Comparison) (k : Int) (label : Option String) : Guard Context :=
  .when fun _ => do
    evaluating label
    return op.holds ((← Callback.get).var v) k

def ofKind (kind : EventKind) (label : Option String) : Guard Context :=
  .when fun e => do
    evaluating label
    return e.kind = kind

def completing (label : Option String) : Guard Context :=
  .when fun e => do
    evaluating label
    return e.isCompletion

/-- Compares the number of an event of one kind. -/
def comparingNumber (kind : EventKind) (op : Comparison) (k : Int) (label : Option String) :
    Guard Context :=
  .on kind fun e => do
    evaluating label
    return op.holds (number e) k

/-- A guard whose errors count as false. -/
def forgiving (g : Guard Context) : Guard Context :=
  .when fun e => do
    match ← (g.check e).run with
    | .ok b => return b
    | .error _ => return false

/-! ## Behaviours -/

/-- A behaviour that counts the events of one kind up to a limit. Its count is local data. -/
structure Counter where
  kind : EventKind
  limit : Int
  /-- Whether the count outlives the state's exit. -/
  keeps : Bool := false
  /-- Raised when the limit is reached, if there is a handle. -/
  full : Option Event := none
  hasHandle : Bool := false

namespace Counter

/-- Logs in a state with a count. -/
def log (line : String) : Callback (Context × Nat) Unit :=
  Callback.modify fun (c, n) => (c.append line, n)

def accepts (k : Counter) (count : Nat) (e : Event) : Bool := e.kind = k.kind && (count : Int) < k.limit

/-- Raises the event of a counter that reached its limit. -/
def raiseFull (k : Counter) : Fallible (Context × Nat) Unit := do
  if let some e := k.full then
    if k.hasHandle then
      if let .refused capacity ← ExceptT.lift (Callback.raise e) then
        throw (DispatchError.queueFull capacity).message

def behavior (k : Counter) : Behavior Context Nat where
  initial := 0
  onEntry _ := ExceptT.lift do
    if !k.keeps then Callback.modify fun (c, _) => (c, 0)
    let (_, count) ← Callback.get
    log ("counter at " ++ toString count)
  onEvent e := do
    let (_, count) ← ExceptT.lift Callback.get
    if !k.accepts count e then return false
    ExceptT.lift (Callback.modify fun (c, n) => (c, n + 1))
    ExceptT.lift (log ("count " ++ toString (count + 1)))
    if (count + 1 : Nat) = k.limit then raiseFull k
    return true
  accepts _ count e := k.accepts count e

end Counter

/-- A state whose construction logs a line and runs steps. -/
def constructing (s : StateId) (steps : List Step) (b : Behavior Context Nat) :
    Callback Context (Behavior Context Nat) := do
  logging ("make " ++ s.shown)
  quietly ⟨0, "made", none⟩ steps
  return b

/-! ## Hooks -/

/-- One verdict of a scripted failure hook. -/
inductive Verdict where
  | handled
  | stop
  | propagate
  | reinject
  | raise (e : Event)
deriving DecidableEq, Repr

def Verdict.recovery (f : Failure) : Verdict → Recovery
  | handled => .handled
  | stop => .stop
  | propagate => .propagate
  | reinject => .reinject f
  | raise e => .raise e

/-- The verdict of the `n`-th call; the last one repeats. -/
def verdictAt (verdicts : List Verdict) (n : Nat) : Verdict :=
  (verdicts[n]?).getD (verdicts.getLast?.getD .handled)

def showEndpoint : Endpoint StateId → String
  | .stopped => "(stopped)"
  | .state s => s.shown
  | .final => "(final)"

def showMove (m : Move StateId) : String :=
  "[" ++ m.region ++ "] " ++ showEndpoint m.source ++ " -> " ++ showEndpoint m.target ++ " "
    ++ shown m.event

/-- The steps of the hooks of a machine; a hook without steps is not configured. -/
structure HookScripts where
  preTransition : Option (List Step) := none
  postTransition : Option (List Step) := none
  preProcessing : Option (List Step) := none
  postProcessing : Option (List Step) := none
  unprocessed : Option (List Step) := none
  failure : Option (List Verdict) := none

namespace HookScripts

/-- Logs a line, then runs steps about an event. -/
def announce (line : String) (steps : List Step) (e : Event) : Callback Context Unit := do
  logging line
  quietly (.any e) steps

/-- Logs a failure and gives the next verdict. -/
def judge (verdicts : List Verdict) (f : Failure) : Callback Context Recovery := do
  logging ("failure " ++ f.message)
  let calls := (← Callback.get).failures
  Callback.modify fun c => { c with failures := calls + 1 }
  return (verdictAt verdicts calls).recovery f

def hooks (h : HookScripts) : Hooks StateId Context where
  preTransition := h.preTransition.map fun steps m =>
    announce ("pre " ++ showMove m) steps m.event
  postTransition := h.postTransition.map fun steps m =>
    announce ("post " ++ showMove m) steps m.event
  preProcessing := h.preProcessing.map fun steps e => announce ("begin " ++ shown e) steps e
  postProcessing := h.postProcessing.map fun steps e processed =>
    announce ("end " ++ shown e ++ " " ++ toString processed) steps e
  unprocessed := h.unprocessed.map fun steps e => announce ("unprocessed " ++ shown e) steps e
  failure := h.failure.map judge

end HookScripts

end Statechart.Script
