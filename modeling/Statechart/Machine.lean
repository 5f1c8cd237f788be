import Statechart.Region.Active
import Statechart.Region.Process

/-!
# Machines

A machine runs its regions side by side. It dispatches one event after the other: each goes to every
region in the order of their declaration, and what is raised meanwhile waits in the queue.

* `Chart` : the fixed part of a machine; its operations are turns (`Chart.process`, `Chart.processNow`,
  `Chart.processPending`, `Chart.start`, `Chart.stop`, `Chart.check`);
* `Chart.recover` : what becomes of a failure;
* `Chart.drain` : dispatches pending events; as callbacks may raise events without end, the caller
  bounds the number of dispatches;
* `Machine`, `Machine.run` and the queries on a machine.
-/

set_option autoImplicit false

namespace Statechart

variable {σ γ δ α : Type}

/-- The fixed part of a machine. Its regions are numbered as if they belonged to a state at
position 0. -/
structure Chart (σ γ δ : Type) where
  regions : List (BuiltRegion σ γ δ)
  setup : Setup σ γ := {}

namespace Chart

variable [DecidableEq σ] [Named σ] (c : Chart σ γ δ)

/-- Stops every region; the first error ends the pass. -/
def stopRegions : Turn σ γ δ Unit := Region.stopAll c.setup 0 0 c.regions .stop

/-- Starts every region that is not running. -/
def startRegions : Turn σ γ δ Unit := Region.startAll c.setup 0 0 c.regions .start

/-- Offers one event to every region, between the hooks around a dispatch. -/
def dispatch (e : Event) : Turn σ γ δ Unit := do
  c.setup.hooks.beforeProcessing e
  let processed ← Region.processAll c.setup 0 0 c.regions e
  c.setup.hooks.afterProcessing e processed

/-- Routes a failure through the failure hook; other errors pass. -/
def recover : Except DispatchError Unit → Turn σ γ δ Unit
  | .ok _ => return
  | .error (.failure f) =>
    match c.setup.hooks.failure with
    | none => Turn.fail (.failure f)
    | some hook => do
      Turn.note (.hook (.failure f))
      match ← Turn.perform (hook f) with
      | .handled => return
      | .raise e => Turn.offer e
      | .stop => c.stopRegions
      | .propagate => Turn.fail (.failure f)
  | .error e => Turn.fail e

/-- A pass over the regions with its recovery. -/
def recovering (pass : Turn σ γ δ Unit) : Turn σ γ δ Unit := do
  c.recover (← pass.attempt)

/-- Dispatches one event that is not in the queue, with recovery. -/
def handle (e : Event) : Turn σ γ δ Unit := do
  Turn.note (.began e)
  c.recovering (c.dispatch e)
  Turn.note (.ended e)

/-- Takes the oldest event off the queue. -/
def take : Turn σ γ δ (Option Event) := do
  let some (e, mailbox) := (← get).world.exchange.mailbox.take? | return none
  modify fun s => { s with world.exchange.mailbox := mailbox }
  return some e

/-- Dispatches pending events until none is left, at most `bound` of them. -/
def drain (bound : Nat) : Turn σ γ δ Unit :=
  match bound with
  | 0 => do
    if !(← get).world.exchange.mailbox.pending.isEmpty then throw .unfinished
  | bound + 1 => do
    let some e ← take | return
    c.handle e
    drain bound

/-- Queues an event and dispatches all that is pending. -/
def process (bound : Nat) (e : Event) : Turn σ γ δ Unit := do
  Turn.offer e
  c.drain bound

/-- Dispatches an event ahead of the pending ones, then these. -/
def processNow (bound : Nat) (e : Event) : Turn σ γ δ Unit := do
  c.handle e
  c.drain bound

/-- Dispatches all that is pending. -/
def processPending (bound : Nat) : Turn σ γ δ Unit := c.drain bound

/-- Starts the regions that are not running, then dispatches what that raised. -/
def start (bound : Nat) : Turn σ γ δ Unit := do
  c.recovering c.startRegions
  c.drain bound

/-- Stops the regions, then dispatches what that raised. -/
def stop (bound : Nat) : Turn σ γ δ Unit := do
  c.recovering c.stopRegions
  c.drain bound

/-- Whether some region would process an event, found out without any effect but the guards'. -/
def check (e : Event) : Turn σ γ δ Bool := Region.checkAny 0 0 c.regions e

end Chart

/-- A machine: its chart, and the world and the marking it has come to. The marking's children under
position 0 are those of the chart's regions. -/
@[ext]
structure Machine (σ γ δ : Type) where
  chart : Chart σ γ δ
  configuration : Configuration σ γ δ

namespace Machine

variable (m : Machine σ γ δ)

/-- Runs a turn on the machine. However the turn ends, the machine is as the turn left it. -/
def run (x : Turn σ γ δ α) : Except Halt α × Machine σ γ δ :=
  match x m.configuration with
  | .ok a after => (.ok a, { m with configuration := after })
  | .error h after => (.error h, { m with configuration := after })

/-- A turn does not touch the chart. -/
theorem chart_run (x : Turn σ γ δ α) : (m.run x).2.chart = m.chart := by
  unfold run
  split <;> rfl

def context : γ := m.configuration.world.context

def setContext (context : γ) : Machine σ γ δ := { m with configuration.world.context := context }

def history : History σ := m.configuration.world.history

def mailbox : Mailbox := m.configuration.world.exchange.mailbox

def journal : Journal σ := m.configuration.world.exchange.journal

def settings : Settings := m.chart.setup.settings

/-- Whether some region is running. -/
def isRunning : Bool :=
  (List.range m.chart.regions.length).any fun j => (m.configuration.marking.child (0, j)).isRunning

/-- Whether a state is active, at any depth. -/
def isActive [DecidableEq σ] (s : σ) : Bool :=
  Region.anyActive s 0 0 m.chart.regions m.configuration.marking

/-- The active states of all regions, outer ones first. -/
def activeStates : List σ := Region.allActiveStates 0 0 m.chart.regions m.configuration.marking

/-- Diagnostic text, under an identifier that the host gives the machine. -/
def render (id : String) : String :=
  "Machine \x7b id: " ++ id ++ ", regions: " ++ toString m.chart.regions.length
    ++ ", config: " ++ m.settings.render ++ ", .. \x7d"

end Machine

end Statechart
