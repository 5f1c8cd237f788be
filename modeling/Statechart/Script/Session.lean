import Statechart.Build
import Statechart.Script.Callbacks
import Statechart.Shared

/-!
# Sessions

A session builds a machine and takes it through a list of commands, on the machine itself or on a
sharing of it. Every report gives the lines that were logged since the one before.

* `Command`, `Reply`, `View`, `Report`;
* `Desk` : the machine, plain or shared; `Desk.obey` carries out one command;
* `Scenario`, `Scenario.run`.
-/

set_option autoImplicit false

namespace Statechart.Script

abbrev ScriptedMachine := Machine StateId Context Nat

abbrev SharedScript := Shared StateId Context Nat

inductive Command where
  | process (e : Event)
  | processNow (e : Event)
  | processPending
  | check (e : Event)
  | start
  | stop
  | isActive (s : StateId)
  /-- Raises an event through a handle. -/
  | post (e : Event)
  | setVar (var : String) (k : Int)
  | history
  | path (region : String)
  | inRegion (region : String)
  | exportHistory
  /-- Asks whether the history spans a duration. -/
  | timed
  | settings
  | render
  | renderHandles
  | share
  | clone
  | drop
  | unshare
  | exclusively (commands : List Command)

/-- A record of the history as region, source, target and event name. -/
abbrev Entry := String × StateId × StateId × String

def entryOf (r : History.Record StateId) : Entry := (r.region, r.source, r.target, r.event)

inductive Reply where
  | done
  | fault (e : DispatchError)
  | panic (message : String)
  | unfinished
  | flag (b : Bool)
  | count (n : Nat)
  | line (s : String)
  | lines (ss : List String)
  | states (ss : List StateId)
  | entries (es : List Entry)
  | document (d : Document)
  | settings (s : Settings)
  | stillShared
  /-- The command does not fit a machine that is, or is not, shared. -/
  | misplaced

/-- What can be seen of a machine between commands. -/
structure View where
  active : List StateId
  running : Bool
  pending : Nat
  vars : List (String × Int)

def viewOf (m : ScriptedMachine) : View :=
  ⟨m.activeStates, m.isRunning, m.mailbox.pending.length, m.context.vars⟩

/-- What came of one command. The reports of commands that were carried out under the lock are listed
inside; a panic ends that list. -/
structure Report where
  reply : Reply
  log : List String
  view : Option View
  inner : Option (List Report) := none

/-- The lines logged since the last report, and the machine with an empty log. -/
def takeLog (m : ScriptedMachine) : List String × ScriptedMachine :=
  (m.context.log.toList, m.setContext m.context.clearLog)

def replyTo : Except Halt Unit → Reply
  | .ok _ => .done
  | .error (.error e) => .fault e
  | .error (.panic message) => .panic message
  | .error .unfinished => .unfinished

/-- How many events one command may dispatch. -/
def patience : Nat := 1000000000000

/-! ## Commands to a plain machine -/

/-- Carries out a command on a machine that is not shared, or that the caller has to itself. -/
def obeyPlain (m : ScriptedMachine) (command : Command) : Reply × ScriptedMachine :=
  let running (x : Turn StateId Context Nat Unit) : Reply × ScriptedMachine :=
    (m.run x).map replyTo id
  match command with
  | .process e => running (m.chart.process patience e)
  | .processNow e => running (m.chart.processNow patience e)
  | .processPending => running (m.chart.processPending patience)
  | .start => running (m.chart.start patience)
  | .stop => running (m.chart.stop patience)
  | .post e => (m.post e).map replyTo id
  | .check e =>
    match m.run (m.chart.check e) with
    | (.ok b, m) => (.flag b, m)
    | (.error h, m) => (replyTo (.error h), m)
  | .isActive s => (.flag (m.isActive s), m)
  | .setVar v k => (.done, m.setContext (m.context.setVar v k))
  | .history => (.entries (m.history.toList.map entryOf), m)
  | .path region => (.states (m.history.path region), m)
  | .inRegion region => (.entries ((m.history.inRegion region).map entryOf), m)
  | .exportHistory => (.document (m.history.toDocument StateId.toDocument), m)
  | .timed => (.flag m.history.duration.isSome, m)
  | .settings => (.settings m.settings, m)
  | .render => (.line (m.render "ID"), m)
  | .renderHandles =>
    (.lines [Shared.renderHandle "stateloom::dispatch::handle::AnyEvent",
      Shared.renderHandle "(u32,)"], m)
  | .share | .clone | .drop | .unshare | .exclusively _ => (.misplaced, m)

def reportOn (reply : Reply) (m : ScriptedMachine) : Report × ScriptedMachine :=
  let (log, m) := takeLog m
  (⟨reply, log, some (viewOf m), none⟩, m)

/-- Carries out commands one after the other. A panic ends the list, and no report of it is given. -/
def obeyAll (m : ScriptedMachine) : List Command → List Report × Except String Unit × ScriptedMachine
  | [] => ([], .ok (), m)
  | command :: commands =>
    match obeyPlain m command with
    | (.panic message, m) => ([], .error message, m)
    | (reply, m) =>
      let (report, m) := reportOn reply m
      let (reports, rest) := obeyAll m commands
      (report :: reports, rest)

/-! ## Sessions -/

/-- The machine of a session. -/
inductive Desk where
  | plain (m : ScriptedMachine)
  | shared (s : SharedScript)

namespace Desk

/-- Carries out a command on a shared machine. -/
def obeyShared (s : SharedScript) : Command → Reply × Option (List Report) × Desk
  | .process e | .post e =>
    let (result, s) := s.post patience e
    (replyTo result, none, .shared s)
  | .processPending =>
    let (result, s) := s.processPending patience
    (replyTo result, none, .shared s)
  | .render => (.line s.render, none, .shared s)
  | .clone => (.count s.clone.extraHandles, none, .shared s.clone)
  | .drop => (.count s.drop.extraHandles, none, .shared s.drop)
  | .unshare =>
    match s.unwrap with
    | some m => (.done, none, .plain m)
    | none => (.stillShared, none, .shared s)
  | .exclusively commands =>
    let reports := if s.lock = .poisoned then [] else (obeyAll s.machine commands).1
    let (result, s) := s.exclusively patience fun m => (obeyAll m commands).2
    (replyTo result, some reports, .shared s)
  | _ => (.misplaced, none, .shared s)

/-- Takes the new lines of the log. -/
def takeLog : Desk → List String × Desk
  | plain m => (Script.takeLog m).map id plain
  | shared s => (Script.takeLog s.machine).map id fun m => shared { s with machine := m }

def view : Desk → Option View
  | plain m => some (viewOf m)
  | shared _ => none

/-- Carries out a command and reports on it. -/
def obey (d : Desk) (command : Command) : Report × Desk :=
  let (reply, inner, d) : Reply × Option (List Report) × Desk :=
    match d, command with
    | plain m, .share => (.done, none, shared (.wrap m))
    | plain m, command =>
      let (reply, m) := obeyPlain m command
      (reply, none, plain m)
    | shared s, command => obeyShared s command
  let (log, d) := d.takeLog
  (⟨reply, log, d.view, inner⟩, d)

def obeyAll (d : Desk) : List Command → List Report
  | [] => []
  | command :: commands =>
    let (report, d) := d.obey command
    report :: obeyAll d commands

end Desk

/-- What came of building the machine of a scenario. -/
inductive Opening where
  | built
  | refused (e : BuildError)
  | panicked (message : String)
  | unfinished

/-- A machine to build and the commands to give it. -/
structure Scenario where
  blueprint : Blueprint StateId Context Nat
  vars : List (String × Int) := []
  /-- Whether the context keeps a handle onto the machine. -/
  hasHandle : Bool := true
  commands : List Command := []

structure ScenarioReport where
  opening : Opening
  log : List String
  view : Option View := none
  reports : List Report := []

def openingOf : BuildHalt → Opening
  | .error e => .refused e
  | .panic message => .panicked message
  | .unfinished => .unfinished

def Scenario.run (s : Scenario) : ScenarioReport :=
  let context : Callback Unit Context := return { vars := s.vars, hasHandle := s.hasHandle }
  match s.blueprint.build patience context with
  | .refused e => { opening := .refused e, log := [] }
  | .contextPanicked message _ => { opening := .panicked message, log := [] }
  | .abandoned halt world => { opening := openingOf halt, log := world.context.log.toList }
  | .ready m =>
    let (log, m) := takeLog m
    { opening := .built, log, view := some (viewOf m), reports := (Desk.plain m).obeyAll s.commands }

end Statechart.Script
