import Statechart.Build

/-!
# Runs of a machine

* `Operation`, `Operation.turn` : what can be done to a machine from outside;
* `Machine.operate` : carries out one operation, and gives the machine however the operation ended;
* `transcript`, `Machine.answers` : what requests, or operations, come to one after the other;
* `Machine.Leads` : the machines that operations lead to;
* `Blueprint.Reaches` : the machines that a blueprint leads to, by building one and operating on it;
* `Blueprint.Succeeds` : those on the way to which every operation ended well.
-/

set_option autoImplicit false

namespace Statechart

variable {σ γ δ : Type} [DecidableEq σ] [Named σ]

/-- What can be done to a machine from outside. -/
inductive Operation (γ : Type) where
  | start
  | stop
  | process (e : Event)
  | processNow (e : Event)
  | processPending
  /-- Raises an event through a handle while nothing is being dispatched. -/
  | post (e : Event)
  | check (e : Event)
  | setContext (context : γ)
  /-- Lets time pass. -/
  | setClock (now : Instant)

/-- The operation as a turn; at most `bound` pending events are dispatched. -/
def Operation.turn (c : Chart σ γ δ) (bound : Nat) : Operation γ → Turn σ γ δ Unit
  | .start => c.start bound
  | .stop => c.stop bound
  | .process e => c.process bound e
  | .processNow e => c.processNow bound e
  | .processPending => c.processPending bound
  | .post e => Turn.offer e
  | .check e => do let _ ← c.check e
  | .setContext context => modify fun s => { s with world.context := context }
  | .setClock now => modify fun s => { s with world.clock := now }

/-- Carries out an operation. -/
def Machine.operate (m : Machine σ γ δ) (bound : Nat) (op : Operation γ) :
    Except Halt Unit × Machine σ γ δ :=
  m.run (op.turn m.chart bound)

theorem Machine.chart_operate (m : Machine σ γ δ) (bound : Nat) (op : Operation γ) :
    (m.operate bound op).2.chart = m.chart :=
  m.chart_run _

/-- What requests come to one after the other. -/
def transcript {S ρ ι : Type} (serve : S → ρ → ι × S) : S → List ρ → List (ι × S)
  | _, [] => []
  | s, q :: qs =>
    let after := serve s q
    after :: transcript serve after.2 qs

/-- What operations come to one after the other, each with the machine after it. -/
def Machine.answers (m : Machine σ γ δ) (bound : Nat) (ops : List (Operation γ)) :
    List (Except Halt Unit × Machine σ γ δ) :=
  transcript (fun m op => m.operate bound op) m ops

/-- The machines that operations on `m` lead to, whatever these come to. -/
inductive Machine.Leads (m : Machine σ γ δ) : Machine σ γ δ → Prop where
  | refl : m.Leads m
  | next {m' : Machine σ γ δ} (bound : Nat) (op : Operation γ) : m.Leads m' → m.Leads (m'.operate bound op).2

/-- The machines that are built from a blueprint and operated on, whatever the operations come to. -/
inductive Blueprint.Reaches [Inhabited δ] (b : Blueprint σ γ δ) : Machine σ γ δ → Prop where
  | built {m : Machine σ γ δ} (bound : Nat) (context : Callback Unit γ) :
    b.build bound context = .ready m → b.Reaches m
  | next {m : Machine σ γ δ} (bound : Nat) (op : Operation γ) :
    b.Reaches m → b.Reaches (m.operate bound op).2

/-- The machines that are built from a blueprint and operated on, where every operation ends well. -/
inductive Blueprint.Succeeds [Inhabited δ] (b : Blueprint σ γ δ) : Machine σ γ δ → Prop where
  | built {m : Machine σ γ δ} (bound : Nat) (context : Callback Unit γ) :
    b.build bound context = .ready m → b.Succeeds m
  | next {m : Machine σ γ δ} (bound : Nat) (op : Operation γ) :
    b.Succeeds m → (m.operate bound op).1 = .ok () → b.Succeeds (m.operate bound op).2

theorem Blueprint.Succeeds.reaches [Inhabited δ] {b : Blueprint σ γ δ} {m : Machine σ γ δ}
    (h : b.Succeeds m) : b.Reaches m := by
  induction h with
  | built bound context hbuild => exact .built bound context hbuild
  | next bound op _ _ ih => exact ih.next bound op

/-! ## A lamp

A lamp that can be dimmed while it is on. -/

/-- The states of the lamp, and of the light while it is on. -/
inductive Lamp where
  | off | on | dim | bright
deriving DecidableEq, Repr

instance : Named Lamp where
  name
    | .off => "off"
    | .on => "on"
    | .dim => "dim"
    | .bright => "bright"

namespace Lamp

def press : Event := .signal "press" .none

def turn : Event := .signal "turn" .none

/-- A row from one state to another. -/
def row {τ : Type} (source : Lamp) (target : Target τ) (e : Event) : Transition Lamp Unit τ :=
  { source := .state source, trigger := .is e.kind, target }

/-- A completion row of one state. -/
def completing {τ : Type} (source : Lamp) (target : Target τ) : Transition Lamp Unit τ :=
  { source := .state source, trigger := .completion, target }

def light : Declaration Lamp Unit Unit :=
  Declaration.new "light" |>.initial dim |>.transition (row dim (.state bright) turn)

def blueprint : Blueprint Lamp Unit Unit where
  regions :=
    [Declaration.new "lamp" |>.initial off |>.composite on (Reactions.behavior {}) [light]
      |>.transition (row off (.state on) press) |>.transition (row on (.state off) press)]
  setup := { settings := { autoStart := false } }

/-- A state without reactions. -/
def node (s : Lamp) (regions : List (BuiltRegion Lamp Unit Unit)) : BuiltNode Lamp Unit Unit :=
  ⟨⟨s, Reactions.behavior {}⟩, regions⟩

/-- The tree of the lamp. -/
def tree : BuiltRegion Lamp Unit Unit :=
  ⟨⟨"lamp", [row off (.state 0) press, row on (.state 1) press], 1⟩,
    [node on [⟨⟨"lamp/on/light", [row dim (.state 1) turn], 0⟩, [node dim [], node bright []]⟩], node off []]⟩

/-- The lamp with the given notes, the latest first, and the given marking of its region. -/
def withNotes (notes : List (Note Lamp)) (marking : List ((Nat × Nat) × Marking Unit)) :
    Machine Lamp Unit Unit where
  chart := ⟨[tree], blueprint.setup⟩
  configuration := ⟨{ context := (), exchange.journal.notes := notes }, ⟨.stopped, [], marking⟩⟩

/-- The lamp before it is started. -/
def built : Machine Lamp Unit Unit :=
  withNotes [.stateMade off, .stateMade on, .stateMade bright, .stateMade dim, .contextMade] []

/-- The lamp after it was started. -/
def started : Machine Lamp Unit Unit :=
  withNotes (.entry "lamp" off .start :: built.journal.notes) [((0, 0), ⟨.at 1, [(1, ())], []⟩)]

theorem reaches_started : blueprint.Reaches started := by
  have hbuilt : blueprint.build 0 (pure () : Callback Unit Unit) = .ready built := rfl
  have hstarted : (built.operate 1 .start).2 = started := rfl
  rw [← hstarted]
  exact (Blueprint.Reaches.built 0 _ hbuilt).next 1 .start

/-- The lamp after it was pressed. -/
def lit : Machine Lamp Unit Unit := (started.operate 1 (.process press)).2

theorem reaches_lit : blueprint.Reaches lit := by
  unfold lit
  exact reaches_started.next 1 (.process press)

theorem chart_lit : lit.chart = ⟨[tree], blueprint.setup⟩ := by
  unfold lit
  rw [Machine.chart_operate]
  rfl

/-! ### A light alone -/

/-- The plan of a light with the given rows. -/
def lightPlan (rows : List (Transition Lamp Unit Lamp)) : Plan Lamp Unit Unit :=
  let declared (s : Lamp) : PlanNode Lamp Unit Unit :=
    ⟨⟨s, (pure (Reactions.behavior {}) : Callback Unit (Behavior Unit Unit))⟩, []⟩
  ⟨{ path := "light", initial := [dim], rows }, [declared dim, declared bright]⟩

/-- The plan of the lamp. -/
def plan : Plan Lamp Unit Unit :=
  let factory : Factory Unit Unit := (pure (Reactions.behavior {}) : Callback Unit (Behavior Unit Unit))
  ⟨{ path := "lamp", initial := [off], rows := [row off (.state on) press, row on (.state off) press] },
    [⟨⟨on, factory⟩,
      [⟨{ path := "lamp/on/light", initial := [dim], rows := [row dim (.state bright) turn] },
        (lightPlan []).nodes⟩]⟩,
    ⟨⟨off, factory⟩, []⟩]⟩

/-- The light that is compiled from the plan, with the given rows. -/
def lightRegion (rows : List (Transition Lamp Unit Nat)) : BuiltRegion Lamp Unit Unit :=
  ⟨⟨"light", rows, 0⟩, [node dim [], node bright []]⟩

/-- A light that comes up by itself. -/
def dawnPlan : Plan Lamp Unit Unit := lightPlan [completing dim (.state bright)]

def dawn : BuiltRegion Lamp Unit Unit := lightRegion [completing dim (.state 1)]

/-- A light that flickers by itself. -/
def flickerPlan : Plan Lamp Unit Unit :=
  lightPlan [completing dim (.state bright), completing bright (.state dim)]

def flicker : BuiltRegion Lamp Unit Unit :=
  lightRegion [completing dim (.state 1), completing bright (.state 0)]

/-- A world in which nothing has happened, and a marking with the given state active. -/
def untold (a : Active) : Configuration Lamp Unit Unit := ⟨{ context := () }, ⟨a, [], []⟩⟩

/-! ### A lamp that breaks -/

/-- A row whose action fails. -/
def breaking {τ : Type} (source : Lamp) (target : Target τ) (e : Event) : Transition Lamp Unit τ :=
  { row source target e with action := some (Action.fallible fun _ => throw "burnt out") }

/-- A light that breaks when it is turned, and when it is pressed. -/
def brittleLight : BuiltRegion Lamp Unit Unit :=
  lightRegion [breaking dim (.state 1) turn, breaking dim .final press]

/-- The row that is chosen when it is turned. -/
def turning : Choice Lamp Unit := ⟨0, dim, 0, breaking dim (.state 1) turn⟩

/-- A lamp with that light. -/
def brittle : BuiltRegion Lamp Unit Unit := ⟨⟨"lamp", [], 0⟩, [node on [brittleLight]]⟩

/-- That lamp while it is on and dim. -/
def glowing : Configuration Lamp Unit Unit :=
  ⟨{ context := () }, ⟨.at 0, [], [((0, 0), ⟨.at 0, [], []⟩)]⟩⟩

/-- The failure of its light. -/
def burnout (s : String) (e : Event) : Failure := ⟨.action, "light", s, e.kind, "burnt out"⟩

/-! ### A lamp that acts by itself

Its light comes up by itself, and once the light is done the lamp goes off. -/

def risingLight : Declaration Lamp Unit Unit :=
  Declaration.new "light" |>.initial dim |>.transition (completing dim (.state bright))
    |>.transition (row bright .final turn)

def risingBlueprint : Blueprint Lamp Unit Unit where
  regions :=
    [Declaration.new "lamp" |>.initial off |>.composite on (Reactions.behavior {}) [risingLight]
      |>.transition (row off (.state on) press) |>.transition (completing on (.state off))]
  setup := blueprint.setup

/-- The tree of that lamp. -/
def risingTree : BuiltRegion Lamp Unit Unit :=
  ⟨⟨"lamp", [row off (.state 0) press, completing on (.state 1)], 1⟩,
    [node on [⟨⟨"lamp/on/light", [completing dim (.state 1), row bright .final turn], 0⟩,
      [node dim [], node bright []]⟩], node off []]⟩

/-- That lamp before it is started. -/
def resting : Machine Lamp Unit Unit := { built with chart.regions := [risingTree] }

/-- That lamp after it was started and pressed. -/
def risen : Machine Lamp Unit Unit := ((resting.operate 1 .start).2.operate 1 (.process press)).2

/-- That lamp after its light was turned. -/
def turned : Machine Lamp Unit Unit := (risen.operate 1 (.process turn)).2

theorem chart_turned : turned.chart = ⟨[risingTree], blueprint.setup⟩ := by
  unfold turned risen
  rw [Machine.chart_operate, Machine.chart_operate, Machine.chart_operate]
  rfl

end Lamp

end Statechart
