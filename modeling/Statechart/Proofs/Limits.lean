import Statechart.Proofs.Construction
import Statechart.Proofs.CoupledCharts
import Statechart.Proofs.Widening

/-!
# Limits make no difference until they bite

* `Operation.turn_eased` : an operation under wider limits comes to the same until a limit bites;
* `Machine.Eases s m m'` : `m'` is the machine `m` under settings `s` with wider limits; `Eases.operate`,
  `Eases.answers`, `Eases.check` : one operation, any number of them, and a dry run;
* `Blueprint.assemble_eased`, `Blueprint.build_eased` : such machines are built alike;
* `limits_are_transparent`.
-/

set_option autoImplicit false

namespace Statechart

open Turn

variable {σ γ δ α β : Type}

/-! ## Charts -/

/-- The chart under other settings. -/
def Chart.under (c : Chart σ γ δ) (s : Settings) : Chart σ γ δ := { c with setup := c.setup.under s }

theorem Chart.take_eased : Eased (Chart.take : Turn σ γ δ (Option Event)) Chart.take where
  stays c h := by
    unfold EndsIn Chart.take
    rw [ends_bind, ends_get]
    split <;> exact h
  alike c d h := by
    obtain ⟨⟨_, ⟨⟨pending, _, _⟩, _⟩, _, _⟩, _⟩ := c
    obtain ⟨⟨_, ⟨⟨pending', _, _⟩, _⟩, _, _⟩, _⟩ := d
    obtain rfl : pending' = pending := h.exchange.pending
    cases pending' with
    | nil => exact .inr ⟨rfl, h⟩
    | cons e rest =>
      exact .inr ⟨rfl, ⟨h.exchange.journal, rfl, h.exchange.capacity⟩, h.context, h.clock, h.marking⟩

section Charts

variable [Named σ] {c : Chart σ γ δ} {s : Settings}

theorem Chart.stopRegions_eased : Eased c.stopRegions (c.under s).stopRegions :=
  Region.stopAll_eased 0 0 c.regions .stop

theorem Chart.recover_eased (outcome : Except DispatchError Unit) :
    Eased (c.recover outcome) ((c.under s).recover outcome) := by
  unfold Chart.recover
  split
  · exact .pure ()
  · dsimp only [Chart.under, Setup.under]
    split
    · exact .fail _
    · refine (note_eased _).bind fun _ => (perform_eased _).bind fun verdict => ?_
      cases verdict with
      | handled => exact .pure ()
      | raise e => exact offer_eased e
      | stop => exact Chart.stopRegions_eased
      | propagate => exact .fail _
  · exact .fail _

theorem Chart.recovering_eased {pass pass' : Turn σ γ δ Unit} (h : Eased pass pass') :
    Eased (c.recovering pass) ((c.under s).recovering pass') :=
  h.attempt.bind fun outcome => Chart.recover_eased outcome

variable [DecidableEq σ] (hs : c.setup.settings.Widened s)

include hs

theorem Chart.startRegions_eased : Eased c.startRegions (c.under s).startRegions :=
  Region.startAll_eased hs 0 0 c.regions .start

theorem Chart.dispatch_eased (e : Event) : Eased (c.dispatch e) ((c.under s).dispatch e) := by
  unfold Chart.dispatch
  refine (carries_eased.callHook _ _).bind fun _ => ?_
  refine (Region.processAll_eased hs 0 0 c.regions e).bind fun processed => ?_
  refine (carries_eased.callHook _ _).bind fun _ => ?_
  split
  · exact carries_eased.callHook _ _
  · exact .pure ()

theorem Chart.handle_eased (e : Event) : Eased (c.handle e) ((c.under s).handle e) :=
  (note_eased _).bind fun _ => (Chart.recovering_eased (Chart.dispatch_eased hs e)).bind fun _ => note_eased _

theorem Chart.drain_eased (bound : Nat) : Eased (c.drain bound) ((c.under s).drain bound) := by
  induction bound with
  | zero =>
    rw [Chart.drain, Chart.drain]
    have hleft (empty : Bool) : Eased (if (!empty) = true then throw .unfinished else pure () : Turn σ γ δ Unit)
        (if (!empty) = true then throw .unfinished else pure ()) := by
      split
      · exact .halt .unfinished
      · exact .pure ()
    exact .onPart (fun s => s.world.exchange.mailbox.pending.isEmpty) (fun _ _ h => congrArg _ h.exchange.pending) hleft
  | succ bound ih =>
    rw [Chart.drain, Chart.drain]
    refine Chart.take_eased.bind fun event => ?_
    split
    · exact (Chart.handle_eased hs _).bind fun _ => ih
    · exact .pure ()

/-- Every operation does the same under wider limits, until a limit bites. -/
theorem Operation.turn_eased (bound : Nat) (op : Operation γ) :
    Eased (op.turn c bound) (op.turn (c.under s) bound) := by
  have hdrain := Chart.drain_eased hs bound
  cases op with
  | start => exact (Chart.recovering_eased (Chart.startRegions_eased hs)).bind fun _ => hdrain
  | stop => exact (Chart.recovering_eased Chart.stopRegions_eased).bind fun _ => hdrain
  | process e => exact (offer_eased e).bind fun _ => hdrain
  | processNow e => exact (Chart.handle_eased hs e).bind fun _ => hdrain
  | processPending => exact hdrain
  | post e => exact offer_eased e
  | check e => exact (Region.checkAny_eased 0 0 c.regions e).bind fun _ => .pure ()
  | setContext context => exact ⟨fun _ h => h, fun _ _ h => .inr ⟨rfl, h.exchange, rfl, h.clock, h.marking⟩⟩
  | setClock now => exact ⟨fun _ h => h, fun _ _ h => .inr ⟨rfl, h.exchange, h.context, rfl, h.marking⟩⟩

end Charts

/-! ## Machines -/

/-- No event was refused, and no chain of completion rows cut off, in the life of the machine. -/
def Machine.Unhindered (m : Machine σ γ δ) : Prop := ∀ n ∈ m.journal.toList, n.isHindrance = false

theorem Machine.Unhindered.not_hindered {m : Machine σ γ δ} (h : m.Unhindered) : ¬m.configuration.Hindered := by
  rintro ⟨n, hn, hhindrance⟩
  rw [h n hn] at hhindrance
  cases hhindrance

/-- What a turn comes to on a machine is the same on one with wider limits, unless a limit bites. -/
theorem Machine.run_eased {m m' : Machine σ γ δ} {x y : Turn σ γ δ α} (hxy : Eased x y)
    (h : m.configuration.Roomier m'.configuration) (hfree : ¬(m.run x).2.configuration.Hindered) :
    (m'.run y).1 = (m.run x).1 ∧ (m.run x).2.configuration.Roomier (m'.run y).2.configuration := by
  rcases hxy.alike _ _ h with hbitten | halike
  · exact absurd (m.run_of_ends (P := fun _ after => after.configuration.Hindered) hbitten) hfree
  · exact Machine.run_of_endsAlike halike

/-- The second machine is the first under settings with wider limits, and they differ besides at most in their
histories. -/
structure Machine.Eases (s : Settings) (m m' : Machine σ γ δ) : Prop where
  chart : m'.chart = m.chart.under s
  widened : m.chart.setup.settings.Widened s
  roomier : m.configuration.Roomier m'.configuration

section Machines

variable [DecidableEq σ] [Named σ] {s : Settings} {m m' : Machine σ γ δ}

theorem Machine.Eases.operate (h : m.Eases s m') (bound : Nat) (op : Operation γ)
    (hfree : (m.operate bound op).2.Unhindered) :
    (m'.operate bound op).1 = (m.operate bound op).1 ∧ (m.operate bound op).2.Eases s (m'.operate bound op).2 := by
  have hturn : Eased (op.turn m.chart bound) (op.turn m'.chart bound) := by
    rw [h.chart]
    exact Operation.turn_eased h.widened bound op
  obtain ⟨hsame, hroomier⟩ := Machine.run_eased hturn h.roomier hfree.not_hindered
  refine ⟨hsame, ?_, ?_, hroomier⟩
  · rw [Machine.chart_operate, Machine.chart_operate, h.chart]
  · rw [Machine.chart_operate]
    exact h.widened

/-- Any number of operations. -/
theorem Machine.Eases.answers (h : m.Eases s m') (bound : Nat) (ops : List (Operation γ))
    (hfree : ∀ a ∈ m.answers bound ops, a.2.Unhindered) :
    List.Forall₂ (fun a a' => a'.1 = a.1 ∧ a.2.Eases s a'.2) (m.answers bound ops) (m'.answers bound ops) := by
  induction ops generalizing m m' with
  | nil => exact .nil
  | cons op ops ih =>
    obtain ⟨hnow, hlater⟩ := List.forall_mem_cons.1 hfree
    obtain ⟨hsame, hnext⟩ := h.operate bound op hnow
    exact .cons ⟨hsame, hnext⟩ (ih hnext hlater)

omit [Named σ] in
/-- Dry runs find the same. -/
theorem Machine.Eases.check (h : m.Eases s m') (e : Event) (hfree : (m.run (m.chart.check e)).2.Unhindered) :
    (m'.run (m'.chart.check e)).1 = (m.run (m.chart.check e)).1 := by
  have hcheck : Eased (m.chart.check e) (m'.chart.check e) := by
    rw [h.chart]
    exact Region.checkAny_eased 0 0 m.chart.regions e
  exact (Machine.run_eased hcheck h.roomier hfree.not_hindered).1

end Machines

/-! ## Building -/

/-- One step of a construction after another. -/
theorem construction_eased {x : Construction σ γ δ α} {f : α → Construction σ γ δ β} (hx : Eased x.run x.run)
    (hf : ∀ a, Eased (f a).run (f a).run) : Eased (x >>= f).run (x >>= f).run := by
  rw [ExceptT.run_bind]
  refine LockstepUntil.bind hx fun outcome => ?_
  cases outcome with
  | ok a => exact hf a
  | error e => exact .pure _

section Build

variable [DecidableEq σ] [Named σ]

mutual

theorem Plan.construct_eased : ∀ p : Plan σ γ δ, Eased p.construct.run p.construct.run
  | ⟨p, nodes⟩ => by
    rw [Plan.construct]
    exact construction_eased (.pure _) fun _ => construction_eased (Plan.constructNodes_eased nodes) fun _ => .pure _

theorem Plan.constructNodes_eased :
    ∀ nodes : List (PlanNode σ γ δ), Eased (Plan.constructNodes nodes).run (Plan.constructNodes nodes).run
  | [] => .pure _
  | node :: nodes =>
    construction_eased (Plan.constructNode_eased node) fun _ =>
      construction_eased (Plan.constructNodes_eased nodes) fun _ => .pure _

theorem Plan.constructNode_eased :
    ∀ node : PlanNode σ γ δ, Eased (Plan.constructNode node).run (Plan.constructNode node).run
  | ⟨s, regions⟩ => by
    rw [Plan.constructNode]
    refine construction_eased (Plan.constructAll_eased regions) fun _ => ?_
    refine construction_eased ((note_eased _).bind fun _ => .pure _) fun _ => ?_
    exact construction_eased ((perform_eased _).bind fun _ => .pure _) fun _ => .pure _

theorem Plan.constructAll_eased :
    ∀ plans : List (Plan σ γ δ), Eased (Plan.constructAll plans).run (Plan.constructAll plans).run
  | [] => .pure _
  | p :: plans =>
    construction_eased (Plan.construct_eased p) fun _ =>
      construction_eased (Plan.constructAll_eased plans) fun _ => .pure _

end

/-- The blueprint under other settings. -/
def Blueprint.under (b : Blueprint σ γ δ) (s : Settings) : Blueprint σ γ δ := { b with setup := b.setup.under s }

variable {b : Blueprint σ γ δ} {s : Settings} (hs : b.setup.settings.Widened s)

include hs

omit [DecidableEq σ] [Named σ] in
theorem Blueprint.outset_roomier : b.outset.Roomier (b.under s).outset := ⟨rfl, rfl, hs.queueCapacity⟩

/-- A machine that is assembled in a world where no limit has bitten is assembled with wider limits, too. -/
theorem Blueprint.assemble_eased {bound : Nat} {plans : List (Plan σ γ δ)} {w : World σ γ} {m : Machine σ γ δ}
    (hassemble : b.assemble bound plans w = .ready m) (hfree : m.Unhindered) :
    ¬w.exchange.Hindered ∧ ∀ w' : World σ γ, (⟨w, .fresh⟩ : Configuration σ γ δ).Roomier ⟨w', .fresh⟩ →
      ∃ m', (b.under s).assemble bound plans w' = .ready m' ∧ m.Eases s m' := by
  obtain ⟨c, hmade, hsetup, hm⟩ := Blueprint.assemble_eq_ready.1 hassemble
  have hwidened : m.chart.setup.settings.Widened s := by rwa [hsetup]
  have hc : ¬c.Hindered := by
    intro hc
    refine hfree.not_hindered ?_
    split at hm
    · have hstays := (Operation.turn_eased hwidened bound .start).stays c hc
      have hafter := Machine.run_of_ends ⟨m.chart, c⟩ (P := fun _ after => after.configuration.Hindered) hstays
      rwa [show Machine.run ⟨m.chart, c⟩ (Operation.start.turn m.chart bound) = (.ok (), m) from hm] at hafter
    · rwa [hm]
  have hconstruct := Plan.constructAll_eased plans
  refine ⟨fun hw => hc ((hconstruct.stays ⟨w, .fresh⟩ hw).of_ok hmade), fun w' hroomier => ?_⟩
  have halike := (hconstruct.alike _ _ hroomier).resolve_left fun h => hc (h.of_ok hmade)
  obtain ⟨c', hmade', hc'⟩ := halike.of_ok hmade
  have hsetup' : (m.chart.under s).setup = (b.under s).setup := by
    unfold Chart.under Blueprint.under
    rw [hsetup]
  have heases : Machine.Eases s ⟨m.chart, c⟩ ⟨m.chart.under s, c'⟩ := ⟨rfl, hwidened, hc'⟩
  by_cases hauto : b.setup.settings.autoStart = true
  · rw [if_pos hauto] at hm
    obtain ⟨hsame, hnext⟩ := heases.operate bound .start (by rwa [hm])
    rw [hm] at hsame hnext
    generalize hstarted : Machine.operate ⟨m.chart.under s, c'⟩ bound .start = started at hsame hnext
    obtain ⟨result, m'⟩ := started
    refine ⟨m', Blueprint.assemble_eq_ready.2 ⟨c', ?_, ?_, ?_⟩, hnext⟩
    · rwa [hnext.chart]
    · rwa [hnext.chart]
    · have hauto' : (b.under s).setup.settings.autoStart = true := hs.autoStart.trans hauto
      rw [if_pos hauto', hnext.chart, hstarted]
      exact Prod.ext hsame rfl
  · rw [if_neg hauto] at hm
    refine ⟨⟨m.chart.under s, c'⟩, Blueprint.assemble_eq_ready.2 ⟨c', hmade', hsetup', ?_⟩, ?_⟩
    · have hauto' : ¬(b.under s).setup.settings.autoStart = true := fun h => hauto (hs.autoStart.symm.trans h)
      rw [if_neg hauto']
    · rwa [← hm] at heases

/-- A machine that is built without a limit having bitten is built with wider limits, too. -/
theorem Blueprint.build_eased [Inhabited δ] {bound : Nat} {context : Callback Unit γ} {m : Machine σ γ δ}
    (hbuild : b.build bound context = .ready m) (hfree : m.Unhindered) :
    ∃ m', (b.under s).build bound context = .ready m' ∧ m.Eases s m' := by
  obtain ⟨plans, a, hplans, hresult, hassemble⟩ := Blueprint.build_eq_ready.1 hbuild
  obtain ⟨hopen, hnext⟩ := Blueprint.assemble_eased hs hassemble hfree
  obtain ⟨hsame, hroomier⟩ :=
    ((context ()).play_roomier (Blueprint.outset_roomier hs)).resolve_left hopen
  obtain ⟨m', hassemble', heases⟩ := hnext { context := a, exchange := ((context ()).play (b.under s).outset).2 }
    ⟨hroomier, rfl, rfl, rfl⟩
  exact ⟨m', Blueprint.build_eq_ready.2 ⟨plans, a, hplans, by rw [hsame, hresult], hassemble'⟩, heases⟩

end Build

/-! ## Transparency -/

/-- The machines cannot be told apart, their histories and limits aside. -/
structure Machine.Resembles (m m' : Machine σ γ δ) : Prop where
  regions : m'.chart.regions = m.chart.regions
  marking : m'.configuration.marking = m.configuration.marking
  context : m'.context = m.context
  pending : m'.mailbox.pending = m.mailbox.pending
  journal : m'.journal = m.journal

theorem Machine.Eases.resembles {s : Settings} {m m' : Machine σ γ δ} (h : m.Eases s m') : m.Resembles m' where
  regions := by rw [h.chart]; rfl
  marking := h.roomier.marking
  context := h.roomier.context
  pending := h.roomier.exchange.pending
  journal := h.roomier.exchange.journal

/-- **Limits make no difference until they bite.** A machine with wider limits, whether it keeps a history or not, is
built if the machine with narrower ones is. And as long as no event is refused by the latter, and no chain of
completion rows cut off, every operation and every dry run comes to the same on both, and leaves them with the same
regions, marking, context and queue after the same calls. -/
theorem limits_are_transparent [DecidableEq σ] [Named σ] [Inhabited δ] {b : Blueprint σ γ δ} {s : Settings}
    (hs : b.setup.settings.Widened s) {bound : Nat} {context : Callback Unit γ} {m : Machine σ γ δ}
    (hbuild : b.build bound context = .ready m) (limit : Nat) (ops : List (Operation γ))
    (hfree : ∀ a ∈ (.ok (), m) :: m.answers limit ops, a.2.Unhindered) :
    ∃ m', (b.under s).build bound context = .ready m' ∧
      List.Forall₂ (fun a a' => a'.1 = a.1 ∧ a.2.Resembles a'.2 ∧
          ∀ e, (a.2.run (a.2.chart.check e)).2.Unhindered →
            (a'.2.run (a'.2.chart.check e)).1 = (a.2.run (a.2.chart.check e)).1)
        ((.ok (), m) :: m.answers limit ops) ((.ok (), m') :: m'.answers limit ops) := by
  obtain ⟨hbuilt, hlater⟩ := List.forall_mem_cons.1 hfree
  obtain ⟨m', hbuild', heases⟩ := Blueprint.build_eased hs hbuild hbuilt
  have hanswers : List.Forall₂ (fun a a' => a'.1 = a.1 ∧ a.2.Eases s a'.2)
      ((.ok (), m) :: m.answers limit ops) ((.ok (), m') :: m'.answers limit ops) :=
    .cons ⟨rfl, heases⟩ (heases.answers limit ops hlater)
  exact ⟨m', hbuild', hanswers.imp fun _ _ h => ⟨h.1, h.2.resembles, h.2.check⟩⟩

namespace Lamp

/-- Settings under which one completion row is taken at a time, and one event may wait. -/
def tight : Settings := { autoStart := false, maxCompletionChain := 1, queueCapacity := some 1 }

/-- Settings without a bound for the queue, under which a history is kept. -/
def ample : Settings := { autoStart := false, trackHistory := true }

theorem tight_widened_ample : tight.Widened ample := ⟨rfl, by decide, nofun⟩

/-- The lamp whose light comes up by itself, under tight settings and before it is started. -/
def confined : Machine Lamp Unit Unit where
  chart := resting.chart.under tight
  configuration.world := { resting.configuration.world with exchange.mailbox.capacity := some 1 }
  configuration.marking := .fresh

end Lamp

/-- The lamp gets by on tight settings, so ample ones make no difference to it. -/
theorem limits_are_transparent_confined :
    (Lamp.risingBlueprint.under Lamp.tight).build 0 (pure () : Callback Unit Unit) = .ready Lamp.confined ∧
      ∃ m', ((Lamp.risingBlueprint.under Lamp.tight).under Lamp.ample).build 0 (pure () : Callback Unit Unit) =
          .ready m' ∧
        List.Forall₂ (fun a a' => a'.1 = a.1 ∧ a.2.Resembles a'.2)
          (Lamp.confined.answers 1 [.start, .process Lamp.press, .process Lamp.turn])
          (m'.answers 1 [.start, .process Lamp.press, .process Lamp.turn]) := by
  have hbuild : (Lamp.risingBlueprint.under Lamp.tight).build 0 (pure () : Callback Unit Unit) =
    .ready Lamp.confined := rfl
  have hfree : ∀ a ∈ (.ok (), Lamp.confined) ::
      Lamp.confined.answers 1 [.start, .process Lamp.press, .process Lamp.turn], a.2.Unhindered := by
    unfold Machine.Unhindered
    decide +kernel
  obtain ⟨m', hbuild', hanswers⟩ := limits_are_transparent Lamp.tight_widened_ample hbuild 1 _ hfree
  refine ⟨hbuild, m', hbuild', ?_⟩
  cases hanswers with
  | cons _ hlater => exact hlater.imp fun _ _ h => ⟨h.1, h.2.1⟩

end Statechart
