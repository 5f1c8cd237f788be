import Mathlib.Data.List.Forall2
import Statechart.Proofs.Invariant
import Statechart.Proofs.Planning

/-!
# Built machines

A machine takes its tree over from the plans, and before it starts nothing is active in it.

* `Constructs x P` : the step is quiet, and what it makes is in `P`; `Constructs x P F` : if it is refused,
  then for a reason in `F`;
* `Plan.Compiled` : a region with the table of a plan and its states; `Plan.construct_compiled`;
* `Region.outline` : the outline that a plan left in a region; `Plan.constructAll_outlines`;
* `Blueprint.Assembled` : a chart and what its states were when the construction ended;
  `Assembled.hasInitials`, `Assembled.nodup`;
* `Blueprint.Reaches.upholds` : an invariant that holds of an assembled chart and is stable holds of every
  machine that is reached; `Blueprint.Succeeds.upholds` : the same where every operation ends well.
-/

set_option autoImplicit false

namespace Statechart

open Turn

variable {σ γ δ α β : Type}

/-- The construction is quiet, what it makes is in `P`, what it is refused for is in `F`, and only a panic
halts it. -/
def Constructs (x : Construction σ γ δ α) (P : α → Prop) (F : BuildError → Prop := fun _ => True) : Prop :=
  ∀ c, Ends x.run c
    (fun made c' => c.Quiet c' ∧ (∀ a, made = .ok a → P a) ∧ ∀ e, made = .error e → F e)
    fun h _ => h.IsPanic

/-- Only a panic halts a callback. -/
theorem Turn.perform_panics (f : Callback γ α) (c : Configuration σ γ δ) :
    Ends (perform f) c (fun _ _ => True) fun h _ => h.IsPanic := by
  unfold Ends perform performOn
  dsimp only
  generalize (f c.world.context).play c.world.exchange = played
  obtain ⟨⟨result, state⟩, x⟩ := played
  cases result <;> trivial

namespace Constructs

variable {P P' : α → Prop} {Q : β → Prop} {F : BuildError → Prop}

theorem pure {a : α} (h : P a) : Constructs (Pure.pure a : Construction σ γ δ α) P F :=
  fun c => ⟨refl c, fun _ ha => (by cases ha; exact h), nofun⟩

theorem bind {x : Construction σ γ δ α} {f : α → Construction σ γ δ β} (hx : Constructs x P F)
    (hf : ∀ a, P a → Constructs (f a) Q F) : Constructs (x >>= f) Q F := by
  intro c
  rw [ExceptT.run_bind, ends_bind]
  refine (hx c).mono (fun made c' h => ?_) fun _ _ h => h
  obtain ⟨hquiet, hmade, hrefused⟩ := h
  cases made with
  | ok a =>
    refine (hf a (hmade a rfl) c').mono (fun _ _ h' => ?_) fun _ _ h => h
    exact ⟨trans_of Configuration.Quiet hquiet h'.1, h'.2⟩
  | error e => exact ⟨hquiet, nofun, fun e' he' => hrefused e' (by cases he'; rfl)⟩

theorem mono {x : Construction σ γ δ α} (h : Constructs x P F) (hP : ∀ a, P a → P' a) : Constructs x P' F :=
  fun c => (h c).mono (fun _ _ h => ⟨h.1, fun a ha => hP a (h.2.1 a ha), h.2.2⟩) fun _ _ h => h

/-- A quiet turn that only a panic halts, as a step. -/
theorem lift {x : Turn σ γ δ α} (hx : IsQuiet x)
    (hpanic : ∀ c, Ends x c (fun _ _ => True) fun h _ => h.IsPanic) :
    Constructs (ExceptT.lift x : Construction σ γ δ α) (fun _ => True) F := by
  intro c
  unfold ExceptT.lift
  rw [ExceptT.run_mk, map_eq_pure_bind, ends_bind]
  exact ((hx c).and (hpanic c)).mono (fun _ _ h => ⟨h.1, fun _ _ => trivial, nofun⟩) fun _ _ h => h.2

/-- What is made without effect. -/
theorem of_result {result : Except BuildError α} (h : ∀ e, result = .error e → F e) :
    Constructs (ExceptT.mk (Pure.pure result) : Construction σ γ δ α) (fun a => result = .ok a) F :=
  fun c => ⟨refl c, fun _ h => h, h⟩

end Constructs

/-! ## The tree of a machine -/

/-- The states of the region with the position of the initial one. -/
def Region.outline (r : BuiltRegion σ γ δ) : List σ × Option Nat :=
  (r.states StateUnit.id, some r.data.initial)

/-- The region and every region below it has its initial state. -/
def Region.HasInitials (r : BuiltRegion σ γ δ) : Prop := ∀ q ∈ r.preorder, q.data.initial < q.nodes.length

theorem Region.HasInitials.here {table : RegionTable σ γ} {nodes : List (BuiltNode σ γ δ)}
    (h : Region.HasInitials ⟨table, nodes⟩) : table.initial < nodes.length :=
  h _ (Region.mem_preorder_self _)

theorem Region.HasInitials.below {r r' : BuiltRegion σ γ δ} {n : BuiltNode σ γ δ} (h : r.HasInitials)
    (hn : n ∈ r.nodes) (hr' : r' ∈ n.regions) : r'.HasInitials :=
  fun q hq => h q (Region.mem_preorder_of_mem hn hr' hq)

section Tree

variable [DecidableEq σ] [Named σ]

theorem Plan.table_ok {p : Plan σ γ δ} {table : RegionTable σ γ} (h : p.table = .ok table) :
    p.initialPosition = some table.initial := by
  unfold Plan.table at h
  dsimp only at h
  split at h
  · rename_i initial hinitial
    obtain ⟨rows, -, h⟩ := bind_eq_ok.1 h
    cases h
    exact hinitial
  · cases h

/-- The region has the table of the plan, and its states with as many regions. -/
structure Plan.Compiled (p : Plan σ γ δ) (r : BuiltRegion σ γ δ) : Prop where
  table : p.table = .ok r.data
  nodes : List.Forall₂ (fun (s : PlanNode σ γ δ) (n : BuiltNode σ γ δ) =>
    n.data.id = s.data.id ∧ n.regions.length = s.regions.length) p.nodes r.nodes

section Construct

variable {F : BuildError → Prop}

mutual

/-- What is constructed is compiled from the plan, at every depth; it is refused only for the table of a
region. -/
theorem Plan.construct_compiled :
    ∀ p : Plan σ γ δ, (∀ q ∈ p.preorder, ∀ e, Plan.table q = .error e → F e) →
      Constructs p.construct (fun r => List.Forall₂ Plan.Compiled p.preorder r.preorder) F
  | ⟨p, nodes⟩, h => by
    rw [Region.preorder] at h
    rw [Plan.construct]
    refine (Constructs.of_result (h _ List.mem_cons_self)).bind fun table htable => ?_
    refine (Plan.constructNodes_compiled nodes fun q hq => h q (List.mem_cons_of_mem _ hq)).bind
      fun made hmade => Constructs.pure ?_
    rw [Region.preorder, Region.preorder]
    exact .cons ⟨htable, hmade.1⟩ hmade.2

theorem Plan.constructNodes_compiled :
    ∀ nodes : List (PlanNode σ γ δ), (∀ q ∈ Node.preorderOfNodes nodes, ∀ e, Plan.table q = .error e → F e) →
      Constructs (Plan.constructNodes nodes) (fun made =>
        List.Forall₂ (fun (s : PlanNode σ γ δ) (n : BuiltNode σ γ δ) =>
          n.data.id = s.data.id ∧ n.regions.length = s.regions.length) nodes made ∧
        List.Forall₂ Plan.Compiled (Node.preorderOfNodes nodes) (Node.preorderOfNodes made)) F
  | [], _ => by
    rw [Plan.constructNodes]
    exact Constructs.pure ⟨.nil, .nil⟩
  | node :: nodes, h => by
    rw [Node.preorderOfNodes] at h
    rw [Plan.constructNodes]
    refine (Plan.constructNode_compiled node fun q hq => h q (List.mem_append_left _ hq)).bind
      fun first hfirst => ?_
    refine (Plan.constructNodes_compiled nodes fun q hq => h q (List.mem_append_right _ hq)).bind
      fun rest hrest => Constructs.pure ?_
    rw [Node.preorderOfNodes, Node.preorderOfNodes]
    exact ⟨.cons hfirst.1 hrest.1, List.rel_append hfirst.2 hrest.2⟩

theorem Plan.constructNode_compiled :
    ∀ node : PlanNode σ γ δ, (∀ q ∈ node.preorder, ∀ e, Plan.table q = .error e → F e) →
      Constructs (Plan.constructNode node) (fun made =>
        (made.data.id = node.data.id ∧ made.regions.length = node.regions.length) ∧
          List.Forall₂ Plan.Compiled node.preorder made.preorder) F
  | ⟨s, regions⟩, h => by
    rw [Plan.constructNode]
    refine (Plan.constructAll_compiled regions h).bind fun made hmade => ?_
    refine (Constructs.lift (note_isQuiet rfl) fun _ => trivial).bind fun _ _ => ?_
    refine (Constructs.lift (perform_isQuiet _) (perform_panics _)).bind fun _ _ => Constructs.pure ?_
    rw [Node.preorder, Node.preorder]
    exact ⟨⟨rfl, hmade.1⟩, hmade.2⟩

/-- The same for a list of plans. -/
theorem Plan.constructAll_compiled :
    ∀ plans : List (Plan σ γ δ), (∀ q ∈ Region.preorderOfRegions plans, ∀ e, Plan.table q = .error e → F e) →
      Constructs (Plan.constructAll plans) (fun rs => rs.length = plans.length ∧
        List.Forall₂ Plan.Compiled (Region.preorderOfRegions plans) (Region.preorderOfRegions rs)) F
  | [], _ => by
    rw [Plan.constructAll]
    exact Constructs.pure ⟨rfl, .nil⟩
  | p :: plans, h => by
    rw [Region.preorderOfRegions] at h
    rw [Plan.constructAll]
    refine (Plan.construct_compiled p fun q hq => h q (List.mem_append_left _ hq)).bind fun first hfirst => ?_
    refine (Plan.constructAll_compiled plans fun q hq => h q (List.mem_append_right _ hq)).bind
      fun rest hrest => Constructs.pure ?_
    rw [Region.preorderOfRegions, Region.preorderOfRegions, List.length_cons, List.length_cons, hrest.1]
    exact ⟨rfl, List.rel_append hfirst hrest.2⟩

end

end Construct

theorem Plan.Compiled.outline {p : Plan σ γ δ} {r : BuiltRegion σ γ δ} (h : p.Compiled r) :
    r.outline = p.outline := by
  have hstates : r.states StateUnit.id = p.states StateDeclaration.id := by
    unfold Region.states
    have hids : List.Forall₂ (fun (s : PlanNode σ γ δ) (n : BuiltNode σ γ δ) => s.data.id = n.data.id)
      p.nodes r.nodes := h.nodes.imp fun _ _ h => h.1.symm
    exact (List.forall₂_eq_eq_eq ▸ List.forall₂_map_left_iff.2 (List.forall₂_map_right_iff.2 hids)).symm
  unfold Region.outline Plan.outline
  rw [hstates, Plan.table_ok h.table]

/-- The regions that are constructed have the outlines that were planned. -/
theorem Plan.constructAll_outlines (plans : List (Plan σ γ δ)) : Constructs (Plan.constructAll plans) fun rs =>
    (Region.preorderOfRegions rs).map Region.outline = (Region.preorderOfRegions plans).map Plan.outline := by
  refine (Plan.constructAll_compiled plans fun _ _ _ _ => trivial).mono fun rs h => ?_
  have houtlines : List.Forall₂ (fun (p : Plan σ γ δ) (r : BuiltRegion σ γ δ) => p.outline = r.outline)
    (Region.preorderOfRegions plans) (Region.preorderOfRegions rs) := h.2.imp fun _ _ h => h.outline.symm
  exact (List.forall₂_eq_eq_eq ▸ List.forall₂_map_left_iff.2 (List.forall₂_map_right_iff.2 houtlines)).symm

end Tree

/-! ## Reached machines -/

section Reaches

variable [DecidableEq σ] [Named σ] [Inhabited δ]

/-- The blueprint gave the chart, and `c` is what the construction of its states came to. -/
structure Blueprint.Assembled (b : Blueprint σ γ δ) (chart : Chart σ γ δ) (c : Configuration σ γ δ) :
    Prop where
  setup : chart.setup = b.setup
  planned : ∃ plans, b.plans = .ok plans ∧
    (Region.preorderOfRegions chart.regions).map Region.outline =
      (Region.preorderOfRegions plans).map Plan.outline
  marking : c.marking = .fresh
  history : c.world.history = {}
  notes : ∀ n ∈ c.world.exchange.journal.toList, n.isOuter = true

variable {b : Blueprint σ γ δ} {chart : Chart σ γ δ} {c : Configuration σ γ δ}

/-- Every region has its initial state. -/
theorem Blueprint.Assembled.hasInitials (h : b.Assembled chart c) : ∀ r ∈ chart.regions, r.HasInitials := by
  intro r hr q hq
  obtain ⟨plans, hplans, houtlines⟩ := h.planned
  have hq' : q ∈ Region.preorderOfRegions chart.regions := Region.mem_preorderOfRegions hr hq
  have hmem : q.outline ∈ (Region.preorderOfRegions plans).map Plan.outline :=
    houtlines ▸ List.mem_map_of_mem hq'
  obtain ⟨p, hp, hpq⟩ := List.mem_map.1 hmem
  have hinitial : p.initialPosition = some q.data.initial := congrArg Prod.snd hpq
  have hlength : p.nodes.length = q.nodes.length := by
    have hstates : p.states StateDeclaration.id = q.states StateUnit.id := congrArg Prod.fst hpq
    simpa [Region.states] using congrArg List.length hstates
  have hlt := Plan.initialPosition_lt ((Blueprint.plans_ok hplans).1 p hp) hinitial
  rwa [hlength] at hlt

/-- No state is twice in the tree. -/
theorem Blueprint.Assembled.nodup (h : b.Assembled chart c) :
    ((Region.preorderOfRegions chart.regions).flatMap (Region.states StateUnit.id)).Nodup := by
  obtain ⟨plans, hplans, houtlines⟩ := h.planned
  have hsame : (Region.preorderOfRegions chart.regions).flatMap (Region.states StateUnit.id) =
      (Region.preorderOfRegions plans).flatMap (Region.states StateDeclaration.id) := by
    have hfst := congrArg (List.flatMap Prod.fst) houtlines
    rwa [List.flatMap_map, List.flatMap_map] at hfst
  rw [hsame]
  exact (Blueprint.plans_ok hplans).2

omit [Inhabited δ] in
/-- A machine that is assembled has the regions that were constructed, and was started if it starts by itself. -/
theorem Blueprint.assemble_eq_ready {bound : Nat} {plans : List (Plan σ γ δ)} {w : World σ γ}
    {m : Machine σ γ δ} : b.assemble bound plans w = .ready m ↔
      ∃ c, (Plan.constructAll plans).run ⟨w, .fresh⟩ = .ok (.ok m.chart.regions) c ∧ m.chart.setup = b.setup ∧
        if b.setup.settings.autoStart then Machine.operate ⟨m.chart, c⟩ bound .start = (.ok (), m)
        else m.configuration = c := by
  constructor
  · intro h
    unfold Blueprint.assemble at h
    split at h
    · cases h
    · cases h
    · rename_i rs after hmade
      dsimp only at h
      split at h
      · rename_i hauto
        split at h
        · rename_i m' hrun
          cases h
          have hchart : m.chart = ⟨rs, b.setup⟩ := by
            have hkeeps := Machine.chart_run (⟨⟨rs, b.setup⟩, after⟩ : Machine σ γ δ)
              (Chart.start ⟨rs, b.setup⟩ bound)
            rwa [hrun] at hkeeps
          rw [hchart]
          refine ⟨after, hmade, rfl, ?_⟩
          rw [if_pos hauto]
          exact hrun
        · cases h
      · rename_i hauto
        cases h
        refine ⟨after, hmade, rfl, ?_⟩
        rw [if_neg hauto]
  · rintro ⟨c, hmade, hsetup, hm⟩
    obtain ⟨⟨regions, setup⟩, s⟩ := m
    obtain rfl : setup = b.setup := hsetup
    unfold Blueprint.assemble
    rw [hmade]
    dsimp only
    split
    · rename_i hauto
      rw [if_pos hauto] at hm
      have hrun : Machine.run (⟨⟨regions, b.setup⟩, c⟩ : Machine σ γ δ) (Chart.start ⟨regions, b.setup⟩ bound) =
        (.ok (), ⟨⟨regions, b.setup⟩, s⟩) := hm
      rw [hrun]
    · rename_i hauto
      rw [if_neg hauto] at hm
      rw [show s = c from hm]

/-- The exchange in which a machine's context is constructed. -/
def Blueprint.outset (b : Blueprint σ γ δ) : Exchange σ :=
  ({ mailbox := { capacity := b.setup.settings.queueCapacity } } : Exchange σ).note .contextMade

/-- A machine is built if the plans pass, the context is constructed and the machine assembled around it. -/
theorem Blueprint.build_eq_ready {bound : Nat} {context : Callback Unit γ} {m : Machine σ γ δ} :
    b.build bound context = .ready m ↔ ∃ plans a, b.plans = .ok plans ∧
      ((context ()).play b.outset).1.result = .ok a ∧
      b.assemble bound plans { context := a, exchange := ((context ()).play b.outset).2 } = .ready m := by
  unfold Blueprint.build
  cases b.plans with
  | error e => simp
  | ok plans =>
    dsimp only
    rw [show (({ mailbox := { capacity := b.setup.settings.queueCapacity } } : Exchange σ).note .contextMade) =
      b.outset from rfl]
    generalize (context ()).play b.outset = played
    obtain ⟨⟨result, state⟩, x⟩ := played
    cases result with
    | error message => simp
    | ok a => simp

/-- What the construction of a machine that is built began with: a world in which the context was made. -/
theorem Blueprint.constructed_of_build {bound : Nat} {context : Callback Unit γ} {m : Machine σ γ δ}
    (h : b.build bound context = .ready m) :
    ∃ plans w c, b.plans = .ok plans ∧ w.history = {} ∧ (∀ n ∈ w.exchange.journal.toList, n.isOuter = true) ∧
      (Plan.constructAll plans).run ⟨w, .fresh⟩ = .ok (.ok m.chart.regions) c ∧ m.chart.setup = b.setup ∧
      (m.configuration = c ∨ Machine.operate ⟨m.chart, c⟩ bound .start = (.ok (), m)) := by
  obtain ⟨plans, a, hplans, -, hassemble⟩ := Blueprint.build_eq_ready.1 h
  obtain ⟨c, hmade, hsetup, hm⟩ := Blueprint.assemble_eq_ready.1 hassemble
  refine ⟨plans, _, c, hplans, rfl, fun n hn => ?_, hmade, hsetup, ?_⟩
  · -- what the construction of the context writes
    obtain ⟨l, hw, hl⟩ := Course.play_follows (N := fun n : Note σ => n.isOuter = true)
      (fun n hn => Note.isOuter_of_isSilent hn) (context ()) b.outset
    rw [hw.journal] at hn
    rcases List.mem_append.1 hn with hn | hn
    · obtain rfl : n = .contextMade := by
        simpa [Blueprint.outset, Exchange.note, Journal.toList, Journal.write] using hn
      rfl
    · exact hl n hn
  · split at hm
    · exact .inr hm
    · exact .inl hm

/-- A machine that is built comes from an assembled chart, and may have been started. -/
theorem Blueprint.build_ready {bound : Nat} {context : Callback Unit γ} {m : Machine σ γ δ}
    (h : b.build bound context = .ready m) :
    ∃ c, b.Assembled m.chart c ∧
      (m.configuration = c ∨ Machine.operate ⟨m.chart, c⟩ bound .start = (.ok (), m)) := by
  obtain ⟨plans, w, c, hplans, hhistory, hnotes, hmade, hsetup, hm⟩ := Blueprint.constructed_of_build h
  obtain ⟨hquiet, houtlines⟩ := (Plan.constructAll_outlines plans ⟨w, .fresh⟩).of_ok hmade
  refine ⟨c, ⟨hsetup, ⟨plans, hplans, houtlines.1 _ rfl⟩, hquiet.marking, hquiet.history.trans hhistory, ?_⟩, hm⟩
  obtain ⟨l, hjournal, hl⟩ := hquiet.notes
  intro n hn
  rw [hjournal] at hn
  exact (List.mem_append.1 hn).elim (hnotes n) (hl n)

/-- The chart of a machine that is reached was assembled. -/
theorem Blueprint.Reaches.assembled {m : Machine σ γ δ} (h : b.Reaches m) : ∃ c, b.Assembled m.chart c := by
  induction h with
  | built bound context hbuild =>
    obtain ⟨c, hc, -⟩ := Blueprint.build_ready hbuild
    exact ⟨c, hc⟩
  | next bound op _ ih => rwa [Machine.chart_operate]

/-- What holds of every assembled chart, and what its operations uphold, holds of every machine that is
reached. -/
theorem Blueprint.Reaches.upholds {I : Chart σ γ δ → Configuration σ γ δ → Prop}
    (hassembled : ∀ chart c, b.Assembled chart c → I chart c)
    (hstable : ∀ chart c, b.Assembled chart c → chart.Stable (I chart)) {m : Machine σ γ δ}
    (h : b.Reaches m) : I m.chart m.configuration := by
  induction h with
  | @built m bound context hbuild =>
    obtain ⟨c, hc, hm⟩ := Blueprint.build_ready hbuild
    rcases hm with hm | hm
    · rw [hm]
      exact hassembled _ _ hc
    · have hstarted := Chart.Stable.operate (m := ⟨m.chart, c⟩) (hstable _ c hc) (hassembled _ c hc) bound .start
      rwa [hm] at hstarted
  | next bound op hreached ih =>
    obtain ⟨c, hc⟩ := hreached.assembled
    rw [Machine.chart_operate]
    exact Chart.Stable.operate (hstable _ _ hc) ih bound op

/-- The same where every operation ends well: no matter what holds when one is halted. -/
theorem Blueprint.Succeeds.upholds {m : Machine σ γ δ} {I : Configuration σ γ δ → Prop}
    {E : Halt → Configuration σ γ δ → Prop} (h : b.Succeeds m)
    (hassembled : ∀ c, b.Assembled m.chart c → I c)
    (hstable : ∀ c, b.Assembled m.chart c → m.chart.Stable I E) : I m.configuration := by
  induction h with
  | @built m bound context hbuild =>
    obtain ⟨c, hc, hm⟩ := Blueprint.build_ready hbuild
    rcases hm with hm | hm
    · rw [hm]
      exact hassembled c hc
    · have hstarted := Chart.Stable.operate_ok (m := ⟨m.chart, c⟩) (hstable c hc) (hassembled c hc)
        (congrArg Prod.fst hm)
      rwa [hm] at hstarted
  | next bound op hsucceeds hok ih =>
    rw [Machine.chart_operate] at hassembled hstable
    obtain ⟨c, hc⟩ := hsucceeds.reaches.assembled
    exact Chart.Stable.operate_ok (hstable c hc) (ih hassembled hstable) hok

end Reaches

end Statechart
