import Statechart.Proofs.Compilation
import Statechart.Proofs.CoupledCharts

/-!
# Positions stay within bounds

A machine finds its states by their positions. What is compiled from validated plans leads to states only,
so whatever is active is one of the states; and as nothing else is ever looked up, states that are put behind
those of a region make no difference.

* `Region.InBounds` : what is active in a region is one of its states;
* `Region.Sound` : the tables of a region, and of those below it, lead to states;
* `Region.padded`, `Chart.padded`, `Machine.padded` : more states behind those of every region;
* `Region.padded_coupling` : a region runs in lockstep with the padded one;
* `Machine.InBounds`.
-/

set_option autoImplicit false

namespace Statechart

open Turn

variable {σ γ δ α : Type}

/-- What is active in the region is one of its states. -/
def Region.InBounds (r : BuiltRegion σ γ δ) (m : Marking δ) : Prop := ∀ i, m.active = .at i → i < r.nodes.length

theorem Region.inBounds_congr (r : BuiltRegion σ γ δ) (m m' : Marking δ) (hactive : m'.active = m.active)
    (h : r.InBounds m) : r.InBounds m' :=
  fun i hi => h i (hactive ▸ hi)

theorem Region.inBounds_fresh (r : BuiltRegion σ γ δ) : r.Throughout Region.InBounds .fresh :=
  Region.throughout_fresh (fun _ => nofun) r

/-- The table of the region leads to states, and so does that of every region below it. -/
def Region.Sound (r : BuiltRegion σ γ δ) : Prop :=
  ∀ q ∈ r.preorder, ∀ i, q.data.LeadsTo i → i < q.nodes.length

theorem Region.Sound.here {r : BuiltRegion σ γ δ} (h : r.Sound) {i : Nat} (hi : r.data.LeadsTo i) :
    i < r.nodes.length := h r (Region.mem_preorder_self r) i hi

theorem Region.Sound.child {r r' : BuiltRegion σ γ δ} (h : r.Sound) {k : Nat × Nat} (hr' : r.child? k = some r') :
    r'.Sound := by
  obtain ⟨n, hn, hr'⟩ := Region.child?_eq_some.1 hr'
  exact fun q hq =>
    h q (Region.mem_preorder_of_mem (List.mem_of_getElem? hn) (List.mem_of_getElem? hr') hq)

/-- A region that indexes the states of its plan leads to states. -/
theorem Plan.Indexes.sound [DecidableEq σ] {p : Plan σ γ δ} {r : BuiltRegion σ γ δ} (h : p.Indexes r) {i : Nat}
    (hi : r.data.LeadsTo i) : i < r.nodes.length := by
  rcases hi with rfl | ⟨row, hrow, htarget⟩
  · obtain ⟨n, hn, -⟩ := h.initial
    exact (List.getElem?_eq_some_iff.1 hn).1
  · obtain ⟨k, hk⟩ := List.getElem?_of_mem hrow
    obtain ⟨n, hn⟩ := h.compiles.target hk htarget
    exact (List.getElem?_eq_some_iff.1 hn).1

/-! ## Padding -/

section Padding

variable (beyond : BuiltRegion σ γ δ → List (BuiltNode σ γ δ))

mutual

/-- The region with more states behind its own, here and below. -/
def Region.padded : BuiltRegion σ γ δ → BuiltRegion σ γ δ
  | ⟨table, nodes⟩ => ⟨table, Node.paddedNodes nodes ++ beyond ⟨table, nodes⟩⟩

def Node.paddedNodes : List (BuiltNode σ γ δ) → List (BuiltNode σ γ δ)
  | [] => []
  | node :: nodes => node.padded :: Node.paddedNodes nodes

/-- The state with padded regions. -/
def Node.padded : BuiltNode σ γ δ → BuiltNode σ γ δ
  | ⟨unit, regions⟩ => ⟨unit, Region.paddedAll regions⟩

def Region.paddedAll : List (BuiltRegion σ γ δ) → List (BuiltRegion σ γ δ)
  | [] => []
  | r :: rs => r.padded :: Region.paddedAll rs

end

theorem Node.paddedNodes_eq :
    ∀ nodes : List (BuiltNode σ γ δ), Node.paddedNodes beyond nodes = nodes.map (Node.padded beyond)
  | [] => rfl
  | node :: nodes => by rw [Node.paddedNodes, Node.paddedNodes_eq nodes, List.map_cons]

theorem Region.paddedAll_eq :
    ∀ rs : List (BuiltRegion σ γ δ), Region.paddedAll beyond rs = rs.map (Region.padded beyond)
  | [] => rfl
  | r :: rs => by rw [Region.paddedAll, Region.paddedAll_eq rs, List.map_cons]

theorem Region.data_padded (r : BuiltRegion σ γ δ) : (r.padded beyond).data = r.data := by
  obtain ⟨table, nodes⟩ := r
  rfl

theorem Node.regions_padded (n : BuiltNode σ γ δ) :
    (n.padded beyond).regions = n.regions.map (Region.padded beyond) := by
  obtain ⟨unit, regions⟩ := n
  exact Region.paddedAll_eq beyond regions

/-- Padding a region leaves its own states in their places. -/
theorem Region.padded_node {r : BuiltRegion σ γ δ} {i : Nat} {n : BuiltNode σ γ δ} (hn : r.nodes[i]? = some n) :
    (r.padded beyond).nodes[i]? = some (n.padded beyond) := by
  obtain ⟨table, nodes⟩ := r
  have hlt : i < (nodes.map (Node.padded beyond)).length := by
    rw [List.length_map]
    exact (List.getElem?_eq_some_iff.1 hn).1
  change (Node.paddedNodes beyond nodes ++ beyond ⟨table, nodes⟩)[i]? = _
  rw [Node.paddedNodes_eq, List.getElem?_append_left hlt, List.getElem?_map, show nodes[i]? = some n from hn]
  rfl

theorem Region.padded_child {r s s' : BuiltRegion σ γ δ} {k : Nat × Nat} (hs : r.child? k = some s)
    (hs' : (r.padded beyond).child? k = some s') : s' = s.padded beyond := by
  obtain ⟨n, hn, hs⟩ := Region.child?_eq_some.1 hs
  rw [Region.child?_of_nodes (Region.padded_node beyond hn), Node.regions_padded, List.getElem?_map, hs] at hs'
  exact (Option.some.inj hs').symm

theorem Node.matches_padded (n : BuiltNode σ γ δ) : n.Matches (n.padded beyond) := by
  refine ⟨?_, by rw [Node.regions_padded, List.length_map]⟩
  obtain ⟨unit, regions⟩ := n
  rfl

/-- The chart with padded regions. -/
def Chart.padded (c : Chart σ γ δ) : Chart σ γ δ := { c with regions := Region.paddedAll beyond c.regions }

/-- The machine with padded regions. -/
def Machine.padded (m : Machine σ γ δ) : Machine σ γ δ := { m with chart := m.chart.padded beyond }

end Padding

/-- A turn that upholds `I` is in lockstep with itself. -/
theorem Turn.Lockstep.of_upholds {I : Configuration σ γ δ → Prop} {x : Turn σ γ δ α} (h : Upholds I x) :
    Lockstep (fun _ => True) (fun c d => d = c ∧ I c) x x := by
  rintro c d ⟨rfl, hI⟩
  have hx := h d hI
  unfold EndsAlike
  unfold Ends at hx ⊢
  split at hx
  · exact ⟨rfl, rfl, hx⟩
  · exact ⟨rfl, trivial, rfl, hx⟩

/-- What a turn in lockstep with itself carries along, it upholds. -/
theorem Turn.Lockstep.upholds {H : Halt → Prop} {I : Configuration σ γ δ → Prop} {x : Turn σ γ δ α}
    (h : Lockstep H (fun c d => d = c ∧ I c) x x) : Upholds I x := by
  intro c hI
  have hx := h c c ⟨rfl, hI⟩
  unfold EndsAlike Ends at hx
  unfold Ends
  cases hrun : x c with
  | ok a c' =>
    simp only [hrun] at hx ⊢
    exact hx.2.2
  | error halt c' =>
    simp only [hrun] at hx ⊢
    exact hx.2.2.2

/-! ## Padded regions -/

section Coupled

variable [DecidableEq σ] [Named σ] (beyond : BuiltRegion σ γ δ → List (BuiltNode σ γ δ))

/-- One configuration, in which the region is within bounds at every depth. -/
abbrev Region.Bounded (r : BuiltRegion σ γ δ) (c d : Configuration σ γ δ) : Prop :=
  d = c ∧ r.Throughout Region.InBounds c.marking

/-- A region whose tables lead to states, and the same with more states behind them. -/
structure Region.Pads (r r' : BuiltRegion σ γ δ) : Prop where
  sound : r.Sound
  padded : r' = r.padded beyond

variable {beyond}

omit [DecidableEq σ] [Named σ] in
/-- Callbacks change nothing that is active. -/
theorem Turn.carries_of_marking {I : Configuration σ γ δ → Prop}
    (hI : ∀ c c', c'.marking.active = c.marking.active → (∀ k, c'.marking.child k = c.marking.child k) → I c → I c') :
    Turn.Carries fun c d => d = c ∧ I c := by
  have hinert {α : Type} {x : Turn σ γ δ α} (hx : Inert (fun _ => True) x) :
      Lockstep (fun _ => True) (fun c d => d = c ∧ I c) x x :=
    Lockstep.of_upholds fun c hc => (hx c).mono (fun _ c' h => hI c c' h.active h.child hc)
      fun _ c' h => hI c c' h.1.active h.1.child hc
  refine ⟨fun n => ?_, fun f => ?_, fun i d f => ?_, fun setup path source target e => ?_⟩
  · exact Lockstep.of_upholds fun c hc => hI c _ rfl (fun _ => rfl) hc
  · exact hinert (perform_inert (fun _ _ => trivial) f)
  · exact hinert (performAt_inert (fun _ _ => trivial) i d f)
  · exact hinert (Region.remember_inert setup path source target e)

section Throughout

omit [DecidableEq σ] [Named σ]

/-- One configuration, in which `P` holds of the region at every depth. -/
abbrev Region.Alone (P : BuiltRegion σ γ δ → Marking δ → Prop) (r : BuiltRegion σ γ δ) (c d : Configuration σ γ δ) :
    Prop :=
  d = c ∧ r.Throughout P c.marking

variable {P : BuiltRegion σ γ δ → Marking δ → Prop}
  (hP : ∀ r (m m' : Marking δ), m'.active = m.active → P r m → P r m')

include hP

/-- Callbacks leave what shows in the active states of a region and of those below it. -/
theorem Region.carries_throughout (r : BuiltRegion σ γ δ) : Turn.Carries (r.Alone P) :=
  Turn.carries_of_marking fun _ _ hactive hchild h =>
    h.congr (fun r m m' hactive _ => hP r m m' hactive) hactive hchild

/-- What shows in the active states of regions is left when a region below moves and keeps it there. -/
theorem Region.spans_throughout {r s : BuiltRegion σ γ δ} {k : Nat × Nat} (hs : r.child? k = some s) :
    Spans k (r.Alone P) (s.Alone P) := by
  rintro c _ ⟨rfl, hc⟩
  refine ⟨⟨rfl, hc.child hs⟩, ?_⟩
  rintro c' _ ⟨rfl, hc'⟩
  refine ⟨rfl, hc.setChild hs hc' (hP r _ _ ?_ hc.here)⟩
  rfl

end Throughout

omit [DecidableEq σ] [Named σ] in
theorem Region.carries_bounded (r : BuiltRegion σ γ δ) : Turn.Carries r.Bounded :=
  Region.carries_throughout Region.inBounds_congr r

omit [DecidableEq σ] [Named σ] in
theorem Region.Pads.child {r r' s s' : BuiltRegion σ γ δ} (h : Region.Pads beyond r r') {k : Nat × Nat}
    (hs : r.child? k = some s) (hs' : r'.child? k = some s') : Region.Pads beyond s s' := by
  obtain ⟨hsound, rfl⟩ := h
  exact ⟨hsound.child hs, Region.padded_child beyond hs hs'⟩

/-- Wherever tables lead to states, a region runs in lockstep with the padded one. -/
theorem Region.padded_coupling (setup : Setup σ γ) :
    Region.Coupling setup (fun _ => True) (Region.Pads beyond) Region.Bounded where
  overflow _ _ := trivial
  table h := by rw [h.padded, Region.data_padded]
  child h hs hs' := ⟨h.child hs hs', Region.spans_throughout Region.inBounds_congr hs⟩
  active h := by rw [h.1]
  state {r r' c d i} h hR hactive := by
    have hlt : i < r.nodes.length := hR.2.here i hactive
    have hn : r.nodes[i]? = some r.nodes[i] := List.getElem?_eq_getElem hlt
    rw [h.padded, hn, Region.padded_node beyond hn]
    exact .some (Node.matches_padded beyond _)
  move {r r' c d a} h hR ha := by
    obtain ⟨rfl, hc⟩ := hR
    exact ⟨rfl, .intro (fun i hi => h.sound.here (ha i hi)) fun k s hs => hc.child hs⟩
  own {r _ _ _} _ hx := r.carries_bounded.own hx

/-- One configuration, in which every region of the chart is within bounds. -/
def Chart.Bounded (c : Chart σ γ δ) (s : Configuration σ γ δ) : Prop :=
  ∀ (j : Nat) (r : BuiltRegion σ γ δ), c.regions[j]? = some r →
    r.Throughout Region.InBounds (s.marking.child (0, j))

omit [DecidableEq σ] [Named σ] in
theorem Chart.lockstep_of_quiet {c : Chart σ γ δ} {x : Turn σ γ δ α} (hx : IsQuiet x) :
    Lockstep (fun _ => True) (fun s t => t = s ∧ c.Bounded s) x x := by
  refine Lockstep.of_upholds fun s hs => (hx s).mono (fun _ s' h j r hr => ?_) fun _ s' h j r hr => ?_
  · rw [h.marking]
    exact hs j r hr
  · rw [h.1.marking]
    exact hs j r hr

theorem Chart.padded_coupling (beyond : BuiltRegion σ γ δ → List (BuiltNode σ γ δ)) {c : Chart σ γ δ}
    (hc : ∀ r ∈ c.regions, r.Sound) :
    Chart.Coupling c (c.padded beyond) (Region.Pads beyond) Region.Bounded fun s t => t = s ∧ c.Bounded s where
  regions := Region.padded_coupling c.setup
  consult {r _ _ n} _ _ path e := r.carries_bounded.consult n path _ e
  accepts {r _} _ s e := r.carries_bounded.accepts _ s e
  foretell h _ e := Lockstep.of_upholds fun t ht => ht
  setup := rfl
  length := by
    change (Region.paddedAll beyond c.regions).length = _
    rw [Region.paddedAll_eq, List.length_map]
  child {j r r'} hr hr' := by
    change (Region.paddedAll beyond c.regions)[j]? = some r' at hr'
    rw [Region.paddedAll_eq, List.getElem?_map, hr] at hr'
    refine ⟨⟨hc r (List.mem_of_getElem? hr), (Option.some.inj hr').symm⟩, ?_⟩
    rintro s _ ⟨rfl, hs⟩
    refine ⟨⟨rfl, hs j r hr⟩, ?_⟩
    rintro s' _ ⟨rfl, hs'⟩
    refine ⟨rfl, fun j' q hq => ?_⟩
    by_cases hj : j' = j
    · subst hj
      obtain rfl : r = q := Option.some.inj (hr.symm.trans hq)
      rwa [Marking.child_setChild_self]
    · rw [Marking.child_setChild_of_ne (by simpa using hj)]
      exact hs j' q hq
  carries := Turn.carries_of_marking fun s s' _ hchild hs j r hr => by
    rw [hchild]
    exact hs j r hr
  offer e := Chart.lockstep_of_quiet (offer_isQuiet e)
  take := Chart.lockstep_of_quiet take_isQuiet
  setContext _ h := ⟨by rw [h.1], h.2⟩
  setClock _ h := ⟨by rw [h.1], h.2⟩
  pending h := by rw [h.1]

end Coupled

/-! ## Machines -/

/-- The machine never looks for a state or a row that is not there. -/
structure Machine.InBounds [DecidableEq σ] [Named σ] (m : Machine σ γ δ) : Prop where
  /-- What is active is one of the states, at every depth. -/
  active : m.chart.Bounded m.configuration
  /-- States behind those of a region are never looked up: whatever they are, every operation comes to the
  same. -/
  padded : ∀ beyond bound op, (m.padded beyond).operate bound op =
    ((m.operate bound op).1, (m.operate bound op).2.padded beyond)
  /-- A row that is chosen stands in the table at its index. -/
  rows : ∀ q ∈ Region.preorderOfRegions m.chart.regions, ∀ (position : Nat) (s : σ) (e : Event)
    (c : Configuration σ γ δ), Ends (q.data.resolve position s e) c
      (fun found _ => ∀ choice, found = some choice → q.data.rows[choice.row]? = some choice.transition)
      fun _ _ => True

section Machines

variable [DecidableEq σ] [Named σ] {m m' : Machine σ γ δ}

/-- Where tables lead to states and what is active is a state, an operation comes to the same with more states
behind them. -/
theorem Machine.operate_padded (hc : ∀ r ∈ m.chart.regions, r.Sound) (hm : m.chart.Bounded m.configuration)
    (beyond : BuiltRegion σ γ δ → List (BuiltNode σ γ δ)) (bound : Nat) (op : Operation γ) :
    (m.padded beyond).operate bound op = ((m.operate bound op).1, (m.operate bound op).2.padded beyond) ∧
      m.chart.Bounded (m.operate bound op).2.configuration := by
  have hrun := Machine.run_of_lockstep ((Chart.padded_coupling beyond hc).operation bound op) m (m.padded beyond)
    ⟨rfl, hm⟩
  obtain ⟨hresult, hafter, hbounded⟩ := hrun
  refine ⟨Prod.ext hresult (Machine.ext ?_ hafter), hbounded⟩
  exact ((m.padded beyond).chart_operate bound op).trans
    (congrArg (Chart.padded beyond) (m.chart_operate bound op).symm)

theorem Machine.inBounds (hc : ∀ r ∈ m.chart.regions, r.Sound) (hm : m.chart.Bounded m.configuration) :
    m.InBounds where
  active := hm
  padded beyond bound op := (m.operate_padded hc hm beyond bound op).1
  rows q _ position s e c := RegionTable.resolve_row q.data position s e c

/-- All machines that operations lead to are within bounds. -/
theorem Machine.Leads.inBounds (hc : ∀ r ∈ m.chart.regions, r.Sound) (hm : m.chart.Bounded m.configuration)
    (h : m.Leads m') : m'.InBounds := by
  have hbounded : m'.chart = m.chart ∧ m.chart.Bounded m'.configuration := by
    induction h with
    | refl => exact ⟨rfl, hm⟩
    | next bound op _ ih =>
      obtain ⟨hchart, hbounded⟩ := ih
      rw [← hchart] at hc hbounded
      refine ⟨by rw [Machine.chart_operate, hchart], ?_⟩
      rw [← hchart]
      exact (Machine.operate_padded hc hbounded (fun _ => []) bound op).2
  obtain ⟨hchart, hbounded⟩ := hbounded
  rw [← hchart] at hc hbounded
  exact Machine.inBounds hc hbounded

/-! ## Validated plans -/

omit [Named σ] in
/-- What is constructed from plans that index states leads to states. -/
theorem Region.sound_of_indexes {plans : List (Plan σ γ δ)} {rs : List (BuiltRegion σ γ δ)}
    (h : List.Forall₂ Plan.Indexes (Region.preorderOfRegions plans) (Region.preorderOfRegions rs)) :
    ∀ r ∈ rs, r.Sound := by
  intro r hr q hq i hi
  obtain ⟨p, -, hindexes⟩ := exists_mem_of_forall₂ h (Region.mem_preorderOfRegions hr hq)
  exact hindexes.sound hi

variable [Inhabited δ]

/-- **Validated plans are compiled, and their machines stay within bounds.** Every region of such plans, at
every depth, is compiled unless a callback that constructs a state panics; in what is compiled, the position of
the initial state and those of the rows' targets stand for the states that were named, the initial state being
the one that was designated, or else the first. And in every machine that operations lead to from there,
whatever they come to, each position that is active is that of a state, and no state or row is looked up that is
not there. -/
theorem validated_plans_stay_in_bounds {plans : List (Plan σ γ δ)}
    (hplanned : ∀ p ∈ plans, ∃ (d : Declaration σ γ δ) (path : String), d.plan path = .ok p)
    (hvalid : validate plans = .ok ()) :
    (∀ p ∈ Region.preorderOfRegions plans, ∀ c : Configuration σ γ δ, Ends (Plan.construct p).run c
      (fun made _ => ∃ r, made = .ok r ∧ List.Forall₂ Plan.Indexes p.preorder r.preorder) fun h _ => h.IsPanic) ∧
    ∀ w : World σ γ, Ends (Plan.constructAll plans).run ⟨w, .fresh⟩
      (fun made after => ∃ rs, made = .ok rs ∧ rs.length = plans.length ∧
        List.Forall₂ Plan.Indexes (Region.preorderOfRegions plans) (Region.preorderOfRegions rs) ∧
        ∀ (setup : Setup σ γ) (m : Machine σ γ δ), Machine.Leads ⟨⟨rs, setup⟩, after⟩ m → m.InBounds)
      fun h _ => h.IsPanic := by
  have hcomplete : ∀ q ∈ Region.preorderOfRegions plans, Plan.Complete q := by
    intro q hq
    rw [Region.preorderOfRegions_eq] at hq
    obtain ⟨p, hp, hq⟩ := List.mem_flatMap.1 hq
    obtain ⟨d, path, hd⟩ := hplanned p hp
    exact d.plan_complete path p hd q hq
  have htables : ∀ q ∈ Region.preorderOfRegions plans, ∀ e, Plan.table q ≠ .error e := by
    intro q hq e he
    obtain ⟨table, htable⟩ := Plan.table_of_complete (hcomplete q hq)
      (ownViolations_of_violations (violations_of_validate hvalid) q hq)
    rw [htable] at he
    cases he
  have hindexes {ps : List (Plan σ γ δ)} {rs : List (BuiltRegion σ γ δ)} (hps : ∀ q ∈ ps, Plan.Complete q)
      (h : List.Forall₂ Plan.Compiled ps rs) : List.Forall₂ Plan.Indexes ps rs :=
    ((List.forall₂_and_left ps rs).2 ⟨hps, h⟩).imp fun _ _ h => h.2.indexes h.1
  refine ⟨fun p hp c => ?_, fun w => ?_⟩
  · have hbelow : ∀ q ∈ p.preorder, q ∈ Region.preorderOfRegions plans := by
      intro q hq
      rw [Region.preorderOfRegions_eq] at hp ⊢
      obtain ⟨r, hr, hp⟩ := List.mem_flatMap.1 hp
      exact List.mem_flatMap.2 ⟨r, hr, Region.mem_preorder_trans hq hp⟩
    refine (Plan.construct_compiled (F := fun _ => False) p
      (fun q hq e he => htables q (hbelow q hq) e he) c).mono (fun made _ h => ?_) fun _ _ h => h
    cases made with
    | error e => exact (h.2.2 e rfl).elim
    | ok r => exact ⟨r, rfl, hindexes (fun q hq => hcomplete q (hbelow q hq)) (h.2.1 r rfl)⟩
  · refine (Plan.constructAll_compiled (F := fun _ => False) plans
      (fun q hq e he => htables q hq e he) ⟨w, .fresh⟩).mono (fun made after h => ?_) fun _ _ h => h
    obtain ⟨hquiet, hmade, hrefused⟩ := h
    cases made with
    | error e => exact (hrefused e rfl).elim
    | ok rs =>
      obtain ⟨hlength, hcompiled⟩ := hmade rs rfl
      have hplaces := hindexes hcomplete hcompiled
      refine ⟨rs, rfl, hlength, hplaces, fun setup m hleads => ?_⟩
      refine Machine.Leads.inBounds (m := ⟨⟨rs, setup⟩, after⟩) (Region.sound_of_indexes hplaces) ?_ hleads
      intro j r _
      change r.Throughout Region.InBounds (after.marking.child (0, j))
      rw [hquiet.marking]
      exact Region.inBounds_fresh r

end Machines

/-- The lamp is built from a validated plan, and so is within bounds while it is lit. -/
theorem validated_plans_stay_in_bounds_lit :
    Declaration.planAll Lamp.blueprint.regions = .ok [Lamp.plan] ∧ validate [Lamp.plan] = .ok () ∧
      Lamp.lit.InBounds := by
  have hplan : Declaration.planAll Lamp.blueprint.regions = .ok [Lamp.plan] := rfl
  have hvalid : validate [Lamp.plan] = .ok () := rfl
  refine ⟨hplan, hvalid, ?_⟩
  have hplanned : ∀ p ∈ [Lamp.plan], ∃ (d : Declaration Lamp Unit Unit) (path : String), d.plan path = .ok p := by
    simp only [List.mem_singleton, forall_eq]
    exact ⟨_, "lamp", (rfl : Lamp.blueprint.regions[0].plan "lamp" = .ok Lamp.plan)⟩
  have hconstruct : (Plan.constructAll [Lamp.plan]).run
      ⟨{ context := (), exchange.journal.notes := [.contextMade] }, .fresh⟩ =
        .ok (.ok [Lamp.tree]) Lamp.built.configuration := rfl
  obtain ⟨rs, hrs, -, -, hbounds⟩ := ((validated_plans_stay_in_bounds hplanned hvalid).2 _).of_ok hconstruct
  obtain rfl := Except.ok.inj hrs
  have hleads : Machine.Leads Lamp.built Lamp.started :=
    Machine.Leads.refl.next 1 .start
  exact hbounds Lamp.blueprint.setup Lamp.lit (hleads.next 1 (.process Lamp.press))

end Statechart
