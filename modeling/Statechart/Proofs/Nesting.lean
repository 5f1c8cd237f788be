import Statechart.Proofs.Paths
import Statechart.Proofs.Walks

/-!
# Regions and those below them

Two regions of a machine may have one path, but never a region and one below it: the path of a region that a state
owns is longer than that of the region around it.

* `Region.LongerBelow` : the regions below have longer paths;
* `Declaration.plan_longerBelow`, `Plan.construct_keepsPaths` : in what is planned and in what is constructed;
* `Blueprint.Reaches.apart` : no region of a machine that is reached has the path of one below it.
-/

set_option autoImplicit false

namespace Statechart

open Turn

variable {σ γ δ ρ ν : Type}

/-- All regions below have longer paths. -/
def Region.LongerBelow (path : ρ → String) (q : Region ρ ν) : Prop :=
  ∀ q' ∈ Node.preorderOfNodes q.nodes, (path q.data).length < (path q'.data).length

theorem length_lt_childPath (path state name : String) : path.length < (childPath path state name).length := by
  unfold childPath
  simp only [String.length_append]
  have hslash : "/".length = 1 := rfl
  omega

section Plans

variable [DecidableEq σ] [Named σ] [Inhabited δ]

mutual

/-- In the plan of a region at a path, no path is shorter, and those below are longer. -/
theorem Declaration.plan_longerBelow (path : String) :
    ∀ (d : Declaration σ γ δ) (p : Plan σ γ δ), d.plan path = .ok p → ∀ q ∈ p.preorder,
      path.length ≤ q.data.path.length ∧ q.LongerBelow RegionPlan.path
  | ⟨d, nodes⟩, p, h => by
    rw [Declaration.plan] at h
    obtain ⟨rows, -, h⟩ := bind_eq_ok.1 h
    obtain ⟨declared, hdeclared, h⟩ := bind_eq_ok.1 h
    dsimp only at h
    split at h
    · cases h
    · cases h
      have hbelow := Declaration.planNodes_longerBelow path nodes declared hdeclared
      rw [Region.preorder, preorderOfNodes_foldl_declareImplicitly]
      refine List.forall_mem_cons.2 ⟨⟨Nat.le_refl _, fun q hq => ?_⟩, fun q hq => ?_⟩
      · change q ∈ Node.preorderOfNodes (List.foldl declareImplicitly _ _) at hq
        rw [preorderOfNodes_foldl_declareImplicitly] at hq
        exact (hbelow q hq).1
      · exact ⟨Nat.le_of_lt (hbelow q hq).1, (hbelow q hq).2⟩

theorem Declaration.planNodes_longerBelow (path : String) :
    ∀ (nodes : List (Node (RegionDeclaration σ γ) (StateDeclaration σ γ δ))) (planned : List (PlanNode σ γ δ)),
      Declaration.planNodes path nodes = .ok planned → ∀ q ∈ Node.preorderOfNodes planned,
        path.length < q.data.path.length ∧ q.LongerBelow RegionPlan.path
  | [], planned, h => by
    cases h
    simp [Node.preorderOfNodes]
  | node :: nodes, planned, h => by
    rw [Declaration.planNodes] at h
    obtain ⟨first, hfirst, h⟩ := bind_eq_ok.1 h
    obtain ⟨rest, hrest, h⟩ := bind_eq_ok.1 h
    cases h
    rw [Node.preorderOfNodes]
    exact List.forall_mem_append.2 ⟨Declaration.planNode_longerBelow path node first hfirst,
      Declaration.planNodes_longerBelow path nodes rest hrest⟩

theorem Declaration.planNode_longerBelow (path : String) :
    ∀ (node : Node (RegionDeclaration σ γ) (StateDeclaration σ γ δ)) (planned : PlanNode σ γ δ),
      Declaration.planNode path node = .ok planned → ∀ q ∈ planned.preorder,
        path.length < q.data.path.length ∧ q.LongerBelow RegionPlan.path
  | ⟨s, regions⟩, planned, h => by
    rw [Declaration.planNode] at h
    obtain ⟨plans, hplans, h⟩ := bind_eq_ok.1 h
    cases h
    exact Declaration.planRegions_longerBelow path (Named.name s.id) regions plans hplans

theorem Declaration.planRegions_longerBelow (path owner : String) :
    ∀ (rs : List (Declaration σ γ δ)) (plans : List (Plan σ γ δ)),
      Declaration.planRegions path owner rs = .ok plans → ∀ q ∈ Region.preorderOfRegions plans,
        path.length < q.data.path.length ∧ q.LongerBelow RegionPlan.path
  | [], plans, h => by
    cases h
    simp [Region.preorderOfRegions]
  | r :: rs, plans, h => by
    rw [Declaration.planRegions] at h
    obtain ⟨first, hfirst, h⟩ := bind_eq_ok.1 h
    obtain ⟨rest, hrest, h⟩ := bind_eq_ok.1 h
    cases h
    have hlonger := length_lt_childPath path owner r.data.name
    have hhere := r.plan_longerBelow (childPath path owner r.data.name) first hfirst
    rw [Region.preorderOfRegions]
    exact List.forall_mem_append.2 ⟨fun q hq => ⟨Nat.lt_of_lt_of_le hlonger (hhere q hq).1, (hhere q hq).2⟩,
      Declaration.planRegions_longerBelow path owner rs rest hrest⟩

end

theorem Declaration.planAll_longerBelow {rs : List (Declaration σ γ δ)} {plans : List (Plan σ γ δ)}
    (h : Declaration.planAll rs = .ok plans) :
    ∀ q ∈ Region.preorderOfRegions plans, q.LongerBelow RegionPlan.path := by
  unfold Declaration.planAll at h
  induction rs generalizing plans with
  | nil =>
    cases h
    simp [Region.preorderOfRegions]
  | cons r rs ih =>
    rw [List.mapM_cons] at h
    obtain ⟨first, hfirst, h⟩ := bind_eq_ok.1 h
    obtain ⟨rest, hrest, h⟩ := bind_eq_ok.1 h
    cases h
    rw [Region.preorderOfRegions]
    exact List.forall_mem_append.2 ⟨fun q hq => (r.plan_longerBelow _ first hfirst q hq).2, ih hrest⟩

end Plans

/-! ## Construction -/

section Construction

variable [DecidableEq σ] [Named σ]

/-- The regions have the paths of the plans, and longer ones below if those do. -/
structure Plan.KeepsPaths (plans : List (Plan σ γ δ)) (rs : List (BuiltRegion σ γ δ)) : Prop where
  paths : rs.map (·.data.path) = plans.map (·.data.path)
  below : (∀ p ∈ plans, p.LongerBelow RegionPlan.path) → ∀ r ∈ rs, r.LongerBelow RegionTable.path

omit [DecidableEq σ] [Named σ] in
theorem Plan.KeepsPaths.append {plans plans' : List (Plan σ γ δ)} {rs rs' : List (BuiltRegion σ γ δ)}
    (h : Plan.KeepsPaths plans rs) (h' : Plan.KeepsPaths plans' rs') :
    Plan.KeepsPaths (plans ++ plans') (rs ++ rs') where
  paths := by rw [List.map_append, List.map_append, h.paths, h'.paths]
  below hplans := by
    rw [List.forall_mem_append] at hplans ⊢
    exact ⟨h.below hplans.1, h'.below hplans.2⟩

mutual

theorem Plan.construct_keepsPaths :
    ∀ p : Plan σ γ δ, Constructs p.construct fun r => Plan.KeepsPaths p.preorder r.preorder
  | ⟨p, nodes⟩ => by
    rw [Plan.construct]
    refine (Constructs.of_result (F := fun _ => True) fun _ _ => trivial).bind fun table htable => ?_
    refine (Plan.constructNodes_keepsPaths nodes).bind fun made hmade => Constructs.pure ?_
    have hpath : table.path = p.path := (Plan.table_rows htable).1
    rw [Region.preorder, Region.preorder]
    refine ⟨?_, fun hplans => ?_⟩
    · rw [List.map_cons, List.map_cons, hmade.paths]
      exact congrArg (· :: _) hpath
    · rw [List.forall_mem_cons] at hplans ⊢
      refine ⟨fun q hq => ?_, hmade.below hplans.2⟩
      have hq' : q.data.path ∈ (Node.preorderOfNodes nodes).map (·.data.path) :=
        hmade.paths ▸ List.mem_map_of_mem hq
      obtain ⟨q', hq', hsame⟩ := List.mem_map.1 hq'
      have hlonger := hplans.1 q' hq'
      rw [hsame] at hlonger
      change table.path.length < _
      rw [hpath]
      exact hlonger

theorem Plan.constructNodes_keepsPaths :
    ∀ nodes : List (PlanNode σ γ δ), Constructs (Plan.constructNodes nodes) fun made =>
      Plan.KeepsPaths (Node.preorderOfNodes nodes) (Node.preorderOfNodes made)
  | [] => by
    rw [Plan.constructNodes]
    exact Constructs.pure ⟨rfl, fun _ => by simp [Node.preorderOfNodes]⟩
  | node :: nodes => by
    rw [Plan.constructNodes]
    refine (Plan.constructNode_keepsPaths node).bind fun first hfirst => ?_
    refine (Plan.constructNodes_keepsPaths nodes).bind fun rest hrest => Constructs.pure ?_
    rw [Node.preorderOfNodes, Node.preorderOfNodes]
    exact hfirst.append hrest

theorem Plan.constructNode_keepsPaths :
    ∀ node : PlanNode σ γ δ, Constructs (Plan.constructNode node) fun made =>
      Plan.KeepsPaths node.preorder made.preorder
  | ⟨s, regions⟩ => by
    rw [Plan.constructNode]
    refine (Plan.constructAll_keepsPaths regions).bind fun made hmade => ?_
    refine (Constructs.lift (note_isQuiet rfl) fun _ => trivial).bind fun _ _ => ?_
    exact (Constructs.lift (perform_isQuiet _) (perform_panics _)).bind fun _ _ => Constructs.pure hmade

theorem Plan.constructAll_keepsPaths :
    ∀ plans : List (Plan σ γ δ), Constructs (Plan.constructAll plans) fun rs =>
      Plan.KeepsPaths (Region.preorderOfRegions plans) (Region.preorderOfRegions rs)
  | [] => by
    rw [Plan.constructAll]
    exact Constructs.pure ⟨rfl, fun _ => by simp [Region.preorderOfRegions]⟩
  | p :: plans => by
    rw [Plan.constructAll]
    refine (Plan.construct_keepsPaths p).bind fun first hfirst => ?_
    refine (Plan.constructAll_keepsPaths plans).bind fun rest hrest => Constructs.pure ?_
    rw [Region.preorderOfRegions, Region.preorderOfRegions]
    exact hfirst.append hrest

end

end Construction

/-! ## Reached machines -/

theorem Region.LongerBelow.apart {r : BuiltRegion σ γ δ} (h : r.LongerBelow RegionTable.path) : r.Apart := by
  intro n hn r' hr' q hq heq
  have hbelow : q ∈ Node.preorderOfNodes r.nodes := by
    rw [Node.preorderOfNodes_eq]
    exact List.mem_flatMap.2 ⟨n, hn, List.mem_flatMap.2 ⟨r', hr', hq⟩⟩
  have hlonger := h q hbelow
  rw [heq] at hlonger
  exact absurd hlonger (Nat.lt_irrefl _)

section Reaches

variable [DecidableEq σ] [Named σ] [Inhabited δ] {b : Blueprint σ γ δ} {m : Machine σ γ δ}

theorem Blueprint.longerBelow_of_build {bound : Nat} {context : Callback Unit γ} (h : b.build bound context = .ready m) :
    ∀ r ∈ Region.preorderOfRegions m.chart.regions, r.LongerBelow RegionTable.path := by
  obtain ⟨plans, w, c, hplans, -, -, hmade, -⟩ := Blueprint.constructed_of_build h
  have hkeeps := ((Plan.constructAll_keepsPaths plans ⟨w, .fresh⟩).of_ok hmade).2.1 _ rfl
  refine hkeeps.below ?_
  unfold Blueprint.plans at hplans
  split at hplans
  · cases hplans
  · obtain ⟨planned, hplanned, hplans⟩ := bind_eq_ok.1 hplans
    obtain ⟨⟨⟩, -, hplans⟩ := bind_eq_ok.1 hplans
    cases hplans
    exact Declaration.planAll_longerBelow hplanned

/-- No region has the path of one below it. -/
theorem Blueprint.Reaches.apart (h : b.Reaches m) {r : BuiltRegion σ γ δ}
    (hr : r ∈ Region.preorderOfRegions m.chart.regions) : r.Apart := by
  induction h with
  | built bound context hbuild => exact (Blueprint.longerBelow_of_build hbuild r hr).apart
  | next bound op _ ih =>
    rw [Machine.chart_operate] at hr
    exact ih hr

end Reaches

end Statechart
