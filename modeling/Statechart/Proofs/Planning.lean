import Mathlib.Data.List.Nodup
import Statechart.Build

/-!
# Plans

A plan that was made has states in every region, among them those that its rows name; plans that were
validated declare no state twice, and their initial states.

* `Plan.outline` : what the machine takes over from a region of a plan, its states and the position of the
  initial one;
* `Plan.Complete` : the region has states, and its rows name no others; `Declaration.plan_complete`;
* `registerStates_ok`, `nodup_of_violations` : a validated tree has no state twice;
* `Plan.initialPosition_of_violations` : a validated region has an initial state;
* `Blueprint.plans_ok`.
-/

set_option autoImplicit false

namespace Statechart

variable {σ γ δ : Type}

/-- The states of a region of a tree whose states are told apart by `id`. -/
def Region.states {ρ ν : Type} (id : ν → σ) (r : Region ρ ν) : List σ := r.nodes.map fun n => id n.data

theorem bind_eq_ok {ε α β : Type} {x : Except ε α} {f : α → Except ε β} {b : β} :
    x >>= f = .ok b ↔ ∃ a, x = .ok a ∧ f a = .ok b := by
  cases x <;> simp [Bind.bind, Except.bind]

/-! ## Every region is complete -/

section Complete

variable [DecidableEq σ]

theorem declares_iff_mem {nodes : List (PlanNode σ γ δ)} {s : σ} :
    declares nodes s = true ↔ s ∈ nodes.map (·.data.id) := by
  simp [declares]

/-- The region has states, and all that its rows name are among them. -/
structure Plan.Complete (p : Plan σ γ δ) : Prop where
  nonempty : p.nodes ≠ []
  named : ∀ row ∈ p.data.rows, ∀ s ∈ row.named, declares p.nodes s = true

variable [Inhabited δ]

/-- States that are declared implicitly own no regions. -/
theorem preorderOfNodes_declareImplicitly (nodes : List (PlanNode σ γ δ)) (s : σ) :
    Node.preorderOfNodes (declareImplicitly nodes s) = Node.preorderOfNodes nodes := by
  unfold declareImplicitly
  split
  · rfl
  · simp [Node.preorderOfNodes_eq, Node.regions]

theorem preorderOfNodes_foldl_declareImplicitly (states : List σ) (nodes : List (PlanNode σ γ δ)) :
    Node.preorderOfNodes (states.foldl declareImplicitly nodes) = Node.preorderOfNodes nodes := by
  induction states generalizing nodes with
  | nil => rfl
  | cons s states ih => rw [List.foldl_cons, ih, preorderOfNodes_declareImplicitly]

/-- What was declared stays declared, and what is declared implicitly is declared. -/
theorem declares_declareImplicitly {nodes : List (PlanNode σ γ δ)} {s t : σ}
    (h : t = s ∨ declares nodes t = true) : declares (declareImplicitly nodes s) t = true := by
  unfold declareImplicitly
  split
  · rename_i hs
    exact h.elim (fun hts => hts ▸ hs) id
  · unfold declares at h ⊢
    rw [List.any_append, Bool.or_eq_true]
    refine h.symm.imp id fun hts => ?_
    simp [Node.data, hts]

theorem declares_foldl_declareImplicitly {states : List σ} {nodes : List (PlanNode σ γ δ)} {t : σ}
    (h : t ∈ states ∨ declares nodes t = true) :
    declares (states.foldl declareImplicitly nodes) t = true := by
  induction states generalizing nodes with
  | nil => exact h.resolve_left List.not_mem_nil
  | cons s states ih =>
    rw [List.foldl_cons]
    refine ih ?_
    rcases h with h | h
    · rcases List.mem_cons.1 h with hts | h
      · exact .inr (declares_declareImplicitly (.inl hts))
      · exact .inl h
    · exact .inr (declares_declareImplicitly (.inr h))

variable [Named σ]

mutual

/-- Every region of a plan is complete. -/
theorem Declaration.plan_complete (path : String) :
    ∀ (d : Declaration σ γ δ) (p : Plan σ γ δ), d.plan path = .ok p → ∀ q ∈ p.preorder, Plan.Complete q
  | ⟨d, nodes⟩, p, h => by
    rw [Declaration.plan] at h
    obtain ⟨rows, -, h⟩ := bind_eq_ok.1 h
    obtain ⟨declared, hdeclared, h⟩ := bind_eq_ok.1 h
    dsimp only at h
    split at h
    · cases h
    · rename_i hstates
      cases h
      intro q hq
      rw [Region.preorder, preorderOfNodes_foldl_declareImplicitly] at hq
      rcases List.mem_cons.1 hq with rfl | hq
      · refine ⟨fun hempty => hstates (List.isEmpty_iff.2 hempty), fun row hrow s hs => ?_⟩
        exact declares_foldl_declareImplicitly (.inl (List.mem_flatMap.2 ⟨row, hrow, hs⟩))
      · exact Declaration.planNodes_complete path nodes declared hdeclared q hq

theorem Declaration.planNodes_complete (path : String) :
    ∀ (nodes : List (Node (RegionDeclaration σ γ) (StateDeclaration σ γ δ)))
      (planned : List (PlanNode σ γ δ)), Declaration.planNodes path nodes = .ok planned →
        ∀ q ∈ Node.preorderOfNodes planned, Plan.Complete q
  | [], planned, h => by
    cases h
    simp [Node.preorderOfNodes]
  | node :: nodes, planned, h => by
    rw [Declaration.planNodes] at h
    obtain ⟨first, hfirst, h⟩ := bind_eq_ok.1 h
    obtain ⟨rest, hrest, h⟩ := bind_eq_ok.1 h
    cases h
    intro q hq
    rw [Node.preorderOfNodes] at hq
    rcases List.mem_append.1 hq with hq | hq
    · exact Declaration.planNode_complete path node first hfirst q hq
    · exact Declaration.planNodes_complete path nodes rest hrest q hq

theorem Declaration.planNode_complete (path : String) :
    ∀ (node : Node (RegionDeclaration σ γ) (StateDeclaration σ γ δ)) (planned : PlanNode σ γ δ),
      Declaration.planNode path node = .ok planned → ∀ q ∈ planned.preorder, Plan.Complete q
  | ⟨state, regions⟩, planned, h => by
    rw [Declaration.planNode] at h
    obtain ⟨plans, hplans, h⟩ := bind_eq_ok.1 h
    cases h
    exact Declaration.planRegions_complete path (Named.name state.id) regions plans hplans

theorem Declaration.planRegions_complete (path owner : String) :
    ∀ (rs : List (Declaration σ γ δ)) (plans : List (Plan σ γ δ)),
      Declaration.planRegions path owner rs = .ok plans →
        ∀ q ∈ Region.preorderOfRegions plans, Plan.Complete q
  | [], plans, h => by
    cases h
    simp [Region.preorderOfRegions]
  | r :: rs, plans, h => by
    rw [Declaration.planRegions] at h
    obtain ⟨first, hfirst, h⟩ := bind_eq_ok.1 h
    obtain ⟨rest, hrest, h⟩ := bind_eq_ok.1 h
    cases h
    intro q hq
    rw [Region.preorderOfRegions] at hq
    rcases List.mem_append.1 hq with hq | hq
    · exact Declaration.plan_complete _ r first hfirst q hq
    · exact Declaration.planRegions_complete path owner rs rest hrest q hq

end

theorem Declaration.planAll_complete (rs : List (Declaration σ γ δ)) (plans : List (Plan σ γ δ))
    (h : Declaration.planAll rs = .ok plans) : ∀ q ∈ Region.preorderOfRegions plans, Plan.Complete q := by
  unfold Declaration.planAll at h
  induction rs generalizing plans with
  | nil =>
    cases h
    simp [Region.preorderOfRegions]
  | cons r rs ih =>
    rw [List.mapM_cons] at h
    obtain ⟨first, hfirst, h⟩ := bind_eq_ok.1 h
    obtain ⟨rest, hrest, h⟩ := bind_eq_ok.1 h
    cases h
    intro q hq
    rw [Region.preorderOfRegions] at hq
    rcases List.mem_append.1 hq with hq | hq
    · exact r.plan_complete _ first hfirst q hq
    · exact ih rest hrest q hq

end Complete

/-! ## No state is declared twice -/

section Nodup

variable [DecidableEq σ] [Named σ]

/-- Without a fault all given states are new and different, and own what they are entered for. -/
theorem registerStates_ok (path : String) :
    ∀ (states : List σ) (owners owners' : Owners σ), registerStates path owners states = ([], owners') →
      states.Nodup ∧ (∀ s ∈ states, s ∉ owners.map Prod.fst) ∧
        owners'.map Prod.fst = states.reverse ++ owners.map Prod.fst
  | [], owners, owners', h => by
    cases h
    simp
  | s :: states, owners, owners', h => by
    rw [registerStates] at h
    split at h
    · rename_i hnew
      obtain ⟨hnodup, hfresh, howners⟩ := registerStates_ok path states _ owners' h
      have hs : s ∉ owners.map Prod.fst := by
        intro hs
        obtain ⟨⟨s', path'⟩, hmem, rfl⟩ := List.mem_map.1 hs
        simpa using List.lookup_eq_none_iff.1 hnew _ hmem
      have hstates : s ∉ states := fun hs => hfresh s hs List.mem_cons_self
      refine ⟨List.nodup_cons.2 ⟨hstates, hnodup⟩, fun t ht => ?_, ?_⟩
      · rcases List.mem_cons.1 ht with rfl | ht
        · exact hs
        · exact fun hmem => hfresh t ht (List.mem_cons_of_mem _ hmem)
      · rw [howners]
        simp
    · cases h

theorem nodup_of_violationsFrom (plans : List (Plan σ γ δ)) (owners : Owners σ)
    (h : violationsFrom owners plans = []) :
    (plans.flatMap (Region.states StateDeclaration.id)).Nodup ∧
      ∀ s ∈ plans.flatMap (Region.states StateDeclaration.id), s ∉ owners.map Prod.fst := by
  induction plans generalizing owners with
  | nil => simp
  | cons p plans ih =>
    rw [violationsFrom] at h
    generalize hreg : registerStates p.data.path owners (p.nodes.map (·.data.id)) = result at h
    obtain ⟨faults, owners'⟩ := result
    simp only [List.append_eq_nil_iff] at h
    obtain ⟨⟨rfl, -⟩, hrest⟩ := h
    obtain ⟨hown, hnew, howners⟩ := registerStates_ok _ _ _ _ hreg
    obtain ⟨hothers, hapart⟩ := ih owners' hrest
    have hmem (s : σ) : s ∈ owners'.map Prod.fst ↔ s ∈ p.states StateDeclaration.id ∨
        s ∈ owners.map Prod.fst := by
      rw [howners, List.mem_append, List.mem_reverse]
      rfl
    rw [List.flatMap_cons]
    refine ⟨hown.append hothers fun s hs hs' => ?_, fun s hs => ?_⟩
    · exact hapart s hs' ((hmem s).2 (.inl hs))
    · rcases List.mem_append.1 hs with hs | hs
      · exact hnew s hs
      · exact fun howned => hapart s hs ((hmem s).2 (.inr howned))

/-- In a tree without faults no state is declared twice. -/
theorem nodup_of_violations {plans : List (Plan σ γ δ)} (h : violations plans = []) :
    ((Region.preorderOfRegions plans).flatMap (Region.states StateDeclaration.id)).Nodup :=
  (nodup_of_violationsFrom _ [] h).1

theorem violations_of_validate {plans : List (Plan σ γ δ)} (h : validate plans = .ok ()) :
    violations plans = [] := by
  unfold validate at h
  split at h
  · assumption
  · cases h

end Nodup

/-! ## The initial state -/

section Initial

variable [DecidableEq σ] [Named σ]

theorem ownViolations_of_violationsFrom (plans : List (Plan σ γ δ)) (owners : Owners σ)
    (h : violationsFrom owners plans = []) : ∀ p ∈ plans, Plan.ownViolations p = [] := by
  induction plans generalizing owners with
  | nil => simp
  | cons p plans ih =>
    rw [violationsFrom] at h
    simp only [List.append_eq_nil_iff] at h
    obtain ⟨⟨-, hown⟩, hrest⟩ := h
    intro q hq
    rcases List.mem_cons.1 hq with rfl | hq
    · exact hown
    · exact ih _ hrest q hq

/-- In a tree without faults no region has a fault of its own. -/
theorem ownViolations_of_violations {plans : List (Plan σ γ δ)} (h : violations plans = []) :
    ∀ p ∈ Region.preorderOfRegions plans, Plan.ownViolations p = [] :=
  ownViolations_of_violationsFrom _ [] h

omit [Named σ] in
theorem position?_of_declares {nodes : List (PlanNode σ γ δ)} {s : σ} (h : declares nodes s = true) :
    ∃ i, position? nodes s = some i := by
  refine Option.isSome_iff_exists.1 ?_
  unfold position?
  rw [List.findIdx?_isSome]
  exact h

/-- A region without faults designates at most one initial state, and declares it. -/
theorem Plan.initialPosition_of_violations {p : Plan σ γ δ} (h : p.ownViolations = []) :
    ∃ i, p.initialPosition = some i := by
  have hinitial : p.initialViolation = none := by
    unfold Plan.ownViolations at h
    simpa using (List.append_eq_nil_iff.1 (List.append_eq_nil_iff.1 (List.append_eq_nil_iff.1 h).1).1).1
  unfold Plan.initialPosition
  unfold Plan.initialViolation at hinitial
  split at hinitial
  · rename_i hnone
    rw [hnone]
    exact ⟨0, rfl⟩
  · rename_i s hone
    rw [hone]
    split at hinitial
    · rename_i hdeclared
      exact position?_of_declares hdeclared
    · cases hinitial
  · cases hinitial

end Initial

/-! ## Outlines -/

section Outline

variable [DecidableEq σ]

/-- The states of the region with the position of the initial one. -/
def Plan.outline (p : Plan σ γ δ) : List σ × Option Nat :=
  (p.states StateDeclaration.id, p.initialPosition)

/-- The initial state stands among the states. -/
theorem Plan.initialPosition_lt {p : Plan σ γ δ} (hp : p.nodes ≠ []) {i : Nat}
    (h : p.initialPosition = some i) : i < p.nodes.length := by
  unfold Plan.initialPosition at h
  split at h
  · cases h
    exact List.length_pos_iff.2 hp
  · exact (List.findIdx?_eq_some_iff_getElem.1 h).1

variable [Named σ] [Inhabited δ]

/-- Plans that pass have states everywhere, and none twice. -/
theorem Blueprint.plans_ok {b : Blueprint σ γ δ} {plans : List (Plan σ γ δ)} (h : b.plans = .ok plans) :
    (∀ q ∈ Region.preorderOfRegions plans, q.nodes ≠ []) ∧
      ((Region.preorderOfRegions plans).flatMap (Region.states StateDeclaration.id)).Nodup := by
  unfold Blueprint.plans at h
  split at h
  · cases h
  · obtain ⟨planned, hplanned, h⟩ := bind_eq_ok.1 h
    obtain ⟨⟨⟩, hvalid, h⟩ := bind_eq_ok.1 h
    cases h
    exact ⟨fun q hq => (Declaration.planAll_complete _ _ hplanned q hq).nonempty,
      nodup_of_violations (violations_of_validate hvalid)⟩

end Outline

end Statechart
