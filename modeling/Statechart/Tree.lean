/-!
# Trees of regions

A machine is a tree: a region holds the states of which one at a time is active, and a state may own
regions in turn. The tree is the same for a declaration, a plan and a finished machine, which differ
only in what they keep at each region and each state.

* `Region ρ ν`, `Node ρ ν` : regions with data `ρ`, states with data `ν`;
* `Region.preorder` : a region and all regions below it, outer ones first (`preorder_eq`);
* `Region.induct` : what holds of a region when it holds of the regions of its states, holds of all.
-/

set_option autoImplicit false

namespace Statechart

mutual

/-- A region and its states. -/
inductive Region (ρ ν : Type) where
  | mk (data : ρ) (nodes : List (Node ρ ν))

/-- A state and the regions that it owns. -/
inductive Node (ρ ν : Type) where
  | mk (data : ν) (regions : List (Region ρ ν))

end

variable {ρ ν : Type}

def Region.data : Region ρ ν → ρ
  | ⟨data, _⟩ => data

/-- The states of a region. -/
def Region.nodes : Region ρ ν → List (Node ρ ν)
  | ⟨_, nodes⟩ => nodes

def Node.data : Node ρ ν → ν
  | ⟨data, _⟩ => data

/-- The regions of a state. -/
def Node.regions : Node ρ ν → List (Region ρ ν)
  | ⟨_, regions⟩ => regions

/-- Whether the state owns regions. -/
def Node.isComposite (n : Node ρ ν) : Bool := !n.regions.isEmpty

mutual

/-- A region and all regions below it: each before those that its states own, these in the order of
the states and of their declaration. -/
def Region.preorder : Region ρ ν → List (Region ρ ν)
  | ⟨data, nodes⟩ => ⟨data, nodes⟩ :: Node.preorderOfNodes nodes

/-- All regions below the given states. -/
def Node.preorderOfNodes : List (Node ρ ν) → List (Region ρ ν)
  | [] => []
  | node :: nodes => node.preorder ++ Node.preorderOfNodes nodes

/-- All regions below a state. -/
def Node.preorder : Node ρ ν → List (Region ρ ν)
  | ⟨_, regions⟩ => Region.preorderOfRegions regions

/-- The given regions and all regions below them. -/
def Region.preorderOfRegions : List (Region ρ ν) → List (Region ρ ν)
  | [] => []
  | r :: rs => r.preorder ++ Region.preorderOfRegions rs

end

theorem Region.preorderOfRegions_eq :
    ∀ rs : List (Region ρ ν), Region.preorderOfRegions rs = rs.flatMap Region.preorder
  | [] => rfl
  | r :: rs => by rw [Region.preorderOfRegions, Region.preorderOfRegions_eq rs, List.flatMap_cons]

theorem Node.preorderOfNodes_eq :
    ∀ nodes : List (Node ρ ν),
      Node.preorderOfNodes nodes = nodes.flatMap fun n => n.regions.flatMap Region.preorder
  | [] => rfl
  | ⟨_, regions⟩ :: nodes => by
    rw [Node.preorderOfNodes, Node.preorderOfNodes_eq nodes, Node.preorder, Region.preorderOfRegions_eq,
      List.flatMap_cons]
    rfl

theorem Region.preorder_eq (r : Region ρ ν) :
    r.preorder = r :: r.nodes.flatMap fun n => n.regions.flatMap Region.preorder := by
  obtain ⟨data, nodes⟩ := r
  rw [Region.preorder, Node.preorderOfNodes_eq]
  rfl

theorem Region.mem_preorder_self (r : Region ρ ν) : r ∈ r.preorder := by
  rw [Region.preorder_eq]
  exact List.mem_cons_self

/-- What is below a region of a state is below the region of the state. -/
theorem Region.mem_preorder_of_mem {r r' s : Region ρ ν} {n : Node ρ ν} (hn : n ∈ r.nodes)
    (hr' : r' ∈ n.regions) (hs : s ∈ r'.preorder) : s ∈ r.preorder := by
  rw [Region.preorder_eq r]
  refine List.mem_cons_of_mem _ (List.mem_flatMap.2 ⟨n, hn, ?_⟩)
  exact List.mem_flatMap.2 ⟨r', hr', hs⟩

/-- Induction over the nesting of regions. -/
@[elab_as_elim]
theorem Region.induct {P : Region ρ ν → Prop}
    (step : ∀ data nodes, (∀ n ∈ nodes, ∀ r ∈ n.regions, P r) → P ⟨data, nodes⟩) (r : Region ρ ν) : P r :=
  Region.rec (motive_1 := P) (motive_2 := fun n => ∀ r ∈ n.regions, P r)
    (motive_3 := fun nodes => ∀ n ∈ nodes, ∀ r ∈ n.regions, P r)
    (motive_4 := fun regions => ∀ r ∈ regions, P r)
    (fun data nodes ih => step data nodes ih)
    (fun _ _ ih => ih)
    (fun _ h => absurd h List.not_mem_nil)
    (fun _ _ ih ihs n h => (List.mem_cons.1 h).elim (fun e => e ▸ ih) (ihs n))
    (fun _ h => absurd h List.not_mem_nil)
    (fun _ _ ih ihs r h => (List.mem_cons.1 h).elim (fun e => e ▸ ih) (ihs r))
    r

theorem Region.mem_preorderOfRegions {r s : Region ρ ν} {rs : List (Region ρ ν)} (hr : r ∈ rs) (hs : s ∈ r.preorder) :
    s ∈ Region.preorderOfRegions rs := by
  rw [Region.preorderOfRegions_eq]
  exact List.mem_flatMap.2 ⟨r, hr, hs⟩

theorem Region.mem_preorder_trans {q p r : Region ρ ν} (hq : q ∈ p.preorder) (hp : p ∈ r.preorder) :
    q ∈ r.preorder := by
  induction r using Region.induct with
  | step data nodes ih =>
    rw [Region.preorder_eq] at hp
    rcases List.mem_cons.1 hp with rfl | hp
    · exact hq
    · obtain ⟨n, hn, hp⟩ := List.mem_flatMap.1 hp
      obtain ⟨r', hr', hp⟩ := List.mem_flatMap.1 hp
      exact Region.mem_preorder_of_mem hn hr' (ih n hn r' hr' hp)

end Statechart
