import Statechart.Proofs.Compilation

/-!
# Paths of regions

The path of a region is its address written out: the names of the regions and of the states that one passes on the
way down to it. Nothing asks for different names when a machine is built, so two regions may have one path. They do
not if the regions are named apart, and no name contains the slash that paths are written with.

* `Declaration.addresses` : the addresses of a region and of all regions below it;
* `pathOf` : an address written out; `pathOf_injOn` : it can be read back if no name contains a slash;
* `Blueprint.paths_of_build` : the paths of a machine that is built are the addresses of its blueprint;
* `Declaration.ToldApart`, `Blueprint.ToldApart` : no two regions have one address;
  `Declaration.nodup_addresses_iff`;
* `paths_identify_regions`, `twin_lamps_share_a_path`.
-/

set_option autoImplicit false

namespace Statechart

variable {σ γ δ : Type}

/-! ## Addresses -/

section Addresses

variable [Named σ]

mutual

/-- The addresses of a region and of all regions below it, outer ones first: the names on the way down from the region
itself. -/
def Declaration.addresses : Declaration σ γ δ → List (List String)
  | ⟨d, nodes⟩ => ([] :: Declaration.addressesOfNodes nodes).map (d.name :: ·)

/-- The addresses of all regions below the given states. -/
def Declaration.addressesOfNodes :
    List (Node (RegionDeclaration σ γ) (StateDeclaration σ γ δ)) → List (List String)
  | [] => []
  | node :: nodes => Declaration.addressesOfNode node ++ Declaration.addressesOfNodes nodes

/-- The addresses of all regions below a state. -/
def Declaration.addressesOfNode : Node (RegionDeclaration σ γ) (StateDeclaration σ γ δ) → List (List String)
  | ⟨s, regions⟩ => (Declaration.addressesOfRegions regions).map (Named.name s.id :: ·)

/-- The addresses of the given regions and of all regions below them. -/
def Declaration.addressesOfRegions : List (Declaration σ γ δ) → List (List String)
  | [] => []
  | r :: rs => r.addresses ++ Declaration.addressesOfRegions rs

end

/-- The regions of the states of a region, each with the name of its state. -/
def Declaration.owned (d : Declaration σ γ δ) : List (String × Declaration σ γ δ) :=
  d.nodes.flatMap fun n => n.regions.map fun r => (Named.name n.data.id, r)

theorem Declaration.addressesOfRegions_eq :
    ∀ rs : List (Declaration σ γ δ), Declaration.addressesOfRegions rs = rs.flatMap Declaration.addresses
  | [] => rfl
  | r :: rs => by
    rw [Declaration.addressesOfRegions, Declaration.addressesOfRegions_eq rs, List.flatMap_cons]

theorem Declaration.addressesOfNodes_eq :
    ∀ nodes : List (Node (RegionDeclaration σ γ) (StateDeclaration σ γ δ)),
      Declaration.addressesOfNodes nodes = nodes.flatMap fun n => n.regions.flatMap fun r =>
        (Declaration.addresses r).map (Named.name n.data.id :: ·)
  | [] => rfl
  | ⟨s, regions⟩ :: nodes => by
    rw [Declaration.addressesOfNodes, Declaration.addressesOfNodes_eq nodes, Declaration.addressesOfNode,
      Declaration.addressesOfRegions_eq, List.map_flatMap, List.flatMap_cons]
    rfl

theorem Declaration.addresses_eq (d : Declaration σ γ δ) :
    d.addresses = ([] :: d.owned.flatMap fun q => q.2.addresses.map (q.1 :: ·)).map (d.name :: ·) := by
  obtain ⟨data, nodes⟩ := d
  rw [Declaration.addresses, Declaration.addressesOfNodes_eq, Declaration.owned, List.flatMap_assoc]
  simp only [List.flatMap_map]
  rfl

theorem Declaration.preorder_eq_owned (d : Declaration σ γ δ) :
    d.preorder = d :: d.owned.flatMap fun q => q.2.preorder := by
  rw [Region.preorder_eq, Declaration.owned, List.flatMap_assoc]
  simp only [List.flatMap_map]

/-- What holds of the regions of a tree holds of the outermost one and of those in the trees that its states own. -/
theorem Declaration.forall_preorder_iff {P : Declaration σ γ δ → Prop} (d : Declaration σ γ δ) :
    (∀ q ∈ d.preorder, P q) ↔ P d ∧ ∀ q ∈ d.owned, ∀ q' ∈ q.2.preorder, P q' := by
  rw [Declaration.preorder_eq_owned]
  simp only [List.forall_mem_cons, List.mem_flatMap, forall_exists_index, and_imp]
  refine and_congr_right fun _ => ⟨fun h q hq q' hq' => h q' q hq hq', fun h q' q hq hq' => h q hq q' hq'⟩

/-- Induction over the nesting of declared regions. -/
@[elab_as_elim]
theorem Declaration.induct {P : Declaration σ γ δ → Prop} (step : ∀ d, (∀ q ∈ d.owned, P q.2) → P d)
    (d : Declaration σ γ δ) : P d := by
  induction d using Region.induct with
  | step data nodes ih =>
    refine step _ fun q hq => ?_
    obtain ⟨n, hn, hq⟩ := List.mem_flatMap.1 hq
    obtain ⟨r, hr, rfl⟩ := List.mem_map.1 hq
    exact ih n hn r hr

/-- Every address begins with the name of the outermost region. -/
theorem Declaration.head_of_mem_addresses {d : Declaration σ γ δ} {a : List String} (h : a ∈ d.addresses) :
    ∃ rest, a = d.name :: rest := by
  rw [Declaration.addresses_eq] at h
  obtain ⟨rest, -, rfl⟩ := List.mem_map.1 h
  exact ⟨rest, rfl⟩

theorem Declaration.mem_addresses_self (d : Declaration σ γ δ) : [d.name] ∈ d.addresses := by
  rw [Declaration.addresses_eq, List.map_cons]
  exact List.mem_cons_self

end Addresses

/-! ## Regions with addresses of their own -/

/-- Blocks that are marked by their keys, each member of a block and the key with it, are apart if and only if the keys
are. -/
theorem nodup_flatMap_iff {α β κ : Type} {block : α → List β} {key : α → κ} (mark : β → κ) (sample : κ → β)
    (hmark : ∀ a, ∀ b ∈ block a, mark b = key a) (hsample : ∀ a, sample (key a) ∈ block a) (l : List α) :
    (l.flatMap block).Nodup ↔ (l.map key).Nodup ∧ ∀ a ∈ l, (block a).Nodup := by
  have happart (a b : α) : (block a).Disjoint (block b) ↔ key a ≠ key b := by
    rw [List.disjoint_left]
    constructor
    · intro h heq
      exact h (hsample a) (heq ▸ hsample b)
    · intro h c hca hcb
      exact h ((hmark a c hca).symm.trans (hmark b c hcb))
  rw [List.nodup_flatMap, and_comm]
  refine and_congr_left fun _ => ?_
  rw [List.Nodup, List.pairwise_map]
  exact List.Pairwise.iff happart

section Apart

variable [Named σ]

/-- No two regions of the states of the region agree in their own name and in that of their state. -/
def Declaration.ToldApart (d : Declaration σ γ δ) : Prop := (d.owned.map fun q => (q.1, q.2.name)).Nodup

theorem Declaration.nodup_addresses_iff (d : Declaration σ γ δ) :
    d.addresses.Nodup ↔ ∀ q ∈ d.preorder, Declaration.ToldApart q := by
  induction d using Declaration.induct with
  | step d ih =>
    have hbelow : (d.owned.flatMap fun q => q.2.addresses.map (q.1 :: ·)).Nodup ↔
        d.ToldApart ∧ ∀ q ∈ d.owned, (q.2.addresses.map (q.1 :: ·)).Nodup := by
      refine nodup_flatMap_iff (fun a => (a.headD "", a.tail.headD "")) (fun k => [k.1, k.2]) (fun q a ha => ?_)
        (fun q => ?_) d.owned
      · obtain ⟨a', ha', rfl⟩ := List.mem_map.1 ha
        obtain ⟨rest, rfl⟩ := Declaration.head_of_mem_addresses ha'
        rfl
      · exact List.mem_map_of_mem q.2.mem_addresses_self
    have hhere : [] ∉ d.owned.flatMap fun q => q.2.addresses.map (q.1 :: ·) := by simp
    rw [Declaration.addresses_eq, List.nodup_map_iff List.cons_injective, List.nodup_cons, hbelow,
      Declaration.forall_preorder_iff]
    simp only [hhere, not_false_eq_true, true_and]
    refine and_congr_right fun _ => forall₂_congr fun q hq => ?_
    rw [List.nodup_map_iff List.cons_injective, ih q hq]

/-- No two regions have one address: not at the top, nor among the regions of the states of any region. -/
structure Blueprint.ToldApart (b : Blueprint σ γ δ) : Prop where
  top : (b.regions.map Declaration.name).Nodup
  below : ∀ q ∈ Region.preorderOfRegions b.regions, Declaration.ToldApart q

theorem Blueprint.nodup_addresses_iff (b : Blueprint σ γ δ) :
    (Declaration.addressesOfRegions b.regions).Nodup ↔ b.ToldApart := by
  have htop : (b.regions.flatMap Declaration.addresses).Nodup ↔
      (b.regions.map Declaration.name).Nodup ∧ ∀ d ∈ b.regions, d.addresses.Nodup := by
    refine nodup_flatMap_iff (fun a => a.headD "") (fun name => [name]) (fun d a ha => ?_)
      Declaration.mem_addresses_self b.regions
    obtain ⟨rest, rfl⟩ := Declaration.head_of_mem_addresses ha
    rfl
  rw [Declaration.addressesOfRegions_eq, htop]
  simp only [Declaration.nodup_addresses_iff]
  constructor
  · rintro ⟨hnames, hbelow⟩
    refine ⟨hnames, fun q hq => ?_⟩
    rw [Region.preorderOfRegions_eq] at hq
    obtain ⟨d, hd, hq⟩ := List.mem_flatMap.1 hq
    exact hbelow d hd q hq
  · rintro ⟨hnames, hbelow⟩
    exact ⟨hnames, fun d hd q hq => hbelow q (Region.mem_preorderOfRegions hd hq)⟩

end Apart

/-! ## Addresses in writing -/

/-- An address written out. -/
def pathOf (address : List String) : String := "/".intercalate address

theorem pathOf_singleton (name : String) : pathOf [name] = name := String.intercalate_singleton

/-- The path of a region that a state owns is its address written out. -/
theorem childPath_pathOf {address : List String} (h : address ≠ []) (state name : String) :
    childPath (pathOf address) state name = pathOf (address ++ [state, name]) := by
  unfold childPath pathOf
  rw [String.intercalate_append_of_ne_nil h (List.cons_ne_nil _ _), String.intercalate_cons_cons,
    String.intercalate_singleton]
  simp only [String.append_assoc]

/-- The names of the region, and of the states in it that own regions, contain no slash. -/
structure Declaration.Plain [Named σ] (d : Declaration σ γ δ) : Prop where
  name : '/' ∉ d.name.toList
  owners : ∀ q ∈ d.owned, '/' ∉ q.1.toList

/-- No name that occurs in a path contains a slash. -/
def Blueprint.Plain [Named σ] (b : Blueprint σ γ δ) : Prop :=
  ∀ q ∈ Region.preorderOfRegions b.regions, Declaration.Plain q

/-- An address whose names contain no slash can be read back. -/
theorem pathOf_inj {a b : List String} (ha : ∀ s ∈ a, '/' ∉ s.toList) (hb : ∀ s ∈ b, '/' ∉ s.toList)
    (ha' : a ≠ []) (hb' : b ≠ []) (h : pathOf a = pathOf b) : a = b := by
  have hread (c : List String) (hc : ∀ s ∈ c, '/' ∉ s.toList) (hc' : c ≠ []) :
      (pathOf c).toList.splitOn '/' = c.map String.toList := by
    unfold pathOf
    rw [String.toList_intercalate, show "/".toList = ['/'] from rfl]
    exact List.splitOn_intercalate '/' (by simpa using hc) (by simpa using hc')
  have hnames : a.map String.toList = b.map String.toList := by rw [← hread a ha ha', ← hread b hb hb', h]
  exact List.map_injective_iff.2 (fun _ _ => String.toList_inj.1) hnames

theorem Declaration.plain_of_mem_addresses [Named σ] (d : Declaration σ γ δ)
    (h : ∀ q ∈ d.preorder, Declaration.Plain q) : ∀ a ∈ d.addresses, ∀ s ∈ a, '/' ∉ s.toList := by
  induction d using Declaration.induct with
  | step d ih =>
    rw [Declaration.forall_preorder_iff] at h
    rw [Declaration.addresses_eq]
    intro a ha
    obtain ⟨a', ha', rfl⟩ := List.mem_map.1 ha
    refine List.forall_mem_cons.2 ⟨h.1.name, ?_⟩
    rcases List.mem_cons.1 ha' with rfl | ha'
    · simp
    · obtain ⟨q, hq, ha'⟩ := List.mem_flatMap.1 ha'
      obtain ⟨a'', ha'', rfl⟩ := List.mem_map.1 ha'
      exact List.forall_mem_cons.2 ⟨h.1.owners q hq, ih q hq (h.2 q hq) a'' ha''⟩

/-- Of the addresses of a blueprint no two are written alike. -/
theorem Blueprint.Plain.pathOf_injOn [Named σ] {b : Blueprint σ γ δ} (h : b.Plain) :
    ∀ a ∈ Declaration.addressesOfRegions b.regions, ∀ a' ∈ Declaration.addressesOfRegions b.regions,
      pathOf a = pathOf a' → a = a' := by
  have hplain : ∀ a ∈ Declaration.addressesOfRegions b.regions, a ≠ [] ∧ ∀ s ∈ a, '/' ∉ s.toList := by
    intro a ha
    rw [Declaration.addressesOfRegions_eq] at ha
    obtain ⟨d, hd, ha⟩ := List.mem_flatMap.1 ha
    obtain ⟨rest, rfl⟩ := Declaration.head_of_mem_addresses ha
    exact ⟨List.cons_ne_nil _ _,
      d.plain_of_mem_addresses (fun q hq => h q (Region.mem_preorderOfRegions hd hq)) _ ha⟩
  intro a ha a' ha' heq
  exact pathOf_inj (hplain a ha).2 (hplain a' ha').2 (hplain a ha).1 (hplain a' ha').1 heq

/-! ## Paths of machines -/

section Paths

variable [DecidableEq σ] [Named σ] [Inhabited δ]

mutual

/-- The paths of a plan are the addresses of its declaration, below where it stands. -/
theorem Declaration.plan_paths (above : List String) :
    ∀ (d : Declaration σ γ δ) (p : Plan σ γ δ), d.plan (pathOf (above ++ [d.data.name])) = .ok p →
      p.preorder.map (·.data.path) = d.addresses.map fun a => pathOf (above ++ a)
  | ⟨d, nodes⟩, p, h => by
    rw [Declaration.plan] at h
    obtain ⟨rows, -, h⟩ := bind_eq_ok.1 h
    obtain ⟨declared, hdeclared, h⟩ := bind_eq_ok.1 h
    dsimp only at h
    split at h
    · cases h
    · cases h
      have hbelow := Declaration.planNodes_paths (above ++ [d.name]) (by simp) nodes declared hdeclared
      rw [Region.preorder, preorderOfNodes_foldl_declareImplicitly, List.map_cons, hbelow, Declaration.addresses]
      simp [Region.data]

theorem Declaration.planNodes_paths (above : List String) (habove : above ≠ []) :
    ∀ (nodes : List (Node (RegionDeclaration σ γ) (StateDeclaration σ γ δ)))
      (planned : List (PlanNode σ γ δ)), Declaration.planNodes (pathOf above) nodes = .ok planned →
        (Node.preorderOfNodes planned).map (·.data.path) =
          (Declaration.addressesOfNodes nodes).map fun a => pathOf (above ++ a)
  | [], planned, h => by
    cases h
    rfl
  | node :: nodes, planned, h => by
    rw [Declaration.planNodes] at h
    obtain ⟨first, hfirst, h⟩ := bind_eq_ok.1 h
    obtain ⟨rest, hrest, h⟩ := bind_eq_ok.1 h
    cases h
    rw [Node.preorderOfNodes, Declaration.addressesOfNodes, List.map_append, List.map_append,
      Declaration.planNode_paths above habove node first hfirst,
      Declaration.planNodes_paths above habove nodes rest hrest]

theorem Declaration.planNode_paths (above : List String) (habove : above ≠ []) :
    ∀ (node : Node (RegionDeclaration σ γ) (StateDeclaration σ γ δ)) (planned : PlanNode σ γ δ),
      Declaration.planNode (pathOf above) node = .ok planned →
        planned.preorder.map (·.data.path) =
          (Declaration.addressesOfNode node).map fun a => pathOf (above ++ a)
  | ⟨s, regions⟩, planned, h => by
    rw [Declaration.planNode] at h
    obtain ⟨plans, hplans, h⟩ := bind_eq_ok.1 h
    cases h
    rw [Node.preorder, Declaration.addressesOfNode,
      Declaration.planRegions_paths above (Named.name s.id) habove regions plans hplans, List.map_map]
    simp [Function.comp_def]

theorem Declaration.planRegions_paths (above : List String) (owner : String) (habove : above ≠ []) :
    ∀ (rs : List (Declaration σ γ δ)) (plans : List (Plan σ γ δ)),
      Declaration.planRegions (pathOf above) owner rs = .ok plans →
        (Region.preorderOfRegions plans).map (·.data.path) =
          (Declaration.addressesOfRegions rs).map fun a => pathOf (above ++ [owner] ++ a)
  | [], plans, h => by
    cases h
    rfl
  | r :: rs, plans, h => by
    rw [Declaration.planRegions] at h
    obtain ⟨first, hfirst, h⟩ := bind_eq_ok.1 h
    obtain ⟨rest, hrest, h⟩ := bind_eq_ok.1 h
    cases h
    rw [childPath_pathOf habove, show above ++ [owner, r.data.name] = above ++ [owner] ++ [r.data.name] by simp]
      at hfirst
    rw [Region.preorderOfRegions, Declaration.addressesOfRegions, List.map_append, List.map_append,
      Declaration.plan_paths (above ++ [owner]) r first hfirst,
      Declaration.planRegions_paths above owner habove rs rest hrest]

end

theorem Declaration.planAll_paths {rs : List (Declaration σ γ δ)} {plans : List (Plan σ γ δ)}
    (h : Declaration.planAll rs = .ok plans) :
    (Region.preorderOfRegions plans).map (·.data.path) = (Declaration.addressesOfRegions rs).map pathOf := by
  unfold Declaration.planAll at h
  induction rs generalizing plans with
  | nil =>
    cases h
    rfl
  | cons r rs ih =>
    rw [List.mapM_cons] at h
    obtain ⟨first, hfirst, h⟩ := bind_eq_ok.1 h
    obtain ⟨rest, hrest, h⟩ := bind_eq_ok.1 h
    cases h
    have hpaths := r.plan_paths [] first (by rwa [List.nil_append, pathOf_singleton])
    rw [Region.preorderOfRegions, Declaration.addressesOfRegions, List.map_append, List.map_append, hpaths,
      ih hrest]
    rfl

/-- The paths of the regions of a machine, outer ones first. -/
def Machine.paths (m : Machine σ γ δ) : List String :=
  (Region.preorderOfRegions m.chart.regions).map (·.data.path)

/-- The paths of a machine that is built are the addresses of its blueprint, written out. -/
theorem Blueprint.paths_of_build {b : Blueprint σ γ δ} {bound : Nat} {context : Callback Unit γ}
    {m : Machine σ γ δ} (h : b.build bound context = .ready m) :
    m.paths = (Declaration.addressesOfRegions b.regions).map pathOf := by
  obtain ⟨plans, w, c, hplans, -, -, hmade, -⟩ := Blueprint.constructed_of_build h
  have hcompiled := ((Plan.constructAll_compiled plans fun _ _ _ _ => trivial) ⟨w, .fresh⟩).of_ok hmade
  have hpaths : m.paths = (Region.preorderOfRegions plans).map (·.data.path) := by
    have hsame : List.Forall₂ (fun (r : BuiltRegion σ γ δ) (p : Plan σ γ δ) => r.data.path = p.data.path)
        (Region.preorderOfRegions m.chart.regions) (Region.preorderOfRegions plans) :=
      (hcompiled.2.1 _ rfl).2.flip.imp fun _ _ hpr => hpr.compiles.path
    exact List.forall₂_eq_eq_eq ▸ List.forall₂_map_left_iff.2 (List.forall₂_map_right_iff.2 hsame)
  unfold Blueprint.plans at hplans
  split at hplans
  · cases hplans
  · obtain ⟨planned, hplanned, h⟩ := bind_eq_ok.1 hplans
    obtain ⟨⟨⟩, -, h⟩ := bind_eq_ok.1 h
    cases h
    rw [hpaths, Declaration.planAll_paths hplanned]

/-- Regions whose paths are different are told apart; regions that are told apart have different paths unless a name
contains a slash. -/
theorem paths_identify_regions {b : Blueprint σ γ δ} {bound : Nat} {context : Callback Unit γ} {m : Machine σ γ δ}
    (h : b.build bound context = .ready m) :
    (m.paths.Nodup → b.ToldApart) ∧ (b.Plain → b.ToldApart → m.paths.Nodup) := by
  rw [Blueprint.paths_of_build h, ← Blueprint.nodup_addresses_iff]
  exact ⟨List.Nodup.of_map pathOf, fun hplain => List.Nodup.map_on hplain.pathOf_injOn⟩

end Paths

/-- The lamp and its light are told apart, and no name contains a slash; so they have different paths. -/
theorem paths_identify_regions_lamp :
    Lamp.blueprint.build 0 (pure () : Callback Unit Unit) = .ready Lamp.built ∧ Lamp.blueprint.Plain ∧
      Lamp.blueprint.ToldApart ∧ Lamp.built.paths.Nodup := by
  have hbuild : Lamp.blueprint.build 0 (pure () : Callback Unit Unit) = .ready Lamp.built := rfl
  have hplain : Lamp.blueprint.Plain := by
    unfold Blueprint.Plain
    rw [show Region.preorderOfRegions Lamp.blueprint.regions = [_, _] from rfl]
    simp only [List.forall_mem_cons]
    exact ⟨⟨by decide, by decide⟩, ⟨by decide, by decide⟩, by simp⟩
  have hapart : Lamp.blueprint.ToldApart := (Blueprint.nodup_addresses_iff _).1 (by decide)
  exact ⟨hbuild, hplain, hapart, (paths_identify_regions hbuild).2 hplain hapart⟩

/-! ## Two lamps of one name -/

namespace Lamp

/-- Two lamps of which nothing but the states is different. -/
def twins : Blueprint Lamp Unit Unit where
  regions :=
    [Declaration.new "lamp" |>.initial off |>.transition (row off (.state on) press),
      Declaration.new "lamp" |>.initial dim |>.transition (row dim (.state bright) press)]
  setup := { settings := { autoStart := false, trackHistory := true } }

/-- A lamp that goes from one state to another when it is pressed. -/
def twin (s t : Lamp) : BuiltRegion Lamp Unit Unit :=
  ⟨⟨"lamp", [row s (.state 1) press], 0⟩, [node s [], node t []]⟩

/-- The two lamps before they are started. -/
def twinned : Machine Lamp Unit Unit where
  chart := ⟨[twin off on, twin dim bright], twins.setup⟩
  configuration :=
    (withNotes [.stateMade bright, .stateMade dim, .stateMade on, .stateMade off, .contextMade] []).configuration

end Lamp

/-- Two regions of one name are built, and have one path; what both of them go through is taken for the path of one. -/
theorem twin_lamps_share_a_path :
    Lamp.twins.build 0 (pure () : Callback Unit Unit) = .ready Lamp.twinned ∧ Lamp.twinned.paths = ["lamp", "lamp"] ∧
      ∃ m, Lamp.twinned.operate 0 .start = (.ok (), m) ∧
        (m.operate 1 (.process Lamp.press)).2.configuration.world.history.path "lamp" = [.off, .on, .bright] := by
  refine ⟨rfl, rfl, _, rfl, ?_⟩
  decide +kernel

end Statechart
