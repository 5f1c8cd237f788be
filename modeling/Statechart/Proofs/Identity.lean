import Statechart.Proofs.Construction
import Statechart.Proofs.Depth

/-!
# The states of a tree

* `Region.ids`, `Region.allIds` : the states of a region or of several, with all states below;
* `Region.Encloses o s` : the state `s` is in a region of the state `o`, at any depth;
* `Region.Distinct` : no state is twice in the tree; the lemmas say how its parts keep apart.
-/

set_option autoImplicit false

namespace Statechart

variable {σ γ δ α β : Type}

/-- The states of the region and of all regions below it. -/
def Region.ids (r : BuiltRegion σ γ δ) : List σ := r.preorder.flatMap (Region.states StateUnit.id)

/-- The states of the given regions and of all regions below them. -/
def Region.allIds (rs : List (BuiltRegion σ γ δ)) : List σ := rs.flatMap Region.ids

/-- The state `s` is in a region of the state `o`, or in a region below one. -/
inductive Region.Encloses : BuiltRegion σ γ δ → σ → σ → Prop where
  | own {r r' : BuiltRegion σ γ δ} {n : BuiltNode σ γ δ} {s : σ} (hn : n ∈ r.nodes) (hr' : r' ∈ n.regions)
      (hs : s ∈ r'.ids) : Encloses r n.data.id s
  | inner {r r' : BuiltRegion σ γ δ} {n : BuiltNode σ γ δ} {o s : σ} (hn : n ∈ r.nodes)
      (hr' : r' ∈ n.regions) (h : Encloses r' o s) : Encloses r o s

variable {r r' : BuiltRegion σ γ δ} {rs : List (BuiltRegion σ γ δ)} {n : BuiltNode σ γ δ} {o s : σ}

theorem Region.ids_eq (r : BuiltRegion σ γ δ) :
    r.ids = r.states StateUnit.id ++ r.nodes.flatMap fun n => Region.allIds n.regions := by
  unfold Region.ids
  rw [Region.preorder_eq, List.flatMap_cons]
  simp only [List.flatMap_assoc]
  rfl

theorem Region.mem_allIds : s ∈ Region.allIds rs ↔ ∃ r ∈ rs, s ∈ r.ids := List.mem_flatMap

theorem Region.mem_ids :
    s ∈ r.ids ↔ (∃ n ∈ r.nodes, n.data.id = s) ∨ ∃ n ∈ r.nodes, s ∈ Region.allIds n.regions := by
  rw [Region.ids_eq, List.mem_append, List.mem_flatMap]
  unfold Region.states
  rw [List.mem_map]

theorem Region.id_mem_ids (hn : n ∈ r.nodes) : n.data.id ∈ r.ids := Region.mem_ids.2 (.inl ⟨n, hn, rfl⟩)

theorem Region.mem_ids_of_below (hn : n ∈ r.nodes) (hr' : r' ∈ n.regions) (hs : s ∈ r'.ids) : s ∈ r.ids :=
  Region.mem_ids.2 (.inr ⟨n, hn, Region.mem_allIds.2 ⟨r', hr', hs⟩⟩)

theorem Region.Encloses.right_mem (h : r.Encloses o s) : s ∈ r.ids := by
  induction h with
  | own hn hr' hs => exact Region.mem_ids_of_below hn hr' hs
  | inner hn hr' _ ih => exact Region.mem_ids_of_below hn hr' ih

theorem Region.Encloses.left_mem (h : r.Encloses o s) : o ∈ r.ids := by
  induction h with
  | own hn _ _ => exact Region.id_mem_ids hn
  | inner hn hr' _ ih => exact Region.mem_ids_of_below hn hr' ih

/-- What is enclosed by a state of the region is in one of the regions of its states. -/
theorem Region.Encloses.mem_allIds (h : r.Encloses o s) : ∃ n ∈ r.nodes, s ∈ Region.allIds n.regions := by
  cases h with
  | own hn hr' hs => exact ⟨_, hn, Region.mem_allIds.2 ⟨_, hr', hs⟩⟩
  | inner hn hr' h => exact ⟨_, hn, Region.mem_allIds.2 ⟨_, hr', h.right_mem⟩⟩

/-! ## Distinct states -/

/-- Where all images are distinct, an element comes from one place only. -/
theorem eq_of_mem_flatMap {f : α → List β} {l : List α} (h : (l.flatMap f).Nodup) {i j : Nat} {a b : α}
    {x : β} (hi : l[i]? = some a) (hj : l[j]? = some b) (ha : x ∈ f a) (hb : x ∈ f b) : i = j := by
  have hpairwise := (List.nodup_flatMap.1 h).2
  obtain ⟨hilt, rfl⟩ := List.getElem?_eq_some_iff.1 hi
  obtain ⟨hjlt, rfl⟩ := List.getElem?_eq_some_iff.1 hj
  rcases Nat.lt_trichotomy i j with hlt | heq | hgt
  · exact absurd hb (List.pairwise_iff_getElem.1 hpairwise i j hilt hjlt hlt ha)
  · exact heq
  · exact absurd ha (List.pairwise_iff_getElem.1 hpairwise j i hjlt hilt hgt hb)

/-- No state is twice in the region or below it. -/
def Region.Distinct (r : BuiltRegion σ γ δ) : Prop := r.ids.Nodup

/-- No state is twice in the regions or below them. -/
def Region.AllDistinct (rs : List (BuiltRegion σ γ δ)) : Prop := (Region.allIds rs).Nodup

namespace Region.Distinct

theorem index_eq (h : r.Distinct) {i j : Nat} {n n' : BuiltNode σ γ δ} (hn : r.nodes[i]? = some n)
    (hn' : r.nodes[j]? = some n') (hid : n.data.id = n'.data.id) : i = j := by
  unfold Region.Distinct at h
  rw [Region.ids_eq] at h
  have hstates := (List.nodup_append.1 h).1
  unfold Region.states at hstates
  rw [List.map_eq_flatMap] at hstates
  refine eq_of_mem_flatMap hstates hn hn' (x := n.data.id) ?_ ?_ <;> simp [hid]

/-- A state of the region is in no region below. -/
theorem id_not_mem (h : r.Distinct) {n' : BuiltNode σ γ δ} (hn : n ∈ r.nodes) (hn' : n' ∈ r.nodes) :
    n.data.id ∉ Region.allIds n'.regions := by
  unfold Region.Distinct at h
  rw [Region.ids_eq] at h
  intro hmem
  exact (List.nodup_append.1 h).2.2 n.data.id (List.mem_map_of_mem hn) n.data.id
    (List.mem_flatMap.2 ⟨n', hn', hmem⟩) rfl

/-- The states below different states of the region are different. -/
theorem position_eq (h : r.Distinct) {i j : Nat} {n n' : BuiltNode σ γ δ} (hn : r.nodes[i]? = some n)
    (hn' : r.nodes[j]? = some n') (hs : s ∈ Region.allIds n.regions) (hs' : s ∈ Region.allIds n'.regions) :
    i = j := by
  unfold Region.Distinct at h
  rw [Region.ids_eq] at h
  exact eq_of_mem_flatMap (List.nodup_append.1 h).2.1 hn hn' hs hs'

theorem node_eq (h : r.Distinct) {n n' : BuiltNode σ γ δ} (hn : n ∈ r.nodes) (hn' : n' ∈ r.nodes)
    (hs : s ∈ Region.allIds n.regions) (hs' : s ∈ Region.allIds n'.regions) : n = n' := by
  obtain ⟨i, hi⟩ := List.getElem?_of_mem hn
  obtain ⟨j, hj⟩ := List.getElem?_of_mem hn'
  obtain rfl := h.position_eq hi hj hs hs'
  exact Option.some.inj (hi.symm.trans hj)

theorem regions (h : r.Distinct) (hn : n ∈ r.nodes) : Region.AllDistinct n.regions := by
  unfold Region.Distinct at h
  rw [Region.ids_eq] at h
  exact (List.nodup_flatMap.1 (List.nodup_append.1 h).2.1).1 n hn

end Region.Distinct

theorem Region.AllDistinct.of_mem (h : Region.AllDistinct rs) (hr : r ∈ rs) : r.Distinct :=
  (List.nodup_flatMap.1 h).1 r hr

theorem Region.AllDistinct.index_eq (h : Region.AllDistinct rs) {i j : Nat} (hr : rs[i]? = some r)
    (hr' : rs[j]? = some r') (hs : s ∈ r.ids) (hs' : s ∈ r'.ids) : i = j :=
  eq_of_mem_flatMap h hr hr' hs hs'

theorem Region.AllDistinct.eq (h : Region.AllDistinct rs) (hr : r ∈ rs) (hr' : r' ∈ rs) (hs : s ∈ r.ids)
    (hs' : s ∈ r'.ids) : r = r' := by
  obtain ⟨i, hi⟩ := List.getElem?_of_mem hr
  obtain ⟨j, hj⟩ := List.getElem?_of_mem hr'
  obtain rfl := h.index_eq hi hj hs hs'
  exact Option.some.inj (hi.symm.trans hj)

/-- No state is twice in a machine. -/
theorem Blueprint.Assembled.allDistinct [DecidableEq σ] [Named σ] [Inhabited δ] {b : Blueprint σ γ δ}
    {chart : Chart σ γ δ} {c : Configuration σ γ δ} (h : b.Assembled chart c) :
    Region.AllDistinct chart.regions := by
  have hnodup := h.nodup
  rw [Region.preorderOfRegions_eq, List.flatMap_assoc] at hnodup
  exact hnodup

end Statechart
