import Statechart.Proofs.Identity

/-!
# What is active, asked for in two ways

Whether a state is active, and which states are active, is found out by two walks through the tree. They agree on
every marking. As no state is twice in the tree of a machine and a region has one active state at most, the list of
active states has no state twice either, whatever an operation that failed has left half done.

* `Region.isActive_iff`, `Region.anyActive_iff` : the two walks agree;
* `Region.activeStates_of_at`, `Region.exists_of_mem_activeStates` : what is active in a region is its active state and
  what is active below it;
* `Region.Beside rs s t` : the regions of `s` and `t` are side by side, that of `s` first;
* `Region.activeStates_nodup`, `Region.Encloses.sublist`, `Region.Beside.sublist`, `Region.active_unique` : the list of
  active states;
* `state_queries_agree`.
-/

set_option autoImplicit false

namespace Statechart

variable {σ γ δ : Type} {r r' : BuiltRegion σ γ δ} {rs : List (BuiltRegion σ γ δ)} {n : BuiltNode σ γ δ}
  {m : Marking δ} {i position index : Nat} {s t : σ}

/-! ## The list of active states -/

/-- The active states of a region are its active state and those below it. -/
theorem Region.activeStates_of_at (hn : r.nodes[i]? = some n) (hactive : m.active = .at i) :
    r.activeStates m = n.data.id :: Region.allActiveStates i 0 n.regions m := by
  obtain ⟨table, nodes⟩ := r
  rw [Region.activeStates, hactive]
  dsimp only
  rw [Node.activeStatesAt_eq, show nodes[i]? = some n from hn, Option.elim_some, Node.activeStates_eq]

theorem Region.exists_of_mem_activeStates (hs : s ∈ r.activeStates m) :
    ∃ i n, m.active = .at i ∧ r.nodes[i]? = some n := by
  obtain ⟨table, nodes⟩ := r
  rw [Region.activeStates] at hs
  cases hactive : m.active with
  | stopped => simp [hactive] at hs
  | final => simp [hactive] at hs
  | «at» i =>
    rw [hactive] at hs
    dsimp only at hs
    rw [Node.activeStatesAt_eq] at hs
    cases hn : nodes[i]? with
    | none => simp [hn] at hs
    | some n => exact ⟨i, n, rfl, hn⟩

/-- An active state is one of the region or of a region below it. -/
theorem Region.mem_ids_of_mem_activeStates (hs : s ∈ r.activeStates m) : s ∈ r.ids := by
  induction r using Region.induct generalizing m with
  | step table nodes ih =>
    obtain ⟨i, n, hactive, hn⟩ := Region.exists_of_mem_activeStates hs
    have hmem : n ∈ nodes := List.mem_of_getElem? hn
    rw [Region.activeStates_of_at hn hactive] at hs
    rcases List.mem_cons.1 hs with rfl | hs
    · exact Region.id_mem_ids hmem
    · obtain ⟨j, r', hr', hs⟩ := Region.mem_allActiveStates.1 hs
      have hr' := List.mem_of_getElem? hr'
      exact Region.mem_ids_of_below hmem hr' (ih n hmem r' hr' hs)

theorem Region.mem_allIds_of_mem_allActiveStates (hs : s ∈ Region.allActiveStates position index rs m) :
    s ∈ Region.allIds rs := by
  obtain ⟨j, r, hr, hs⟩ := Region.mem_allActiveStates.1 hs
  exact Region.mem_allIds.2 ⟨r, List.mem_of_getElem? hr, Region.mem_ids_of_mem_activeStates hs⟩

/-- What is active in a region is its active state, or active below it. -/
theorem Region.mem_activeStates_of_at (hn : r.nodes[i]? = some n) (hactive : m.active = .at i) :
    s ∈ r.activeStates m ↔ s = n.data.id ∨ s ∈ Region.allActiveStates i 0 n.regions m := by
  rw [Region.activeStates_of_at hn hactive, List.mem_cons]

/-! ## Two walks -/

section Walks

variable [DecidableEq σ]

theorem Region.anyActive_iff (position index : Nat)
    (h : ∀ r ∈ rs, ∀ m : Marking δ, r.isActive s m = true ↔ s ∈ r.activeStates m) :
    Region.anyActive s position index rs m = true ↔ s ∈ Region.allActiveStates position index rs m := by
  induction rs generalizing index with
  | nil => simp [Region.anyActive, Region.allActiveStates]
  | cons r rs ih =>
    rw [List.forall_mem_cons] at h
    rw [Region.anyActive, Region.allActiveStates, Bool.or_eq_true, List.mem_append, h.1, ih (index + 1) h.2]

theorem Region.isActive_iff (r : BuiltRegion σ γ δ) (m : Marking δ) :
    r.isActive s m = true ↔ s ∈ r.activeStates m := by
  induction r using Region.induct generalizing m with
  | step table nodes ih =>
    obtain ⟨active, locals, children⟩ := m
    cases active with
    | stopped => exact iff_of_false Bool.false_ne_true List.not_mem_nil
    | final => exact iff_of_false Bool.false_ne_true List.not_mem_nil
    | «at» i =>
      change Node.isActiveAt s i nodes i _ = true ↔ s ∈ Node.activeStatesAt i nodes i _
      rw [Node.isActiveAt_eq, Node.activeStatesAt_eq]
      cases hn : nodes[i]? with
      | none => simp
      | some n =>
        obtain ⟨unit, regions⟩ := n
        have hregions := Region.anyActive_iff (s := s) (m := ⟨.at i, locals, children⟩) i 0
          (ih ⟨unit, regions⟩ (List.mem_of_getElem? hn))
        rw [Option.elim_some, Option.elim_some, Node.hasActive, Node.activeStates, Bool.or_eq_true, List.mem_cons]
        exact or_congr (by simp [eq_comm]) hregions

end Walks

/-! ## The order of the list -/

/-- The states `s` and `t` are in two regions side by side, or in regions below them, and that of `s` was declared
before that of `t`. The regions are some of the given ones, or belong to one state below them. -/
inductive Region.Beside : List (BuiltRegion σ γ δ) → σ → σ → Prop where
  | here {rs : List (BuiltRegion σ γ δ)} {j k : Nat} {r r' : BuiltRegion σ γ δ} {s t : σ} (hlt : j < k)
      (hr : rs[j]? = some r) (hr' : rs[k]? = some r') (hs : s ∈ r.ids) (ht : t ∈ r'.ids) : Beside rs s t
  | inner {rs : List (BuiltRegion σ γ δ)} {r : BuiltRegion σ γ δ} {n : BuiltNode σ γ δ} {s t : σ} (hr : r ∈ rs)
      (hn : n ∈ r.nodes) (h : Beside n.regions s t) : Beside rs s t

theorem Region.Beside.mem_allIds (h : Region.Beside rs s t) : s ∈ Region.allIds rs ∧ t ∈ Region.allIds rs := by
  induction h with
  | here _ hr hr' hs ht =>
    exact ⟨Region.mem_allIds.2 ⟨_, List.mem_of_getElem? hr, hs⟩, Region.mem_allIds.2 ⟨_, List.mem_of_getElem? hr', ht⟩⟩
  | inner hr hn _ ih =>
    exact ⟨Region.mem_allIds.2 ⟨_, hr, Region.mem_ids.2 (.inr ⟨_, hn, ih.1⟩)⟩,
      Region.mem_allIds.2 ⟨_, hr, Region.mem_ids.2 (.inr ⟨_, hn, ih.2⟩)⟩⟩

/-- What is active in one of several regions is active among them. -/
theorem Region.activeStates_sublist (position index : Nat) {j : Nat} (hr : rs[j]? = some r) :
    (r.activeStates (m.child (position, index + j))).Sublist (Region.allActiveStates position index rs m) := by
  induction rs generalizing index j with
  | nil => cases hr
  | cons first rs ih =>
    rw [Region.allActiveStates]
    cases j with
    | zero =>
      obtain rfl : first = r := Option.some.inj hr
      exact List.sublist_append_left _ _
    | succ j =>
      rw [show index + (j + 1) = index + 1 + j by omega]
      exact (ih (index + 1) (show rs[j]? = some r from hr)).trans (List.sublist_append_right _ _)

/-- What is active in the earlier one of two regions is listed before what is active in the later one. -/
theorem Region.sublist_of_lt {j k : Nat} (hlt : j < k) (hr : rs[j]? = some r) (hr' : rs[k]? = some r')
    (hs : s ∈ r.activeStates (m.child (position, index + j)))
    (ht : t ∈ r'.activeStates (m.child (position, index + k))) :
    [s, t].Sublist (Region.allActiveStates position index rs m) := by
  induction rs generalizing index j k with
  | nil => cases hr
  | cons first rs ih =>
    obtain ⟨k, rfl⟩ : ∃ k', k = k' + 1 := ⟨k - 1, by omega⟩
    rw [show index + (k + 1) = index + 1 + k by omega] at ht
    rw [Region.allActiveStates]
    cases j with
    | zero =>
      obtain rfl : first = r := Option.some.inj hr
      have hlater : t ∈ Region.allActiveStates position (index + 1) rs m :=
        Region.mem_allActiveStates.2 ⟨k, r', hr', ht⟩
      exact (List.singleton_sublist.2 hs).append (List.singleton_sublist.2 hlater)
    | succ j =>
      rw [show index + (j + 1) = index + 1 + j by omega] at hs
      exact (ih (by omega) hr hr' hs ht).trans (List.sublist_append_right _ _)

/-- Where states are distinct, what is active and belongs to one of several regions is active in that one. -/
theorem Region.AllDistinct.mem_activeStates (h : Region.AllDistinct rs) {j : Nat} (hr : rs[j]? = some r)
    (hs : s ∈ r.ids) (hactive : s ∈ Region.allActiveStates position 0 rs m) :
    s ∈ r.activeStates (m.child (position, j)) := by
  obtain ⟨k, r', hr', hs'⟩ := Region.mem_allActiveStates.1 hactive
  obtain rfl := h.index_eq hr hr' hs (Region.mem_ids_of_mem_activeStates hs')
  obtain rfl : r = r' := Option.some.inj (hr.symm.trans hr')
  rwa [Nat.zero_add] at hs'

/-- Where states are distinct, what is active and below one state of a region is below its active state. -/
theorem Region.Distinct.active_below (h : r.Distinct) (hn : n ∈ r.nodes) (hs : s ∈ Region.allIds n.regions)
    (hactive : s ∈ r.activeStates m) :
    ∃ i, r.nodes[i]? = some n ∧ m.active = .at i ∧ s ∈ Region.allActiveStates i 0 n.regions m := by
  obtain ⟨i, n', hi, hn'⟩ := Region.exists_of_mem_activeStates hactive
  have hmem := List.mem_of_getElem? hn'
  rcases (Region.mem_activeStates_of_at hn' hi).1 hactive with rfl | hbelow
  · exact absurd hs (h.id_not_mem hmem hn)
  · obtain rfl := h.node_eq hn hmem hs (Region.mem_allIds_of_mem_allActiveStates hbelow)
    exact ⟨i, hn', hi, hbelow⟩

theorem Region.allActiveStates_nodup (h : Region.AllDistinct rs)
    (hrs : ∀ r ∈ rs, ∀ m : Marking δ, (r.activeStates m).Nodup) :
    (Region.allActiveStates position index rs m).Nodup := by
  induction rs generalizing index with
  | nil => exact List.nodup_nil
  | cons r rs ih =>
    rw [List.forall_mem_cons] at hrs
    have happend : (r.ids ++ Region.allIds rs).Nodup := h
    rw [Region.allActiveStates, List.nodup_append]
    refine ⟨hrs.1 _, ih (List.nodup_append.1 happend).2.1 hrs.2, fun s hs t ht => ?_⟩
    have hs' := Region.mem_ids_of_mem_activeStates hs
    exact (List.nodup_append.1 happend).2.2 s hs' t (Region.mem_allIds_of_mem_allActiveStates ht)

/-- No state is listed twice. -/
theorem Region.activeStates_nodup (h : r.Distinct) (m : Marking δ) : (r.activeStates m).Nodup := by
  induction r using Region.induct generalizing m with
  | step table nodes ih =>
    by_cases hnone : Region.activeStates ⟨table, nodes⟩ m = []
    · rw [hnone]
      exact List.nodup_nil
    · obtain ⟨s, hs⟩ := List.exists_mem_of_ne_nil _ hnone
      obtain ⟨i, n, hactive, hn⟩ := Region.exists_of_mem_activeStates hs
      have hmem : n ∈ nodes := List.mem_of_getElem? hn
      rw [Region.activeStates_of_at hn hactive, List.nodup_cons]
      refine ⟨fun hid => h.id_not_mem hmem hmem (Region.mem_allIds_of_mem_allActiveStates hid), ?_⟩
      exact Region.allActiveStates_nodup (h.regions hmem) fun r hr m => ih n hmem r hr ((h.regions hmem).of_mem hr) m

/-- A state inside which another one is active is active itself, and listed before it. -/
theorem Region.Encloses.sublist {o : σ} (h : r.Encloses o s) (hdistinct : r.Distinct) (hs : s ∈ r.activeStates m) :
    [o, s].Sublist (r.activeStates m) := by
  induction h generalizing m with
  | own hn hr' hids =>
    obtain ⟨i, hi, hactive, hbelow⟩ := hdistinct.active_below hn (Region.mem_allIds.2 ⟨_, hr', hids⟩) hs
    rw [Region.activeStates_of_at hi hactive]
    exact (List.singleton_sublist.2 hbelow).cons_cons _
  | inner hn hr' h ih =>
    obtain ⟨i, hi, hactive, hbelow⟩ := hdistinct.active_below hn (Region.mem_allIds.2 ⟨_, hr', h.right_mem⟩) hs
    obtain ⟨j, hj⟩ := List.getElem?_of_mem hr'
    have hregions := hdistinct.regions hn
    rw [Region.activeStates_of_at hi hactive]
    have hhere := ih (hregions.of_mem hr') (hregions.mem_activeStates hj h.right_mem hbelow)
    have hsublist := Region.activeStates_sublist (m := m) i 0 hj
    rw [Nat.zero_add] at hsublist
    exact (hhere.trans hsublist).cons _

/-- Of two active states in regions side by side, that of the region declared first is listed first. -/
theorem Region.Beside.sublist (h : Region.Beside rs s t) (hdistinct : Region.AllDistinct rs)
    (hs : s ∈ Region.allActiveStates position 0 rs m) (ht : t ∈ Region.allActiveStates position 0 rs m) :
    [s, t].Sublist (Region.allActiveStates position 0 rs m) := by
  induction h generalizing position m with
  | here hlt hr hr' hids hids' =>
    refine Region.sublist_of_lt hlt hr hr' ?_ ?_
    · rw [Nat.zero_add]
      exact hdistinct.mem_activeStates hr hids hs
    · rw [Nat.zero_add]
      exact hdistinct.mem_activeStates hr' hids' ht
  | @inner rs r n s t hr hn h ih =>
    obtain ⟨j, hj⟩ := List.getElem?_of_mem hr
    have hhere := hdistinct.of_mem hr
    have hids := h.mem_allIds
    have hs' := hdistinct.mem_activeStates hj (Region.mem_ids.2 (.inr ⟨n, hn, hids.1⟩)) hs
    have ht' := hdistinct.mem_activeStates hj (Region.mem_ids.2 (.inr ⟨n, hn, hids.2⟩)) ht
    obtain ⟨i, hi, hactive, hs'⟩ := hhere.active_below hn hids.1 hs'
    obtain ⟨i', -, hactive', ht'⟩ := hhere.active_below hn hids.2 ht'
    obtain rfl : i = i' := Active.at.inj (hactive.symm.trans hactive')
    have hbelow := ih (hhere.regions hn) hs' ht'
    have hsublist := Region.activeStates_sublist (m := m) position 0 hj
    rw [Nat.zero_add, Region.activeStates_of_at hi hactive] at hsublist
    exact (hbelow.cons _).trans hsublist

/-- Of the states of one region, here or below, one at most is active. -/
theorem Region.active_unique {q : BuiltRegion σ γ δ} (hdistinct : r.Distinct) (hq : q ∈ r.preorder)
    {n n' : BuiltNode σ γ δ} (hn : n ∈ q.nodes) (hn' : n' ∈ q.nodes) (hactive : n.data.id ∈ r.activeStates m)
    (hactive' : n'.data.id ∈ r.activeStates m) : n.data.id = n'.data.id := by
  induction r using Region.induct generalizing m with
  | step table nodes ih =>
    rw [Region.preorder_eq] at hq
    rcases List.mem_cons.1 hq with rfl | hq
    · obtain ⟨i, k, hi, hk⟩ := Region.exists_of_mem_activeStates hactive
      have hown {n : BuiltNode σ γ δ} (hn : n ∈ nodes) (hactive : n.data.id ∈ Region.activeStates ⟨table, nodes⟩ m) :
          n.data.id = k.data.id := by
        rcases (Region.mem_activeStates_of_at hk hi).1 hactive with hid | hbelow
        · exact hid
        · exact absurd (Region.mem_allIds_of_mem_allActiveStates hbelow)
            (hdistinct.id_not_mem hn (List.mem_of_getElem? hk))
      rw [hown hn hactive, hown hn' hactive']
    · obtain ⟨k, hk, hq⟩ := List.mem_flatMap.1 hq
      obtain ⟨r', hr', hq⟩ := List.mem_flatMap.1 hq
      obtain ⟨j, hj⟩ := List.getElem?_of_mem hr'
      have hregions := hdistinct.regions hk
      have hids {n : BuiltNode σ γ δ} (hn : n ∈ q.nodes) : n.data.id ∈ r'.ids :=
        List.mem_flatMap.2 ⟨q, hq, List.mem_map_of_mem hn⟩
      have hbelow {n : BuiltNode σ γ δ} (hn : n ∈ q.nodes)
          (hactive : n.data.id ∈ Region.activeStates ⟨table, nodes⟩ m) :
          ∃ i, m.active = .at i ∧ n.data.id ∈ r'.activeStates (m.child (i, j)) := by
        obtain ⟨i, -, hi, hactive⟩ :=
          hdistinct.active_below hk (Region.mem_allIds.2 ⟨r', hr', hids hn⟩) hactive
        exact ⟨i, hi, hregions.mem_activeStates hj (hids hn) hactive⟩
      obtain ⟨i, hi, hactive⟩ := hbelow hn hactive
      obtain ⟨i', hi', hactive'⟩ := hbelow hn' hactive'
      obtain rfl : i = i' := Active.at.inj (hi.symm.trans hi')
      exact ih k hk r' hr' (hregions.of_mem hr') hq hactive hactive'

/-! ## Machines -/

section Machines

variable [DecidableEq σ] [Named σ] [Inhabited δ]

/-- **Queries about active states agree.** In every machine that is reached, whatever failed on the way: a state is
active if and only if it is among the active states, and there it is once. A state inside which another one is active
is active too and comes before it, and the states of a region come before those of the regions declared behind it. Of
the states of one region, at any depth, one at most is active. -/
theorem state_queries_agree {b : Blueprint σ γ δ} {m : Machine σ γ δ} (h : b.Reaches m) :
    (∀ s, m.isActive s = true ↔ s ∈ m.activeStates) ∧ m.activeStates.Nodup ∧
      (∀ r ∈ m.chart.regions, ∀ o s, r.Encloses o s → s ∈ m.activeStates → [o, s].Sublist m.activeStates) ∧
      (∀ s t, Region.Beside m.chart.regions s t → s ∈ m.activeStates → t ∈ m.activeStates →
        [s, t].Sublist m.activeStates) ∧
      ∀ q ∈ Region.preorderOfRegions m.chart.regions, ∀ n ∈ q.nodes, ∀ n' ∈ q.nodes,
        n.data.id ∈ m.activeStates → n'.data.id ∈ m.activeStates → n.data.id = n'.data.id := by
  obtain ⟨c, hc⟩ := h.assembled
  have hdistinct : Region.AllDistinct m.chart.regions := hc.allDistinct
  refine ⟨fun s => Region.anyActive_iff 0 0 fun r _ => r.isActive_iff, ?_, fun r hr o s ho hs => ?_,
    fun s t hst => hst.sublist hdistinct, fun q hq n hn n' hn' hs hs' => ?_⟩
  · exact Region.allActiveStates_nodup hdistinct fun r hr => Region.activeStates_nodup (hdistinct.of_mem hr)
  · obtain ⟨j, hj⟩ := List.getElem?_of_mem hr
    have hhere := hdistinct.mem_activeStates hj ho.right_mem hs
    have hsublist := Region.activeStates_sublist (m := m.configuration.marking) 0 0 hj
    rw [Nat.zero_add] at hsublist
    exact (ho.sublist (hdistinct.of_mem hr) hhere).trans hsublist
  · rw [Region.preorderOfRegions_eq] at hq
    obtain ⟨r, hr, hq⟩ := List.mem_flatMap.1 hq
    obtain ⟨j, hj⟩ := List.getElem?_of_mem hr
    have hhere {n : BuiltNode σ γ δ} (hn : n ∈ q.nodes) (hs : n.data.id ∈ m.activeStates) :
        n.data.id ∈ r.activeStates (m.configuration.marking.child (0, j)) :=
      hdistinct.mem_activeStates hj (List.mem_flatMap.2 ⟨q, hq, List.mem_map_of_mem hn⟩) hs
    exact Region.active_unique (hdistinct.of_mem hr) hq hn hn' (hhere hn hs) (hhere hn' hs')

end Machines

/-- In the lamp that is lit, the lamp comes before its light; `off` and `on` are not both active. -/
theorem state_queries_agree_lit : Lamp.lit.isActive .dim = true ∧ Lamp.lit.activeStates = [.on, .dim] ∧
    Lamp.tree.Encloses .on .dim ∧ [Lamp.on, Lamp.dim].Sublist Lamp.lit.activeStates := by
  have hqueries := state_queries_agree Lamp.reaches_lit
  have hactive : Lamp.lit.activeStates = [.on, .dim] := by decide +kernel
  have hencloses : Lamp.tree.Encloses .on .dim := by
    refine .own (n := Lamp.tree.nodes[0]) List.mem_cons_self List.mem_cons_self ?_
    decide
  have htree : Lamp.tree ∈ Lamp.lit.chart.regions := by
    rw [Lamp.chart_lit]
    exact List.mem_singleton_self _
  refine ⟨(hqueries.1 .dim).2 (by simp [hactive]), hactive, hencloses, ?_⟩
  exact hqueries.2.2.1 Lamp.tree htree _ _ hencloses (by simp [hactive])

end Statechart
