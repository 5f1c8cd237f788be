import Statechart.Proofs.Crossings
import Statechart.Proofs.Identity
import Statechart.Proofs.Legality

/-!
# Regions in step with the journal

* `Region.InStep l` : what is inside by the notes `l` is what the marking calls active;
* `Region.Tracked owns out r c` : the journal is nested and the region in step with it, where `out` says what
  is inside outside of the region; `Region.Placed` : how `owns` and `out` have to fit the region;
* `Region.Cleared` : the same while no state is active; `Tracked.exited`, `Cleared.entered` : the exit and the
  entry of a state lead from one to the other;
* `Region.Tracks` : turns that keep a region tracked; `onEach_tracked`, `Tracked.onEach` : the turns of sibling
  regions, and of the regions of the active state, are of that kind if each of them is.
-/

set_option autoImplicit false

namespace Statechart

open Turn

variable {σ γ δ α : Type}

/-- What was noted so far. -/
abbrev Configuration.notes (c : Configuration σ γ δ) : List (Note σ) := c.world.exchange.journal.toList

section Step

variable [DecidableEq σ]

/-- The state that is inside is the one that the marking calls active. -/
def Region.InStep (l : List (Note σ)) (r : BuiltRegion σ γ δ) (m : Marking δ) : Prop :=
  ∀ i n, r.nodes[i]? = some n → (isInside n.data.id l = true ↔ m.active = .at i)

variable {r : BuiltRegion σ γ δ} {rs : List (BuiltRegion σ γ δ)} {m : Marking δ} {l l' : List (Note σ)}
  {p : Prop}

theorem Region.inStep_isShallow (l : List (Note σ)) :
    Region.IsShallow (Region.InStep (σ := σ) (γ := γ) (δ := δ) l) := by
  intro r m m' hactive _ h i n hn
  rw [hactive]
  exact h i n hn

omit [DecidableEq σ] in
theorem Region.mem_ids_of_child {r' : BuiltRegion σ γ δ} {k : Nat × Nat} {s : σ} (hr' : r.child? k = some r')
    (hs : s ∈ r'.ids) : s ∈ r.ids := by
  obtain ⟨n, hn, hr'⟩ := Region.child?_eq_some.1 hr'
  exact Region.mem_ids_of_below (List.mem_of_getElem? hn) (List.mem_of_getElem? hr') hs

omit [DecidableEq σ] in
/-- What is in the regions of a state is in a region at a position. -/
theorem Region.exists_child {n : BuiltNode σ γ δ} {s : σ} (hn : n ∈ r.nodes) (hs : s ∈ Region.allIds n.regions) :
    ∃ k r', r.child? k = some r' ∧ s ∈ r'.ids := by
  obtain ⟨i, hi⟩ := List.getElem?_of_mem hn
  obtain ⟨r', hr', hs⟩ := Region.mem_allIds.1 hs
  obtain ⟨j, hj⟩ := List.getElem?_of_mem hr'
  exact ⟨(i, j), r', (Region.child?_of_nodes hi j).trans hj, hs⟩

omit [DecidableEq σ] in
/-- What is in a region is a state at a position of its own, or in a region of such a state. -/
theorem Region.exists_of_mem_ids {s : σ} (hs : s ∈ r.ids) :
    (∃ (i : Nat) (n : BuiltNode σ γ δ), r.nodes[i]? = some n ∧ n.data.id = s) ∨
      ∃ k r', r.child? k = some r' ∧ s ∈ r'.ids := by
  rcases Region.mem_ids.1 hs with ⟨n, hn, hid⟩ | ⟨n, hn, hs⟩
  · obtain ⟨i, hi⟩ := List.getElem?_of_mem hn
    exact .inl ⟨i, n, hi, hid⟩
  · exact .inr (Region.exists_child hn hs)

/-- Only the crossings of the region's own states matter. -/
theorem Region.inStep_congr (h : r.Throughout (Region.InStep l) m)
    (hl : ∀ s ∈ r.ids, isInside s l' = isInside s l) : r.Throughout (Region.InStep l') m := by
  induction h with
  | intro hhere _ ih =>
    refine .intro (fun i n hn => ?_) fun k r' hr' => ih k r' hr' fun s hs => ?_
    · rw [hl _ (Region.id_mem_ids (List.mem_of_getElem? hn))]
      exact hhere i n hn
    · exact hl s (Region.mem_ids_of_child hr' hs)

/-- While nothing is active in a region, none of its states is inside. -/
theorem Region.none_inside (h : r.Throughout (Region.InStep l) m) (hlegal : r.Throughout (Region.Fit p) m)
    (hactive : ∀ i, m.active ≠ .at i) : ∀ s ∈ r.ids, isInside s l = false := by
  induction h with
  | @intro r m hhere _ ih =>
    intro s hs
    rcases Region.exists_of_mem_ids hs with ⟨i, n, hi, rfl⟩ | ⟨k, r', hr', hs⟩
    · exact Bool.eq_false_iff.2 fun hin => hactive i ((hhere i n hi).1 hin)
    · have hstopped := hlegal.here.legal.idle k r' hr' (hactive k.1)
      exact ih k r' hr' (hlegal.child hr') (fun i => by simp [hstopped]) s hs

/-- A state that is inside is the active one or below it. -/
theorem Region.inside_of_active {i : Nat} {n : BuiltNode σ γ δ} {s : σ}
    (h : r.Throughout (Region.InStep l) m) (hlegal : r.Throughout (Region.Fit p) m)
    (hn : r.nodes[i]? = some n) (hactive : m.active = .at i) (hs : s ∈ r.ids) (hin : isInside s l = true) :
    n.data.id = s ∨ ∃ (j : Nat) (r' : BuiltRegion σ γ δ), n.regions[j]? = some r' ∧ s ∈ r'.ids := by
  rcases Region.exists_of_mem_ids hs with ⟨i', n', hi', rfl⟩ | ⟨⟨i', j⟩, r', hr', hs⟩
  · obtain rfl : i = i' := Active.at.inj (hactive.symm.trans ((h.here i' n' hi').1 hin))
    rw [Option.some.inj (hn.symm.trans hi')]
    exact .inl rfl
  · by_cases hi : m.active = .at i'
    · obtain rfl : i = i' := Active.at.inj (hactive.symm.trans hi)
      exact .inr ⟨j, r', (Region.child?_of_nodes hn j).symm.trans hr', hs⟩
    · -- what is below another state is stopped, so nothing is inside there
      have hstopped := hlegal.here.legal.idle (i', j) r' hr' hi
      rw [Region.none_inside (h.child hr') (hlegal.child hr') (by simp [hstopped]) s hs] at hin
      cases hin

theorem Region.inStep_of_none (hlegal : r.Throughout (Region.Fit p) m) (hactive : ∀ i, m.active ≠ .at i)
    (hnone : ∀ s ∈ r.ids, isInside s l = false) : r.Throughout (Region.InStep l) m := by
  induction hlegal with
  | @intro r m hhere _ ih =>
    refine .intro (fun i n hn => ?_) fun k r' hr' => ih k r' hr' (fun i hi => ?_) fun s hs => ?_
    · rw [hnone _ (Region.id_mem_ids (List.mem_of_getElem? hn))]
      exact ⟨nofun, fun hi => absurd hi (hactive i)⟩
    · rw [hhere.legal.idle k r' hr' (hactive k.1)] at hi
      cases hi
    · exact hnone s (Region.mem_ids_of_child hr' hs)

/-! ## Regions in step with the journal -/

variable {owns : σ → σ → Prop} {out out' : σ → Bool} {c c' : Configuration σ γ δ}

/-- The journal is nested and the region is in step with it; of what is outside of the region, the states
that `out` names are inside. -/
structure Region.Tracked (owns : σ → σ → Prop) (out : σ → Bool) (r : BuiltRegion σ γ δ)
    (c : Configuration σ γ δ) : Prop where
  nested : Nested owns c.notes
  outside : ∀ s, s ∉ r.ids → isInside s c.notes = out s
  inStep : r.Throughout (Region.InStep c.notes) c.marking
  legal : r.Throughout (Region.Fit False) c.marking

/-- The same for the regions of the state at a position. -/
structure Region.AllTracked (owns : σ → σ → Prop) (out : σ → Bool) (position : Nat)
    (rs : List (BuiltRegion σ γ δ)) (c : Configuration σ γ δ) : Prop where
  nested : Nested owns c.notes
  outside : ∀ s, s ∉ Region.allIds rs → isInside s c.notes = out s
  inStep : ∀ (j : Nat) (r : BuiltRegion σ γ δ), rs[j]? = some r →
    r.Throughout (Region.InStep c.notes) (c.marking.child (position, j))
  legal : ∀ (j : Nat) (r : BuiltRegion σ γ δ), rs[j]? = some r →
    r.Throughout (Region.Fit False) (c.marking.child (position, j))

/-- Owners of the region's states are in the region or are inside; what its states own is enclosed. -/
structure Region.Placed (owns : σ → σ → Prop) (out : σ → Bool) (r : BuiltRegion σ γ δ) : Prop where
  distinct : r.Distinct
  above : ∀ o s, s ∈ r.ids → owns o s → r.Encloses o s ∨ (o ∉ r.ids ∧ out o = true)
  below : ∀ o s, o ∈ r.ids → owns o s → r.Encloses o s

/-- The same for several regions. -/
structure Region.AllPlaced (owns : σ → σ → Prop) (out : σ → Bool) (rs : List (BuiltRegion σ γ δ)) :
    Prop where
  distinct : Region.AllDistinct rs
  above : ∀ o s, s ∈ Region.allIds rs → owns o s →
    (∃ r ∈ rs, r.Encloses o s) ∨ (o ∉ Region.allIds rs ∧ out o = true)
  below : ∀ o s, o ∈ Region.allIds rs → owns o s → ∃ r ∈ rs, r.Encloses o s

omit [DecidableEq σ] in
theorem Region.AllPlaced.of_mem (h : Region.AllPlaced owns out rs) (hr : r ∈ rs)
    (hout : ∀ s, s ∉ Region.allIds rs → out' s = out s) : r.Placed owns out' where
  distinct := h.distinct.of_mem hr
  above o s hs ho := by
    rcases h.above o s (Region.mem_allIds.2 ⟨r, hr, hs⟩) ho with ⟨r', hr', hencloses⟩ | ⟨hnot, hopen⟩
    · obtain rfl := h.distinct.eq hr hr' hs hencloses.right_mem
      exact .inl hencloses
    · exact .inr ⟨fun hmem => hnot (Region.mem_allIds.2 ⟨r, hr, hmem⟩), (hout o hnot).trans hopen⟩
  below o s hmem ho := by
    obtain ⟨r', hr', hencloses⟩ := h.below o s (Region.mem_allIds.2 ⟨r, hr, hmem⟩) ho
    obtain rfl := h.distinct.eq hr hr' hmem hencloses.left_mem
    exact hencloses

omit [DecidableEq σ] in
/-- The regions of a state that is inside. -/
theorem Region.Placed.regions (h : r.Placed owns out) {n : BuiltNode σ γ δ} (hn : n ∈ r.nodes)
    (hopen : out' n.data.id = true) (hout : ∀ s, s ∉ r.ids → out' s = out s) :
    Region.AllPlaced owns out' n.regions where
  distinct := h.distinct.regions hn
  above o s hs ho := by
    have hmem : s ∈ r.ids := Region.mem_ids.2 (.inr ⟨n, hn, hs⟩)
    rcases h.above o s hmem ho with hencloses | ⟨hnot, ho⟩
    · cases hencloses with
      | @own _ r' n' _ hn' hr' hs' =>
        obtain rfl := h.distinct.node_eq hn hn' hs (Region.mem_allIds.2 ⟨r', hr', hs'⟩)
        exact .inr ⟨h.distinct.id_not_mem hn hn, hopen⟩
      | @inner _ r' n' _ _ hn' hr' hencloses =>
        obtain rfl := h.distinct.node_eq hn hn' hs (Region.mem_allIds.2 ⟨r', hr', hencloses.right_mem⟩)
        exact .inl ⟨r', hr', hencloses⟩
    · exact .inr ⟨fun hmem => hnot (Region.mem_ids.2 (.inr ⟨n, hn, hmem⟩)), (hout o hnot).trans ho⟩
  below o s hmem ho := by
    have hencloses := h.below o s (Region.mem_ids.2 (.inr ⟨n, hn, hmem⟩)) ho
    cases hencloses with
    | own hn' _ _ => exact absurd hmem (h.distinct.id_not_mem hn' hn)
    | @inner _ r' n' _ _ hn' hr' hencloses =>
      obtain rfl := h.distinct.node_eq hn hn' hmem (Region.mem_allIds.2 ⟨r', hr', hencloses.left_mem⟩)
      exact ⟨r', hr', hencloses⟩

/-- One of the regions, with what is inside outside of it. -/
theorem Region.AllTracked.child {position j : Nat} (h : Region.AllTracked owns out position rs c)
    (hr : rs[j]? = some r) :
    r.Tracked owns (fun s => isInside s c.notes) ⟨c.world, c.marking.child (position, j)⟩ :=
  ⟨h.nested, fun _ _ => rfl, h.inStep j r hr, h.legal j r hr⟩

/-- One of the regions had a turn; the others have no state in common with it. -/
theorem Region.AllTracked.setChild {position j : Nat} (hdistinct : Region.AllDistinct rs)
    (h : Region.AllTracked owns out position rs c) (hr : rs[j]? = some r)
    (h' : r.Tracked owns (fun s => isInside s c.notes) c') :
    Region.AllTracked owns out position rs ⟨c'.world, c.marking.setChild (position, j) c'.marking⟩ := by
  have hother {j' : Nat} (hj : j' ≠ j) : (c.marking.setChild (position, j) c'.marking).child (position, j') =
      c.marking.child (position, j') := Marking.child_setChild_of_ne (by simpa using hj) _ _
  refine ⟨h'.nested, fun s hs => ?_, fun j' r' hr' => ?_, fun j' r' hr' => ?_⟩
  · have hsr : s ∉ r.ids := fun hmem => hs (Region.mem_allIds.2 ⟨r, List.mem_of_getElem? hr, hmem⟩)
    exact (h'.outside s hsr).trans (h.outside s hs)
  · by_cases hj : j' = j
    · subst hj
      obtain rfl : r = r' := Option.some.inj (hr.symm.trans hr')
      rw [Marking.child_setChild_self]
      exact h'.inStep
    · rw [hother hj]
      refine Region.inStep_congr (h.inStep j' r' hr') fun s hs => h'.outside s fun hmem => ?_
      exact hj (hdistinct.index_eq hr' hr hs hmem)
  · by_cases hj : j' = j
    · subst hj
      obtain rfl : r = r' := Option.some.inj (hr.symm.trans hr')
      rw [Marking.child_setChild_self]
      exact h'.legal
    · rw [hother hj]
      exact h.legal j' r' hr'

/-- A turn keeps a region tracked when it ends well and when completion transitions overflow. -/
def Region.Tracks (x : Turn σ γ δ α) (r : BuiltRegion σ γ δ) : Prop :=
  ∀ (owns : σ → σ → Prop) (out : σ → Bool) (c : Configuration σ γ δ), r.Placed owns out →
    r.Tracked owns out c →
      Ends x c (fun _ => r.Tracked owns out) fun h c' => h.isOverflow = true → r.Tracked owns out c'

theorem Turn.onEach_tracked {x : BuiltRegion σ γ δ → Turn σ γ δ α} {position : Nat}
    (hplaced : Region.AllPlaced owns out rs) (hx : ∀ r ∈ rs, r.Tracks (x r))
    (hc : Region.AllTracked owns out position rs c) :
    Ends (onEach x position 0 rs) c (fun _ => Region.AllTracked owns out position rs)
      fun h c' => h.isOverflow = true → Region.AllTracked owns out position rs c' := by
  refine Turn.onEach_ends (I := fun _ => Region.AllTracked owns out position rs) hc fun j r hr c hc => ?_
  rw [Nat.zero_add, ends_inChild]
  have hmem := List.mem_of_getElem? hr
  refine (hx r hmem owns _ _ (hplaced.of_mem hmem hc.outside) (hc.child hr)).mono (fun _ c' h => ?_)
    fun _ c' h ho => ?_
  · exact hc.setChild hplaced.distinct hr h
  · exact hc.setChild hplaced.distinct hr (h ho)

/-! ## A region and those of its active state -/

/-- What becomes of a region when only those of the active state had turns. -/
theorem Region.Tracked.of_regions (hplaced : r.Placed owns out) (h : r.Tracked owns out c) {i : Nat}
    {n : BuiltNode σ γ δ} (hn : r.nodes[i]? = some n) (hactive : c.marking.active = .at i)
    (hall : Region.AllTracked owns (fun s => isInside s c.notes) i n.regions c') (hsame : c.SameBut i c') :
    r.Tracked owns out c' := by
  have hmem := List.mem_of_getElem? hn
  refine ⟨hall.nested, fun s hs => ?_, .intro (fun i' n' hn' => ?_) fun k r' hr' => ?_, ?_⟩
  · have hbelow : s ∉ Region.allIds n.regions := fun hin => hs (Region.mem_ids.2 (.inr ⟨n, hmem, hin⟩))
    exact (hall.outside s hbelow).trans (h.outside s hs)
  · rw [hall.outside _ (hplaced.distinct.id_not_mem (List.mem_of_getElem? hn') hmem), hsame.active]
    exact h.inStep.here i' n' hn'
  · obtain ⟨n', hn', hr''⟩ := Region.child?_eq_some.1 hr'
    by_cases hk : k.1 = i
    · obtain ⟨k, j⟩ := k
      obtain rfl : k = i := hk
      obtain rfl : n = n' := Option.some.inj (hn.symm.trans hn')
      exact hall.inStep j r' hr''
    · rw [hsame.child k hk]
      refine Region.inStep_congr (h.inStep.child hr') fun s hs => hall.outside s fun hin => hk ?_
      exact hplaced.distinct.position_eq hn' hn (Region.mem_allIds.2 ⟨r', List.mem_of_getElem? hr'', hs⟩) hin
  · refine Region.fit_of_sameBut h.legal.here.legal hactive hsame (fun k r' hr' _ => h.legal.child hr') ?_
    intro j r' hr'
    rw [Region.child?_of_nodes hn] at hr'
    exact ⟨hall.legal j r' hr', False.elim⟩

/-- Turns of the regions of the active state. -/
theorem Region.Tracked.onEach (hplaced : r.Placed owns out) (h : r.Tracked owns out c) {i : Nat}
    {n : BuiltNode σ γ δ} (hn : r.nodes[i]? = some n) (hactive : c.marking.active = .at i)
    {x : BuiltRegion σ γ δ → Turn σ γ δ α} (hx : ∀ r' ∈ n.regions, r'.Tracks (x r')) :
    Ends (onEach x i 0 n.regions) c (fun _ => r.Tracked owns out)
      fun h c' => h.isOverflow = true → r.Tracked owns out c' := by
  have hinside : isInside n.data.id c.notes = true := (h.inStep.here i n hn).2 hactive
  have hregions := hplaced.regions (List.mem_of_getElem? hn) hinside h.outside
  have hall : Region.AllTracked owns (fun s => isInside s c.notes) i n.regions c := by
    refine ⟨h.nested, fun _ _ => rfl, fun j r' hr' => ?_, fun j r' hr' => ?_⟩
    · exact h.inStep.child ((Region.child?_of_nodes hn j).trans hr')
    · exact h.legal.child ((Region.child?_of_nodes hn j).trans hr')
  refine ((Turn.onEach_tracked hregions hx hall).and (onEach_confined 0 n.regions c)).mono
    (fun _ c' h' => ?_) fun _ c' h' ho => ?_
  · exact h.of_regions hplaced hn hactive h'.1 h'.2
  · exact h.of_regions hplaced hn hactive (h'.1 ho) h'.2.1

/-! ## Regions without an active state -/

/-- The journal is nested, no state of the region is inside, and all below it is stopped. -/
structure Region.Cleared (owns : σ → σ → Prop) (out : σ → Bool) (r : BuiltRegion σ γ δ)
    (c : Configuration σ γ δ) : Prop where
  nested : Nested owns c.notes
  outside : ∀ s, s ∉ r.ids → isInside s c.notes = out s
  none : ∀ s ∈ r.ids, isInside s c.notes = false
  vacated : r.Vacated c

theorem Region.Tracked.cleared (h : r.Tracked owns out c) (hactive : ∀ i, c.marking.active ≠ .at i) :
    r.Cleared owns out c where
  nested := h.nested
  outside := h.outside
  none := Region.none_inside h.inStep h.legal hactive
  vacated := ⟨Region.dormant_of_resting h.legal hactive, fun i hi => absurd hi (hactive i)⟩

theorem Region.Cleared.tracked (h : r.Cleared owns out c) (hactive : ∀ i, c.marking.active ≠ .at i) :
    r.Tracked owns out c := by
  have hlegal : r.Throughout (Region.Fit False) c.marking := h.vacated.1.fit h.vacated.2 False.elim
  exact ⟨h.nested, h.outside, Region.inStep_of_none hlegal hactive h.none, hlegal⟩

/-- Notes that are no crossings change nothing. -/
theorem Configuration.Follows.crossings (h : c.Follows Note.Uncrossed c') (hnested : Nested owns c.notes) :
    Nested owns c'.notes ∧ ∀ s, isInside s c'.notes = isInside s c.notes := by
  obtain ⟨l, hw, hl⟩ := h
  have hnotes : c'.notes = c.notes ++ l := hw.journal
  rw [hnotes]
  refine ⟨hnested.append_still hl, fun s => isInside_append (crossings_eq_nil ?_)⟩
  exact fun n hn => Note.crossing?_eq_none (hl n hn)

theorem Region.tracked_withstands (owns : σ → σ → Prop) (out : σ → Bool) (r : BuiltRegion σ γ δ) :
    Withstands (fun h c' => h.isOverflow = true → r.Tracked owns out c') (r.Tracked owns out) := by
  intro c c' hsteps h
  obtain ⟨hnested, hinside⟩ := hsteps.follows.crossings h.nested
  refine ⟨⟨hnested, fun s hs => (hinside s).trans (h.outside s hs), ?_, ?_⟩, fun halt hno ho => ?_⟩
  · exact (Region.inStep_congr h.inStep fun s _ => hinside s).congr (Region.inStep_isShallow _)
      hsteps.active hsteps.child
  · exact h.legal.congr Region.fit_isShallow hsteps.active hsteps.child
  · rw [hno] at ho
    cases ho

theorem Region.cleared_withstands (owns : σ → σ → Prop) (out : σ → Bool) (r : BuiltRegion σ γ δ) :
    Withstands (fun h c' => h.isOverflow = true → r.Tracked owns out c') (r.Cleared owns out) := by
  intro c c' hsteps h
  obtain ⟨hnested, hinside⟩ := hsteps.follows.crossings h.nested
  refine ⟨⟨hnested, fun s hs => (hinside s).trans (h.outside s hs), fun s hs => ?_, ?_⟩,
    fun halt hno ho => ?_⟩
  · rw [hinside]
    exact h.none s hs
  · exact ⟨h.vacated.1.congr hsteps.child, fun i hi => h.vacated.2 i (hsteps.active ▸ hi)⟩
  · rw [hno] at ho
    cases ho

/-! ## Exits and entries -/

variable {i : Nat} {n : BuiltNode σ γ δ}

omit [DecidableEq σ] in
theorem Configuration.notes_note (c : Configuration σ γ δ) (note : Note σ) :
    Configuration.notes { c with world.exchange := c.world.exchange.note note } = c.notes ++ [note] :=
  Journal.toList_write _ _

/-- When the regions of the active state are stopped, its exit is in order and leaves no state inside. -/
theorem Region.Tracked.exited (hplaced : r.Placed owns out) (h : r.Tracked owns out c)
    (hn : r.nodes[i]? = some n) (hactive : c.marking.active = .at i) (hvacated : r.Vacated c) (path : String)
    (e : Event) :
    r.Cleared owns out
      { c with world.exchange := c.world.exchange.note (.exit path n.data.id e) } := by
  have hmem := List.mem_of_getElem? hn
  have hbelow {k : Nat × Nat} {r' : BuiltRegion σ γ δ} {s : σ} (hr' : r.child? k = some r') (hs : s ∈ r'.ids) :
      isInside s c.notes = false := by
    have hstopped := (hvacated.1 k r' hr').2
    exact Region.none_inside (h.inStep.child hr') (h.legal.child hr') (fun i => by simp [hstopped]) s hs
  have hnested : Nested owns (c.notes ++ [.exit path n.data.id e]) := by
    refine .exit path e h.nested ((h.inStep.here i n hn).2 hactive) fun t ht => ?_
    obtain ⟨n', hn', hs⟩ := (hplaced.below _ t (Region.id_mem_ids hmem) ht).mem_allIds
    obtain ⟨k, r', hr', hs⟩ := Region.exists_child hn' hs
    exact hbelow hr' hs
  refine ⟨?_, fun s hs => ?_, fun s hs => ?_, hvacated⟩
  · rw [Configuration.notes_note]
    exact hnested
  · have hne : n.data.id ≠ s := fun heq => hs (heq ▸ Region.id_mem_ids hmem)
    rw [Configuration.notes_note, isInside_exit_of_ne hne]
    exact h.outside s hs
  · rw [Configuration.notes_note]
    by_cases hne : n.data.id = s
    · subst hne
      exact isInside_exit path e
    · rw [isInside_exit_of_ne hne]
      refine Bool.eq_false_iff.2 fun hin => ?_
      rcases Region.inside_of_active h.inStep h.legal hn hactive hs hin with hid | ⟨j, r', hr', hs⟩
      · exact hne hid
      · rw [hbelow ((Region.child?_of_nodes hn j).trans hr') hs] at hin
        cases hin

/-- The entry of a state is in order when no state of the region is inside. -/
theorem Region.Cleared.entered (hplaced : r.Placed owns out) (h : r.Cleared owns out c)
    (hn : r.nodes[i]? = some n) (hactive : c.marking.active = .at i) (path : String) (e : Event) :
    r.Tracked owns out
      { c with world.exchange := c.world.exchange.note (.entry path n.data.id e) } := by
  have hmem := List.mem_of_getElem? hn
  have hnested : Nested owns (c.notes ++ [.entry path n.data.id e]) := by
    refine .entry path e h.nested (h.none _ (Region.id_mem_ids hmem)) fun o ho => ?_
    rcases hplaced.above o _ (Region.id_mem_ids hmem) ho with hencloses | ⟨hnot, hopen⟩
    · obtain ⟨n', hn', hs⟩ := hencloses.mem_allIds
      exact absurd hs (hplaced.distinct.id_not_mem hmem hn')
    · rw [h.outside o hnot, hopen]
  have hother {s : σ} (hs : s ∈ r.ids) (hne : n.data.id ≠ s) :
      isInside s (c.notes ++ [.entry path n.data.id e]) = false := by
    rw [isInside_entry_of_ne hne]
    exact h.none s hs
  refine ⟨?_, fun s hs => ?_, .intro (fun i' n' hn' => ?_) fun k r' hr' => ?_, ?_⟩
  · rw [Configuration.notes_note]
    exact hnested
  · have hne : n.data.id ≠ s := fun heq => hs (heq ▸ Region.id_mem_ids hmem)
    rw [Configuration.notes_note, isInside_entry_of_ne hne]
    exact h.outside s hs
  · rw [Configuration.notes_note, hactive]
    by_cases hi : i = i'
    · subst hi
      obtain rfl : n = n' := Option.some.inj (hn.symm.trans hn')
      simp [isInside_entry]
    · have hne : n.data.id ≠ n'.data.id := fun heq => hi (hplaced.distinct.index_eq hn hn' heq)
      rw [hother (Region.id_mem_ids (List.mem_of_getElem? hn')) hne]
      simp [hi]
  · rw [Configuration.notes_note]
    obtain ⟨hfit, hstopped⟩ := h.vacated.1 k r' hr'
    refine Region.inStep_of_none hfit (fun j hj => ?_) fun s hs => ?_
    · rw [hstopped] at hj
      cases hj
    · refine hother (Region.mem_ids_of_child hr' hs) fun heq => ?_
      obtain ⟨n', hn', hr''⟩ := Region.child?_eq_some.1 hr'
      refine hplaced.distinct.id_not_mem hmem (List.mem_of_getElem? hn') ?_
      rw [heq]
      exact Region.mem_allIds.2 ⟨r', List.mem_of_getElem? hr'', hs⟩
  · exact h.vacated.1.fit h.vacated.2 False.elim

end Step

end Statechart
