import Statechart.Proofs.Tracking

/-!
# Visits of states

As long as no callback fails or panics, the journal of a machine is nested, and the states that are inside
by the journal are those that are active.

* `Node.exit_clears`, `Node.enter_tracks` : leaving and entering a state;
* `Region.stop_tracks`, `Region.start_tracks`, `Region.process_tracks` : turns keep a region tracked;
* `Chart.InStep` : the invariant of a machine;
* `visits_are_balanced`.
-/

set_option autoImplicit false

namespace Statechart

open Turn

variable {σ γ δ α : Type} [DecidableEq σ]

section Turns

variable [Named σ] {setup : Setup σ γ} {table : RegionTable σ γ} {nodes : List (BuiltNode σ γ δ)}
  {e : Event} {owns : σ → σ → Prop} {out : σ → Bool} {c : Configuration σ γ δ} {i : Nat}
  {n : BuiltNode σ γ δ}

theorem Node.exit_clears (hplaced : Region.Placed owns out ⟨table, nodes⟩) (hn : nodes[i]? = some n)
    (ih : ∀ r ∈ n.regions, r.Tracks (r.stop setup e)) (hc : Region.Tracked owns out ⟨table, nodes⟩ c)
    (hactive : c.marking.active = .at i) :
    Ends (n.exit setup table.path i e) c (fun _ => Region.Cleared owns out ⟨table, nodes⟩)
      fun h c' => h.isOverflow = true → Region.Tracked owns out ⟨table, nodes⟩ c' := by
  have hN := Note.admits_uncrossed (σ := σ) e
  have hstop := (hc.onEach hplaced hn hactive ih).and
    (Region.stopAll_vacates hn (fun r _ => r.stop_fit) hc.legal hactive)
  obtain ⟨unit, regions⟩ := n
  rw [Node.exit, ends_bind, Region.ends_stopAll]
  refine hstop.mono (fun _ c₁ h₁ => ?_) fun _ c₁ h₁ => h₁.1
  obtain ⟨htracked, hvacated, hsame⟩ := h₁
  rw [ends_bind, ends_note]
  have hcleared := htracked.exited hplaced hn (hsame.active.trans hactive) hvacated table.path e
  refine ((Region.cleared_withstands owns out _).ends ?_ hcleared).mono (fun _ _ h => h.1) fun _ _ h => h
  exact orFail_inert hN _ _ _ (performAt_inert (fun _ => hN.silent) _ _ _)

theorem Region.tracked_leaves (hplaced : Region.Placed owns out ⟨table, nodes⟩)
    (ih : ∀ n ∈ nodes, ∀ r ∈ n.regions, r.Tracks (r.stop setup e)) :
    Region.Leaves setup table nodes
      (fun h c' => h.isOverflow = true → Region.Tracked owns out ⟨table, nodes⟩ c')
      (Region.Tracked owns out ⟨table, nodes⟩) (Region.Cleared owns out ⟨table, nodes⟩) e where
  live := Region.tracked_withstands owns out _
  left := Region.cleared_withstands owns out _
  halted _ _ hc _ := hc
  bounded _ i hc hi := hc.legal.here.legal.bounded i hi
  resting _ hc hresting := hc.cleared hresting
  rested _ hc hresting := hc.tracked hresting
  leave _ n hn _ hc hactive := Node.exit_clears hplaced hn (ih n (List.mem_of_getElem? hn)) hc hactive
  move _ _ hc hbounded := ⟨hc.nested, hc.outside, hc.none, hc.vacated.1, hbounded⟩

theorem Region.stop_tracks (e : Event) (r : BuiltRegion σ γ δ) : r.Tracks (r.stop setup e) := by
  induction r using Region.induct with
  | step table nodes ih =>
    intro owns out c hplaced hc
    exact ((Region.tracked_leaves hplaced ih).stop hc).mono (fun _ _ h => h.1) fun _ _ h => h

theorem Node.enter_tracks (hplaced : Region.Placed owns out ⟨table, nodes⟩) (hn : nodes[i]? = some n)
    (ih : ∀ r ∈ n.regions, r.Tracks (r.start setup e)) (hc : Region.Cleared owns out ⟨table, nodes⟩ c)
    (hactive : c.marking.active = .at i) :
    Ends (n.enter setup table.path i e) c (fun _ => Region.Tracked owns out ⟨table, nodes⟩)
      fun h c' => h.isOverflow = true → Region.Tracked owns out ⟨table, nodes⟩ c' := by
  have hN := Note.admits_uncrossed (σ := σ) e
  have hentered := hc.entered hplaced hn hactive table.path e
  obtain ⟨unit, regions⟩ := n
  rw [Node.enter, ends_bind, ends_note]
  refine (Region.tracked_withstands owns out _).bind
    (orFail_inert hN _ _ _ (performAt_inert (fun _ => hN.silent) _ _ _)) hentered fun _ c₁ hc₁ h₁ => ?_
  rw [Region.ends_startAll]
  exact hc₁.onEach hplaced hn (h₁.trans hactive) ih

theorem Region.tracked_moves (hplaced : Region.Placed owns out ⟨table, nodes⟩)
    (ih : ∀ n ∈ nodes, ∀ r ∈ n.regions, r.Tracks (r.start setup e)) :
    Region.Moves setup table nodes
      (fun h c' => h.isOverflow = true → Region.Tracked owns out ⟨table, nodes⟩ c')
      (Region.Tracked owns out ⟨table, nodes⟩) (Region.Cleared owns out ⟨table, nodes⟩) e where
  toLeaves := Region.tracked_leaves hplaced fun _ _ r _ => r.stop_tracks e
  enter _ n hn _ hc hactive := Node.enter_tracks hplaced hn (ih n (List.mem_of_getElem? hn)) hc hactive

theorem Region.start_tracks (r : BuiltRegion σ γ δ) (hr : r.HasInitials) (e : Event) :
    r.Tracks (r.start setup e) := by
  induction r using Region.induct generalizing e with
  | step table nodes ih =>
    intro owns out c hplaced hc
    have hmoves (e : Event) := Region.tracked_moves (e := e) hplaced fun n hn r hr' =>
      ih n hn r hr' (hr.below hn hr') e
    exact ((hmoves e).start (hmoves .completion) hr.here hc).mono (fun _ _ h => h.1) fun _ _ h => h

theorem Node.react_tracks (hplaced : Region.Placed owns out ⟨table, nodes⟩) (hn : nodes[i]? = some n)
    (ih : ∀ r ∈ n.regions, r.Tracks (r.process setup e)) (hc : Region.Tracked owns out ⟨table, nodes⟩ c)
    (hactive : c.marking.active = .at i) :
    Ends (n.react setup table.path i e) c (fun _ => Region.Tracked owns out ⟨table, nodes⟩)
      fun h c' => h.isOverflow = true → Region.Tracked owns out ⟨table, nodes⟩ c' := by
  have hlive := Region.tracked_withstands owns out (⟨table, nodes⟩ : BuiltRegion σ γ δ)
  rw [Node.ends_react]
  refine (hc.onEach hplaced hn hactive ih).mono (fun _ c₁ hc₁ => ?_) fun _ _ h => h
  split
  · exact hc₁
  · exact (hlive.ends (Node.consult_inert (Note.admits_uncrossed e) _ _ _) hc₁).mono (fun _ _ h => h.1)
      fun _ _ h => h

theorem Region.process_tracks (r : BuiltRegion σ γ δ) (hr : r.HasInitials) (e : Event) :
    r.Tracks (r.process setup e) := by
  induction r using Region.induct with
  | step table nodes ih =>
    intro owns out c hplaced hc
    have hstart (n : BuiltNode σ γ δ) (hn : n ∈ nodes) (r : BuiltRegion σ γ δ) (hr' : r ∈ n.regions)
        (e : Event) : r.Tracks (r.start setup e) := r.start_tracks (hr.below hn hr') e
    have hmoves (e : Event) := Region.tracked_moves (e := e) hplaced fun n hn r hr' => hstart n hn r hr' e
    refine ((hmoves e).process (hmoves .completion) (fun i n hn c hc hactive => ?_) hc).mono
      (fun _ _ h => h.1) fun _ _ h => h
    have hmem := List.mem_of_getElem? hn
    exact Node.react_tracks hplaced hn (fun r hr' => ih n hmem r hr' (hr.below hmem hr')) hc hactive

end Turns

/-! ## Machines -/

omit [DecidableEq σ] in
/-- Whether a callback failed or panicked. -/
def Note.isFailure : Note σ → Bool
  | .failed _ | .panicked _ => true
  | _ => false

/-- No callback failed or panicked so far. -/
def Journal.Faultless (j : Journal σ) : Prop := ∀ n ∈ j.toList, n.isFailure = false

instance (j : Journal σ) : Decidable j.Faultless :=
  inferInstanceAs (Decidable (∀ n ∈ j.toList, n.isFailure = false))

omit [DecidableEq σ] in
theorem Halt.IsNoted.isOverflow {j : Journal σ} {h : Halt} (hj : h.IsNoted j) (hfaultless : j.Faultless) :
    h.isOverflow = true := by
  unfold Halt.IsNoted at hj
  split at hj
  · exact Bool.noConfusion (hfaultless _ hj)
  · rfl
  · exact Bool.noConfusion (hfaultless _ hj)
  · exact hj.elim

omit [DecidableEq σ] in
theorem Configuration.Follows.faultless {N : Note σ → Prop} {s s' : Configuration σ γ δ} (h : s.Follows N s')
    (hfaultless : s'.world.exchange.journal.Faultless) : s.world.exchange.journal.Faultless := by
  obtain ⟨l, hw, -⟩ := h
  intro n hn
  exact hfaultless n (by rw [hw.journal]; exact List.mem_append_left l hn)

omit [DecidableEq σ] in
theorem Configuration.Quiet.faultless {s s' : Configuration σ γ δ} (h : s.Quiet s')
    (hfaultless : s'.world.exchange.journal.Faultless) : s.world.exchange.journal.Faultless := by
  obtain ⟨l, hjournal, -⟩ := h.notes
  intro n hn
  exact hfaultless n (by rw [hjournal]; exact List.mem_append_left l hn)

/-- A state owns the states in its regions, at any depth. -/
def Chart.Owns (c : Chart σ γ δ) (o s : σ) : Prop := ∃ r ∈ c.regions, r.Encloses o s

/-- All regions of the chart are in step with the journal, and nothing else is inside. -/
def Chart.Tracked (c : Chart σ γ δ) (s : Configuration σ γ δ) : Prop :=
  Region.AllTracked c.Owns (fun _ => false) 0 c.regions s

/-- As long as no callback failed or panicked, the regions are in step with the journal. -/
def Chart.InStep (c : Chart σ γ δ) (s : Configuration σ γ δ) : Prop :=
  s.world.exchange.journal.Faultless → c.Tracked s

section Machines

variable {c : Chart σ γ δ} {s s' : Configuration σ γ δ} {N : Note σ → Prop}

omit [DecidableEq σ] in
theorem Chart.allPlaced (h : Region.AllDistinct c.regions) :
    Region.AllPlaced c.Owns (fun _ => false) c.regions :=
  ⟨h, fun _ _ _ ho => .inl ho, fun _ _ _ ho => ho⟩

/-- Where nothing moves and nothing is crossed, regions stay in step. -/
theorem Chart.Tracked.of_same (h : c.Tracked s) (hm : s.marking.Same s'.marking)
    {l : List (Note σ)} (hnotes : s'.notes = s.notes ++ l) (hl : ∀ n ∈ l, n.isCrossing = false) :
    c.Tracked s' := by
  have hinside (t : σ) : isInside t s'.notes = isInside t s.notes := by
    rw [hnotes]
    exact isInside_append (crossings_eq_nil fun n hn => Note.crossing?_eq_none (hl n hn))
  refine ⟨?_, fun t ht => (hinside t).trans (h.outside t ht), fun j r hr => ?_, fun j r hr => ?_⟩
  · rw [hnotes]
    exact h.nested.append_still hl
  · exact (Region.inStep_congr (h.inStep j r hr) fun t _ => hinside t).of_same
      (Region.inStep_isShallow _) (hm.child (0, j))
  · exact (h.legal j r hr).of_same Region.fit_isShallow (hm.child (0, j))

/-- What keeps a chart tracked unless a fault halts it, upholds its being in step. -/
theorem Chart.upholds_inStep {x : Turn σ γ δ α} (hfeeds : Feeds N x)
    (hx : ∀ s, c.Tracked s → Ends x s (fun _ => c.Tracked) fun h s' => h.isOverflow = true → c.Tracked s') :
    Upholds c.InStep x := by
  intro s hs
  by_cases hfaultless : s.world.exchange.journal.Faultless
  · refine ((hfeeds s).and (hx s (hs hfaultless))).mono (fun _ s' h _ => h.2) fun halt s' h hs' => ?_
    exact h.2 (h.1.2.isOverflow hs')
  · refine (hfeeds s).mono (fun _ s' h hs' => ?_) fun _ s' h hs' => ?_
    · exact absurd (h.faultless hs') hfaultless
    · exact absurd (h.1.faultless hs') hfaultless

variable [Named σ]

theorem Chart.stable_inStep (hinitials : ∀ r ∈ c.regions, r.HasInitials)
    (hdistinct : Region.AllDistinct c.regions) : c.Stable c.InStep where
  quiet s s' h hs hs' := by
    obtain ⟨l, hjournal, hl⟩ := h.notes
    have hfaultless : s.world.exchange.journal.Faultless := fun n hn =>
      hs' n (by rw [hjournal]; exact List.mem_append_left l hn)
    refine (hs hfaultless).of_same (by rw [h.marking]; exact .refl _) hjournal fun n hn => ?_
    exact Note.not_isCrossing_of_isOuter (hl n hn)
  start := by
    have hfeeds := c.startRegions_feeds (N := fun _ => True) (fun _ _ => trivial) fun _ _ => trivial
    refine Chart.upholds_inStep hfeeds fun s hs => ?_
    unfold Chart.startRegions
    rw [Region.ends_startAll]
    exact onEach_tracked (Chart.allPlaced hdistinct) (fun r hr => r.start_tracks (hinitials r hr) _) hs
  stop := by
    have hfeeds := c.stopRegions_feeds (N := fun _ => True) fun _ _ => trivial
    refine Chart.upholds_inStep hfeeds fun s hs => ?_
    unfold Chart.stopRegions
    rw [Region.ends_stopAll]
    exact onEach_tracked (Chart.allPlaced hdistinct) (fun r _ => r.stop_tracks _) hs
  process e := by
    have hfeeds := c.processRegions_feeds (N := fun _ => True) (e := e) (fun _ _ => trivial) fun _ _ => trivial
    refine Chart.upholds_inStep hfeeds fun s hs => ?_
    rw [Region.ends_processAll]
    exact onEach_tracked (Chart.allPlaced hdistinct) (fun r hr => r.process_tracks (hinitials r hr) e) hs
  check e := by
    have hlooks := Region.checkAny_looks (Note.admits_uncrossed e) 0 0 c.regions
    have hsame {s s' : Configuration σ γ δ} (h : s.Unmoved Note.Uncrossed s') (hs : c.Tracked s) :
        c.Tracked s' := by
      obtain ⟨l, hw, hl⟩ := h.follows
      exact hs.of_same h.marking hw.journal hl
    refine Chart.upholds_inStep (Keeps.mono hlooks (fun _ _ h => h.follows) fun _ _ h => h.1) fun s hs => ?_
    exact (hlooks s).mono (fun _ _ h => hsame h hs) fun _ _ h _ => hsame h.1 hs

/-! ## Active states -/

omit [Named σ] in
/-- In a region that is in step with the journal, the active states are those that are inside. -/
theorem Region.mem_activeStates {p : Prop} {l : List (Note σ)} {t : σ} (r : BuiltRegion σ γ δ)
    {m : Marking δ} (hstep : r.Throughout (Region.InStep l) m) (hlegal : r.Throughout (Region.Fit p) m) :
    t ∈ r.activeStates m ↔ t ∈ r.ids ∧ isInside t l = true := by
  induction r using Region.induct generalizing m with
  | step table nodes ih =>
    have hresting (hactive : ∀ i, m.active ≠ .at i) :
        t ∈ ([] : List σ) ↔ t ∈ Region.ids ⟨table, nodes⟩ ∧ isInside t l = true := by
      refine ⟨nofun, fun ⟨hmem, hin⟩ => ?_⟩
      rw [Region.none_inside hstep hlegal hactive t hmem] at hin
      cases hin
    rw [Region.activeStates]
    split
    · rename_i i hactive
      have hlt : i < nodes.length := hlegal.here.legal.bounded i hactive
      have hn := List.getElem?_eq_getElem hlt
      generalize nodes[i] = n at hn
      have hmem := List.mem_of_getElem? hn
      rw [Node.activeStatesAt_eq, hn, Option.elim_some, Node.activeStates_eq, List.mem_cons,
        Region.mem_allActiveStates]
      have hchild (j : Nat) (r' : BuiltRegion σ γ δ) (hr' : n.regions[j]? = some r') :
          t ∈ r'.activeStates (m.child (i, 0 + j)) ↔ t ∈ r'.ids ∧ isInside t l = true := by
        rw [Nat.zero_add]
        have hr : Region.child? ⟨table, nodes⟩ (i, j) = some r' := (Region.child?_of_nodes hn j).trans hr'
        exact ih n hmem r' (List.mem_of_getElem? hr') (hstep.child hr) (hlegal.child hr)
      constructor
      · rintro (rfl | ⟨j, r', hr', ht⟩)
        · exact ⟨Region.id_mem_ids hmem, (hstep.here i n hn).2 hactive⟩
        · obtain ⟨hids, hin⟩ := (hchild j r' hr').1 ht
          exact ⟨Region.mem_ids_of_below hmem (List.mem_of_getElem? hr') hids, hin⟩
      · rintro ⟨hids, hin⟩
        rcases Region.inside_of_active hstep hlegal hn hactive hids hin with rfl | ⟨j, r', hr', ht⟩
        · exact .inl rfl
        · exact .inr ⟨j, r', hr', (hchild j r' hr').2 ⟨ht, hin⟩⟩
    · rename_i hactive
      exact hresting hactive

omit [Named σ] in
theorem Chart.Tracked.mem_activeStates {m : Machine σ γ δ} (h : m.chart.Tracked m.configuration) {t : σ}
    (ht : t ∈ Region.allIds m.chart.regions) :
    t ∈ m.activeStates ↔ isInside t m.configuration.notes = true := by
  unfold Machine.activeStates
  rw [Region.mem_allActiveStates]
  constructor
  · rintro ⟨j, r, hr, hactive⟩
    rw [Nat.zero_add] at hactive
    exact ((Region.mem_activeStates r (h.inStep j r hr) (h.legal j r hr)).1 hactive).2
  · intro hin
    obtain ⟨r, hr, ht⟩ := Region.mem_allIds.1 ht
    obtain ⟨j, hj⟩ := List.getElem?_of_mem hr
    refine ⟨j, r, hj, ?_⟩
    rw [Nat.zero_add]
    exact (Region.mem_activeStates r (h.inStep j r hj) (h.legal j r hj)).2 ⟨ht, hin⟩

variable [Inhabited δ]

/-- **Entries and exits are balanced.** In a machine that is reached without a callback failing or
panicking, the entries and exits of every state alternate, beginning with an entry; there is one entry more
than exits if the state is active, and as many otherwise. And from the entry of a state to its next exit,
every state that encloses it is inside, and is neither entered nor left. -/
theorem visits_are_balanced {b : Blueprint σ γ δ} {m : Machine σ γ δ} (h : b.Reaches m)
    (hfaultless : m.journal.Faultless) :
    (∀ s ∈ Region.allIds m.chart.regions,
      Alternates (crossings s m.journal.toList) ∧
        (crossings s m.journal.toList).count .entry =
          (crossings s m.journal.toList).count .exit + if s ∈ m.activeStates then 1 else 0) ∧
    ∀ o s, m.chart.Owns o s → ∀ l l', l ++ l' <+: m.journal.toList → isInside s l = true →
      crossings s l' = [] → isInside o l = true ∧ crossings o l' = [] := by
  have hstep : m.chart.InStep m.configuration := by
    refine Blueprint.Reaches.upholds (I := Chart.InStep) (fun chart s hs _ => ?_)
      (fun chart s hs => Chart.stable_inStep hs.hasInitials hs.allDistinct) h
    have hnone (t : σ) : isInside t s.notes = false := by
      have hcrossings : crossings t s.notes = [] := crossings_eq_nil fun n hn =>
        Note.crossing?_eq_none (Note.not_isCrossing_of_isOuter (hs.notes n hn))
      simp [isInside, hcrossings]
    refine ⟨?_, fun t _ => hnone t, fun j r _ => ?_, fun j r _ => ?_⟩
    · exact Nested.nil.append_still fun n hn => Note.not_isCrossing_of_isOuter (hs.notes n hn)
    · rw [hs.marking]
      exact Region.inStep_of_none (p := True) r.fit_fresh (fun _ h => by cases h) fun t _ => hnone t
    · rw [hs.marking]
      exact r.fit_fresh
  have htracked := hstep hfaultless
  refine ⟨fun s hs => ⟨htracked.nested.alternates s, ?_⟩, fun o s ho l l' hl hin hcrossings => ?_⟩
  · have hcount := htracked.nested.count_crossings s
    have hactive := htracked.mem_activeStates hs
    split
    · rename_i hmem
      rw [hactive.1 hmem] at hcount
      exact hcount
    · rename_i hmem
      rw [Bool.eq_false_iff.2 fun hin => hmem (hactive.2 hin)] at hcount
      exact hcount
  · obtain ⟨rest, hrest⟩ := hl
    have hnested : Nested m.chart.Owns ((l ++ l') ++ rest) := by
      rw [hrest]
      exact htracked.nested
    exact hnested.of_append.not_crossed_of_owns ho hin hcrossings

end Machines

/-- The lamp was turned off once, and the light burns only while the lamp is on. -/
theorem visits_are_balanced_lit : crossings .off Lamp.lit.journal.toList = [.entry, .exit] ∧
    Alternates (crossings .off Lamp.lit.journal.toList) ∧
    ∀ l l', l ++ l' <+: Lamp.lit.journal.toList → isInside .dim l = true → crossings .dim l' = [] →
      isInside .on l = true ∧ crossings .on l' = [] := by
  have hfaultless : Lamp.lit.journal.Faultless := by decide +kernel
  obtain ⟨hbalanced, hnested⟩ := visits_are_balanced Lamp.reaches_lit hfaultless
  have hoff : Lamp.off ∈ Region.allIds Lamp.lit.chart.regions := by
    rw [Lamp.chart_lit]
    decide
  have howns : Lamp.lit.chart.Owns .on .dim := by
    rw [Lamp.chart_lit]
    refine ⟨Lamp.tree, List.mem_cons_self, ?_⟩
    exact Region.Encloses.own (r := Lamp.tree) List.mem_cons_self List.mem_cons_self (by decide)
  exact ⟨by decide +kernel, (hbalanced _ hoff).1, hnested _ _ howns⟩

end Statechart
