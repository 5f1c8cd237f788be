import Statechart.Proofs.Construction
import Statechart.Proofs.Depth
import Statechart.Proofs.Feed
import Statechart.Proofs.Passes

/-!
# Legal configurations

In every machine that is reached, a region below a state that is not active is stopped; and as long as no
callback failed or panicked and no completion chain overflowed, a region below an active state is running.

* `Region.Legal`, `Region.Populated` : the two halves, for one region;
* `Region.Fit p` : legal, and populated if `p`; `Region.Dormant` : all that is below a region is stopped;
* `Region.stop_fit`, `Region.start_fit`, `Region.process_fit` : what a turn that ends well does to `Fit p`,
  and that a turn that is halted leaves a legal configuration;
* `legal_configuration`.
-/

set_option autoImplicit false

namespace Statechart

open Turn

variable {σ γ δ α : Type}

/-- What is active is one of the states, and no region below another state runs. -/
structure Region.Legal (r : BuiltRegion σ γ δ) (m : Marking δ) : Prop where
  bounded : ∀ i, m.active = .at i → i < r.nodes.length
  idle : ∀ k r', r.child? k = some r' → m.active ≠ .at k.1 → (m.child k).active = .stopped

/-- Every region of the active state is running. -/
def Region.Populated (r : BuiltRegion σ γ δ) (m : Marking δ) : Prop :=
  ∀ k r', r.child? k = some r' → m.active = .at k.1 → (m.child k).active ≠ .stopped

/-- The region is legal, and if `p` then populated. -/
structure Region.Fit (p : Prop) (r : BuiltRegion σ γ δ) (m : Marking δ) : Prop where
  legal : r.Legal m
  populated : p → r.Populated m

/-- All that is below the region is stopped. -/
def Region.Dormant (r : BuiltRegion σ γ δ) (m : Marking δ) : Prop :=
  ∀ k r', r.child? k = some r' → r'.Throughout (Region.Fit True) (m.child k) ∧ (m.child k).active = .stopped

variable {r : BuiltRegion σ γ δ} {m m' : Marking δ} {p q : Prop}

theorem Region.Fit.mono (h : r.Fit p m) (hqp : q → p) : r.Fit q m := ⟨h.legal, fun hq => h.populated (hqp hq)⟩

theorem Region.fit_isShallow : Region.IsShallow (Region.Fit (σ := σ) (γ := γ) (δ := δ) p) := by
  intro r m m' hactive hchild h
  refine ⟨⟨fun i hi => h.legal.bounded i (hactive ▸ hi), fun k r' hr' hk => ?_⟩, fun hp k r' hr' hk => ?_⟩
  · rw [hchild k]
    exact h.legal.idle k r' hr' (hactive ▸ hk)
  · rw [hchild k]
    exact h.populated hp k r' hr' (hactive ▸ hk)

theorem Region.fit_mono (hqp : q → p) (h : r.Throughout (Region.Fit p) m) :
    r.Throughout (Region.Fit q) m :=
  h.mono fun _ _ hr => hr.mono hqp

/-- In a legal region without an active state all regions are stopped, and those of a stopped region are
populated for want of an active state. -/
theorem Region.fit_of_stopped (h : r.Throughout (Region.Fit p) m) (hactive : m.active = .stopped) :
    r.Throughout (Region.Fit True) m := by
  induction h with
  | intro hhere _ ih =>
    refine .intro ⟨hhere.legal, fun _ k r' _ hk => ?_⟩ fun k r' hr' => ih k r' hr' ?_
    · rw [hactive] at hk
      cases hk
    · exact hhere.legal.idle k r' hr' (by rw [hactive]; exact nofun)

theorem Region.dormant_of_resting (h : r.Throughout (Region.Fit p) m) (hactive : ∀ i, m.active ≠ .at i) :
    r.Dormant m := by
  intro k r' hr'
  have hstopped := h.here.legal.idle k r' hr' (hactive k.1)
  exact ⟨Region.fit_of_stopped (h.child hr') hstopped, hstopped⟩

/-- A dormant region is fit once what is active in it has no region that has to run. -/
theorem Region.Dormant.fit (h : r.Dormant m) (hbounded : ∀ i, m.active = .at i → i < r.nodes.length)
    (hpopulated : p → ∀ i, m.active ≠ .at i) : r.Throughout (Region.Fit p) m := by
  refine .intro ⟨⟨hbounded, fun k r' hr' _ => (h k r' hr').2⟩, fun hp k r' _ hk => ?_⟩ fun k r' hr' => ?_
  · exact absurd hk (hpopulated hp k.1)
  · exact Region.fit_mono (fun _ => trivial) (h k r' hr').1

/-- A region that was never started is fit. -/
theorem Region.fit_fresh (r : BuiltRegion σ γ δ) : r.Throughout (Region.Fit p) .fresh :=
  Region.throughout_fresh (fun _ => ⟨⟨nofun, fun _ _ _ _ => rfl⟩, fun _ _ _ _ hk => by cases hk⟩) r

theorem Region.Dormant.congr (h : r.Dormant m) (hchild : ∀ k, m'.child k = m.child k) : r.Dormant m' := by
  intro k r' hr'
  rw [hchild k]
  exact h k r' hr'

/-- When the regions of the active state are stopped, all is. -/
theorem Region.dormant_of_sameBut {c c' : Configuration σ γ δ} {i : Nat}
    (h : r.Throughout (Region.Fit p) c.marking) (hactive : c.marking.active = .at i) (hsame : c.SameBut i c')
    (hat : ∀ j r', r.child? (i, j) = some r' → r'.Throughout (Region.Fit True) (c'.marking.child (i, j)) ∧
      (c'.marking.child (i, j)).active = .stopped) : r.Dormant c'.marking := by
  intro k r' hr'
  by_cases hk : k.1 = i
  · obtain ⟨k, j⟩ := k
    obtain rfl : k = i := hk
    exact hat j r' hr'
  · have hstopped : (c.marking.child k).active = .stopped := by
      refine h.here.legal.idle k r' hr' ?_
      rw [hactive]
      exact fun heq => hk (Active.at.inj heq).symm
    rw [hsame.child k hk]
    exact ⟨Region.fit_of_stopped (h.child hr') hstopped, hstopped⟩

/-- What becomes of a region when only the regions of the active state have changed. -/
theorem Region.fit_of_sameBut {c c' : Configuration σ γ δ} {i : Nat} (hlegal : r.Legal c.marking)
    (hactive : c.marking.active = .at i) (hsame : c.SameBut i c')
    (hothers : ∀ k r', r.child? k = some r' → k.1 ≠ i → r'.Throughout (Region.Fit p) (c.marking.child k))
    (hat : ∀ j r', r.child? (i, j) = some r' → r'.Throughout (Region.Fit p) (c'.marking.child (i, j)) ∧
      (p → (c'.marking.child (i, j)).active ≠ .stopped)) : r.Throughout (Region.Fit p) c'.marking := by
  have hactive' : c'.marking.active = .at i := hsame.active.trans hactive
  refine .intro ⟨⟨fun k hk => ?_, fun k r' hr' hk => ?_⟩, fun hp k r' hr' hk => ?_⟩ fun k r' hr' => ?_
  · rw [hsame.active] at hk
    exact hlegal.bounded k hk
  · have hne : k.1 ≠ i := fun h => hk (by rw [hactive', h])
    rw [hsame.child k hne]
    exact hlegal.idle k r' hr' (by rwa [← hsame.active])
  · obtain ⟨k, j⟩ := k
    obtain rfl : i = k := Active.at.inj (hactive'.symm.trans hk)
    exact (hat j r' hr').2 hp
  · by_cases hk : k.1 = i
    · obtain ⟨k, j⟩ := k
      obtain rfl : k = i := hk
      exact (hat j r' hr').1
    · rw [hsame.child k hk]
      exact hothers k r' hr' hk

/-! ## Turns of a region -/

section Turns

variable [Named σ] {setup : Setup σ γ} {table : RegionTable σ γ} {nodes : List (BuiltNode σ γ δ)}
  {e : Event}

/-- However a turn of the region is halted, the configuration is legal. -/
abbrev Region.HaltsLegally (r : BuiltRegion σ γ δ) (_ : Halt) (c : Configuration σ γ δ) : Prop :=
  r.Throughout (Region.Fit False) c.marking

/-- While no state is active, all below is stopped. -/
abbrev Region.Vacated (r : BuiltRegion σ γ δ) (c : Configuration σ γ δ) : Prop :=
  r.Dormant c.marking ∧ ∀ i, c.marking.active = .at i → i < r.nodes.length

omit [Named σ] in
theorem Region.fit_withstands (r : BuiltRegion σ γ δ) (p : Prop) :
    Withstands r.HaltsLegally fun c => r.Throughout (Region.Fit p) c.marking := by
  intro c c' hsteps hc
  have hc' := hc.congr Region.fit_isShallow hsteps.active hsteps.child
  exact ⟨hc', fun _ _ => Region.fit_mono False.elim hc'⟩

omit [Named σ] in
theorem Region.vacated_withstands (r : BuiltRegion σ γ δ) : Withstands r.HaltsLegally r.Vacated := by
  intro c c' hsteps hc
  have hc' : r.Vacated c' := ⟨hc.1.congr hsteps.child, fun i hi => hc.2 i (hsteps.active ▸ hi)⟩
  exact ⟨hc', fun _ _ => hc'.1.fit hc'.2 False.elim⟩

/-- What stopping does to a region. -/
def Region.StopFit (setup : Setup σ γ) (e : Event) (r : BuiltRegion σ γ δ) : Prop :=
  ∀ c : Configuration σ γ δ, r.Throughout (Region.Fit False) c.marking →
    Ends (r.stop setup e) c
      (fun _ c' => r.Throughout (Region.Fit True) c'.marking ∧ c'.marking.active = .stopped)
      r.HaltsLegally

/-- Stopping the regions of the active state leaves all that is below the region stopped. -/
theorem Region.stopAll_vacates {i : Nat} {n : BuiltNode σ γ δ} (hn : nodes[i]? = some n)
    (ih : ∀ r ∈ n.regions, r.StopFit setup e) {c : Configuration σ γ δ}
    (hc : Region.Throughout (Region.Fit p) ⟨table, nodes⟩ c.marking) (hactive : c.marking.active = .at i) :
    Ends (onEach (fun r => r.stop setup e) i 0 n.regions) c
      (fun _ c' => Region.Vacated ⟨table, nodes⟩ c' ∧ c.SameBut i c')
      (Region.HaltsLegally ⟨table, nodes⟩) := by
  have hchild (j : Nat) : Region.child? ⟨table, nodes⟩ (i, j) = n.regions[j]? := Region.child?_of_nodes hn j
  have hlegal : Region.Throughout (Region.Fit False) ⟨table, nodes⟩ c.marking := Region.fit_mono False.elim hc
  refine Ends.mono (Ends.and (onEach_children (P := fun r m => r.Throughout (Region.Fit False) m)
    (Q := fun r m => r.Throughout (Region.Fit True) m ∧ m.active = .stopped)
    (R := fun r m => r.Throughout (Region.Fit False) m) (fun _ _ h => h)
    (fun _ _ h => Region.fit_mono (fun _ => trivial) h.1) ih
    fun j r' hr' => hlegal.child ((hchild j).trans hr')) (onEach_confined 0 n.regions c))
    (fun _ c₁ h₁ => ?_) fun _ c₁ h₁ => ?_
  · obtain ⟨hstopped, hsame⟩ := h₁
    have hdormant : Region.Dormant ⟨table, nodes⟩ c₁.marking :=
      Region.dormant_of_sameBut hc hactive hsame fun j r' hr' => hstopped j r' ((hchild j).symm.trans hr')
    exact ⟨⟨hdormant, fun k hk => hc.here.legal.bounded k (hsame.active ▸ hk)⟩, hsame⟩
  · obtain ⟨hbelow, hsame⟩ := h₁
    refine Region.fit_of_sameBut hc.here.legal hactive hsame.1 (fun k r' hr' _ => hlegal.child hr') ?_
    exact fun j r' hr' => ⟨hbelow j r' ((hchild j).symm.trans hr'), False.elim⟩

theorem Node.exit_vacates {i : Nat} {n : BuiltNode σ γ δ} (hn : nodes[i]? = some n)
    (ih : ∀ r ∈ n.regions, r.StopFit setup e) {c : Configuration σ γ δ}
    (hc : Region.Throughout (Region.Fit p) ⟨table, nodes⟩ c.marking) (hactive : c.marking.active = .at i) :
    Ends (n.exit setup table.path i e) c (fun _ => Region.Vacated ⟨table, nodes⟩)
      (Region.HaltsLegally ⟨table, nodes⟩) := by
  have hN := Note.admits_uncrossed (σ := σ) e
  have hstop := Region.stopAll_vacates hn ih hc hactive
  obtain ⟨unit, regions⟩ := n
  rw [Node.exit, ends_bind, Region.ends_stopAll]
  refine hstop.mono (fun _ c₁ hc₁ => ?_) fun _ _ h => h
  rw [ends_bind, ends_note]
  refine ((Region.vacated_withstands _).ends ?_ ?_).mono (fun _ _ h => h.1) fun _ _ h => h
  · exact orFail_inert hN _ _ _ (performAt_inert (fun _ => hN.silent) _ _ _)
  · exact hc₁.1

theorem Region.fit_leaves (table : RegionTable σ γ) (p : Prop)
    (ih : ∀ n ∈ nodes, ∀ r ∈ n.regions, r.StopFit setup e) :
    Region.Leaves setup table nodes (Region.HaltsLegally ⟨table, nodes⟩)
      (fun c => Region.Throughout (Region.Fit p) ⟨table, nodes⟩ c.marking)
      (Region.Vacated ⟨table, nodes⟩) e where
  live := Region.fit_withstands _ p
  left := Region.vacated_withstands _
  halted _ _ hc := Region.fit_mono False.elim hc
  bounded _ i hc hi := hc.here.legal.bounded i hi
  resting _ hc hresting := ⟨Region.dormant_of_resting hc hresting, fun i hi => absurd hi (hresting i)⟩
  rested _ hc hresting := hc.1.fit hc.2 fun _ => hresting
  leave _ n hn _ hc hactive := Node.exit_vacates hn (ih n (List.mem_of_getElem? hn)) hc hactive
  move _ _ hc hbounded := ⟨hc.1, hbounded⟩

theorem Region.stop_fit (r : BuiltRegion σ γ δ) : r.StopFit setup e := by
  induction r using Region.induct with
  | step table nodes ih =>
    intro c hc
    refine ((Region.fit_leaves table False ih).stop hc).mono (fun _ c' hc' => ?_) fun _ _ h => h
    exact ⟨Region.fit_of_stopped hc'.1 hc'.2, hc'.2⟩

variable [DecidableEq σ]

/-- What starting does to a region. -/
def Region.StartFit (setup : Setup σ γ) (p : Prop) (r : BuiltRegion σ γ δ) : Prop :=
  ∀ (e : Event) (c : Configuration σ γ δ), r.Throughout (Region.Fit p) c.marking →
    Ends (r.start setup e) c
      (fun _ c' => r.Throughout (Region.Fit p) c'.marking ∧ c'.marking.active ≠ .stopped) r.HaltsLegally

/-- A state that is entered has all its regions running. -/
theorem Node.enter_fit {i : Nat} {n : BuiltNode σ γ δ} (hn : nodes[i]? = some n)
    (ih : ∀ r ∈ n.regions, r.StartFit setup p) {c : Configuration σ γ δ}
    (hc : Region.Vacated ⟨table, nodes⟩ c) (hactive : c.marking.active = .at i) :
    Ends (n.enter setup table.path i e) c
      (fun _ c' => Region.Throughout (Region.Fit p) ⟨table, nodes⟩ c'.marking)
      (Region.HaltsLegally ⟨table, nodes⟩) := by
  have hN := Note.admits_uncrossed (σ := σ) e
  have hchild (j : Nat) : Region.child? ⟨table, nodes⟩ (i, j) = n.regions[j]? := Region.child?_of_nodes hn j
  obtain ⟨unit, regions⟩ := n
  rw [Node.enter, ends_bind, ends_note]
  refine (Region.vacated_withstands ⟨table, nodes⟩).bind
    (orFail_inert hN _ _ _ (performAt_inert (fun _ => hN.silent) _ _ _)) ?_ fun _ c₁ hc₁ h₁ => ?_
  · exact hc
  have hactive₁ : c₁.marking.active = .at i := h₁.trans hactive
  have hbelow (q : Prop) (k : Nat × Nat) (r' : BuiltRegion σ γ δ)
      (hr' : Region.child? ⟨table, nodes⟩ k = some r') : r'.Throughout (Region.Fit q) (c₁.marking.child k) :=
    Region.fit_mono (fun _ => trivial) (hc₁.1 k r' hr').1
  have hlegal : Region.Throughout (Region.Fit False) ⟨table, nodes⟩ c₁.marking :=
    hc₁.1.fit hc₁.2 False.elim
  rw [Region.ends_startAll]
  refine Ends.mono (Ends.and (onEach_children (P := fun r m => r.Throughout (Region.Fit p) m)
    (Q := fun r m => r.Throughout (Region.Fit p) m ∧ m.active ≠ .stopped)
    (R := fun r m => r.Throughout (Region.Fit False) m) (fun _ _ => Region.fit_mono False.elim)
    (fun _ _ h => Region.fit_mono False.elim h.1) (fun r hr c hc => ih r hr e c hc)
    fun j r' hr' => hbelow p (i, j) r' ((hchild j).trans hr')) (onEach_confined 0 regions c₁))
    (fun _ c₂ h₂ => ?_) fun _ c₂ h₂ => ?_
  · obtain ⟨hstarted, hsame⟩ := h₂
    refine Region.fit_of_sameBut hlegal.here.legal hactive₁ hsame (fun k r' hr' _ => hbelow p k r' hr') ?_
    intro j r' hr'
    have hj := hstarted j r' ((hchild j).symm.trans hr')
    exact ⟨hj.1, fun _ => hj.2⟩
  · obtain ⟨hhalted, hsame⟩ := h₂
    refine Region.fit_of_sameBut hlegal.here.legal hactive₁ hsame.1 (fun k r' hr' _ => hbelow _ k r' hr') ?_
    exact fun j r' hr' => ⟨hhalted j r' ((hchild j).symm.trans hr'), False.elim⟩

theorem Region.fit_moves (table : RegionTable σ γ) (p : Prop) (e : Event)
    (ih : ∀ n ∈ nodes, ∀ r ∈ n.regions, r.StartFit setup p) :
    Region.Moves setup table nodes (Region.HaltsLegally ⟨table, nodes⟩)
      (fun c => Region.Throughout (Region.Fit p) ⟨table, nodes⟩ c.marking)
      (Region.Vacated ⟨table, nodes⟩) e where
  toLeaves := Region.fit_leaves table p fun _ _ r _ => r.stop_fit
  enter _ n hn _ hc hactive := Node.enter_fit hn (ih n (List.mem_of_getElem? hn)) hc hactive

theorem Region.start_fit (p : Prop) (r : BuiltRegion σ γ δ) (hr : r.HasInitials) : r.StartFit setup p := by
  induction r using Region.induct with
  | step table nodes ih =>
    have hstart (n : BuiltNode σ γ δ) (hn : n ∈ nodes) (r : BuiltRegion σ γ δ) (hr' : r ∈ n.regions) :
        r.StartFit setup p := ih n hn r hr' (hr.below hn hr')
    have hmoves (e : Event) := Region.fit_moves table p e hstart
    intro e c hc
    exact (hmoves e).start (hmoves .completion) hr.here hc

/-- What an event does to a region. -/
def Region.ProcessFit (setup : Setup σ γ) (p : Prop) (e : Event) (r : BuiltRegion σ γ δ) : Prop :=
  ∀ c : Configuration σ γ δ, r.Throughout (Region.Fit p) c.marking →
    Ends (r.process setup e) c
      (fun _ c' => r.Throughout (Region.Fit p) c'.marking ∧
        (c.marking.active ≠ .stopped → c'.marking.active ≠ .stopped)) r.HaltsLegally

/-- The active state hands an event on to its regions. -/
theorem Node.react_fit {i : Nat} {n : BuiltNode σ γ δ} (hn : nodes[i]? = some n)
    (ih : ∀ r ∈ n.regions, r.ProcessFit setup p e) {c : Configuration σ γ δ}
    (hc : Region.Throughout (Region.Fit p) ⟨table, nodes⟩ c.marking) (hactive : c.marking.active = .at i) :
    Ends (n.react setup table.path i e) c
      (fun _ c' => Region.Throughout (Region.Fit p) ⟨table, nodes⟩ c'.marking)
      (Region.HaltsLegally ⟨table, nodes⟩) := by
  have hchild (j : Nat) : Region.child? ⟨table, nodes⟩ (i, j) = n.regions[j]? := Region.child?_of_nodes hn j
  have hlegal : Region.Throughout (Region.Fit False) ⟨table, nodes⟩ c.marking := Region.fit_mono False.elim hc
  have hlive := Region.fit_withstands (⟨table, nodes⟩ : BuiltRegion σ γ δ) p
  rw [Node.ends_react]
  refine Ends.mono (Ends.and (onEach_children
    (P := fun r m => r.Throughout (Region.Fit p) m ∧ (p → m.active ≠ .stopped))
    (Q := fun r m => r.Throughout (Region.Fit p) m ∧ (p → m.active ≠ .stopped))
    (R := fun r m => r.Throughout (Region.Fit False) m) (fun _ _ h => Region.fit_mono False.elim h.1)
    (fun _ _ h => Region.fit_mono False.elim h.1) (fun r hr c hc => ?_) fun j r' hr' => ?_)
    (onEach_confined 0 n.regions c)) (fun _ c₁ h₁ => ?_) fun _ c₁ h₁ => ?_
  · refine (ih r hr c hc.1).mono (fun _ c' hc' => ⟨hc'.1, fun hp => hc'.2 (hc.2 hp)⟩) fun _ _ h => h
  · have hr := (hchild j).trans hr'
    exact ⟨hc.child hr, fun hp => hc.here.populated hp (i, j) r' hr hactive⟩
  · obtain ⟨hprocessed, hsame⟩ := h₁
    have hc₁ : Region.Throughout (Region.Fit p) ⟨table, nodes⟩ c₁.marking :=
      Region.fit_of_sameBut hc.here.legal hactive hsame (fun k r' hr' _ => hc.child hr')
        fun j r' hr' => hprocessed j r' ((hchild j).symm.trans hr')
    split
    · exact hc₁
    · exact (hlive.ends (Node.consult_inert (Note.admits_uncrossed e) _ _ _) hc₁).mono (fun _ _ h => h.1)
        fun _ _ h => h
  · obtain ⟨hhalted, hsame⟩ := h₁
    refine Region.fit_of_sameBut hc.here.legal hactive hsame.1 (fun k r' hr' _ => hlegal.child hr') ?_
    exact fun j r' hr' => ⟨hhalted j r' ((hchild j).symm.trans hr'), False.elim⟩

theorem Region.process_fit (p : Prop) (e : Event) (r : BuiltRegion σ γ δ) (hr : r.HasInitials) :
    r.ProcessFit setup p e := by
  induction r using Region.induct with
  | step table nodes ih =>
    have hstart (n : BuiltNode σ γ δ) (hn : n ∈ nodes) (r : BuiltRegion σ γ δ) (hr' : r ∈ n.regions) :
        r.StartFit setup p := r.start_fit p (hr.below hn hr')
    have hmoves (e : Event) := Region.fit_moves table p e hstart
    intro c hc
    refine (hmoves e).process (hmoves .completion) (fun i n hn c hc hactive => ?_) hc
    have hmem := List.mem_of_getElem? hn
    exact Node.react_fit hn (fun r hr' => ih n hmem r hr' (hr.below hmem hr')) hc hactive

end Turns

/-! ## Machines -/

/-- Whether a callback failed or panicked, or a completion chain overflowed. -/
def Note.isFault : Note σ → Bool
  | .failed _ | .panicked _ | .overflowed _ _ => true
  | _ => false

/-- Nothing went wrong so far. -/
def Journal.Calm (j : Journal σ) : Prop := ∀ n ∈ j.toList, n.isFault = false

instance (j : Journal σ) : Decidable j.Calm :=
  inferInstanceAs (Decidable (∀ n ∈ j.toList, n.isFault = false))

theorem Halt.IsNoted.not_calm {j : Journal σ} {h : Halt} (hj : h.IsNoted j) : ¬ j.Calm := by
  intro hcalm
  unfold Halt.IsNoted at hj
  split at hj
  · exact Bool.noConfusion (hcalm _ hj)
  · exact Bool.noConfusion (hcalm _ hj)
  · exact Bool.noConfusion (hcalm _ hj)
  · exact hj

theorem Configuration.Follows.calm {N : Note σ → Prop} {s s' : Configuration σ γ δ} (h : s.Follows N s')
    (hcalm : s'.world.exchange.journal.Calm) : s.world.exchange.journal.Calm := by
  obtain ⟨l, hw, -⟩ := h
  intro n hn
  exact hcalm n (by rw [hw.journal]; exact List.mem_append_left l hn)

theorem Configuration.Quiet.calm {s s' : Configuration σ γ δ} (h : s.Quiet s')
    (hcalm : s'.world.exchange.journal.Calm) : s.world.exchange.journal.Calm := by
  obtain ⟨l, hjournal, -⟩ := h.notes
  exact fun n hn => hcalm n (by rw [hjournal]; exact List.mem_append_left l hn)

/-- Every region of the chart is fit, at every depth. -/
def Chart.Fit (c : Chart σ γ δ) (p : Prop) (s : Configuration σ γ δ) : Prop :=
  ∀ (j : Nat) (r : BuiltRegion σ γ δ), c.regions[j]? = some r →
    r.Throughout (Region.Fit p) (s.marking.child (0, j))

/-- The regions are legal, and populated as long as nothing went wrong. -/
def Chart.IsLegal (c : Chart σ γ δ) (s : Configuration σ γ δ) : Prop :=
  c.Fit s.world.exchange.journal.Calm s

section Machines

variable {c : Chart σ γ δ} {s s' : Configuration σ γ δ} {N : Note σ → Prop}

theorem Chart.Fit.mono (h : c.Fit p s) (hqp : q → p) : c.Fit q s :=
  fun j r hr => Region.fit_mono hqp (h j r hr)

/-- What keeps a chart fit, and leaves it legal when halted, upholds its being legal: a halt is noted. -/
theorem Chart.upholds_isLegal {x : Turn σ γ δ α} (hfeeds : Feeds N x)
    (hx : ∀ p s, c.Fit p s → Ends x s (fun _ => c.Fit p) fun _ => c.Fit False) : Upholds c.IsLegal x := by
  intro s hs
  refine ((hfeeds s).and (hx _ s hs)).mono (fun _ s' h => ?_) fun halt s' h => ?_
  · exact h.2.mono h.1.calm
  · exact h.2.mono fun hcalm => h.1.2.not_calm hcalm

/-- A pass over the regions of a chart. -/
theorem Chart.onEach_fit {x : BuiltRegion σ γ δ → Turn σ γ δ α}
    (hx : ∀ r ∈ c.regions, ∀ p s, r.Throughout (Region.Fit p) s.marking →
      Ends (x r) s (fun _ s' => r.Throughout (Region.Fit p) s'.marking) r.HaltsLegally)
    (p : Prop) (s : Configuration σ γ δ) (hs : c.Fit p s) :
    Ends (onEach x 0 0 c.regions) s (fun _ => c.Fit p) fun _ => c.Fit False :=
  onEach_children (P := fun r m => r.Throughout (Region.Fit p) m)
    (Q := fun r m => r.Throughout (Region.Fit p) m) (R := fun r m => r.Throughout (Region.Fit False) m)
    (fun _ _ => Region.fit_mono False.elim) (fun _ _ => Region.fit_mono False.elim)
    (fun r hr s hs => hx r hr p s hs) hs

variable [DecidableEq σ] [Named σ]

theorem Chart.stable_isLegal (hinitials : ∀ r ∈ c.regions, r.HasInitials) : c.Stable c.IsLegal where
  quiet s s' h hs := by
    have hfit : c.Fit s.world.exchange.journal.Calm s' := by
      intro j r hr
      rw [h.marking]
      exact hs j r hr
    exact hfit.mono h.calm
  start := by
    have hfeeds := c.startRegions_feeds (N := fun _ => True) (fun _ _ => trivial) fun _ _ => trivial
    refine Chart.upholds_isLegal hfeeds fun p s hs => ?_
    unfold Chart.startRegions
    rw [Region.ends_startAll]
    refine Chart.onEach_fit (fun r hr p s hs => ?_) p s hs
    exact (r.start_fit p (hinitials r hr) .start s hs).mono (fun _ _ h => h.1) fun _ _ h => h
  stop := by
    have hfeeds := c.stopRegions_feeds (N := fun _ => True) fun _ _ => trivial
    refine Chart.upholds_isLegal hfeeds fun p s hs => ?_
    unfold Chart.stopRegions
    rw [Region.ends_stopAll]
    refine Chart.onEach_fit (fun r _ p s hs => ?_) p s hs
    exact (r.stop_fit s (Region.fit_mono False.elim hs)).mono
      (fun _ _ h => Region.fit_mono (fun _ => trivial) h.1) fun _ _ h => h
  process e := by
    have hfeeds := c.processRegions_feeds (N := fun _ => True) (e := e) (fun _ _ => trivial) fun _ _ => trivial
    refine Chart.upholds_isLegal hfeeds fun p s hs => ?_
    rw [Region.ends_processAll]
    refine Chart.onEach_fit (fun r hr p s hs => ?_) p s hs
    exact (r.process_fit p e (hinitials r hr) s hs).mono (fun _ _ h => h.1) fun _ _ h => h
  check e := by
    have hlooks := Region.checkAny_looks (N := fun _ => True) (fun (_ : Note σ) (_ : _) _ => trivial)
      0 0 c.regions (e := e)
    have hsame {p : Prop} {s s' : Configuration σ γ δ} (h : s.Unmoved (fun _ => True) s') (hs : c.Fit p s) :
        c.Fit p s' := fun j r hr => (hs j r hr).of_same Region.fit_isShallow (h.marking.child (0, j))
    refine Chart.upholds_isLegal (N := fun _ => True) (Keeps.mono hlooks (fun _ _ h => h.follows)
      fun _ _ h => h.1) fun p s hs => ?_
    exact (hlooks s).mono (fun _ _ h => hsame h hs) fun _ _ h => (hsame h.1 hs).mono False.elim

/-- Every region of a state runs if and only if that state is active. -/
def Region.RunsNested (r : BuiltRegion σ γ δ) (m : Marking δ) : Prop :=
  ∀ k r', r.child? k = some r' → ((m.child k).active ≠ .stopped ↔ m.active = .at k.1)

variable [Inhabited δ]

theorem Blueprint.Reaches.isLegal {b : Blueprint σ γ δ} {m : Machine σ γ δ} (h : b.Reaches m) :
    m.chart.IsLegal m.configuration := by
  refine Blueprint.Reaches.upholds (I := Chart.IsLegal) (fun chart s hs j r _ => ?_)
    (fun chart s hs => Chart.stable_isLegal hs.hasInitials) h
  rw [hs.marking]
  exact r.fit_fresh

/-- **Configurations are legal.** In every machine that is reached, at every depth: what is active in a
region is one of its states, final or nothing, and all regions below a state that is not active are
stopped. As long as no callback failed or panicked and no completion chain overflowed, the region of a
state runs exactly when the state is active. -/
theorem legal_configuration {b : Blueprint σ γ δ} {m : Machine σ γ δ} (h : b.Reaches m) (j : Nat)
    (r : BuiltRegion σ γ δ) (hr : m.chart.regions[j]? = some r) :
    r.Throughout Region.Legal (m.configuration.marking.child (0, j)) ∧
      (m.journal.Calm → r.Throughout Region.RunsNested (m.configuration.marking.child (0, j))) := by
  have hfit := h.isLegal j r hr
  refine ⟨hfit.mono fun _ _ h => h.legal, fun hcalm => hfit.mono fun r m h k r' hr' => ⟨fun hk => ?_, ?_⟩⟩
  · by_contra hne
    exact hk (h.legal.idle k r' hr' hne)
  · exact h.populated hcalm k r' hr'

end Machines

/-- In the lamp that is lit, the light is on because the lamp is. -/
theorem legal_configuration_lit : Lamp.lit.activeStates = [.on, .dim] ∧
    Lamp.tree.Throughout Region.Legal (Lamp.lit.configuration.marking.child (0, 0)) ∧
      Lamp.tree.Throughout Region.RunsNested (Lamp.lit.configuration.marking.child (0, 0)) := by
  have hlegal := legal_configuration Lamp.reaches_lit 0 Lamp.tree (by rw [Lamp.chart_lit]; rfl)
  have hcalm : Lamp.lit.journal.Calm := by decide +kernel
  exact ⟨by decide +kernel, hlegal.1, hlegal.2 hcalm⟩

end Statechart
