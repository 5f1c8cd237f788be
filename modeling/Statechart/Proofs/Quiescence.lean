import Statechart.Proofs.Completions
import Statechart.Proofs.Visits

/-!
# Quiescence

A machine whose completion rows have no guards comes to rest with every operation that ends well: whatever
is complete has no completion row left to take, at any depth.

* `Region.Quiescent` : no completion row accepts the active state if that state is complete;
* `RegionTable.Unguarded`, `Region.Unguarded` : the completion rows have no guards;
* `Region.settle_brings`, `Region.start_brings`, `Region.process_keeps` : what holds once nothing is due holds of a
  region that has settled, of one that was started, and of one that processed an event;
* `Region.settle_quiescent`, `Region.start_quiescent`, `Region.process_quiescent` : a region comes to rest
  itself; `Region.stop_rests`, `Region.start_rests`, `Region.process_rests` : it does so with all below it;
* `completion_is_quiescent`.
-/

set_option autoImplicit false

namespace Statechart

open Turn

variable {σ γ δ α : Type} [DecidableEq σ]

/-- If the active state is complete, then no completion row of the region accepts it. -/
def Region.Quiescent (r : BuiltRegion σ γ δ) (m : Marking δ) : Prop :=
  ∀ i n, m.active = .at i → r.nodes[i]? = some n → n.isComplete i m = true →
    ∀ row ∈ r.data.rows, row.trigger = .completion → row.source.accepts n.data.id = false

/-- No completion row has a guard. -/
def RegionTable.Unguarded (t : RegionTable σ γ) : Prop :=
  ∀ row ∈ t.rows, row.trigger = .completion → row.guard = none

instance (t : RegionTable σ γ) : Decidable t.Unguarded :=
  inferInstanceAs (Decidable (∀ row ∈ t.rows, row.trigger = .completion → row.guard = none))

/-- No completion row of the region, or of a region below it, has a guard. -/
def Region.Unguarded (r : BuiltRegion σ γ δ) : Prop := ∀ q ∈ r.preorder, q.data.Unguarded

instance (r : BuiltRegion σ γ δ) : Decidable r.Unguarded :=
  inferInstanceAs (Decidable (∀ q ∈ r.preorder, q.data.Unguarded))

/-- The region is legal and quiescent. -/
structure Region.AtRest (r : BuiltRegion σ γ δ) (m : Marking δ) : Prop where
  legal : r.Legal m
  quiescent : r.Quiescent m

/-- The regions of the state at a position are at rest, with all below them. -/
def Region.AllAtRest (position : Nat) (rs : List (BuiltRegion σ γ δ)) (m : Marking δ) : Prop :=
  ∀ (j : Nat) (r : BuiltRegion σ γ δ), rs[j]? = some r → r.Throughout Region.AtRest (m.child (position, j))

/-- The region is legal, and all below it is at rest. -/
structure Region.RestsBelow (r : BuiltRegion σ γ δ) (m : Marking δ) : Prop where
  legal : r.Legal m
  below : ∀ k r', r.child? k = some r' → r'.Throughout Region.AtRest (m.child k)

variable {r : BuiltRegion σ γ δ} {m m' : Marking δ} {table : RegionTable σ γ}
  {nodes : List (BuiltNode σ γ δ)} {i : Nat} {n : BuiltNode σ γ δ} {p : Prop}

omit [DecidableEq σ] in
theorem Region.Unguarded.here (h : Region.Unguarded (⟨table, nodes⟩ : BuiltRegion σ γ δ)) :
    table.Unguarded := h _ (Region.mem_preorder_self _)

omit [DecidableEq σ] in
theorem Region.Unguarded.below {r' : BuiltRegion σ γ δ} (h : r.Unguarded) (hn : n ∈ r.nodes)
    (hr' : r' ∈ n.regions) : r'.Unguarded :=
  fun q hq => h q (Region.mem_preorder_of_mem hn hr' hq)

omit [DecidableEq σ] in
/-- Whether a state is complete shows in what is active in its regions. -/
theorem Node.isComplete_congr
    (h : ∀ j < n.regions.length, (m'.child (i, j)).active = (m.child (i, j)).active) :
    n.isComplete i m' = n.isComplete i m := by
  unfold Node.isComplete
  rw [Bool.eq_iff_iff, List.all_eq_true, List.all_eq_true]
  refine forall₂_congr fun j hj => ?_
  rw [h j (List.mem_range.1 hj)]

/-- Whether a region is quiescent shows in its active state and in what is active in the regions of that. -/
theorem Region.Quiescent.congr (h : r.Quiescent m) (hactive : m'.active = m.active)
    (hchild : ∀ i n, m.active = .at i → r.nodes[i]? = some n →
      ∀ j < n.regions.length, (m'.child (i, j)).active = (m.child (i, j)).active) : r.Quiescent m' := by
  intro i n hi hn hcomplete
  rw [hactive] at hi
  rw [Node.isComplete_congr (hchild i n hi hn)] at hcomplete
  exact h i n hi hn hcomplete

theorem Region.Quiescent.of_steps {N : Note σ → Prop} {c c' : Configuration σ γ δ}
    (h : r.Quiescent c.marking) (hsteps : c.Steps N c') : r.Quiescent c'.marking :=
  h.congr hsteps.active fun i _ _ _ j _ => by rw [hsteps.child]

theorem Region.atRest_isShallow : Region.IsShallow (Region.AtRest (σ := σ) (γ := γ) (δ := δ)) := by
  intro r m m' hactive hchild h
  have hfit : r.Fit False m' := Region.fit_isShallow r m m' hactive hchild ⟨h.legal, False.elim⟩
  exact ⟨hfit.legal, h.quiescent.congr hactive fun i _ _ _ j _ => hchild (i, j)⟩

/-- What is legal and stopped is at rest: nothing runs below it. -/
theorem Region.atRest_of_stopped (h : r.Throughout (Region.Fit p) m) (hactive : m.active = .stopped) :
    r.Throughout Region.AtRest m := by
  induction h with
  | intro hhere _ ih =>
    refine .intro ⟨hhere.legal, fun i _ hi => ?_⟩ fun k r' hr' => ih k r' hr' ?_
    · rw [hactive] at hi
      cases hi
    · exact hhere.legal.idle k r' hr' (by rw [hactive]; exact nofun)

theorem Region.Dormant.restsBelow (h : r.Dormant m)
    (hbounded : ∀ i, m.active = .at i → i < r.nodes.length) : r.RestsBelow m where
  legal := ⟨hbounded, fun k r' hr' _ => (h k r' hr').2⟩
  below k r' hr' := Region.atRest_of_stopped (h k r' hr').1 (h k r' hr').2

theorem Region.RestsBelow.throughout (h : r.RestsBelow m) (hquiescent : r.Quiescent m) :
    r.Throughout Region.AtRest m := .intro ⟨h.legal, hquiescent⟩ h.below

theorem Region.RestsBelow.fit (h : r.RestsBelow m) : r.Throughout (Region.Fit False) m :=
  .intro ⟨h.legal, False.elim⟩ fun k r' hr' => (h.below k r' hr').mono fun _ _ h => ⟨h.legal, False.elim⟩

theorem Region.restsBelow_of_throughout (h : r.Throughout Region.AtRest m) : r.RestsBelow m :=
  ⟨h.here.legal, fun _ _ hr' => h.child hr'⟩

/-- What becomes of a region when only the regions of the active state have changed. -/
theorem Region.restsBelow_of_sameBut {c c' : Configuration σ γ δ} (hc : r.RestsBelow c.marking)
    (hactive : c.marking.active = .at i) (hsame : c.SameBut i c')
    (hat : ∀ j r', r.child? (i, j) = some r' → r'.Throughout Region.AtRest (c'.marking.child (i, j))) :
    r.RestsBelow c'.marking := by
  have hfit : r.Throughout (Region.Fit False) c'.marking :=
    Region.fit_of_sameBut hc.legal hactive hsame (fun k r' hr' _ => hc.fit.child hr') fun j r' hr' =>
      ⟨(Region.restsBelow_of_throughout (hat j r' hr')).fit, False.elim⟩
  refine ⟨hfit.here.legal, fun k r' hr' => ?_⟩
  by_cases hk : k.1 = i
  · obtain ⟨k, j⟩ := k
    obtain rfl : k = i := hk
    exact hat j r' hr'
  · rw [hsame.child k hk]
    exact hc.below k r' hr'

/-! ## A region itself -/

section Itself

variable [Named σ] {setup : Setup σ γ} {e : Event} {c : Configuration σ γ δ}

/-- If no completion row is due, the region is quiescent. -/
theorem Region.due_quiescent (ht : table.Unguarded) : Ends (due table nodes) c
    (fun found c' => found = none → Region.Quiescent ⟨table, nodes⟩ c'.marking) fun _ _ => True := by
  by_cases hquiescent : Region.Quiescent ⟨table, nodes⟩ c.marking
  · exact (due_inert (Note.admits_uncrossed .completion) table nodes c).mono
      (fun _ _ hsteps _ => hquiescent.of_steps hsteps) fun _ _ _ => trivial
  · -- a row accepts the active state, so the first that does is due
    unfold Region.Quiescent at hquiescent
    push Not at hquiescent
    obtain ⟨i, n, hactive, hn, hcomplete, row, hrow, htrigger, haccepts⟩ := hquiescent
    have hconcerns : row.concerns n.data.id .completion = true := by
      rw [Transition.concerns_completion, htrigger, eq_true_of_ne_false haccepts]
      rfl
    obtain ⟨first, hfirst⟩ : ∃ first, table.rows.find? (·.concerns n.data.id .completion) = some first :=
      Option.isSome_iff_exists.1 (List.find?_isSome.2 ⟨row, hrow, hconcerns⟩)
    have hguard : first.guard = none := by
      refine ht first (List.mem_of_find?_eq_some hfirst) ?_
      have hthis := List.find?_some hfirst
      rw [Transition.concerns_completion, Bool.and_eq_true] at hthis
      simpa [Trigger.isCompletion] using hthis.1
    obtain ⟨k, -, hresolve⟩ := RegionTable.resolve_of_unguarded (c := c) table i hfirst hguard
    rw [← due_of_complete hactive hn hcomplete] at hresolve
    exact (ends_of_ok hresolve).2 nofun

/-- What holds once nothing is due holds of a region that has settled. -/
theorem Region.settle_brings {Q : Marking δ → Prop}
    (hdue : ∀ c : Configuration σ γ δ, Ends (due table nodes) c (fun found c' => found = none → Q c'.marking)
      fun _ _ => True)
    (c : Configuration σ γ δ) :
    Ends (Region.settle setup table nodes) c (fun _ c' => Q c'.marking) fun _ _ => True := by
  unfold Region.settle
  generalize setup.settings.maxCompletionChain = n
  induction n generalizing c with
  | zero =>
    rw [Region.chain, ends_bind]
    refine (hdue c).mono (fun found c' h => ?_) fun _ _ h => h
    cases found with
    | none => exact h rfl
    | some choice => trivial
  | succ n ih =>
    rw [Region.chain, ends_bind]
    refine (hdue c).mono (fun found c' h => ?_) fun _ _ h => h
    cases found with
    | none => exact h rfl
    | some choice => exact ends_bind_of_forall fun _ c' => ih c'

/-- A region that has settled is quiescent. -/
theorem Region.settle_quiescent (ht : table.Unguarded) (c : Configuration σ γ δ) :
    Ends (Region.settle setup table nodes) c
      (fun _ c' => Region.Quiescent ⟨table, nodes⟩ c'.marking) fun _ _ => True :=
  Region.settle_brings (fun _ => Region.due_quiescent ht) c

/-- What settling brings about holds of a region that was started. -/
theorem Region.start_brings {Q : Marking δ → Prop}
    (hsettle : ∀ c : Configuration σ γ δ, Ends (Region.settle setup table nodes) c (fun _ c' => Q c'.marking)
      fun _ _ => True)
    (hc : Q c.marking) :
    Ends (Region.start setup ⟨table, nodes⟩ e) c (fun _ c' => Q c'.marking) fun _ _ => True := by
  rw [Region.start_eq, ends_bind, ends_active]
  split
  · exact hc
  · refine ends_bind_of_forall fun _ _ => ends_bind_of_forall fun _ _ => ?_
    refine ends_bind_of_forall fun _ _ => ends_bind_of_forall fun _ c' => ?_
    exact hsettle c'

theorem Region.start_quiescent (ht : table.Unguarded) (hc : Region.Quiescent ⟨table, nodes⟩ c.marking) :
    Ends (Region.start setup ⟨table, nodes⟩ e) c
      (fun _ c' => Region.Quiescent ⟨table, nodes⟩ c'.marking) fun _ _ => True :=
  Region.start_brings (Region.settle_quiescent ht) hc

/-- A region that does not process an event keeps what is active in it. -/
theorem Region.process_active (r : BuiltRegion σ γ δ) (c : Configuration σ γ δ) :
    Ends (r.process setup e) c
      (fun processed c' => processed = false → c'.marking.active = c.marking.active) fun _ _ => True := by
  obtain ⟨table, nodes⟩ := r
  refine Region.ends_process (fun _ => rfl) fun i n _ hn => ?_
  unfold Region.respond
  rw [ends_bind]
  refine (RegionTable.resolve_inert (Note.admits_uncrossed e) table i n.data.id c).mono
    (fun found c₁ hsteps => ?_) fun _ _ _ => trivial
  cases found with
  | some choice =>
    refine ends_bind_of_forall fun _ c₂ => ?_
    split
    · exact ends_bind_of_forall fun _ _ => nofun
    · exact nofun
  | none =>
    dsimp only
    rw [ends_bind]
    refine (Node.react_confined table.path i n e c₁).mono (fun processed c₂ h₂ => ?_) fun _ _ _ => trivial
    split
    · rename_i hsettles
      refine ends_bind_of_forall fun _ _ hprocessed => ?_
      simp [hprocessed] at hsettles
    · exact fun _ => h₂.active.trans hsteps.active

/-- A state that does not process an event keeps what is active in its regions. -/
theorem Node.react_active (path : String) (i : Nat) (n : BuiltNode σ γ δ) (c : Configuration σ γ δ) :
    Ends (n.react setup path i e) c
      (fun processed c' => processed = false → ∀ j < n.regions.length,
        (c'.marking.child (i, j)).active = (c.marking.child (i, j)).active) fun _ _ => True := by
  rw [Node.ends_react]
  refine (onEach_results (R := fun processed m m' => processed = false → m'.active = m.active) c
    fun r _ c => r.process_active c).mono (fun answers c₁ h₁ => ?_) fun _ _ h => h
  split
  · exact nofun
  · rename_i hnone
    refine (Node.consult_inert (Note.admits_uncrossed e) path i n c₁).mono
      (fun processed c₂ hsteps _ j hj => ?_) fun _ _ _ => trivial
    obtain ⟨answer, hanswer, hkeeps⟩ := h₁.2 j hj
    rw [Nat.zero_add] at hkeeps
    have hfalse : answer = false := by
      rw [Bool.not_eq_true, List.any_eq_false] at hnone
      simpa using hnone answer hanswer
    rw [hsteps.child, hkeeps hfalse]

/-- What settling brings about, and what shows in the active state and in what is active in the regions of that, is
kept when an event is processed. -/
theorem Region.process_keeps {Q : Marking δ → Prop}
    (hQ : ∀ m m', m'.active = m.active → (∀ i n, m.active = .at i → nodes[i]? = some n →
      ∀ j < n.regions.length, (m'.child (i, j)).active = (m.child (i, j)).active) → Q m → Q m')
    (hsettle : ∀ c : Configuration σ γ δ, Ends (Region.settle setup table nodes) c (fun _ c' => Q c'.marking)
      fun _ _ => True)
    (hc : Q c.marking) :
    Ends (Region.process setup ⟨table, nodes⟩ e) c (fun _ c' => Q c'.marking) fun _ _ => True := by
  have hN := Note.admits_uncrossed (σ := σ) e
  have hsteps {c c' : Configuration σ γ δ} (h : c.Steps Note.Uncrossed c') (hc : Q c.marking) : Q c'.marking :=
    hQ c.marking c'.marking h.active (fun i _ _ _ j _ => by rw [h.child]) hc
  have hsettles (processed : Bool) (c : Configuration σ γ δ) :
      Ends (do Region.settle setup table nodes; return processed) c (fun _ c' => Q c'.marking)
        fun _ _ => True := by
    rw [ends_bind]
    exact hsettle c
  refine Region.ends_process hc fun i n hi hn => ?_
  unfold Region.respond
  rw [ends_bind]
  refine (RegionTable.resolve_inert hN table i n.data.id c).mono (fun found c₁ h₁ => ?_) fun _ _ _ => trivial
  have hc₁ := hsteps h₁ hc
  have hactive : c₁.marking.active = .at i := h₁.active.trans hi
  cases found with
  | some choice =>
    dsimp only
    by_cases htarget : choice.transition.target = .internal
    · -- an internal row only runs its action
      have hfire : Inert Note.Uncrossed (Region.fire setup table nodes choice e) := by
        unfold Region.fire Region.fireWith
        rw [htarget]
        exact Inert.bind (note_inert rfl rfl) fun _ => act_inert hN _ _ _
      rw [ends_bind]
      refine (hfire c₁).mono (fun _ c₂ h₂ => ?_) fun _ _ _ => trivial
      rw [if_neg (not_not_intro htarget)]
      exact hsteps h₂ hc₁
    · refine ends_bind_of_forall fun _ c₂ => ?_
      rw [if_pos htarget]
      exact hsettles true c₂
  | none =>
    dsimp only
    rw [ends_bind]
    refine ((Node.react_confined table.path i n e c₁).and
      (Node.react_active table.path i n c₁)).mono (fun processed c₂ h₂ => ?_) fun _ _ _ => trivial
    obtain ⟨hsame, hkeeps⟩ := h₂
    split
    · exact hsettles processed c₂
    · rename_i hstays
      refine hQ c₁.marking c₂.marking hsame.active (fun i' n' hi' hn' j hj => ?_) hc₁
      obtain rfl : i = i' := Active.at.inj (hactive.symm.trans hi')
      obtain rfl : n = n' := Option.some.inj (hn.symm.trans hn')
      refine hkeeps ?_ j hj
      have hcomposite : n.isComposite = true := by
        unfold Node.isComposite
        cases hregions : n.regions with
        | nil => rw [hregions] at hj; cases hj
        | cons => rfl
      simpa [hcomposite] using hstays

theorem Region.process_quiescent (ht : table.Unguarded) (hc : Region.Quiescent ⟨table, nodes⟩ c.marking) :
    Ends (Region.process setup ⟨table, nodes⟩ e) c
      (fun _ c' => Region.Quiescent ⟨table, nodes⟩ c'.marking) fun _ _ => True :=
  Region.process_keeps (Q := Region.Quiescent ⟨table, nodes⟩) (fun _ _ hactive hchild h => h.congr hactive hchild)
    (Region.settle_quiescent ht) hc

end Itself

/-! ## A region with all below it -/

section Below

variable [Named σ] {setup : Setup σ γ} {e : Event} {c : Configuration σ γ δ}

theorem Region.stop_rests (r : BuiltRegion σ γ δ) (hc : r.Throughout Region.AtRest c.marking) :
    Ends (r.stop setup e) c (fun _ c' => r.Throughout Region.AtRest c'.marking) fun _ _ => True :=
  (r.stop_fit c (Region.restsBelow_of_throughout hc).fit).mono
    (fun _ _ h => Region.atRest_of_stopped h.1 h.2) fun _ _ _ => trivial

omit [Named σ] in
/-- A pass over the regions of a state leaves them at rest if each comes to rest. -/
theorem Turn.onEach_rests {x : BuiltRegion σ γ δ → Turn σ γ δ α} {rs : List (BuiltRegion σ γ δ)}
    (hx : ∀ r ∈ rs, ∀ c : Configuration σ γ δ, r.Throughout Region.AtRest c.marking →
      Ends (x r) c (fun _ c' => r.Throughout Region.AtRest c'.marking) fun _ _ => True)
    (hc : Region.AllAtRest i rs c.marking) :
    Ends (onEach x i 0 rs) c (fun _ c' => Region.AllAtRest i rs c'.marking) fun _ _ => True :=
  (onEach_children (P := fun r m => r.Throughout Region.AtRest m)
    (Q := fun r m => r.Throughout Region.AtRest m) (R := fun _ _ => True) (fun _ _ _ => trivial)
    (fun _ _ _ => trivial) hx hc).mono (fun _ _ h => h) fun _ _ _ => trivial

omit [Named σ] in
/-- The same for the regions of the active state, within their region. -/
theorem Region.RestsBelow.onEach {x : BuiltRegion σ γ δ → Turn σ γ δ α} (hn : nodes[i]? = some n)
    (hx : ∀ r ∈ n.regions, ∀ c : Configuration σ γ δ, r.Throughout Region.AtRest c.marking →
      Ends (x r) c (fun _ c' => r.Throughout Region.AtRest c'.marking) fun _ _ => True)
    (hc : Region.RestsBelow ⟨table, nodes⟩ c.marking) (hactive : c.marking.active = .at i) :
    Ends (onEach x i 0 n.regions) c (fun _ c' => Region.RestsBelow ⟨table, nodes⟩ c'.marking)
      fun _ _ => True := by
  have hchild (j : Nat) : Region.child? ⟨table, nodes⟩ (i, j) = n.regions[j]? := Region.child?_of_nodes hn j
  have hloop := onEach_rests hx fun j r' hr' => hc.below (i, j) r' ((hchild j).trans hr')
  refine (hloop.and (onEach_confined 0 n.regions c)).mono (fun _ c' h => ?_) fun _ _ _ => trivial
  exact Region.restsBelow_of_sameBut hc hactive h.2 fun j r' hr' => h.1 j r' ((hchild j).symm.trans hr')

omit [Named σ] in
theorem Region.restsBelow_withstands (r : BuiltRegion σ γ δ) :
    Withstands (fun _ _ => True) fun c : Configuration σ γ δ => r.RestsBelow c.marking := by
  intro c c' hsteps hc
  have hlegal := (hc.fit.congr Region.fit_isShallow hsteps.active hsteps.child).here.legal
  refine ⟨⟨hlegal, fun k r' hr' => ?_⟩, fun _ _ => trivial⟩
  rw [hsteps.child k]
  exact hc.below k r' hr'

/-- What starting does to a region. -/
def Region.StartRests (setup : Setup σ γ) (r : BuiltRegion σ γ δ) : Prop :=
  ∀ (e : Event) (c : Configuration σ γ δ), r.Throughout Region.AtRest c.marking →
    Ends (r.start setup e) c (fun _ c' => r.Throughout Region.AtRest c'.marking) fun _ _ => True

/-- A state that is entered has its regions started, which come to rest. -/
theorem Node.enter_rests (hn : nodes[i]? = some n) (ih : ∀ r ∈ n.regions, r.StartRests setup)
    (hc : Region.Vacated ⟨table, nodes⟩ c) (hactive : c.marking.active = .at i) :
    Ends (n.enter setup table.path i e) c
      (fun _ c' => Region.RestsBelow ⟨table, nodes⟩ c'.marking) fun _ _ => True := by
  have hN := Note.admits_uncrossed (σ := σ) e
  have hloop (c : Configuration σ γ δ) (hc : Region.RestsBelow ⟨table, nodes⟩ c.marking)
      (hactive : c.marking.active = .at i) :=
    hc.onEach hn (fun r hr c hc => ih r hr e c hc) hactive
  have hbelow : Region.RestsBelow ⟨table, nodes⟩ c.marking := hc.1.restsBelow hc.2
  obtain ⟨unit, regions⟩ := n
  rw [Node.enter, ends_bind, ends_note]
  refine (Region.restsBelow_withstands ⟨table, nodes⟩).bind
    (orFail_inert hN _ _ _ (performAt_inert (fun _ => hN.silent) _ _ _)) ?_ fun _ c₁ hc₁ h₁ => ?_
  · exact hbelow
  rw [Region.ends_startAll]
  exact hloop c₁ hc₁ (h₁.trans hactive)

theorem Region.rests_moves (table : RegionTable σ γ) (e : Event)
    (ih : ∀ n ∈ nodes, ∀ r ∈ n.regions, r.StartRests setup) :
    Region.Moves setup table nodes (fun _ _ => True)
      (fun c => Region.RestsBelow ⟨table, nodes⟩ c.marking) (Region.Vacated ⟨table, nodes⟩) e where
  live := Region.restsBelow_withstands _
  left := (Region.vacated_withstands _).mono fun _ _ _ => trivial
  halted _ _ _ := trivial
  bounded _ i hc hi := hc.legal.bounded i hi
  resting _ hc hresting := ⟨Region.dormant_of_resting hc.fit hresting, fun i hi => absurd hi (hresting i)⟩
  rested _ hc _ := hc.1.restsBelow hc.2
  leave _ _ hn _ hc hactive :=
    (Node.exit_vacates hn (fun r _ => r.stop_fit) hc.fit hactive).mono (fun _ _ h => h) fun _ _ _ => trivial
  move _ _ hc hbounded := ⟨hc.1, hbounded⟩
  enter _ n hn _ hc hactive := Node.enter_rests hn (ih n (List.mem_of_getElem? hn)) hc hactive

theorem Region.start_rests (r : BuiltRegion σ γ δ) (hinitials : r.HasInitials) (hunguarded : r.Unguarded) :
    r.StartRests setup := by
  induction r using Region.induct with
  | step table nodes ih =>
    intro e c hc
    have hmoves (e : Event) : Region.Moves setup table nodes (fun _ _ => True)
        (fun c => Region.RestsBelow ⟨table, nodes⟩ c.marking) (Region.Vacated ⟨table, nodes⟩) e :=
      Region.rests_moves table e fun n hn r hr =>
        ih n hn r hr (hinitials.below hn hr) (hunguarded.below hn hr)
    have hbelow := (hmoves e).start (hmoves .completion) hinitials.here (Region.restsBelow_of_throughout hc)
    exact (hbelow.and (Region.start_quiescent hunguarded.here hc.here.quiescent)).mono
      (fun _ _ h => h.1.1.throughout h.2) fun _ _ _ => trivial

/-- The regions of the active state come to rest again after an event. -/
theorem Node.react_rests (hn : nodes[i]? = some n)
    (ih : ∀ r ∈ n.regions, ∀ c : Configuration σ γ δ, r.Throughout Region.AtRest c.marking →
      Ends (r.process setup e) c (fun _ c' => r.Throughout Region.AtRest c'.marking) fun _ _ => True)
    (hc : Region.RestsBelow ⟨table, nodes⟩ c.marking) (hactive : c.marking.active = .at i) :
    Ends (n.react setup table.path i e) c
      (fun _ c' => Region.RestsBelow ⟨table, nodes⟩ c'.marking) fun _ _ => True := by
  have hlive := Region.restsBelow_withstands (⟨table, nodes⟩ : BuiltRegion σ γ δ)
  rw [Node.ends_react]
  refine (hc.onEach hn ih hactive).mono (fun _ c₁ hc₁ => ?_) fun _ _ h => h
  split
  · exact hc₁
  · exact (hlive.ends (Node.consult_inert (Note.admits_uncrossed e) _ _ _) hc₁).mono (fun _ _ h => h.1)
      fun _ _ h => h

theorem Region.process_rests (r : BuiltRegion σ γ δ) (hinitials : r.HasInitials) (hunguarded : r.Unguarded)
    (c : Configuration σ γ δ) (hc : r.Throughout Region.AtRest c.marking) :
    Ends (r.process setup e) c (fun _ c' => r.Throughout Region.AtRest c'.marking) fun _ _ => True := by
  induction r using Region.induct generalizing c with
  | step table nodes ih =>
    have hmoves (e : Event) : Region.Moves setup table nodes (fun _ _ => True)
        (fun c => Region.RestsBelow ⟨table, nodes⟩ c.marking) (Region.Vacated ⟨table, nodes⟩) e :=
      Region.rests_moves table e fun n hn r hr =>
        r.start_rests (hinitials.below hn hr) (hunguarded.below hn hr)
    have hbelow := (hmoves e).process (hmoves .completion) (fun i n hn c hc hactive => ?_)
      (Region.restsBelow_of_throughout hc)
    · exact (hbelow.and (Region.process_quiescent hunguarded.here hc.here.quiescent)).mono
        (fun _ _ h => h.1.1.throughout h.2) fun _ _ _ => trivial
    · have hmem := List.mem_of_getElem? hn
      exact Node.react_rests hn (fun r hr c hc =>
        ih n hmem r hr (hinitials.below hmem hr) (hunguarded.below hmem hr) c hc) hc hactive

end Below

/-! ## Machines -/

/-- As long as no callback failed or panicked, the regions are at rest. -/
def Chart.Rests (c : Chart σ γ δ) (s : Configuration σ γ δ) : Prop :=
  s.world.exchange.journal.Faultless → Region.AllAtRest 0 c.regions s.marking

section Machines

variable {c : Chart σ γ δ} {N : Note σ → Prop}

/-- What halts an operation with a failure is noted as a fault, so no more is asked of it. -/
theorem Chart.upholds_rests {x : Turn σ γ δ α} (hfeeds : Feeds N x)
    (hx : ∀ s : Configuration σ γ δ, Region.AllAtRest 0 c.regions s.marking →
      Ends x s (fun _ s' => Region.AllAtRest 0 c.regions s'.marking) fun _ _ => True) :
    Upholds c.Rests x fun h s => ∀ f, h = .error (.failure f) → c.Rests s := by
  intro s hs
  by_cases hfaultless : s.world.exchange.journal.Faultless
  · refine ((hfeeds s).and (hx s (hs hfaultless))).mono (fun _ s' h _ => h.2) fun halt s' h f hf hs' => ?_
    have hoverflow := h.1.2.isOverflow hs'
    rw [hf] at hoverflow
    cases hoverflow
  · refine (hfeeds s).mono (fun _ s' h hs' => ?_) fun _ s' h f _ hs' => ?_
    · exact absurd (h.faultless hs') hfaultless
    · exact absurd (h.1.faultless hs') hfaultless

variable [Named σ]

theorem Chart.stable_rests (hinitials : ∀ r ∈ c.regions, r.HasInitials)
    (hunguarded : ∀ r ∈ c.regions, r.Unguarded) :
    c.Stable c.Rests fun h s => ∀ f, h = .error (.failure f) → c.Rests s where
  quiet s s' h hs hs' := by
    rw [h.marking]
    exact hs (h.faultless hs')
  halted _ _ hs _ _ := hs
  recovers f _ hs := hs f rfl
  start := by
    have hfeeds := c.startRegions_feeds (N := fun _ => True) (fun _ _ => trivial) fun _ _ => trivial
    refine Chart.upholds_rests hfeeds fun s hs => ?_
    unfold Chart.startRegions
    rw [Region.ends_startAll]
    exact onEach_rests (fun r hr => r.start_rests (hinitials r hr) (hunguarded r hr) .start) hs
  stop := by
    have hfeeds := c.stopRegions_feeds (N := fun _ => True) fun _ _ => trivial
    refine Chart.upholds_rests hfeeds fun s hs => ?_
    unfold Chart.stopRegions
    rw [Region.ends_stopAll]
    exact onEach_rests (fun r _ _ hc => r.stop_rests hc) hs
  process e := by
    have hfeeds := c.processRegions_feeds (N := fun _ => True) (e := e) (fun _ _ => trivial) fun _ _ => trivial
    refine Chart.upholds_rests hfeeds fun s hs => ?_
    rw [Region.ends_processAll]
    exact onEach_rests (fun r hr => r.process_rests (hinitials r hr) (hunguarded r hr)) hs
  check e := by
    have hlooks := Region.checkAny_looks (Note.admits_uncrossed e) 0 0 c.regions
    refine Chart.upholds_rests (Keeps.mono hlooks (fun _ _ h => h.follows) fun _ _ h => h.1) fun s hs => ?_
    exact (hlooks s).mono (fun _ _ h j r hr => (hs j r hr).of_same Region.atRest_isShallow
      (h.marking.child (0, j))) fun _ _ _ => trivial

variable [Inhabited δ]

/-- **Completion comes to rest.** In a machine none of whose completion rows has a guard, reached by
operations that all ended well without a callback failing or panicking, no completion transition is left
untaken at any depth: where the active state of a region is complete, no completion row accepts it. -/
theorem completion_is_quiescent {b : Blueprint σ γ δ} {m : Machine σ γ δ} (h : b.Succeeds m)
    (hunguarded : ∀ r ∈ m.chart.regions, r.Unguarded) (hfaultless : m.journal.Faultless) (j : Nat)
    (r : BuiltRegion σ γ δ) (hr : m.chart.regions[j]? = some r) :
    r.Throughout Region.Quiescent (m.configuration.marking.child (0, j)) := by
  have hrests : m.chart.Rests m.configuration := by
    refine h.upholds (fun c hc _ j r _ => ?_) fun c hc => Chart.stable_rests hc.hasInitials hunguarded
    rw [hc.marking]
    exact Region.atRest_of_stopped (r.fit_fresh (p := False)) rfl
  exact (hrests hfaultless j r hr).mono fun _ _ h => h.quiescent

end Machines

theorem Lamp.succeeds_turned : Lamp.risingBlueprint.Succeeds Lamp.turned := by
  have hbuilt : Lamp.risingBlueprint.build 0 (pure () : Callback Unit Unit) = .ready Lamp.resting := rfl
  have hstarted := (Blueprint.Succeeds.built 0 _ hbuilt).next 1 .start (by decide +kernel)
  exact (hstarted.next 1 (.process Lamp.press) (by decide +kernel)).next 1 (.process Lamp.turn) (by decide +kernel)

/-- The light came up by itself; once it is done, the lamp is complete and goes off, and is quiescent then. -/
theorem completion_is_quiescent_turned : Lamp.risen.activeStates = [.on, .bright] ∧
    Lamp.turned.activeStates = [.off] ∧
      Lamp.risingTree.Throughout Region.Quiescent (Lamp.turned.configuration.marking.child (0, 0)) := by
  have hunguarded : ∀ r ∈ Lamp.turned.chart.regions, r.Unguarded := by
    rw [Lamp.chart_turned]
    decide
  have hfaultless : Lamp.turned.journal.Faultless := by decide +kernel
  refine ⟨by decide +kernel, by decide +kernel, ?_⟩
  exact completion_is_quiescent Lamp.succeeds_turned hunguarded hfaultless 0 _ (by rw [Lamp.chart_turned]; rfl)

end Statechart
