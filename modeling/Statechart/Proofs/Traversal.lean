import Statechart.Proofs.Completions

/-!
# What the turns of a region consist of

Whatever is kept by the single steps of a region and of all regions below it, is kept by its turns.

* `Region.conduct` : what an external row does once it was chosen; `Region.fireWith_eq`;
* `Region.Crosses e x` : `x` is a step of leaving or entering a state of the region for `e`, or of a row that fires;
* `Region.Settling R H`, `Region.Offering R H e` : the steps of settling, and of taking an event, keep `R` and halt
  in `H`, in the region and below it;
* `Region.stop_keeps`, `Region.start_keeps`, `Region.conduct_keeps`, `Region.settle_keeps`, `Region.processing_keeps`.
-/

set_option autoImplicit false

namespace Statechart

open Turn

variable {σ γ δ α : Type}

section Steps

variable [DecidableEq σ] [Named σ] (setup : Setup σ γ)

/-- What firing a chosen row does, apart from noting it. -/
def Region.conduct (table : RegionTable σ γ) (nodes : List (BuiltNode σ γ δ))
    (leave enter : Nat → Event → Turn σ γ δ Unit) (choice : Choice σ γ) (e : Event) : Turn σ γ δ Unit :=
  match choice.transition.target with
  | .internal => Region.act table.path choice.state choice e
  | .state t => do
    let some target := nodes[t]? | return
    let move := ⟨table.path, .state choice.state, .state target.data.id, e⟩
    setup.hooks.beforeTransition move
    leave choice.position e
    Turn.setActive (.at t)
    Region.act table.path target.data.id choice e
    enter t e
    Region.remember setup table.path choice.state target.data.id e
    setup.hooks.afterTransition move
  | .final => do
    let move := ⟨table.path, .state choice.state, .final, e⟩
    setup.hooks.beforeTransition move
    leave choice.position e
    Turn.setActive .final
    Region.act table.path choice.state choice e
    setup.hooks.afterTransition move

omit [DecidableEq σ] in
theorem Region.fireWith_eq (table : RegionTable σ γ) (nodes : List (BuiltNode σ γ δ))
    (leave enter : Nat → Event → Turn σ γ δ Unit) (choice : Choice σ γ) (e : Event) :
    Region.fireWith setup table nodes leave enter choice e = (do
      Turn.note (.fired table.path choice.state choice.row e)
      Region.conduct setup table nodes leave enter choice e) := rfl

omit [DecidableEq σ] in
/-- The steps that a region takes to leave its states, to enter them and to fire its rows for an event. -/
inductive Region.Crosses (r : BuiltRegion σ γ δ) (e : Event) : Turn σ γ δ Unit → Prop where
  | move (a : Active) : Crosses r e (setActive a)
  | before {m : Move σ} (hm : m.event = e) : Crosses r e (setup.hooks.beforeTransition m)
  | after {m : Move σ} (hm : m.event = e) : Crosses r e (setup.hooks.afterTransition m)
  | exit {i : Nat} {n : BuiltNode σ γ δ} (hn : n ∈ r.nodes) : Crosses r e (do
      note (.exit r.data.path n.data.id e)
      orFail .exit r.data.path n.data.id e (performAt i n.data.behavior.initial (n.data.behavior.onExit e).run))
  | entry {i : Nat} {n : BuiltNode σ γ δ} (hn : r.nodes[i]? = some n) (hi : r.data.LeadsTo i) : Crosses r e (do
      note (.entry r.data.path n.data.id e)
      orFail .entry r.data.path n.data.id e (performAt i n.data.behavior.initial (n.data.behavior.onEntry e).run))
  | act (s : σ) {choice : Choice σ γ} (hrow : choice.transition ∈ r.data.rows) :
    Crosses r e (Region.act r.data.path s choice e)
  | remember (s t : σ) : Crosses r e (Region.remember setup r.data.path s t e)

variable (R : Configuration σ γ δ → Configuration σ γ δ → Prop) (H : Halt → Configuration σ γ δ → Prop)

/-- What the region and those below it do to settle keeps `R` and halts in `H`. -/
structure Region.Settling (r : BuiltRegion σ γ δ) : Prop where
  crosses : ∀ q ∈ r.preorder, ∀ x, q.Crosses setup .completion x → Keeps R H x
  fired : ∀ q ∈ r.preorder, ∀ s row, Keeps R H (note (.fired q.data.path s row .completion))
  resolve : ∀ q ∈ r.preorder, ∀ i s, Keeps R H (q.data.resolve i s .completion)
  overflow : ∀ q ∈ r.preorder, Keeps R H (do
    note (.overflowed q.data.path setup.settings.maxCompletionChain)
    fail (.completionOverflow q.data.path setup.settings.maxCompletionChain) : Turn σ γ δ Unit)

/-- What the region and those below it do about an event, apart from settling, keeps `R` and halts in `H`. -/
structure Region.Offering (r : BuiltRegion σ γ δ) (e : Event) : Prop where
  crosses : ∀ q ∈ r.preorder, ∀ x, q.Crosses setup e x → Keeps R H x
  fired : ∀ q ∈ r.preorder, ∀ s row, Keeps R H (note (.fired q.data.path s row e))
  resolve : ∀ q ∈ r.preorder, ∀ i s, Keeps R H (q.data.resolve i s e)
  consult : ∀ q ∈ r.preorder, ∀ i, ∀ n ∈ q.nodes, Keeps R H (n.consult q.data.path i e)

variable {setup R H}

theorem Region.Settling.below {r r' : BuiltRegion σ γ δ} {n : BuiltNode σ γ δ} (h : r.Settling setup R H)
    (hn : n ∈ r.nodes) (hr' : r' ∈ n.regions) : r'.Settling setup R H where
  crosses q hq := h.crosses q (Region.mem_preorder_of_mem hn hr' hq)
  fired q hq := h.fired q (Region.mem_preorder_of_mem hn hr' hq)
  resolve q hq := h.resolve q (Region.mem_preorder_of_mem hn hr' hq)
  overflow q hq := h.overflow q (Region.mem_preorder_of_mem hn hr' hq)

theorem Region.Offering.below {r r' : BuiltRegion σ γ δ} {n : BuiltNode σ γ δ} {e : Event}
    (h : r.Offering setup R H e) (hn : n ∈ r.nodes) (hr' : r' ∈ n.regions) : r'.Offering setup R H e where
  crosses q hq := h.crosses q (Region.mem_preorder_of_mem hn hr' hq)
  fired q hq := h.fired q (Region.mem_preorder_of_mem hn hr' hq)
  resolve q hq := h.resolve q (Region.mem_preorder_of_mem hn hr' hq)
  consult q hq := h.consult q (Region.mem_preorder_of_mem hn hr' hq)

end Steps

section Turns

variable [DecidableEq σ] [Named σ] {setup : Setup σ γ} {R : Configuration σ γ δ → Configuration σ γ δ → Prop}
  [IsPreorder _ R] {H : Halt → Configuration σ γ δ → Prop} {table : RegionTable σ γ}
  {nodes : List (BuiltNode σ γ δ)} {e : Event}
  (hchild : ∀ {α : Type} (k : Nat × Nat) (x : Turn σ γ δ α), Keeps R H x → Keeps R H (inChild k x))

include hchild

/-! ## Leaving and entering -/

omit [DecidableEq σ] in
theorem Node.exit_keeps {r : BuiltRegion σ γ δ} {n : BuiltNode σ γ δ} (hn : n ∈ r.nodes)
    (hcross : ∀ x, r.Crosses setup e x → Keeps R H x) (hstop : ∀ r' ∈ n.regions, Keeps R H (r'.stop setup e))
    (position : Nat) : Keeps R H (n.exit setup r.data.path position e) := by
  have hcall := hcross _ (.exit (i := position) hn)
  obtain ⟨unit, regions⟩ := n
  rw [Node.exit]
  refine Keeps.bind (fun c => ?_) fun _ => hcall
  rw [Region.ends_stopAll]
  exact keeps_onEach (fun r' hr' j => hchild (position, j) _ (hstop r' hr')) 0 c

omit [DecidableEq σ] in
theorem Region.stop_keeps (r : BuiltRegion σ γ δ)
    (hcross : ∀ q ∈ r.preorder, ∀ x, q.Crosses setup e x → Keeps R H x) : Keeps R H (r.stop setup e) := by
  induction r using Region.induct with
  | step table nodes ih =>
    have hhere := hcross _ (Region.mem_preorder_self _)
    have hleave (i : Nat) : Keeps R H (Node.exitAt setup table.path i nodes i e) := by
      rw [Node.exitAt_eq]
      refine Keeps.elim i () fun n hn => Node.exit_keeps hchild (r := ⟨table, nodes⟩) hn hhere (fun r hr => ?_) i
      exact ih n hn r hr fun q hq => hcross q (Region.mem_preorder_of_mem hn hr hq)
    intro c
    rw [Region.stop, ends_bind, ends_active]
    split
    · exact Keeps.pure () c
    · refine Keeps.bind (hhere _ (.before rfl)) (fun _ => ?_) c
      split
      · exact (hleave _).bind fun _ => (hhere _ (.move _)).bind fun _ => hhere _ (.after rfl)
      · exact (hhere _ (.move _)).bind fun _ => hhere _ (.after rfl)

omit [DecidableEq σ] in
theorem Node.exitAt_keeps (r : BuiltRegion σ γ δ)
    (hcross : ∀ q ∈ r.preorder, ∀ x, q.Crosses setup e x → Keeps R H x) (position i : Nat) :
    Keeps R H (Node.exitAt setup r.data.path position r.nodes i e) := by
  rw [Node.exitAt_eq]
  refine Keeps.elim i () fun n hn =>
    Node.exit_keeps hchild hn (hcross r (Region.mem_preorder_self r)) (fun r' hr' => ?_) position
  exact r'.stop_keeps hchild fun q hq => hcross q (Region.mem_preorder_of_mem hn hr' hq)

omit hchild [DecidableEq σ] in
theorem Region.conduct_keeps_of (hcross : ∀ x, Region.Crosses setup ⟨table, nodes⟩ e x → Keeps R H x)
    {leave enter : Nat → Event → Turn σ γ δ Unit} (hleave : ∀ i, Keeps R H (leave i e))
    (henter : ∀ i, table.LeadsTo i → Keeps R H (enter i e)) {choice : Choice σ γ}
    (hrow : choice.transition ∈ table.rows) :
    Keeps R H (Region.conduct setup table nodes leave enter choice e) := by
  have hact (s : σ) : Keeps R H (Region.act table.path s choice e : Turn σ γ δ Unit) := hcross _ (.act s hrow)
  unfold Region.conduct
  split
  · exact hact _
  · rename_i t htarget
    split
    · refine (hcross _ (.before rfl)).bind fun _ => (hleave _).bind fun _ => ?_
      refine (hcross _ (.move _)).bind fun _ => (hact _).bind fun _ => (henter t ?_).bind fun _ => ?_
      · exact .inr ⟨_, hrow, htarget⟩
      exact (hcross _ (.remember _ _)).bind fun _ => hcross _ (.after rfl)
    · exact Keeps.pure ()
  · refine (hcross _ (.before rfl)).bind fun _ => (hleave _).bind fun _ => ?_
    exact (hcross _ (.move _)).bind fun _ => (hact _).bind fun _ => hcross _ (.after rfl)

omit hchild in
theorem Region.due_keeps_of (hresolve : ∀ i s, Keeps R H (table.resolve i s .completion)) :
    Keeps R H (Region.due table nodes) := by
  intro c
  unfold Region.due
  simp only [ends_bind, ends_active]
  split
  · split
    · rw [ends_bind, ends_get]
      split
      · exact hresolve _ _ c
      · exact Keeps.pure _ c
    · exact Keeps.pure _ c
  · exact Keeps.pure _ c

omit hchild in
theorem Region.chain_keeps_of {r : BuiltRegion σ γ δ} (hsettling : r.Settling setup R H)
    {fire : Choice σ γ → Turn σ γ δ Unit}
    (hfire : ∀ choice : Choice σ γ, choice.transition ∈ r.data.rows → Keeps R H (fire choice)) (n : Nat) :
    Keeps R H (Region.chain setup r.data r.nodes fire n) := by
  have hdue : Keeps R H (Region.due r.data r.nodes) :=
    Region.due_keeps_of fun i s => hsettling.resolve r (Region.mem_preorder_self r) i s
  induction n with
  | zero =>
    rw [Region.chain]
    refine hdue.bind fun found => ?_
    split
    · exact hsettling.overflow r (Region.mem_preorder_self r)
    · exact Keeps.pure ()
  | succ n ih =>
    intro c
    rw [Region.chain, ends_bind]
    refine ((hdue c).and Region.due_fits).mono (fun found c₁ h₁ => ?_)
      fun _ _ h => h.1
    obtain ⟨hkept, hfits⟩ := h₁
    cases found with
    | none => exact hkept
    | some choice =>
      have hmem : choice.transition ∈ r.data.rows := List.mem_of_getElem? (hfits choice rfl).row
      refine ((hfire choice hmem).bind (fun _ => ih) c₁).mono (fun _ _ h => trans_of R hkept h) fun _ _ h => ?_
      exact ⟨trans_of R hkept h.1, h.2⟩

theorem Node.enter_keeps {r : BuiltRegion σ γ δ} {n : BuiltNode σ γ δ} {i : Nat} (hn : r.nodes[i]? = some n)
    (hi : r.data.LeadsTo i) (hcross : ∀ x, r.Crosses setup e x → Keeps R H x)
    (hstart : ∀ r' ∈ n.regions, Keeps R H (r'.start setup e)) : Keeps R H (n.enter setup r.data.path i e) := by
  have hcall := hcross _ (.entry hn hi)
  obtain ⟨unit, regions⟩ := n
  rw [Node.enter, ← bind_assoc]
  refine hcall.bind fun _ c => ?_
  rw [Region.ends_startAll]
  exact keeps_onEach (fun r' hr' j => hchild (i, j) _ (hstart r' hr')) 0 c

theorem Region.start_keeps (r : BuiltRegion σ γ δ)
    (hcross : ∀ q ∈ r.preorder, ∀ x, q.Crosses setup e x → Keeps R H x) (hsettling : r.Settling setup R H) :
    Keeps R H (r.start setup e) := by
  -- for any event: what a region starts by settling is entered on completion
  induction r using Region.induct generalizing e with
  | step table nodes ih =>
    have hhere := hcross _ (Region.mem_preorder_self _)
    have henter {e : Event} (i : Nat) (hi : table.LeadsTo i)
        (hcross : ∀ q ∈ Region.preorder ⟨table, nodes⟩, ∀ x, q.Crosses setup e x → Keeps R H x) :
        Keeps R H (Node.enterAt setup table.path i nodes i e) := by
      rw [Node.enterAt_eq]
      refine Keeps.elimAt i () fun n hn => Node.enter_keeps hchild (r := ⟨table, nodes⟩) hn hi
        (hcross _ (Region.mem_preorder_self _)) fun r hr => ?_
      have hmem : n ∈ nodes := List.mem_of_getElem? hn
      exact ih n hmem r hr (fun q hq => hcross q (Region.mem_preorder_of_mem hmem hr hq)) (hsettling.below hmem hr)
    have hsettle : Keeps R H (Region.settle setup table nodes) := by
      refine Region.chain_keeps_of hsettling (fun choice hrow => ?_) _
      unfold Region.fire
      rw [Region.fireWith_eq]
      refine (hsettling.fired _ (Region.mem_preorder_self _) _ _).bind fun _ => ?_
      exact Region.conduct_keeps_of (hsettling.crosses _ (Region.mem_preorder_self _))
        (fun i => Node.exitAt_keeps hchild ⟨table, nodes⟩ hsettling.crosses i i)
        (fun i hi => henter i hi hsettling.crosses) hrow
    intro c
    rw [Region.start_eq, ends_bind, ends_active]
    split
    · exact Keeps.pure () c
    · refine Keeps.bind (hhere _ (.before rfl)) (fun _ => ?_) c
      refine (hhere _ (.move _)).bind fun _ => (henter _ (.inl rfl) hcross).bind fun _ => ?_
      exact (hhere _ (.after rfl)).bind fun _ => hsettle

theorem Node.enterAt_keeps (r : BuiltRegion σ γ δ)
    (hcross : ∀ q ∈ r.preorder, ∀ x, q.Crosses setup e x → Keeps R H x) (hsettling : r.Settling setup R H)
    {i : Nat} (hi : r.data.LeadsTo i) : Keeps R H (Node.enterAt setup r.data.path i r.nodes i e) := by
  rw [Node.enterAt_eq]
  refine Keeps.elimAt i () fun n hn =>
    Node.enter_keeps hchild hn hi (hcross r (Region.mem_preorder_self r)) fun r' hr' => ?_
  have hmem : n ∈ r.nodes := List.mem_of_getElem? hn
  exact r'.start_keeps hchild (fun q hq => hcross q (Region.mem_preorder_of_mem hmem hr' hq))
    (hsettling.below hmem hr')

/-! ## Firing, settling, taking an event -/

theorem Region.conduct_keeps (r : BuiltRegion σ γ δ)
    (hcross : ∀ q ∈ r.preorder, ∀ x, q.Crosses setup e x → Keeps R H x) (hsettling : r.Settling setup R H)
    {choice : Choice σ γ} (hrow : choice.transition ∈ r.data.rows) :
    Keeps R H (Region.conduct setup r.data r.nodes (fun i => Node.exitAt setup r.data.path i r.nodes i)
      (fun i => Node.enterAt setup r.data.path i r.nodes i) choice e) := by
  have hhere := hcross r (Region.mem_preorder_self r)
  have hleave (i : Nat) := Node.exitAt_keeps hchild r hcross i i
  have henter (i : Nat) (hi : r.data.LeadsTo i) := Node.enterAt_keeps hchild r hcross hsettling hi
  obtain ⟨table, nodes⟩ := r
  exact Region.conduct_keeps_of hhere hleave henter hrow

theorem Region.settle_keeps (r : BuiltRegion σ γ δ) (hsettling : r.Settling setup R H) :
    Keeps R H (Region.settle setup r.data r.nodes) := by
  refine Region.chain_keeps_of hsettling (fun choice hrow => ?_) _
  unfold Region.fire
  rw [Region.fireWith_eq]
  refine (hsettling.fired r (Region.mem_preorder_self r) _ _).bind fun _ => ?_
  exact Region.conduct_keeps hchild r hsettling.crosses hsettling hrow

theorem Region.processing_keeps (r : BuiltRegion σ γ δ) (hoffering : r.Offering setup R H e)
    (hsettling : r.Settling setup R H) : Keeps R H (r.process setup e) := by
  induction r using Region.induct with
  | step table nodes ih =>
    have hself := Region.mem_preorder_self (⟨table, nodes⟩ : BuiltRegion σ γ δ)
    have hsettle (processed : Bool) : Keeps R H (do
        Region.settle setup table nodes
        return processed) :=
      (Region.settle_keeps hchild ⟨table, nodes⟩ hsettling).bind fun _ => Keeps.pure processed
    intro c
    refine Region.ends_process (refl_of R c) fun i n _ hn => ?_
    have hmem : n ∈ nodes := List.mem_of_getElem? hn
    unfold Region.respond
    rw [ends_bind]
    have hresolve : Keeps R H (table.resolve i n.data.id e) := hoffering.resolve _ hself i n.data.id
    refine ((hresolve c).and (RegionTable.resolve_row table i n.data.id e c)).mono (fun found c₁ h₁ => ?_)
      fun _ _ h => h.1
    obtain ⟨hkept, hrow⟩ := h₁
    have hgoes {x : Turn σ γ δ Bool} (hx : Keeps R H x) : Ends x c₁ (fun _ c' => R c c') fun h c' => R c c' ∧ H h c' :=
      (hx c₁).mono (fun _ _ h => trans_of R hkept h) fun _ _ h => ⟨trans_of R hkept h.1, h.2⟩
    cases found with
    | some choice =>
      have hfire : Keeps R H (Region.fire setup table nodes choice e) := by
        unfold Region.fire
        rw [Region.fireWith_eq]
        refine (hoffering.fired _ hself _ _).bind fun _ => ?_
        exact Region.conduct_keeps hchild ⟨table, nodes⟩ hoffering.crosses hsettling
          (List.mem_of_getElem? (hrow choice rfl))
      refine hgoes (hfire.bind fun _ => ?_)
      split
      · exact hsettle true
      · exact Keeps.pure true
    | none =>
      have hreact : Keeps R H (n.react setup table.path i e) := by
        rw [Node.react_eq]
        refine Keeps.bind (fun c => ?_) fun processed => ?_
        · rw [Region.ends_processAll]
          exact keeps_onEach (fun r hr j => hchild (i, j) _
            (ih n hmem r hr (hoffering.below hmem hr) (hsettling.below hmem hr))) 0 c
        · split
          · exact Keeps.pure true
          · exact hoffering.consult _ hself i n hmem
      refine hgoes (hreact.bind fun processed => ?_)
      split
      · exact hsettle processed
      · exact Keeps.pure processed

end Turns

end Statechart
