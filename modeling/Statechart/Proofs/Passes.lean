import Statechart.Proofs.Siblings
import Statechart.Proofs.Inert

/-!
# Rules for the turns of a region

What a region does between leaving one state and entering another is inert. So its turns are specified by
what leaving a state and entering a state do.

* `Turn.Withstands E P` : inert turns keep `P`, and what may halt them is in `E`;
* `Region.Leaves`, `Region.Moves` : the specification of leaving and of entering a state, where `Live` holds
  between turns and `Left` while no state is active;
* `Leaves.stop`, `Moves.fire`, `Moves.settle`, `Moves.start`, `Moves.process` : every turn keeps `Live`.
-/

set_option autoImplicit false

namespace Statechart

open Turn

variable {σ γ δ α β : Type} {E : Halt → Configuration σ γ δ → Prop}

/-- No state is entered or left. -/
abbrev Note.Uncrossed (n : Note σ) : Prop := n.isCrossing = false

theorem Note.admits_uncrossed (e : Event) : Note.Admits (Note.Uncrossed (σ := σ)) e :=
  fun _ _ h => Note.not_isCrossing_of_isMinor h

/-- Where `P` holds, inert turns keep it, and no matter what halts them, `E` holds. -/
def Turn.Withstands (E : Halt → Configuration σ γ δ → Prop) (P : Configuration σ γ δ → Prop) : Prop :=
  ∀ c c' : Configuration σ γ δ, c.Steps Note.Uncrossed c' → P c →
    P c' ∧ ∀ h : Halt, h.isOverflow = false → E h c'

theorem Turn.Withstands.mono {E' : Halt → Configuration σ γ δ → Prop} {P : Configuration σ γ δ → Prop}
    (hP : Withstands E P) (hE : ∀ h c, E h c → E' h c) : Withstands E' P :=
  fun c c' hsteps hc => ⟨(hP c c' hsteps hc).1, fun h hh => hE h c' ((hP c c' hsteps hc).2 h hh)⟩

/-- How to go on after an inert turn. -/
theorem Turn.Withstands.bind {P : Configuration σ γ δ → Prop} (hP : Withstands E P) {x : Turn σ γ δ α}
    (hx : Inert Note.Uncrossed x) {f : α → Turn σ γ δ β} {c : Configuration σ γ δ} (hc : P c)
    {Q : β → Configuration σ γ δ → Prop}
    (hf : ∀ a c', P c' → c'.marking.active = c.marking.active → Ends (f a) c' Q E) :
    Ends (x >>= f) c Q E :=
  hx.ends_bind (fun a c' h => hf a c' (hP c c' h hc).1 h.active) fun _ c' h hh => (hP c c' h hc).2 _ hh

/-- An inert turn at the end. -/
theorem Turn.Withstands.ends {P : Configuration σ γ δ → Prop} (hP : Withstands E P) {x : Turn σ γ δ α}
    (hx : Inert Note.Uncrossed x) {c : Configuration σ γ δ} (hc : P c) :
    Ends x c (fun _ c' => P c' ∧ c'.marking.active = c.marking.active) E :=
  (hx c).mono (fun _ c' h => ⟨(hP c c' h hc).1, h.active⟩) fun _ c' h => (hP c c' h.1 hc).2 _ h.2.2

/-! ## The choice of a row -/

section Choice

variable [DecidableEq σ] [Named σ]

/-- The chosen row belongs to the state it was chosen for. -/
theorem RegionTable.resolve_ends (t : RegionTable σ γ) (position : Nat) (active : σ) (e : Event)
    (c : Configuration σ γ δ) :
    Ends (t.resolve position active e) c
      (fun found _ => ∀ choice, found = some choice → choice.position = position ∧ choice.state = active)
      fun _ _ => True := by
  unfold resolve
  rw [ends_bind]
  refine Ends.mono (Q := fun _ _ => True) (E := fun _ _ => True) ?_ (fun found _ _ => ?_) fun _ _ h => h
  · unfold Ends
    split <;> trivial
  · intro choice hchoice
    obtain ⟨⟨index, row⟩, -, rfl⟩ := Option.map_eq_some_iff.1 hchoice
    exact ⟨rfl, rfl⟩

/-- A row that is due belongs to the active state. -/
theorem Region.due_ends (table : RegionTable σ γ) (nodes : List (BuiltNode σ γ δ))
    (c : Configuration σ γ δ) :
    Ends (Region.due table nodes) c
      (fun found _ => ∀ choice, found = some choice → c.marking.active = .at choice.position)
      fun _ _ => True := by
  unfold Region.due
  simp only [ends_bind, ends_active]
  split
  · rename_i i hactive
    split
    · rw [ends_bind, ends_get]
      split
      · refine (RegionTable.resolve_ends table i _ _ c).mono (fun found _ h choice hchoice => ?_) fun _ _ h => h
        rw [hactive, (h choice hchoice).1]
      · exact nofun
    · exact nofun
  · exact nofun

end Choice

/-! ## What is left alone -/

section Confined

variable [Named σ] {setup : Setup σ γ}

theorem Node.exit_confined (path : String) (position : Nat) (n : BuiltNode σ γ δ) (e : Event) :
    Confined position (n.exit setup path position e) := by
  obtain ⟨unit, regions⟩ := n
  have hN := Note.admits_uncrossed (σ := σ) e
  rw [Node.exit]
  refine Keeps.bind (fun c => ?_) fun _ => Keeps.bind (note_confined position _) fun _ => ?_
  · rw [Region.ends_stopAll]
    exact onEach_confined 0 regions c
  · exact (orFail_inert hN _ _ _ (performAt_inert (fun _ => hN.silent) _ _ _)).confined position

theorem Node.exitAt_confined (path : String) (position : Nat) (nodes : List (BuiltNode σ γ δ)) (e : Event) :
    Confined position (Node.exitAt setup path position nodes position e) := by
  rw [Node.exitAt_eq]
  cases nodes[position]? with
  | none => exact Keeps.pure ()
  | some n => exact Node.exit_confined path position n e

variable [DecidableEq σ]

theorem Node.enter_confined (path : String) (position : Nat) (n : BuiltNode σ γ δ) (e : Event) :
    Confined position (n.enter setup path position e) := by
  obtain ⟨unit, regions⟩ := n
  have hN := Note.admits_uncrossed (σ := σ) e
  rw [Node.enter]
  refine Keeps.bind (note_confined position _) fun _ => Keeps.bind ?_ fun _ c => ?_
  · exact (orFail_inert hN _ _ _ (performAt_inert (fun _ => hN.silent) _ _ _)).confined position
  · rw [Region.ends_startAll]
    exact onEach_confined 0 regions c

theorem Node.enterAt_confined (path : String) (position : Nat) (nodes : List (BuiltNode σ γ δ)) (e : Event) :
    Confined position (Node.enterAt setup path position nodes position e) := by
  rw [Node.enterAt_eq]
  cases nodes[position]? with
  | none => exact Keeps.pure ()
  | some n => exact Node.enter_confined path position n e

theorem Node.react_confined (path : String) (position : Nat) (n : BuiltNode σ γ δ) (e : Event) :
    Confined position (n.react setup path position e) := by
  rw [Node.react_eq]
  refine Keeps.bind (fun c => ?_) fun processed => ?_
  · rw [Region.ends_processAll]
    exact onEach_confined 0 n.regions c
  · split
    · exact Keeps.pure true
    · exact (Node.consult_inert (Note.admits_uncrossed e) path position n).confined position

end Confined

/-! ## Leaving and entering -/

section Moves

variable [Named σ]

/-- The specification of leaving a state of a region for an event: `Live` holds while the region rests, and
`Left` while none of its states is active, whatever the marking says. -/
structure Region.Leaves (setup : Setup σ γ) (table : RegionTable σ γ) (nodes : List (BuiltNode σ γ δ))
    (E : Halt → Configuration σ γ δ → Prop) (Live Left : Configuration σ γ δ → Prop) (e : Event) : Prop where
  live : Withstands E Live
  left : Withstands E Left
  halted : ∀ h c, Live c → E h c
  bounded : ∀ c i, Live c → c.marking.active = .at i → i < nodes.length
  resting : ∀ c, Live c → (∀ i, c.marking.active ≠ .at i) → Left c
  rested : ∀ c, Left c → (∀ i, c.marking.active ≠ .at i) → Live c
  leave : ∀ i n, nodes[i]? = some n → ∀ c, Live c → c.marking.active = .at i →
    Ends (n.exit setup table.path i e) c (fun _ => Left) E
  move : ∀ a c, Left c → (∀ i, a = .at i → i < nodes.length) →
    Left { c with marking := c.marking.setActive a }

/-- The specification of leaving and of entering a state. -/
structure Region.Moves [DecidableEq σ] (setup : Setup σ γ) (table : RegionTable σ γ)
    (nodes : List (BuiltNode σ γ δ)) (E : Halt → Configuration σ γ δ → Prop)
    (Live Left : Configuration σ γ δ → Prop) (e : Event) : Prop
    extends Region.Leaves setup table nodes E Live Left e where
  enter : ∀ i n, nodes[i]? = some n → ∀ c, Left c → c.marking.active = .at i →
    Ends (n.enter setup table.path i e) c (fun _ => Live) E

variable {setup : Setup σ γ} {table : RegionTable σ γ} {nodes : List (BuiltNode σ γ δ)}
  {Live Left : Configuration σ γ δ → Prop} {e : Event} {c : Configuration σ γ δ}

theorem Region.Leaves.leaveAt (h : Leaves setup table nodes E Live Left e) {i : Nat} (hc : Live c)
    (hactive : c.marking.active = .at i) :
    Ends (Node.exitAt setup table.path i nodes i e) c (fun _ => Left) E := by
  rw [Node.exitAt_eq]
  have hlt := h.bounded c i hc hactive
  rw [List.getElem?_eq_getElem hlt]
  exact h.leave i _ (List.getElem?_eq_getElem hlt) c hc hactive

theorem Region.Leaves.stop (h : Leaves setup table nodes E Live Left e) (hc : Live c) :
    Ends (Region.stop setup ⟨table, nodes⟩ e) c
      (fun _ c' => Live c' ∧ c'.marking.active = .stopped) E := by
  have hN := Note.admits_uncrossed (σ := σ) e
  -- what follows on leaving the active state
  have hhalt (move : Move σ) (hmove : move.event = e) (c : Configuration σ γ δ) (hc : Left c) :
      Ends (do Turn.setActive .stopped; setup.hooks.afterTransition move) c
        (fun _ c' => Live c' ∧ c'.marking.active = .stopped) E := by
    rw [ends_bind, ends_setActive]
    have hmoved := h.move .stopped c hc nofun
    refine (h.left.ends (setup.hooks.afterTransition_inert hN hmove) hmoved).mono (fun _ c' hc' => ?_)
      fun _ _ h => h
    refine ⟨h.rested c' hc'.1 fun i hi => ?_, hc'.2⟩
    rw [hc'.2] at hi
    cases hi
  rw [Region.stop, ends_bind, ends_active]
  split
  · rename_i hstopped
    exact ⟨hc, hstopped⟩
  · refine h.live.bind (setup.hooks.beforeTransition_inert hN rfl) hc fun _ c₁ hc₁ hactive => ?_
    cases ha : c.marking.active with
    | «at» i =>
      rw [ha] at hactive
      dsimp only
      rw [ends_bind]
      exact (h.leaveAt hc₁ hactive).mono (fun _ c₂ hc₂ => hhalt _ rfl c₂ hc₂) fun _ _ h => h
    | stopped =>
      rw [ha] at hactive
      exact hhalt _ rfl c₁ (h.resting c₁ hc₁ (by simp [hactive]))
    | final =>
      rw [ha] at hactive
      exact hhalt _ rfl c₁ (h.resting c₁ hc₁ (by simp [hactive]))

variable [DecidableEq σ]

theorem Region.Moves.enterAt (h : Moves setup table nodes E Live Left e) {i : Nat} (hi : i < nodes.length)
    (hc : Left c) (hactive : c.marking.active = .at i) :
    Ends (Node.enterAt setup table.path i nodes i e) c
      (fun _ c' => Live c' ∧ c'.marking.active = .at i) E := by
  have hn := List.getElem?_eq_getElem hi
  rw [Node.enterAt_eq, hn]
  refine ((h.enter i _ hn c hc hactive).and (Node.enter_confined table.path i _ e c)).mono
    (fun _ c' h => ⟨h.1, ?_⟩) fun _ _ h => h.1
  rw [h.2.active, hactive]

/-- What an external row does once its source is left. -/
theorem Region.Moves.arrive (h : Moves setup table nodes E Live Left e) {t : Nat} (ht : t < nodes.length)
    (hc : Left c) (active : σ) (choice : Choice σ γ) {rest : Turn σ γ δ Unit}
    (hrest : Inert Note.Uncrossed rest) :
    Ends (do
      Turn.setActive (.at t)
      Region.act table.path active choice e
      Node.enterAt setup table.path t nodes t e
      rest) c (fun _ c' => Live c' ∧ c'.marking.active ≠ .stopped) E := by
  have hN := Note.admits_uncrossed (σ := σ) e
  rw [ends_bind, ends_setActive]
  have hmoved := h.move (.at t) c hc fun i hi => by cases hi; exact ht
  refine h.left.bind (act_inert hN _ _ _) hmoved fun _ c₁ hc₁ hactive => ?_
  rw [ends_bind]
  refine (h.enterAt ht hc₁ hactive).mono (fun _ c₂ hc₂ => ?_) fun _ _ h => h
  refine (h.live.ends hrest hc₂.1).mono (fun _ c₃ hc₃ => ⟨hc₃.1, ?_⟩) fun _ _ h => h
  rw [hc₃.2, hc₂.2]
  exact nofun

theorem Region.Moves.fire (h : Moves setup table nodes E Live Left e) {choice : Choice σ γ} (hc : Live c)
    (hactive : c.marking.active = .at choice.position) :
    Ends (Region.fire setup table nodes choice e) c
      (fun _ c' => Live c' ∧ c'.marking.active ≠ .stopped) E := by
  have hN := Note.admits_uncrossed (σ := σ) e
  have hafter (move : Move σ) (hmove : move.event = e) (source target : σ) :
      Inert Note.Uncrossed (do
        Region.remember setup table.path source target e
        setup.hooks.afterTransition move : Turn σ γ δ Unit) :=
    (remember_inert setup _ _ _ _).bind fun _ => setup.hooks.afterTransition_inert hN hmove
  unfold Region.fire Region.fireWith
  refine h.live.bind (note_inert rfl rfl) hc fun _ c₁ hc₁ h₁ => ?_
  rw [hactive] at h₁
  split
  · refine (h.live.ends (act_inert hN _ _ _) hc₁).mono (fun _ c₂ hc₂ => ⟨hc₂.1, ?_⟩) fun _ _ h => h
    rw [hc₂.2, h₁]
    exact nofun
  · rename_i t _
    split
    · rename_i target htarget
      refine h.live.bind (setup.hooks.beforeTransition_inert hN rfl) hc₁ fun _ c₂ hc₂ h₂ => ?_
      rw [h₁] at h₂
      rw [ends_bind]
      refine (h.leaveAt hc₂ h₂).mono (fun _ c₃ hc₃ => ?_) fun _ _ h => h
      have ht : t < nodes.length := (List.getElem?_eq_some_iff.1 htarget).1
      exact h.arrive ht hc₃ _ _ (hafter _ rfl _ _)
    · exact ⟨hc₁, by simp [h₁]⟩
  · refine h.live.bind (setup.hooks.beforeTransition_inert hN rfl) hc₁ fun _ c₂ hc₂ h₂ => ?_
    rw [h₁] at h₂
    rw [ends_bind]
    refine (h.leaveAt hc₂ h₂).mono (fun _ c₃ hc₃ => ?_) fun _ _ h => h
    rw [ends_bind, ends_setActive]
    refine h.left.bind (act_inert hN _ _ _) (h.move .final c₃ hc₃ nofun) fun _ c₄ hc₄ h₄ => ?_
    refine (h.left.ends (setup.hooks.afterTransition_inert hN rfl) hc₄).mono (fun _ c₅ hc₅ => ?_)
      fun _ _ h => h
    have hfinal : c₅.marking.active = .final := hc₅.2.trans h₄
    exact ⟨h.rested c₅ hc₅.1 (by simp [hfinal]), by simp [hfinal]⟩

theorem Region.Moves.settle (h : Moves setup table nodes E Live Left .completion) (hc : Live c)
    (hrunning : c.marking.active ≠ .stopped) :
    Ends (Region.settle setup table nodes) c (fun _ c' => Live c' ∧ c'.marking.active ≠ .stopped) E := by
  have hdue := due_inert (Note.admits_uncrossed (σ := σ) .completion) table nodes
  unfold Region.settle
  generalize setup.settings.maxCompletionChain = n
  induction n generalizing c with
  | zero =>
    rw [Region.chain]
    refine h.live.bind hdue hc fun _ c₁ hc₁ h₁ => ?_
    split
    · refine h.live.bind (note_inert rfl rfl) hc₁ fun _ c₂ hc₂ _ => ?_
      exact h.halted _ c₂ hc₂
    · exact ⟨hc₁, by rwa [h₁]⟩
  | succ n ih =>
    rw [Region.chain, ends_bind]
    refine ((hdue c).and (due_ends table nodes c)).mono (fun found c₁ h₁ => ?_) fun halt c₁ h₁ => ?_
    · obtain ⟨hsteps, hfound⟩ := h₁
      have hc₁ := (h.live c c₁ hsteps hc).1
      have hactive := hsteps.active
      cases found with
      | none => exact ⟨hc₁, by rwa [hactive]⟩
      | some choice =>
        rw [hfound choice rfl] at hactive
        dsimp only
        rw [ends_bind]
        exact (h.fire hc₁ hactive).mono (fun _ c₂ hc₂ => ih hc₂.1 hc₂.2) fun _ _ h => h
    · exact (h.live c c₁ h₁.1.1 hc).2 halt h₁.1.2.2

theorem Region.Moves.start (h : Moves setup table nodes E Live Left e)
    (hC : Moves setup table nodes E Live Left .completion) (hinitial : table.initial < nodes.length)
    (hc : Live c) :
    Ends (Region.start setup ⟨table, nodes⟩ e) c
      (fun _ c' => Live c' ∧ c'.marking.active ≠ .stopped) E := by
  have hN := Note.admits_uncrossed (σ := σ) e
  rw [Region.start_eq, ends_bind, ends_active]
  split
  · rename_i hrunning
    exact ⟨hc, hrunning⟩
  · rename_i hnot
    have hstopped : c.marking.active = .stopped := Decidable.of_not_not hnot
    refine h.live.bind (setup.hooks.beforeTransition_inert hN rfl) hc fun _ c₁ hc₁ h₁ => ?_
    rw [hstopped] at h₁
    rw [ends_bind, ends_setActive]
    have hmoved := h.move (.at table.initial) c₁ (h.resting c₁ hc₁ (by simp [h₁])) fun i hi => by
      cases hi
      exact hinitial
    rw [ends_bind]
    refine (h.enterAt hinitial hmoved rfl).mono (fun _ c₂ hc₂ => ?_) fun _ _ h => h
    refine h.live.bind (setup.hooks.afterTransition_inert hN rfl) hc₂.1 fun _ c₃ hc₃ h₃ => ?_
    refine hC.settle hc₃ ?_
    rw [h₃, hc₂.2]
    exact nofun

/-- Given what the active state does with an event that no row takes. -/
theorem Region.Moves.process (h : Moves setup table nodes E Live Left e)
    (hC : Moves setup table nodes E Live Left .completion)
    (hreact : ∀ i n, nodes[i]? = some n → ∀ c, Live c → c.marking.active = .at i →
      Ends (n.react setup table.path i e) c (fun _ => Live) E) (hc : Live c) :
    Ends (Region.process setup ⟨table, nodes⟩ e) c
      (fun _ c' => Live c' ∧ (c.marking.active ≠ .stopped → c'.marking.active ≠ .stopped)) E := by
  have hN := Note.admits_uncrossed (σ := σ) e
  have hsettle (processed : Bool) (c₁ : Configuration σ γ δ) (hc₁ : Live c₁)
      (hrunning : c₁.marking.active ≠ .stopped) :
      Ends (do Region.settle setup table nodes; return processed) c₁
        (fun _ c' => Live c' ∧ (c.marking.active ≠ .stopped → c'.marking.active ≠ .stopped)) E := by
    rw [ends_bind]
    exact (hC.settle hc₁ hrunning).mono (fun _ c₂ hc₂ => ⟨hc₂.1, fun _ => hc₂.2⟩) fun _ _ h => h
  refine Region.ends_process ⟨hc, id⟩ fun i n hi hn => ?_
  unfold Region.respond
  rw [ends_bind]
  refine ((RegionTable.resolve_inert hN table i n.data.id c).and
    (RegionTable.resolve_ends table i n.data.id e c)).mono (fun found c₁ h₁ => ?_) fun halt c₁ h₁ => ?_
  · obtain ⟨hsteps, hfound⟩ := h₁
    have hc₁ := (h.live c c₁ hsteps hc).1
    have hactive : c₁.marking.active = .at i := hsteps.active.trans hi
    cases found with
    | some choice =>
      have hposition : c₁.marking.active = .at choice.position := by rw [hactive, (hfound _ rfl).1]
      dsimp only
      rw [ends_bind]
      refine (h.fire hc₁ hposition).mono (fun _ c₂ hc₂ => ?_) fun _ _ h => h
      split
      · exact hsettle true c₂ hc₂.1 hc₂.2
      · exact ⟨hc₂.1, fun _ => hc₂.2⟩
    | none =>
      dsimp only
      rw [ends_bind]
      refine ((hreact i n hn c₁ hc₁ hactive).and
        (Node.react_confined table.path i n e c₁)).mono (fun processed c₂ h₂ => ?_) fun _ _ h => h.1
      have hrunning : c₂.marking.active ≠ .stopped := by simp [h₂.2.active, hactive]
      split
      · exact hsettle processed c₂ h₂.1 hrunning
      · exact ⟨h₂.1, fun _ => hrunning⟩
  · exact (h.live c c₁ h₁.1.1 hc).2 halt h₁.1.2.2

end Moves

end Statechart
