import Statechart.Proofs.Completions

/-!
# Simple states

A state without regions is left and entered by its own reactions alone. So between simple states a row fires
once and moves on to its target, unless a callback fails.

* `Configuration.firings` : how many rows were fired so far; `Configuration.Faulted` : a callback failed or
  panicked;
* `Node.exitAt_inert`, `Node.enterAt_inert` : leaving and entering a simple state is inert;
* `Region.fire_ends` : what firing a row comes to;
* `Region.due_of_resting`, `Region.due_of_none`, `Region.due_of_row` : the completion row that is due;
  `Region.ends_chain_of_rest`, `Region.ends_chain_of_due`, `Region.ends_chain_zero` : a chain follows it.
-/

set_option autoImplicit false

namespace Statechart

open Turn

variable {σ γ δ α β : Type}

/-! ## Firings and faults -/

/-- Whether a row is about to fire. -/
def Note.isFired : Note σ → Bool
  | .fired _ _ _ _ => true
  | _ => false

theorem Note.isFired_of_not_isProgress {n : Note σ} (h : n.isProgress = false) : n.isFired = false := by
  cases n <;> simp_all [isFired, isProgress]

/-- How many rows were fired so far. -/
def Configuration.firings (c : Configuration σ γ δ) : Nat :=
  c.world.exchange.journal.toList.countP Note.isFired

/-- A callback failed or panicked, and is noted. -/
def Configuration.Faulted (h : Halt) (c : Configuration σ γ δ) : Prop :=
  h.IsNoted c.world.exchange.journal ∧ h.isOverflow = false

theorem Configuration.Faulted.not_overflow {h : Halt} {c : Configuration σ γ δ} (hfault : Faulted h c) :
    ¬h.isOverflow = true := by
  rw [hfault.2]
  decide

/-- No row is fired. -/
abbrev Note.Still (n : Note σ) : Prop := n.isProgress = false

theorem Note.admits_still (e : Event) : Note.AdmitsCrossings (Note.Still (σ := σ)) e := fun _ _ h => h

variable {c c' : Configuration σ γ δ} {e : Event}

theorem Configuration.Steps.firings (h : c.Steps Note.Still c') : c'.firings = c.firings := by
  obtain ⟨l, hw, hl⟩ := h.follows
  unfold Configuration.firings
  rw [hw.journal, List.countP_append]
  have hnone : l.countP Note.isFired = 0 :=
    List.countP_eq_zero.2 fun n hn => by simp [Note.isFired_of_not_isProgress (hl n hn)]
  rw [hnone, Nat.add_zero]

/-- How to go on after an inert turn, where only a fault may halt. -/
theorem Turn.Inert.goes_on {x : Turn σ γ δ α} (hx : Inert Note.Still x) {f : α → Turn σ γ δ β}
    {Q : β → Configuration σ γ δ → Prop} {E : Halt → Configuration σ γ δ → Prop}
    (hE : ∀ h c', Configuration.Faulted h c' → E h c')
    (hf : ∀ a c', c.Steps Note.Still c' → Ends (f a) c' Q E) : Ends (x >>= f) c Q E := by
  rw [Turn.ends_bind]
  exact (hx c).mono hf fun h c' hc' => hE h c' hc'.2

theorem Turn.note_fired (path : String) (s : σ) (row : Nat) :
    Ends (note (.fired path s row e)) c
      (fun _ c' => c'.firings = c.firings + 1 ∧ c'.marking.active = c.marking.active)
      Configuration.Faulted := by
  rw [ends_note]
  refine ⟨?_, rfl⟩
  simp [Configuration.firings, Exchange.note, Note.isFired]

/-! ## Leaving and entering -/

section Crossing

variable [Named σ] {setup : Setup σ γ} {nodes : List (BuiltNode σ γ δ)} {i : Nat} {n : BuiltNode σ γ δ}

theorem Node.exit_inert (path : String) (hn : n.regions = []) :
    Inert Note.Still (n.exit setup path i e) := by
  obtain ⟨unit, regions⟩ := n
  obtain rfl : regions = [] := hn
  have hN := (Note.admits_still (σ := σ) e).admits
  rw [Node.exit, Region.stopAll]
  refine (Inert.pure ()).bind fun _ => Inert.bind (note_inert rfl rfl) fun _ => ?_
  exact orFail_inert hN _ _ _ (performAt_inert (fun _ => hN.silent) _ _ _)

theorem Node.exitAt_inert (path : String) (hsimple : ∀ n, nodes[i]? = some n → n.regions = []) :
    Inert Note.Still (Node.exitAt setup path i nodes i e) := by
  rw [Node.exitAt_eq]
  cases hn : nodes[i]? with
  | none => exact Inert.pure ()
  | some n => exact Node.exit_inert path (hsimple n hn)

variable [DecidableEq σ]

theorem Node.enter_inert (path : String) (hn : n.regions = []) :
    Inert Note.Still (n.enter setup path i e) := by
  obtain ⟨unit, regions⟩ := n
  obtain rfl : regions = [] := hn
  have hN := (Note.admits_still (σ := σ) e).admits
  rw [Node.enter, Region.startAll]
  refine Inert.bind (note_inert rfl rfl) fun _ => Inert.bind ?_ fun _ => Inert.pure ()
  exact orFail_inert hN _ _ _ (performAt_inert (fun _ => hN.silent) _ _ _)

theorem Node.enterAt_inert (path : String) (hsimple : ∀ n, nodes[i]? = some n → n.regions = []) :
    Inert Note.Still (Node.enterAt setup path i nodes i e) := by
  rw [Node.enterAt_eq]
  cases hn : nodes[i]? with
  | none => exact Inert.pure ()
  | some n => exact Node.enter_inert path (hsimple n hn)

theorem Node.react_inert (path : String) (hn : n.regions = []) :
    Inert Note.Still (n.react setup path i e) := by
  rw [Node.react_eq, hn, Region.processAll]
  refine (Inert.pure false).bind fun _ => ?_
  split
  · exact Inert.pure true
  · exact Node.consult_inert (Note.admits_still e).admits path i n

end Crossing

/-! ## Firing -/

/-- What is active once a row with this target has fired. -/
def Target.reached (a : Active) : Target Nat → Active
  | .state t => .at t
  | .internal => a
  | .final => .final

section Firing

variable [DecidableEq σ] [Named σ] {setup : Setup σ γ} {table : RegionTable σ γ}
  {nodes : List (BuiltNode σ γ δ)} {choice : Choice σ γ}

/-- Between simple states a row fires once, and then its target is active. -/
theorem Region.fire_ends (hsource : ∀ n, nodes[choice.position]? = some n → n.regions = [])
    (htarget : ∀ t, choice.transition.target = .state t → ∃ n, nodes[t]? = some n ∧ n.regions = []) :
    Ends (Region.fire setup table nodes choice e) c
      (fun _ c' => c'.firings = c.firings + 1 ∧
        c'.marking.active = choice.transition.target.reached c.marking.active)
      Configuration.Faulted := by
  have hN := (Note.admits_still (σ := σ) e).admits
  have hleave : Inert Note.Still (Node.exitAt setup table.path choice.position nodes choice.position e) :=
    Node.exitAt_inert table.path hsource
  unfold Region.fire Region.fireWith
  rw [ends_bind]
  refine (note_fired table.path choice.state choice.row).mono (fun _ c₁ h₁ => ?_) fun _ _ h => h
  obtain ⟨hfirings, hactive⟩ := h₁
  have hrest {x : Turn σ γ δ Unit} (hx : Inert Note.Still x) (a : Active) {c₂ : Configuration σ γ δ}
      (hc₂ : c₁.Steps Note.Still c₂) :
      Ends (do setActive a; x) c₂ (fun _ c' => c'.firings = c.firings + 1 ∧ c'.marking.active = a)
        Configuration.Faulted := by
    rw [ends_bind, ends_setActive]
    refine (hx _).mono (fun _ c₃ hc₃ => ⟨?_, hc₃.active⟩) fun _ _ h => h.2
    rw [hc₃.firings, ← hfirings, ← hc₂.firings]
    rfl
  cases ht : choice.transition.target with
  | internal =>
    dsimp only
    refine (act_inert hN _ _ _ c₁).mono (fun _ c₂ hc₂ => ⟨?_, ?_⟩) fun _ _ h => h.2
    · rw [hc₂.firings, hfirings]
    · rw [hc₂.active, hactive]
      rfl
  | state t =>
    obtain ⟨n, hn, hsimple⟩ := htarget t ht
    dsimp only
    rw [hn]
    refine (setup.hooks.beforeTransition_inert hN rfl).goes_on (fun _ _ h => h) fun _ c₂ hc₂ => ?_
    refine hleave.goes_on (fun _ _ h => h) fun _ c₃ hc₃ => ?_
    have henter : Inert Note.Still (Node.enterAt setup table.path t nodes t e) :=
      Node.enterAt_inert table.path fun n' hn' => by
        obtain rfl : n = n' := Option.some.inj (hn.symm.trans hn')
        exact hsimple
    refine hrest ?_ (.at t) (trans_of (Configuration.Steps Note.Still) hc₂ hc₃)
    refine (act_inert hN _ _ _).bind fun _ => henter.bind fun _ => ?_
    exact (remember_inert setup _ _ _ _).bind fun _ => setup.hooks.afterTransition_inert hN rfl
  | final =>
    dsimp only
    refine (setup.hooks.beforeTransition_inert hN rfl).goes_on (fun _ _ h => h) fun _ c₂ hc₂ => ?_
    refine hleave.goes_on (fun _ _ h => h) fun _ c₃ hc₃ => ?_
    refine hrest ?_ .final (trans_of (Configuration.Steps Note.Still) hc₂ hc₃)
    exact (act_inert hN _ _ _).bind fun _ => setup.hooks.afterTransition_inert hN rfl

end Firing

/-! ## Chains -/

section Chains

variable [DecidableEq σ] [Named σ] {setup : Setup σ γ} {table : RegionTable σ γ}
  {nodes : List (BuiltNode σ γ δ)} {i : Nat} {n : BuiltNode σ γ δ} {fire : Choice σ γ → Turn σ γ δ Unit}
  {Q : Unit → Configuration σ γ δ → Prop} {E : Halt → Configuration σ γ δ → Prop}

/-- Nothing is due where no state is active. -/
theorem Region.due_of_resting (h : ∀ i n, c.marking.active = .at i → nodes[i]? ≠ some n) :
    due table nodes c = .ok none c := by
  have hthis : (Turn.active : Turn σ γ δ Active) c = .ok c.marking.active c := rfl
  unfold due
  rw [bind_of_ok hthis]
  cases hactive : c.marking.active with
  | stopped => rfl
  | «at» i =>
    cases hn : nodes[i]? with
    | none =>
      dsimp only
      rw [hn]
      rfl
    | some n => exact absurd hn (h i n hactive)
  | final => rfl

omit [Named σ] [DecidableEq σ] in
theorem Node.isComplete_of_simple (hn : n.regions = []) (i : Nat) (m : Marking δ) :
    n.isComplete i m = true := by
  unfold Node.isComplete
  rw [hn]
  rfl

theorem Region.due_of_none (hactive : c.marking.active = .at i) (hn : nodes[i]? = some n)
    (hsimple : n.regions = []) (hrow : table.rows.find? (·.concerns n.data.id .completion) = none) :
    due table nodes c = .ok none c := by
  rw [due_of_complete hactive hn (Node.isComplete_of_simple hsimple i _)]
  exact RegionTable.resolve_of_none table i hrow

theorem Region.due_of_row (hactive : c.marking.active = .at i) (hn : nodes[i]? = some n)
    (hsimple : n.regions = []) {row : Transition σ γ Nat}
    (hrow : table.rows.find? (·.concerns n.data.id .completion) = some row) (hguard : row.guard = none) :
    ∃ k, due table nodes c = .ok (some ⟨i, n.data.id, k, row⟩) c := by
  obtain ⟨k, -, hresolve⟩ := RegionTable.resolve_of_unguarded (c := c) table i hrow hguard
  exact ⟨k, by rw [due_of_complete hactive hn (Node.isComplete_of_simple hsimple i _), hresolve]⟩

theorem Region.ends_chain_of_rest (h : due table nodes c = .ok none c) (k : Nat) :
    Ends (chain setup table nodes fire k) c Q E ↔ Q () c := by
  cases k <;> rw [chain, ends_bind, ends_of_ok h] <;> rfl

theorem Region.ends_chain_of_due {choice : Choice σ γ} (h : due table nodes c = .ok (some choice) c)
    (k : Nat) : Ends (chain setup table nodes fire (k + 1)) c Q E ↔
      Ends (fire choice) c (fun _ c' => Ends (chain setup table nodes fire k) c' Q E) E := by
  rw [chain, ends_bind, ends_of_ok h]
  dsimp only
  rw [ends_bind]

/-- With no step left, a row that is due is an overflow. -/
theorem Region.ends_chain_zero {choice : Choice σ γ} (h : due table nodes c = .ok (some choice) c)
    (hE : ∀ c', E (.error (.completionOverflow table.path setup.settings.maxCompletionChain)) c') :
    Ends (chain setup table nodes fire 0) c Q E := by
  rw [chain, ends_bind, ends_of_ok h]
  exact hE _

end Chains

end Statechart
