import Statechart.Proofs.Remarks

/-!
# Calls of the failure hook

Whatever regions do, they never call the failure hook: only the machine does, once a pass over its regions has ended.

* `Note.judged?` : the failure that the hook was called with;
* `Configuration.Tells D judged` : the events `D` were taken out of the mailbox, and the hook was called with the
  failures `judged`, one after the other;
* `Turn.Unheard` : a turn that does not call the hook; `Chart.stopRegions_unheard`, `Chart.startRegions_unheard`,
  `Chart.dispatch_unheard`, `Chart.check_unheard` : the passes over the regions of a machine.
-/

set_option autoImplicit false

namespace Statechart

open Turn

variable {σ γ δ α : Type}

/-- The failure that the failure hook was called with. -/
def Note.judged? : Note σ → Option Failure
  | .hook (.failure f) => some f
  | _ => none

/-- The note is about something else than a call of the failure hook. -/
abbrev Note.Unjudged (n : Note σ) : Prop := n.judged? = none

theorem Note.admitsPasses_unjudged : Note.AdmitsPasses (σ := σ) Note.Unjudged := by
  intro n hn
  unfold Unjudged judged?
  split
  · cases hn
  · rfl

/-! ## What is told -/

/-- On the way the events `D` were taken out of the mailbox, and the failure hook was called with `judged`. -/
def Configuration.Tells (D : List Event) (judged : List Failure) (c c' : Configuration σ γ δ) : Prop :=
  ∃ l, c.world.exchange.Wrote D l c'.world.exchange ∧ l.filterMap Note.judged? = judged

section Tells

variable {c c₁ c' : Configuration σ γ δ} {D D' : List Event} {judged judged' : List Failure}

theorem Configuration.Tells.refl (c : Configuration σ γ δ) : c.Tells [] [] c := ⟨[], .refl _, rfl⟩

theorem Configuration.Tells.trans (h : c.Tells D judged c₁) (h' : c₁.Tells D' judged' c') :
    c.Tells (D ++ D') (judged ++ judged') c' := by
  obtain ⟨l, hw, rfl⟩ := h
  obtain ⟨l', hw', rfl⟩ := h'
  exact ⟨l ++ l', hw.trans hw', List.filterMap_append⟩

theorem Configuration.Follows.tells (h : c.Follows Note.Unjudged c') : c.Tells [] [] c' := by
  obtain ⟨l, hw, hl⟩ := h
  exact ⟨l, hw, List.filterMap_eq_nil_iff.2 hl⟩

end Tells

/-! ## Turns that do not call the failure hook -/

/-- However the turn ends, it does not call the failure hook. -/
abbrev Turn.Unheard (x : Turn σ γ δ α) : Prop := WritesOnly Note.Unjudged x

theorem Turn.fail_unheard (e : DispatchError) : Unheard (fail e : Turn σ γ δ α) := fail_writesOnly e

theorem Turn.perform_unheard (f : Callback γ α) : Unheard (perform f : Turn σ γ δ α) :=
  perform_writesOnly Note.admitsPasses_unjudged.remarks f

theorem Turn.offer_unheard (e : Event) : Unheard (offer e : Turn σ γ δ Unit) :=
  offer_writesOnly Note.admitsPasses_unjudged.remarks e

section Chart

variable [Named σ] (c : Chart σ γ δ)

theorem Chart.stopRegions_unheard : Unheard c.stopRegions := c.stopRegions_writesOnly Note.admitsPasses_unjudged

variable [DecidableEq σ]

theorem Chart.startRegions_unheard : Unheard c.startRegions := c.startRegions_writesOnly Note.admitsPasses_unjudged

theorem Chart.dispatch_unheard (e : Event) : Unheard (c.dispatch e) :=
  c.dispatch_writesOnly Note.admitsPasses_unjudged e

omit [Named σ] in
theorem Chart.check_unheard (e : Event) : Unheard (c.check e) := c.check_writesOnly Note.admitsPasses_unjudged e

end Chart

end Statechart
