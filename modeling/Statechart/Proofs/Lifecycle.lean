import Statechart.Proofs.Blame
import Statechart.Proofs.Legality

/-!
# Starting and stopping under a failure hook

A pass that starts or stops the regions of a machine ends at the first region that fails, and it is the failure
hook that says what then becomes of the call. So a call that returns without an error need not have reached every
region.

* `Turn.KeepsUp` : a region that runs still runs; `Region.start_runs`, `Region.stop_runs`, `Region.process_runs` :
  what a failure leaves running;
* `Chart.verdict?`, `Chart.verdicts`, `Machine.verdicts` : the answers of the failure hook in the course of a call;
* `Region.startAll_runs`, `Region.stopAll_runs` : a pass over sibling regions;
* `Chart.recovering_ends`, `Chart.drain_runs` : what the recovery and the events dispatched after the pass change;
* `lifecycle_calls`.
-/

set_option autoImplicit false

namespace Statechart

open Turn

variable {σ γ δ α β : Type}

/-! ## Regions that run -/

/-- If the region runs, it still does. -/
def Configuration.StaysUp (c c' : Configuration σ γ δ) : Prop :=
  c.marking.active ≠ .stopped → c'.marking.active ≠ .stopped

instance : IsPreorder (Configuration σ γ δ) Configuration.StaysUp where
  refl _ := id
  trans _ _ _ h h' := h' ∘ h

/-- A region that runs still does, however the turn ends. -/
abbrev Turn.KeepsUp (x : Turn σ γ δ α) : Prop := Keeps Configuration.StaysUp (fun _ _ => True) x

namespace Turn

theorem Inert.keepsUp {N : Note σ → Prop} {x : Turn σ γ δ α} (h : Inert N x) : KeepsUp x :=
  Keeps.mono h (fun _ _ h hup => h.active ▸ hup) fun _ _ _ => trivial

theorem Confined.keepsUp {position : Nat} {x : Turn σ γ δ α} (h : Confined position x) : KeepsUp x :=
  Keeps.mono h (fun _ _ h hup => h.active ▸ hup) fun _ _ _ => trivial

theorem setActive_keepsUp (a : Active) (ha : a ≠ .stopped) : KeepsUp (setActive a : Turn σ γ δ Unit) :=
  fun _ _ => ha

theorem note_keepsUp (n : Note σ) : KeepsUp (note n : Turn σ γ δ Unit) := fun _ => id

theorem fail_keepsUp (e : DispatchError) : KeepsUp (fail e : Turn σ γ δ α) := fun _ => ⟨id, trivial⟩

/-- Where a region runs, it does after a turn that keeps it up. -/
theorem KeepsUp.ends {x : Turn σ γ δ α} (h : KeepsUp x) {c : Configuration σ γ δ}
    (hc : c.marking.active ≠ .stopped) :
    Ends x c (fun _ c' => c'.marking.active ≠ .stopped) fun _ c' => c'.marking.active ≠ .stopped :=
  (h c).mono (fun _ _ h => h hc) fun _ _ h => h.1 hc

end Turn

/-- A failure leaves the region running. -/
abbrev Region.FailsUp (h : Halt) (c : Configuration σ γ δ) : Prop :=
  ∀ f, h = .error (.failure f) → c.marking.active ≠ .stopped

section Regions

variable [Named σ] {setup : Setup σ γ} {e : Event}

/-- A region that stops is stopped, and one that fails to is not. -/
theorem Region.stop_runs (r : BuiltRegion σ γ δ) (c : Configuration σ γ δ) :
    Ends (r.stop setup e) c (fun _ c' => c'.marking.active = .stopped) Region.FailsUp := by
  have hN := Note.admits_uncrossed (σ := σ) e
  obtain ⟨table, nodes⟩ := r
  have hhalt (move : Move σ) (hmove : move.event = e) (c : Configuration σ γ δ) :
      Ends (do Turn.setActive .stopped; setup.hooks.afterTransition move) c
        (fun _ c' => c'.marking.active = .stopped) Region.FailsUp := by
    rw [ends_bind, ends_setActive]
    refine ((setup.hooks.afterTransition_inert hN hmove _).and (callHook_faultless _ _ _)).mono
      (fun _ _ h => h.1.active) fun _ _ h f hf => (h.2 f hf).elim
  rw [Region.stop, ends_bind, ends_active]
  split
  · assumption
  · rename_i hrunning
    rw [ends_bind]
    refine ((setup.hooks.beforeTransition_inert hN rfl c).and (callHook_faultless _ _ _)).mono
      (fun _ c₁ h => ?_) fun _ _ h f hf => (h.2 f hf).elim
    have hrunning₁ : c₁.marking.active ≠ .stopped := by rwa [h.1.active]
    cases c.marking.active with
    | «at» i =>
      dsimp only
      rw [ends_bind]
      exact ((Node.exitAt_confined table.path i nodes e).keepsUp.ends hrunning₁).mono
        (fun _ c₂ _ => hhalt _ rfl c₂) fun _ _ h _ _ => h
    | stopped => exact hhalt _ rfl c₁
    | final => exact hhalt _ rfl c₁

variable [DecidableEq σ]

theorem Region.fire_keepsUp (table : RegionTable σ γ) (nodes : List (BuiltNode σ γ δ)) (choice : Choice σ γ)
    (e : Event) : KeepsUp (Region.fire setup table nodes choice e) := by
  have hN := Note.admits_uncrossed (σ := σ) e
  have hbefore {move : Move σ} (hmove : move.event = e) :
      KeepsUp (setup.hooks.beforeTransition move : Turn σ γ δ Unit) :=
    (setup.hooks.beforeTransition_inert hN hmove).keepsUp
  have hafter {move : Move σ} (hmove : move.event = e) :
      KeepsUp (setup.hooks.afterTransition move : Turn σ γ δ Unit) :=
    (setup.hooks.afterTransition_inert hN hmove).keepsUp
  have hact (active : σ) : KeepsUp (Region.act table.path active choice e : Turn σ γ δ Unit) :=
    (act_inert hN table.path active choice).keepsUp
  have hleave (i : Nat) : KeepsUp (Node.exitAt setup table.path i nodes i e) :=
    (Node.exitAt_confined table.path i nodes e).keepsUp
  unfold Region.fire Region.fireWith
  refine (note_keepsUp _).bind fun _ => ?_
  split
  · exact hact _
  · split
    · refine (hbefore rfl).bind fun _ => (hleave _).bind fun _ => ?_
      refine (setActive_keepsUp (.at _) nofun).bind fun _ => ?_
      refine (hact _).bind fun _ => (Node.enterAt_confined table.path _ nodes e).keepsUp.bind fun _ => ?_
      exact (remember_inert (N := Note.Uncrossed) setup _ _ _ _).keepsUp.bind fun _ => hafter rfl
    · exact Keeps.pure ()
  · refine (hbefore rfl).bind fun _ => (hleave _).bind fun _ => (setActive_keepsUp .final nofun).bind fun _ => ?_
    exact (hact _).bind fun _ => hafter rfl

theorem Region.settle_keepsUp (table : RegionTable σ γ) (nodes : List (BuiltNode σ γ δ)) :
    KeepsUp (Region.settle setup table nodes) := by
  have hdue := (due_inert (Note.admits_uncrossed (σ := σ) .completion) table nodes).keepsUp
  unfold Region.settle
  generalize setup.settings.maxCompletionChain = n
  induction n with
  | zero =>
    refine hdue.bind fun _ => ?_
    split
    · exact (note_keepsUp _).bind fun _ => fail_keepsUp _
    · exact Keeps.pure ()
  | succ n ih =>
    refine hdue.bind fun _ => ?_
    split
    · exact (Region.fire_keepsUp table nodes _ _).bind fun _ => ih
    · exact Keeps.pure ()

/-- A region that was to start runs, also if that failed. -/
theorem Region.start_runs (r : BuiltRegion σ γ δ) (c : Configuration σ γ δ) :
    Ends (r.start setup e) c (fun _ c' => c'.marking.active ≠ .stopped) Region.FailsUp := by
  have hN := Note.admits_uncrossed (σ := σ) e
  obtain ⟨table, nodes⟩ := r
  rw [Region.start_eq, ends_bind, ends_active]
  split
  · assumption
  · rw [ends_bind]
    refine (callHook_faultless _ _ c).mono (fun _ c₁ _ => ?_) fun _ _ h f hf => (h f hf).elim
    rw [ends_bind, ends_setActive]
    have hrest : KeepsUp (do
        Node.enterAt setup table.path table.initial nodes table.initial e
        setup.hooks.afterTransition ⟨table.path, .stopped, endpoint nodes (.at table.initial), e⟩
        Region.settle setup table nodes) := by
      refine (Node.enterAt_confined table.path table.initial nodes e).keepsUp.bind fun _ => ?_
      refine (setup.hooks.afterTransition_inert hN rfl).keepsUp.bind fun _ => ?_
      exact Region.settle_keepsUp table nodes
    exact (hrest.ends (by simp)).mono (fun _ _ h => h) fun _ _ h _ _ => h

/-- An event neither starts nor stops a region. -/
theorem Region.process_runs (r : BuiltRegion σ γ δ) (c : Configuration σ γ δ) :
    Ends (r.process setup e) c (fun _ c' => c'.marking.active = .stopped ↔ c.marking.active = .stopped)
      fun _ c' => c'.marking.active = .stopped ↔ c.marking.active = .stopped := by
  have hN := Note.admits_uncrossed (σ := σ) e
  obtain ⟨table, nodes⟩ := r
  refine Region.ends_process Iff.rfl fun i n hi hn => ?_
  have hrespond : KeepsUp (Region.respond setup table nodes i n e) := by
    refine (RegionTable.resolve_inert hN table i n.data.id).keepsUp.bind fun found => ?_
    split
    · refine (Region.fire_keepsUp table nodes _ e).bind fun _ => ?_
      split
      · exact (Region.settle_keepsUp table nodes).bind fun _ => Keeps.pure true
      · exact Keeps.pure true
    · refine (Node.react_confined table.path i n e).keepsUp.bind fun processed => ?_
      split
      · exact (Region.settle_keepsUp table nodes).bind fun _ => Keeps.pure processed
      · exact Keeps.pure processed
  exact (hrespond.ends (by simp [hi])).mono (fun _ _ h => by simp [h, hi]) fun _ _ h => by simp [h, hi]

end Regions

/-! ## Passes over sibling regions -/

/-- Region `index` of the state at a position runs. -/
def Configuration.Runs (c : Configuration σ γ δ) (position index : Nat) : Prop :=
  (c.marking.child (position, index)).active ≠ .stopped

instance (c : Configuration σ γ δ) (position index : Nat) : Decidable (c.Runs position index) :=
  inferInstanceAs (Decidable (_ ≠ _))

/-- The turn ends well. -/
def Turn.Succeeds (x : Turn σ γ δ α) (c : Configuration σ γ δ) : Prop := ∃ a c', x c = .ok a c'

section Passes

variable {position : Nat}

/-- A turn of one region, seen from the state that owns it: what is said of the region then, and that the others
run if they did. -/
theorem Turn.ends_inChild_runs {x : Turn σ γ δ α} {c : Configuration σ γ δ} {Q : α → Marking δ → Prop}
    {E : Halt → Marking δ → Prop} {index : Nat}
    (h : Ends x ⟨c.world, c.marking.child (position, index)⟩ (fun a c' => Q a c'.marking) fun h c' => E h c'.marking) :
    Ends (inChild (position, index) x) c
      (fun a c' => Q a (c'.marking.child (position, index)) ∧
        ∀ j ≠ index, c'.marking.child (position, j) = c.marking.child (position, j))
      fun h c' => E h (c'.marking.child (position, index)) ∧
        ∀ j ≠ index, c'.marking.child (position, j) = c.marking.child (position, j) := by
  have hothers (m : Marking δ) (j : Nat) (hj : j ≠ index) :
      (c.marking.setChild (position, index) m).child (position, j) = c.marking.child (position, j) :=
    Marking.child_setChild_of_ne (by simpa using hj) _ _
  rw [ends_inChild]
  refine h.mono (fun a c' h => ⟨?_, hothers _⟩) fun _ c' h => ⟨?_, hothers _⟩
  · simpa using h
  · simpa using h

variable [Named σ] {setup : Setup σ γ} {e : Event}

/-- When sibling regions are stopped, none runs; if one of them fails to, it does. -/
theorem Region.stopAll_runs (rs : List (BuiltRegion σ γ δ)) (index : Nat) (c : Configuration σ γ δ) :
    Ends (Region.stopAll setup position index rs e) c
      (fun _ c' => (∀ j < index, c'.Runs position j ↔ c.Runs position j) ∧
        ∀ j < rs.length, ¬c'.Runs position (index + j))
      fun h c' => ∀ f, h = .error (.failure f) → ∃ j < rs.length, c'.Runs position (index + j) := by
  induction rs generalizing index c with
  | nil => exact ⟨fun _ _ => Iff.rfl, nofun⟩
  | cons r rs ih =>
    rw [Region.stopAll, ends_bind]
    refine (ends_inChild_runs (Q := fun _ m => m.active = .stopped)
      (E := fun h m => ∀ f, h = .error (.failure f) → m.active ≠ .stopped) (r.stop_runs _)).mono
      (fun _ c₁ h₁ => ?_) fun _ c₁ h₁ f hf => ?_
    · refine (ih (index + 1) c₁).mono (fun _ c₂ h₂ => ⟨fun j hj => ?_, fun j hj => ?_⟩) fun _ c₂ h₂ f hf => ?_
      · rw [h₂.1 j (by omega), Configuration.Runs, Configuration.Runs, h₁.2 j (by omega)]
      · cases j with
        | zero =>
          rw [Nat.add_zero, h₂.1 index (by omega), Configuration.Runs]
          exact not_not_intro h₁.1
        | succ j =>
          rw [← Nat.add_assoc, Nat.add_right_comm]
          exact h₂.2 j (by simpa using hj)
      · obtain ⟨j, hj, hruns⟩ := h₂ f hf
        exact ⟨j + 1, by simpa using hj, by rwa [← Nat.add_assoc, Nat.add_right_comm]⟩
    · exact ⟨0, by simp, h₁.1 f hf⟩

variable [DecidableEq σ]

/-- When sibling regions are started, all run; if one of them fails to, those run that ran and those of which all
before them started. -/
theorem Region.startAll_runs (position : Nat) (setup : Setup σ γ) (e : Event) (rs : List (BuiltRegion σ γ δ))
    (index : Nat) (c : Configuration σ γ δ) :
    Ends (Region.startAll setup position index rs e) c
      (fun _ c' => (∀ j < index, c'.Runs position j ↔ c.Runs position j) ∧
        ∀ j < rs.length, c'.Runs position (index + j) ∧
          Succeeds (Region.startAll setup position index (rs.take j) e) c)
      fun h c' => ∀ f, h = .error (.failure f) → (∀ j < index, c'.Runs position j ↔ c.Runs position j) ∧
        ∀ j < rs.length, c'.Runs position (index + j) ↔
          c.Runs position (index + j) ∨ Succeeds (Region.startAll setup position index (rs.take j) e) c := by
  induction rs generalizing index c with
  | nil => exact ⟨fun _ _ => Iff.rfl, nofun⟩
  | cons r rs ih =>
    have hnone : Succeeds (Region.startAll setup position index ((r :: rs).take 0) e) c := ⟨(), c, rfl⟩
    have hstart : Ends (r.start setup e) ⟨c.world, c.marking.child (position, index)⟩
        (fun _ c' => c'.marking.active ≠ .stopped) Region.FailsUp := r.start_runs _
    have hfirst := ends_inChild_runs (Q := fun _ m => m.active ≠ .stopped)
      (E := fun h m => ∀ f, h = .error (.failure f) → m.active ≠ .stopped) hstart
    rw [Region.startAll, ends_bind]
    cases hr : inChild (position, index) (r.start setup e) c with
    | ok a c₁ =>
      have h₁ := hfirst.of_ok hr
      have hothers (j : Nat) (hj : j ≠ index) : c₁.Runs position j ↔ c.Runs position j := by
        rw [Configuration.Runs, Configuration.Runs, h₁.2 j hj]
      have hrest (j : Nat) : Succeeds (Region.startAll setup position index ((r :: rs).take (j + 1)) e) c ↔
          Succeeds (Region.startAll setup position (index + 1) (rs.take j) e) c₁ := by
        unfold Succeeds
        rw [List.take_succ_cons, Region.startAll, bind_of_ok hr]
      rw [ends_of_ok hr]
      refine (ih (index + 1) c₁).mono (fun _ c₂ h₂ => ⟨fun j hj => ?_, fun j hj => ?_⟩) fun _ c₂ h₂ f hf =>
        ⟨fun j hj => ?_, fun j hj => ?_⟩
      · exact (h₂.1 j (by omega)).trans (hothers j (by omega))
      · cases j with
        | zero => exact ⟨(h₂.1 index (by omega)).2 h₁.1, hnone⟩
        | succ j =>
          rw [hrest j, ← Nat.add_assoc, Nat.add_right_comm]
          exact h₂.2 j (by simpa using hj)
      · exact ((h₂ f hf).1 j (by omega)).trans (hothers j (by omega))
      · cases j with
        | zero => exact iff_of_true (((h₂ f hf).1 index (by omega)).2 h₁.1) (.inr hnone)
        | succ j =>
          rw [hrest j, ← hothers (index + (j + 1)) (by omega), ← Nat.add_assoc, Nat.add_right_comm]
          exact (h₂ f hf).2 j (by simpa using hj)
    | error h c₁ =>
      have h₁ := hfirst.of_error hr
      have hothers (j : Nat) (hj : j ≠ index) : c₁.Runs position j ↔ c.Runs position j := by
        rw [Configuration.Runs, Configuration.Runs, h₁.2 j hj]
      unfold Ends
      rw [hr]
      refine fun f hf => ⟨fun j hj => hothers j (by omega), fun j hj => ?_⟩
      cases j with
      | zero => exact iff_of_true (h₁.1 f hf) (.inr hnone)
      | succ j =>
        rw [hothers _ (by omega), or_iff_left]
        rintro ⟨_, c₂, hc₂⟩
        rw [List.take_succ_cons, Region.startAll, bind_eq_error.2 (.inl hr)] at hc₂
        cases hc₂

/-- An event leaves the same siblings running, however its dispatch ends. -/
theorem Region.processAll_runs (rs : List (BuiltRegion σ γ δ)) (c : Configuration σ γ δ) :
    Ends (Region.processAll setup position 0 rs e) c
      (fun _ c' => ∀ j < rs.length, c'.Runs position j ↔ c.Runs position j)
      fun _ c' => ∀ j < rs.length, c'.Runs position j ↔ c.Runs position j := by
  rw [Region.ends_processAll]
  refine (onEach_places (W := fun _ => True) (V := fun _ _ => True)
    (P := fun j m => m.active = .stopped ↔ (c.marking.child (position, j)).active = .stopped)
    (Q := fun j m => m.active = .stopped ↔ (c.marking.child (position, j)).active = .stopped)
    (R := fun j m => m.active = .stopped ↔ (c.marking.child (position, j)).active = .stopped)
    (fun _ _ => id) (fun _ _ => id) (fun j r _ c _ hj => ?_) trivial fun _ _ => Iff.rfl).mono
    (fun _ _ h j hj => not_congr (h.2 j hj)) fun _ _ h j hj => not_congr (h.2 j hj)
  exact (r.process_runs c).mono (fun _ _ h => ⟨trivial, h.trans hj⟩) fun _ _ h => ⟨trivial, h.trans hj⟩

end Passes

/-! ## Verdicts -/

section Verdicts

variable [DecidableEq σ] [Named σ] (c : Chart σ γ δ)

/-- The call of the failure hook. -/
def Turn.judge (hook : Failure → Callback γ Recovery) (f : Failure) : Turn σ γ δ Recovery := do
  note (.hook (.failure f))
  perform (hook f)

omit [DecidableEq σ] in
/-- What the failure hook answers if the pass ends in a failure. -/
def Chart.verdict? (pass : Turn σ γ δ Unit) (s : Configuration σ γ δ) : Option Recovery :=
  match pass s, c.setup.hooks.failure with
  | .error (.error (.failure f)) s', some hook =>
    match (judge hook f : Turn σ γ δ Recovery) s' with
    | .ok verdict _ => some verdict
    | .error _ _ => none
  | _, _ => none

/-- What it answers while pending events are dispatched. -/
def Chart.verdicts : Nat → Configuration σ γ δ → List Recovery
  | 0, _ => []
  | bound + 1, s =>
    match Chart.take s with
    | .ok (some e) s' =>
      (c.verdict? (do Turn.note (.began e); c.dispatch e) s').toList ++
        match c.handle e s' with
        | .ok _ s'' => Chart.verdicts bound s''
        | .error _ _ => []
    | _ => []

/-- What it answers in the course of an operation that begins with a pass over the regions and goes on with the
pending events. -/
def Machine.verdicts (m : Machine σ γ δ) (bound : Nat) (pass : Turn σ γ δ Unit) : List Recovery :=
  (m.chart.verdict? pass m.configuration).toList ++
    match m.chart.recovering pass m.configuration with
    | .ok _ s => m.chart.verdicts bound s
    | .error _ _ => []

variable {c} {pass : Turn σ γ δ Unit} {s s' : Configuration σ γ δ}

omit [DecidableEq σ] in
/-- How a pass comes to end well: it did, or it failed and the hook said what to do. Unless it said to stop, the
regions are as the failure left them. -/
inductive Chart.Recovers (c : Chart σ γ δ) (pass : Turn σ γ δ Unit) (s s' : Configuration σ γ δ) : Prop where
  | passed (hpass : pass s = .ok () s') (hverdict : c.verdict? pass s = none)
  | stopped {f : Failure} {s₁ s₂ : Configuration σ γ δ} (hpass : pass s = .error (.error (.failure f)) s₁)
      (hverdict : c.verdict? pass s = some .stop) (hstop : c.stopRegions s₂ = .ok () s')
  | settled {f : Failure} {s₁ : Configuration σ γ δ} {verdict : Recovery}
      (hpass : pass s = .error (.error (.failure f)) s₁) (hverdict : c.verdict? pass s = some verdict)
      (hgoes : verdict ≠ .stop) (hmarking : s'.marking = s₁.marking)

omit [DecidableEq σ] in
theorem Chart.recover_ends {f : Failure} {s₁ : Configuration σ γ δ}
    (hpass : pass s = .error (.error (.failure f)) s₁) :
    Ends (c.recover (.error (.failure f))) s₁ (fun _ s' => c.Recovers pass s s') fun _ _ => True := by
  unfold Chart.recover
  dsimp only
  split
  · trivial
  · rename_i hook hhook
    rw [ends_bind, ends_note, ends_bind]
    cases hv : (judge hook f : Turn σ γ δ Recovery) s₁ with
    | error _ s₂ =>
      change perform (hook f) _ = _ at hv
      simp [Ends, hv]
    | ok verdict s₂ =>
      have hverdict : c.verdict? pass s = some verdict := by simp only [Chart.verdict?, hpass, hhook, hv]
      change perform (hook f) _ = _ at hv
      have hmarking : s₂.marking = s₁.marking := ((perform_isQuiet _ _).of_ok hv).marking
      rw [ends_of_ok hv]
      cases verdict with
      | handled => exact .settled hpass hverdict nofun hmarking
      | raise e =>
        refine (offer_isQuiet e s₂).mono (fun _ s' h => ?_) fun _ _ _ => trivial
        exact .settled hpass hverdict nofun (h.marking.trans hmarking)
      | stop =>
        dsimp only
        cases hs : c.stopRegions s₂ with
        | ok _ s' =>
          rw [ends_of_ok hs]
          exact .stopped hpass hverdict hs
        | error => simp [Ends, hs]
      | propagate => trivial

omit [DecidableEq σ] in
theorem Chart.recovering_ends (pass : Turn σ γ δ Unit) (s : Configuration σ γ δ) :
    Ends (c.recovering pass) s (fun _ s' => c.Recovers pass s s') fun _ _ => True := by
  unfold Chart.recovering
  rw [ends_bind, ends_attempt]
  cases hpass : pass s with
  | ok a s₁ =>
    rw [ends_of_ok hpass]
    exact .passed hpass (by simp [Chart.verdict?, hpass])
  | error h s₁ =>
    unfold Ends
    rw [hpass]
    cases h with
    | panic message => trivial
    | unfinished => trivial
    | error e =>
      cases e with
      | failure f => exact Chart.recover_ends hpass
      | _ => trivial

/-! ## Dispatches -/

/-- The same of the first `n` regions run. -/
def Configuration.SameRuns (n : Nat) (s s' : Configuration σ γ δ) : Prop := ∀ j < n, s'.Runs 0 j ↔ s.Runs 0 j

instance (n : Nat) : IsPreorder (Configuration σ γ δ) (Configuration.SameRuns n) where
  refl _ _ _ := Iff.rfl
  trans _ _ _ h h' j hj := (h' j hj).trans (h j hj)

omit [DecidableEq σ] [Named σ] in
theorem Configuration.SameRuns.of_marking {n : Nat} (h : s'.marking = s.marking) : s.SameRuns n s' := by
  intro j _
  unfold Configuration.Runs
  rw [h]

omit [DecidableEq σ] [Named σ] in
theorem Turn.IsQuiet.sameRuns {x : Turn σ γ δ α} (h : IsQuiet x) (n : Nat) :
    Keeps (Configuration.SameRuns n) (fun _ _ => True) x :=
  Keeps.mono h (fun _ _ h => .of_marking h.marking) fun _ _ h => h

/-- No dispatch starts or stops a region. -/
theorem Chart.dispatch_runs (e : Event) :
    Keeps (Configuration.SameRuns c.regions.length) (fun _ _ => True) (c.dispatch e) := by
  refine ((callHook_isQuiet rfl _).sameRuns _).bind fun _ => Keeps.bind (fun s => ?_) fun processed => ?_
  · exact (Region.processAll_runs c.regions s).mono (fun _ _ h => h) fun _ _ h => ⟨h, trivial⟩
  · refine ((callHook_isQuiet rfl _).sameRuns _).bind fun _ => ?_
    split
    · exact (callHook_isQuiet rfl _).sameRuns _
    · exact Keeps.pure ()

omit [DecidableEq σ] in
theorem Chart.stopRegions_runs (s : Configuration σ γ δ) :
    Ends c.stopRegions s (fun _ s' => ∀ j < c.regions.length, ¬s'.Runs 0 j)
      fun h s' => ∀ f, h = .error (.failure f) → ∃ j < c.regions.length, s'.Runs 0 j := by
  refine (Region.stopAll_runs c.regions 0 s).mono (fun _ s' h j hj => ?_) fun _ s' h f hf => ?_
  · simpa using h.2 j hj
  · simpa using h f hf

/-- When the hook says to stop, no region runs any more; otherwise the same do. -/
structure Chart.Obeys (c : Chart σ γ δ) (verdicts : List Recovery) (s s' : Configuration σ γ δ) : Prop where
  stops : .stop ∈ verdicts → ∀ j < c.regions.length, ¬s'.Runs 0 j
  goesOn : .stop ∉ verdicts → s.SameRuns c.regions.length s'

omit [DecidableEq σ] [Named σ] in
theorem Chart.Obeys.of_sameRuns (h : s.SameRuns c.regions.length s') : c.Obeys [] s s' := ⟨nofun, fun _ => h⟩

omit [DecidableEq σ] [Named σ] in
/-- What was stopped on the way stays so. -/
theorem Chart.Obeys.trans {s'' : Configuration σ γ δ} {verdicts verdicts' : List Recovery}
    (h : c.Obeys verdicts s s') (h' : c.Obeys verdicts' s' s'') : c.Obeys (verdicts ++ verdicts') s s'' where
  stops hstop := by
    by_cases hlater : .stop ∈ verdicts'
    · exact h'.stops hlater
    · have hearlier := h.stops ((List.mem_append.1 hstop).resolve_right hlater)
      exact fun j hj hruns => hearlier j hj ((h'.goesOn hlater j hj).1 hruns)
  goesOn hgoes := by
    rw [List.mem_append, not_or] at hgoes
    exact trans_of (Configuration.SameRuns _) (h.goesOn hgoes.1) (h'.goesOn hgoes.2)

theorem Chart.handle_runs (e : Event) (s : Configuration σ γ δ) :
    Ends (c.handle e) s
      (fun _ s' => c.Obeys (c.verdict? (do Turn.note (.began e); c.dispatch e) s).toList s s') fun _ _ => True := by
  have hdispatch (s₁ : Configuration σ γ δ) := c.dispatch_runs e s₁
  unfold Chart.handle
  rw [ends_bind, ends_note, ends_bind]
  refine (Chart.recovering_ends (c.dispatch e) _).mono (fun _ s' h => ?_) fun _ _ h => h
  rw [ends_note]
  change c.Obeys (c.verdict? (c.dispatch e) _).toList s _
  cases h with
  | passed hpass hverdict =>
    have hsame := (hdispatch _).of_ok hpass
    rw [hverdict]
    exact .of_sameRuns hsame
  | stopped hpass hverdict hstop =>
    have hstopped := (c.stopRegions_runs _).of_ok hstop
    rw [hverdict]
    exact ⟨fun _ => hstopped, fun hgoes => absurd (by simp) hgoes⟩
  | @settled f s₁ verdict hpass hverdict hgoes hmarking =>
    have hsame : s.SameRuns c.regions.length s' :=
      trans_of (Configuration.SameRuns _) ((hdispatch _).of_error hpass).1 (Configuration.SameRuns.of_marking hmarking)
    rw [hverdict]
    exact ⟨fun hstop => absurd (by simpa using hstop) (Ne.symm hgoes), fun _ => hsame⟩

theorem Chart.drain_runs (bound : Nat) (s : Configuration σ γ δ) :
    Ends (c.drain bound) s (fun _ s' => c.Obeys (c.verdicts bound s) s s') fun _ _ => True := by
  induction bound generalizing s with
  | zero =>
    rw [Chart.drain, ends_bind, ends_get]
    split
    · trivial
    · exact .of_sameRuns (refl_of (Configuration.SameRuns _) s)
  | succ bound ih =>
    rw [Chart.drain, ends_bind]
    have htaken := take_isQuiet s
    cases htake : (Chart.take : Turn σ γ δ (Option Event)) s with
    | error h s₁ => simp [Ends, htake]
    | ok event s₁ =>
      have hquiet : s.SameRuns c.regions.length s₁ := .of_marking (htaken.of_ok htake).marking
      rw [ends_of_ok htake]
      cases event with
      | none =>
        have hnone : c.verdicts (bound + 1) s = [] := by simp only [Chart.verdicts, htake]
        rw [hnone]
        exact .of_sameRuns hquiet
      | some e =>
        dsimp only
        rw [ends_bind]
        cases hhandle : c.handle e s₁ with
        | error h s₂ => simp [Ends, hhandle]
        | ok _ s₂ =>
          have hverdicts : c.verdicts (bound + 1) s =
              [] ++ ((c.verdict? (do Turn.note (.began e); c.dispatch e) s₁).toList ++ c.verdicts bound s₂) := by
            simp only [Chart.verdicts, htake, hhandle, List.nil_append]
          rw [ends_of_ok hhandle, hverdicts]
          refine (ih s₂).mono (fun _ s' h => ?_) fun _ _ h => h
          exact (Chart.Obeys.of_sameRuns hquiet).trans (((c.handle_runs e s₁).of_ok hhandle).trans h)

/-- What becomes of a call that begins with a pass over the regions. -/
theorem Machine.call_ends (m : Machine σ γ δ) (bound : Nat) (pass : Turn σ γ δ Unit) :
    Ends (do m.chart.recovering pass; m.chart.drain bound) m.configuration
      (fun _ s' => ∃ s later, m.verdicts bound pass = (m.chart.verdict? pass m.configuration).toList ++ later ∧
        m.chart.Recovers pass m.configuration s ∧ m.chart.Obeys later s s') fun _ _ => True := by
  rw [ends_bind]
  cases hpass : m.chart.recovering pass m.configuration with
  | error h s => simp [Ends, hpass]
  | ok _ s =>
    rw [ends_of_ok hpass]
    refine (m.chart.drain_runs bound s).mono (fun _ s' h => ?_) fun _ _ h => h
    have hrecovers := (Chart.recovering_ends pass m.configuration).of_ok hpass
    exact ⟨s, _, by rw [Machine.verdicts, hpass], hrecovers, h⟩

/-- Unless the hook said to stop, the regions that were reached run, and so do those that ran. -/
theorem Chart.Recovers.startRegions (h : c.Recovers c.startRegions s s')
    (hgoes : .stop ∉ (c.verdict? c.startRegions s).toList) :
    (Succeeds c.startRegions s → ∀ j < c.regions.length, s'.Runs 0 j) ∧
      ∀ j < c.regions.length, s'.Runs 0 j ↔
        s.Runs 0 j ∨ Succeeds (Region.startAll c.setup 0 0 (c.regions.take j) .start) s := by
  have hstart := Region.startAll_runs 0 c.setup .start c.regions 0 s
  simp only [Nat.zero_add] at hstart
  cases h with
  | passed hpass _ =>
    have hruns := (hstart.of_ok hpass).2
    exact ⟨fun _ j hj => (hruns j hj).1, fun j hj => iff_of_true (hruns j hj).1 (.inr (hruns j hj).2)⟩
  | stopped _ hverdict _ => exact absurd (by simp [hverdict]) hgoes
  | settled hpass _ _ hmarking =>
    refine ⟨fun ⟨_, _, hok⟩ => ?_, fun j hj => ?_⟩
    · rw [hpass] at hok
      cases hok
    · have hruns := (hstart.of_error hpass _ rfl).2 j hj
      rwa [Configuration.Runs, hmarking]

omit [DecidableEq σ] in
/-- Nothing runs if all regions were stopped, or if the hook said to stop: what fails to stop runs on. -/
theorem Chart.Recovers.stopRegions (h : c.Recovers c.stopRegions s s') :
    (∀ j < c.regions.length, ¬s'.Runs 0 j) ↔
      Succeeds c.stopRegions s ∨ .stop ∈ (c.verdict? c.stopRegions s).toList := by
  cases h with
  | passed hpass _ => exact iff_of_true ((c.stopRegions_runs s).of_ok hpass) (.inl ⟨_, _, hpass⟩)
  | stopped _ hverdict hstop =>
    exact iff_of_true ((c.stopRegions_runs _).of_ok hstop) (.inr (by simp [hverdict]))
  | @settled f s₁ verdict hpass hverdict hgoes hmarking =>
    obtain ⟨j, hj, hruns⟩ := (c.stopRegions_runs s).of_error hpass f rfl
    refine iff_of_false (fun hnone => hnone j hj (by rwa [Configuration.Runs, hmarking])) ?_
    rintro (⟨_, _, hok⟩ | hstop)
    · rw [hpass] at hok
      cases hok
    · rw [hverdict] at hstop
      exact hgoes (by simpa [eq_comm] using hstop)

omit [DecidableEq σ] [Named σ] in
/-- Nothing runs any more if nothing did, or if the hook said to stop. -/
theorem Chart.Obeys.none_runs {verdicts : List Recovery} (h : c.Obeys verdicts s s') :
    (∀ j < c.regions.length, ¬s'.Runs 0 j) ↔ (∀ j < c.regions.length, ¬s.Runs 0 j) ∨ .stop ∈ verdicts := by
  by_cases hstop : .stop ∈ verdicts
  · exact iff_of_true (h.stops hstop) (.inr hstop)
  · rw [or_iff_left hstop]
    exact forall₂_congr fun j hj => not_congr (h.goesOn hstop j hj)

end Verdicts

/-! ## Calls -/

theorem Machine.run_eq_ok {m m' : Machine σ γ δ} {x : Turn σ γ δ α} {a : α} (h : m.run x = (.ok a, m')) :
    x m.configuration = .ok a m'.configuration ∧ m'.chart = m.chart := by
  unfold Machine.run at h
  split at h
  · rename_i hx
    cases h
    exact ⟨hx, rfl⟩
  · cases h

section Calls

variable [DecidableEq σ] [Named σ]

/-- No region runs, at any depth. -/
def Machine.IsDown (m : Machine σ γ δ) : Prop :=
  ∀ (j : Nat) (r : BuiltRegion σ γ δ), m.chart.regions[j]? = some r →
    r.Throughout (fun _ marking => marking.isRunning = false) (m.configuration.marking.child (0, j))

omit [DecidableEq σ] [Named σ] in
theorem Region.throughout_not_running {p : Prop} {r : BuiltRegion σ γ δ} {m : Marking δ}
    (h : r.Throughout (Region.Fit p) m) (hactive : m.active = .stopped) :
    r.Throughout (fun _ marking => marking.isRunning = false) m := by
  induction h with
  | intro hhere _ ih =>
    refine .intro (by simp [Marking.isRunning, hactive]) fun k r' hr' => ih k r' hr' ?_
    exact hhere.legal.idle k r' hr' (by rw [hactive]; exact nofun)

omit [DecidableEq σ] [Named σ] in
/-- In a legal machine it is enough to look at the top-level regions. -/
theorem Machine.isDown_iff {m : Machine σ γ δ} (h : m.chart.IsLegal m.configuration) :
    m.IsDown ↔ ∀ j < m.chart.regions.length, ¬m.configuration.Runs 0 j := by
  constructor
  · intro hdown j hj hruns
    have hhere := (hdown j _ (List.getElem?_eq_getElem hj)).here
    exact hruns (by simpa [Marking.isRunning] using hhere)
  · intro hnone j r hr
    have hstopped := hnone j (List.getElem?_eq_some_iff.1 hr).1
    exact Region.throughout_not_running (h j r hr) (Decidable.of_not_not hstopped)

variable [Inhabited δ]

/-- **What the calls that start and stop a machine promise under a failure hook.** If a start ends well and the hook
did not say to stop in its course, then every top-level region runs, unless the starting of one of them failed: then
those run that ran before, and those of which all before them started. If a stop ends well, then no region runs at any
depth, if and only if no region failed to stop or the hook said to stop. -/
theorem lifecycle_calls {b : Blueprint σ γ δ} {m : Machine σ γ δ} (h : b.Reaches m) (bound : Nat) :
    (∀ m', m.operate bound .start = (.ok (), m') → .stop ∉ m.verdicts bound m.chart.startRegions →
      (Succeeds m.chart.startRegions m.configuration →
        ∀ j < m.chart.regions.length, m'.configuration.Runs 0 j) ∧
      ∀ j < m.chart.regions.length, m'.configuration.Runs 0 j ↔ m.configuration.Runs 0 j ∨
        Succeeds (Region.startAll m.chart.setup 0 0 (m.chart.regions.take j) .start) m.configuration) ∧
    ∀ m', m.operate bound .stop = (.ok (), m') →
      (m'.IsDown ↔ Succeeds m.chart.stopRegions m.configuration ∨
        .stop ∈ m.verdicts bound m.chart.stopRegions) := by
  refine ⟨fun m' hstart hgoes => ?_, fun m' hstop => ?_⟩
  · obtain ⟨hok, -⟩ := m.run_eq_ok hstart
    obtain ⟨s, later, hverdicts, hrecovers, hobeys⟩ := (m.call_ends bound m.chart.startRegions).of_ok hok
    rw [hverdicts, List.mem_append, not_or] at hgoes
    have hsame := hobeys.goesOn hgoes.2
    obtain ⟨hall, hsome⟩ := Chart.Recovers.startRegions hrecovers hgoes.1
    exact ⟨fun hpass j hj => (hsame j hj).2 (hall hpass j hj), fun j hj => (hsame j hj).trans (hsome j hj)⟩
  · obtain ⟨hok, hchart⟩ := m.run_eq_ok hstop
    obtain ⟨s, later, hverdicts, hrecovers, hobeys⟩ := (m.call_ends bound m.chart.stopRegions).of_ok hok
    have hlegal : m'.chart.IsLegal m'.configuration := by
      have hnext := (h.next bound .stop).isLegal
      rwa [hstop] at hnext
    rw [Machine.isDown_iff hlegal, hchart, hobeys.none_runs, Chart.Recovers.stopRegions hrecovers, hverdicts,
      List.mem_append, or_assoc]

end Calls

namespace Lamp

/-- An action that always fails. -/
def broken : Action Unit := fun _ => throw "broken"

/-- The reactions of a lamp that fails to be started and to be stopped. -/
def faulty : Behavior Unit Unit := Reactions.behavior { entry := [(none, broken)], exit := [(none, broken)] }

/-- Two lamps, of which the left one fails to be started and to be stopped; every failure counts as dealt with. -/
def pair : Blueprint Lamp Unit Unit where
  regions := [Declaration.new "left" |>.state off faulty, Declaration.new "right" |>.state dim (Reactions.behavior {})]
  setup := { hooks := { failure := some fun _ => return .handled }, settings := { autoStart := false } }

/-- The two lamps before they are started. -/
def paired : Machine Lamp Unit Unit where
  chart := ⟨[⟨⟨"left", [], 0⟩, [⟨⟨off, faulty⟩, []⟩]⟩, ⟨⟨"right", [], 0⟩, [node dim []]⟩], pair.setup⟩
  configuration := (withNotes [.stateMade dim, .stateMade off, .contextMade] []).configuration

end Lamp

/-- The left lamp fails to start, and so the right one is not started, although the call ends well and the hook did
not say to stop. It fails to stop too, and that call ends well with the left lamp running. -/
theorem handled_failure_ends_call_well :
    ∃ m, Lamp.pair.build 0 (pure () : Callback Unit Unit) = .ready m ∧
      ∃ m', m.operate 0 .start = (.ok (), m') ∧ .stop ∉ m.verdicts 0 m.chart.startRegions ∧
        m'.chart.regions.length = 2 ∧ ¬m'.configuration.Runs 0 1 ∧
        ∃ m'', m'.operate 0 .stop = (.ok (), m'') ∧ m''.configuration.Runs 0 0 := by
  refine ⟨Lamp.paired, rfl, _, rfl, ?_, rfl, ?_, _, rfl, ?_⟩ <;> decide +kernel

/-- The left lamp was reached, the right one was not; and the machine is not down, as the left one failed to stop. -/
theorem lifecycle_calls_pair :
    ∃ m m' m'', Lamp.pair.build 0 (pure () : Callback Unit Unit) = .ready m ∧
      m.operate 0 .start = (.ok (), m') ∧ m'.operate 0 .stop = (.ok (), m'') ∧
      (∀ j < m.chart.regions.length, m'.configuration.Runs 0 j ↔ m.configuration.Runs 0 j ∨
        Succeeds (Region.startAll m.chart.setup 0 0 (m.chart.regions.take j) .start) m.configuration) ∧
      (m''.IsDown ↔ Succeeds m'.chart.stopRegions m'.configuration ∨
        .stop ∈ m'.verdicts 0 m'.chart.stopRegions) := by
  refine ⟨Lamp.paired, _, _, rfl, rfl, rfl, ?_⟩
  have hbuilt : Lamp.pair.Reaches Lamp.paired := .built 0 (pure () : Callback Unit Unit) rfl
  have hstart := (lifecycle_calls hbuilt 0).1 _ rfl (by decide +kernel)
  exact ⟨hstart.2, (lifecycle_calls (hbuilt.next 0 .start) 0).2 _ rfl⟩

end Statechart
