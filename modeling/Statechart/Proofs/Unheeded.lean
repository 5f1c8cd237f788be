import Statechart.Proofs.Construction
import Statechart.Proofs.Questions
import Statechart.Proofs.Sameness

/-!
# Events that no region takes

No region takes the completion event from outside, and a stopped region takes nothing. The dispatch of an event that
no region takes comes to the calls of the hooks around it, and they are told that it was not processed.

* `Region.process_completion`, `Region.process_of_stopped`, `Region.processAll_stays`;
* `Chart.setAside` : the calls alone; `Chart.handle_unheeded` : what a dispatch comes to that no region takes up;
* `Note.IsAsked`, `Region.check_minds` : a dry run calls nothing but guards;
* `completion_is_set_aside`; `dry_run_takes_completion` : a dry run says yes to a completion event that no region takes.
-/

set_option autoImplicit false

namespace Statechart

open Turn

variable {σ γ δ α : Type}

/-! ## Regions that decline -/

section Regions

variable [DecidableEq σ] [Named σ] {setup : Setup σ γ} {e : Event} {c : Configuration σ γ δ}

/-- The completion event is not taken from outside, whatever is active. -/
theorem Region.process_completion (r : BuiltRegion σ γ δ) (c : Configuration σ γ δ) :
    r.process setup .completion c = .ok false c := by
  obtain ⟨table, nodes⟩ := r
  have hactive : (Turn.active : Turn σ γ δ Active) c = .ok c.marking.active c := rfl
  rw [Region.process, bind_of_ok hactive]
  cases c.marking.active with
  | stopped => rfl
  | «at» i =>
    dsimp only
    cases nodes[i]? <;> rfl
  | final => rfl

theorem Region.process_of_stopped (r : BuiltRegion σ γ δ) (h : c.marking.active = .stopped) :
    r.process setup e c = .ok false c := by
  obtain ⟨table, nodes⟩ := r
  have hactive : (Turn.active : Turn σ γ δ Active) c = .ok .stopped c := by
    rw [← h]
    rfl
  rw [Region.process, bind_of_ok hactive]
  rfl

/-- Regions each of which declines do so together. -/
theorem Region.processAll_stays {position : Nat} {rs : List (BuiltRegion σ γ δ)}
    (h : ∀ j r, rs[j]? = some r → ∀ m, (c.marking.child (position, j)).Same m →
      r.process setup e ⟨c.world, m⟩ = .ok false ⟨c.world, m⟩) :
    Stays (Region.processAll setup position 0 rs e) false c := by
  have hloop : Stays (onEach (fun r => r.process setup e) position 0 rs) (List.replicate rs.length false) c :=
    onEach_stays fun j r hr m hm => ⟨_, h j r hr m (by rwa [Nat.zero_add] at hm), refl _⟩
  rw [stays_iff_ends] at hloop ⊢
  rw [Region.ends_processAll]
  refine hloop.mono (fun answers c' h => ⟨?_, h.2⟩) fun _ _ h => h
  rw [h.1, List.any_replicate]
  simp

end Regions

/-! ## The calls around a dispatch -/

/-- The note tells of a dispatch that no region takes up. -/
def Note.IsAside (e : Event) (n : Note σ) : Prop :=
  n.isSilent = true ∨ n ∈ [.began e, .hook (.preProcessing e), .hook (.postProcessing e false),
    .hook (.unprocessed e), .ended e]

/-- The calls of the hooks around a dispatch, who are told that the event was not processed. -/
def Hooks.report (h : Hooks σ γ) (e : Event) : Turn σ γ δ Unit := do
  h.beforeProcessing e
  h.afterProcessing e false

/-- A dispatch that consists of these calls. -/
def Chart.setAside (c : Chart σ γ δ) (e : Event) : Turn σ γ δ Unit := do
  note (.began e)
  c.setup.hooks.report e
  note (.ended e)

section Calls

variable {N : Note σ → Prop} {e : Event}

/-- The marking stays the same, only notes in `N` are written, and only a panic may halt the turn. -/
abbrev Turn.Minds (N : Note σ → Prop) (x : Turn σ γ δ α) : Prop :=
  Keeps (Configuration.Unmoved N) (fun h _ => h.IsPanic) x

theorem Turn.note_minds {n : Note σ} (hn : N n) (hq : accepted [n] = []) : Minds N (note n : Turn σ γ δ Unit) :=
  fun _ => ⟨.refl _, rfl, Exchange.follows_note hn hq _⟩

theorem Turn.perform_minds (hN : ∀ n : Note σ, n.isSilent = true → N n) (f : Callback γ α) :
    Minds N (perform f : Turn σ γ δ α) :=
  fun c => ((perform_looks hN f c).and (perform_panics f c)).mono (fun _ _ h => h.1) fun _ _ h => ⟨h.1.1, h.2⟩

theorem Turn.callHook_minds (hN : ∀ n : Note σ, n.isSilent = true → N n) {call : HookCall σ} (hcall : N (.hook call))
    (hook : Option (Callback γ Unit)) : Minds N (callHook call hook : Turn σ γ δ Unit) := by
  cases hook with
  | none => exact Keeps.pure ()
  | some f => exact (note_minds hcall rfl).bind fun _ => perform_minds hN f

theorem Hooks.report_minds (h : Hooks σ γ) : Minds (Note.IsAside e) (h.report e : Turn σ γ δ Unit) := by
  have hsilent : ∀ n : Note σ, n.isSilent = true → n.IsAside e := fun _ => .inl
  refine (callHook_minds hsilent (.inr (by simp)) _).bind fun _ => ?_
  refine (callHook_minds hsilent (.inr (by simp)) _).bind fun _ => ?_
  exact callHook_minds hsilent (.inr (by simp)) _

theorem Configuration.Unmoved.of_intact {s t t' : Configuration σ γ δ} (h : s.Unmoved N t) (ht : t.Intact t') :
    s.Unmoved N t' :=
  ⟨h.marking.trans ht.marking, by rw [ht.world, h.history], by
    unfold Configuration.Follows
    rw [ht.world]
    exact h.follows⟩

theorem Chart.setAside_minds (c : Chart σ γ δ) : Minds (Note.IsAside e) (c.setAside e) := by
  refine (note_minds (.inr (by simp)) rfl).bind fun _ => (c.setup.hooks.report_minds).bind fun _ => ?_
  exact note_minds (.inr (by simp)) rfl

end Calls

/-! ## Dispatches that no region takes up -/

section Dispatches

variable [DecidableEq σ] [Named σ] (c : Chart σ γ δ) {e : Event} {s : Configuration σ γ δ}

omit [DecidableEq σ] in
/-- Where only a panic halts the pass, there is nothing to recover from. -/
theorem Chart.recovering_eq {pass : Turn σ γ δ Unit} (h : Ends pass s (fun _ _ => True) fun h _ => h.IsPanic) :
    c.recovering pass s = pass s := by
  unfold Chart.recovering
  cases hpass : pass s with
  | ok a s' =>
    have hattempt : pass.attempt s = .ok (.ok a) s' := by
      unfold attempt
      rw [hpass]
    rw [bind_of_ok hattempt]
    rfl
  | error halt s' =>
    have hpanic := h.of_error hpass
    cases halt with
    | panic message =>
      refine bind_eq_error.2 (.inl ?_)
      unfold attempt
      rw [hpass]
    | error => exact hpanic.elim
    | unfinished => exact hpanic.elim

/-- The regions decline: what is dispatched comes to the calls around it. -/
theorem Chart.dispatch_unheeded (h : ∀ s₁ : Configuration σ γ δ, s₁.marking = s.marking →
      Stays (Region.processAll c.setup 0 0 c.regions e) false s₁) :
    EndsAlike (c.setup.hooks.report e) (c.dispatch e) s s (fun _ => Configuration.Intact)
      fun _ => Configuration.Intact := by
  have hbefore : EndsAlike (c.setup.hooks.beforeProcessing e) (c.setup.hooks.beforeProcessing e) s s
      (fun _ t s₁ => s₁ = t ∧ t.marking = s.marking) fun _ => Configuration.Intact := by
    refine (EndsAlike.self (callHook_isQuiet rfl _ s)).mono (fun _ t s₁ ht => ⟨ht.1, ht.2.marking⟩) fun _ t s₁ ht => ?_
    rw [ht.1]
    exact refl_of Configuration.Intact t
  have hafter : Unaware (c.setup.hooks.afterProcessing e false : Turn σ γ δ Unit) :=
    (carries_intact.callHook _ _).bind fun _ => carries_intact.callHook _ _
  refine hbefore.bind fun _ t s₁ ht => ?_
  obtain ⟨rfl, hmarking⟩ := ht
  obtain ⟨s₂, hprocess, hs₂⟩ := h s₁ hmarking
  have halike := (hafter s₁ s₂ hs₂).mono (fun _ _ _ h => h) fun _ _ _ h => h.2
  unfold EndsAlike Ends at halike ⊢
  rwa [bind_of_ok hprocess]

/-- A dispatch that no region takes up is set aside; nothing in it can fail, so nothing is recovered from. -/
theorem Chart.handle_unheeded (h : ∀ s₁ : Configuration σ γ δ, s₁.marking = s.marking →
      Stays (Region.processAll c.setup 0 0 c.regions e) false s₁) :
    EndsAlike (c.setAside e) (c.handle e) s s (fun _ => Configuration.Intact) fun _ => Configuration.Intact := by
  let s₀ : Configuration σ γ δ := { s with world.exchange := s.world.exchange.note (.began e) }
  have hdispatch : EndsAlike (c.setup.hooks.report e) (c.dispatch e) s₀ s₀ (fun _ => Configuration.Intact)
      fun _ => Configuration.Intact := c.dispatch_unheeded h
  have hpanics : Ends (c.dispatch e) s₀ (fun _ _ => True) fun h _ => h.IsPanic := by
    refine (hdispatch.ends_right (c.setup.hooks.report_minds s₀)).mono (fun _ _ _ => trivial) fun _ _ h => ?_
    obtain ⟨_, hpanic, -⟩ := h
    exact hpanic.2
  have hpass : EndsAlike (c.setup.hooks.report e) (c.recovering (c.dispatch e)) s₀ s₀
      (fun _ => Configuration.Intact) fun _ => Configuration.Intact := by
    unfold EndsAlike Ends at hdispatch ⊢
    rwa [c.recovering_eq hpanics]
  have hended : Unaware (note (.ended e) : Turn σ γ δ Unit) := carries_intact.note _
  have hbegan : (note (.began e) : Turn σ γ δ Unit) s = .ok () s₀ := rfl
  refine EndsAlike.bind_of_ok hbegan hbegan (hpass.bind fun _ t s' ht => ?_)
  exact (hended t s' ht).mono (fun _ _ _ h => h) fun _ _ _ h => h.2

end Dispatches

/-! ## Dry runs -/

/-- A guard was called for the event, or the note tells what became of a raised event or of a panic. -/
def Note.IsAsked (e : Event) (n : Note σ) : Prop :=
  n.isSilent = true ∨ ∃ path active row, n = .guard path active row e

section Checks

variable [DecidableEq σ] {e : Event}

omit [DecidableEq σ] in
theorem Turn.inChild_minds {N : Note σ → Prop} (k : Nat × Nat) {x : Turn σ γ δ α} (hx : Minds N x) :
    Minds N (inChild k x) := by
  intro c
  rw [ends_inChild]
  refine (hx ⟨c.world, c.marking.child k⟩).mono (fun _ c' h => ?_) fun _ c' h => ?_
  · exact ⟨h.marking.setChild, h.history, h.follows⟩
  · exact ⟨⟨h.1.marking.setChild, h.1.history, h.1.follows⟩, h.2⟩

theorem RegionTable.ask_minds (path : String) (s : σ) (index : Nat) (row : Transition σ γ Nat) :
    Minds (Note.IsAsked e) (ask path s e index row : Turn σ γ δ (Except Cause Bool)) := by
  have hcheck : Minds (Note.IsAsked e) (perform (row.canFire s e).run : Turn σ γ δ (Except Cause Bool)) :=
    perform_minds (fun _ => .inl) _
  unfold ask
  split
  · exact (note_minds (.inr ⟨path, s, index, rfl⟩) rfl).bind fun _ => hcheck
  · exact hcheck

/-- A dry run calls nothing but guards, and leaves the marking the same. -/
theorem Region.check_minds (r : BuiltRegion σ γ δ) : Minds (Note.IsAsked e) (r.check e) :=
  r.check_keeps (fun k _ => inChild_minds k) fun _ _ row _ path s index => RegionTable.ask_minds path s index row

end Checks

/-! ## The completion event from outside -/

section Completion

variable [DecidableEq σ] [Named σ]

/-- Whatever is active, the completion event fires nothing when it is dispatched: the dispatch comes to exactly the
calls around it, in which it is not processed. The regions stay as they are, and only the panic of a hook may keep the
later hooks from being called.

A dry run does not set it aside. It changes nothing and calls only guards, but asks the completion rows of the active
states, complete or not, and their reactions, and answers as the first of them does that says yes. So where guards only
read, it says yes if and only if such a row suits in the context as it is, or a reaction accepts the event. -/
theorem completion_is_set_aside (c : Chart σ γ δ) (s : Configuration σ γ δ) :
    EndsAlike (c.setAside .completion) (c.handle .completion) s s (fun _ => Configuration.Intact)
        (fun _ => Configuration.Intact) ∧
      Ends (c.handle .completion) s (fun _ s' => s.Unmoved (Note.IsAside .completion) s')
        (fun h s' => h.IsPanic ∧ s.Unmoved (Note.IsAside .completion) s') ∧
      Ends (c.check .completion) s
        (fun answer s' => s.Unmoved (Note.IsAsked .completion) s' ∧
          Question.replies .completion (c.questions s.marking) s.world = some (answer, s'.world))
        (fun h s' => h.IsPanic ∧ s.Unmoved (Note.IsAsked .completion) s' ∧
          Question.replies .completion (c.questions s.marking) s.world = none) ∧
      ((∀ q ∈ c.questions s.marking, q.ReadsOnly) →
        Ends (c.check .completion) s
          (fun answer _ => answer = true ↔ ∃ q ∈ c.questions s.marking, q.Accepts .completion s.world.context)
          fun h _ => h.IsPanic) := by
  have hdispatch := c.handle_unheeded (e := .completion) (s := s) fun s₁ _ =>
    Region.processAll_stays fun _ r _ m _ => r.process_completion ⟨s₁.world, m⟩
  have hasks : Turn.Minds (Note.IsAsked .completion) (c.check .completion) :=
    Region.checkAny_keeps (fun k _ => inChild_minds k) (fun r _ => r.check_minds) 0 0
  refine ⟨hdispatch, ?_, ?_, fun hreads => ?_⟩
  · refine (hdispatch.ends_right (c.setAside_minds s)).mono (fun _ s' h => ?_) fun _ s' h => ?_
    · obtain ⟨t, hcalls, hintact⟩ := h
      exact hcalls.of_intact hintact
    · obtain ⟨t, ⟨hcalls, hpanic⟩, hintact⟩ := h
      exact ⟨hpanic, hcalls.of_intact hintact⟩
  · refine (Ends.and (hasks s) (c.check_poses .completion s)).mono (fun _ _ h => ⟨h.1, h.2.2⟩) fun _ _ h => ?_
    exact ⟨h.1.2, h.1.1, h.2⟩
  · exact (Ends.and (hasks s) (c.check_of_readsOnly hreads)).mono (fun _ _ h => h.2) fun _ _ h => h.1.2

namespace Lamp

/-- The lamp that acts by itself, and its configuration while it is on and dim. -/
def rising : Chart Lamp Unit Unit := ⟨[risingTree], blueprint.setup⟩

def aglow : Configuration Lamp Unit Unit := ⟨{ context := () }, ⟨.stopped, [], [((0, 0), glowing.marking)]⟩⟩

theorem questions_aglow : rising.questions aglow.marking =
    [.row "lamp" on 0 (row off (.state 0) press), .row "lamp" on 1 (completing on (.state 1)),
      .row "lamp/on/light" dim 0 (completing dim (.state 1)), .row "lamp/on/light" dim 1 (row bright .final turn),
      .reaction (Reactions.behavior {}) (), .reaction (Reactions.behavior {}) ()] := rfl

theorem reaches_risen : risingBlueprint.Reaches risen := by
  have hresting : risingBlueprint.Reaches resting := .built 0 (pure () : Callback Unit Unit) rfl
  exact (hresting.next 1 .start).next 1 (.process press)

end Lamp

/-- The lamp has no guards. A dry run says yes to completion by the row on which the lamp goes off. -/
theorem completion_is_set_aside_aglow :
    (∀ q ∈ Lamp.rising.questions Lamp.aglow.marking, q.ReadsOnly) ∧
      Ends (Lamp.rising.check .completion) Lamp.aglow (fun answer _ => answer = true) fun h _ => h.IsPanic := by
  have hreads : ∀ q ∈ Lamp.rising.questions Lamp.aglow.marking, q.ReadsOnly := by
    rw [Lamp.questions_aglow]
    simp [Question.ReadsOnly, Lamp.row, Lamp.completing]
  have hsuits : ∃ q ∈ Lamp.rising.questions Lamp.aglow.marking, q.Accepts .completion Lamp.aglow.world.context := by
    rw [Lamp.questions_aglow]
    refine ⟨.row "lamp" .on 1 (Lamp.completing .on (.state 1)), by simp, ?_, nofun⟩
    decide
  exact ⟨hreads, ((completion_is_set_aside Lamp.rising Lamp.aglow).2.2.2 hreads).mono (fun _ _ h => h.2 hsuits)
    fun _ _ h => h⟩

/-- A dry run says yes to the completion event for the row of a state that is not complete, while a dispatch processes
nothing. -/
theorem dry_run_takes_completion :
    Lamp.risingBlueprint.Reaches Lamp.risen ∧ Lamp.risen.activeStates = [.on, .bright] ∧
      (Lamp.risen.run (Lamp.risen.chart.check .completion)).1 = .ok true ∧
      (Lamp.risen.run (Lamp.risen.chart.handle .completion)).1 = .ok () ∧
      (Lamp.risen.run (Lamp.risen.chart.handle .completion)).2.activeStates = [.on, .bright] ∧
      (Lamp.risen.run (Lamp.risen.chart.handle .completion)).2.journal.notes =
        .ended .completion :: .began .completion :: Lamp.risen.journal.notes := by
  refine ⟨Lamp.reaches_risen, ?_, ?_, ?_, ?_, ?_⟩ <;> decide +kernel

namespace Lamp

/-- The hook of a lamp that no completion event may reach. -/
def startle (e : Event) : Callback Unit Unit :=
  match e with
  | .completion => Callback.panic "startled"
  | _ => pure ()

/-- The lamp that acts by itself, with that hook. -/
def skittishBlueprint : Blueprint Lamp Unit Unit :=
  { risingBlueprint with
    setup.hooks := { preProcessing := some startle, unprocessed := some fun _ => pure () } }

/-- That lamp before it is started. -/
def skittish : Machine Lamp Unit Unit := { resting with chart.setup := skittishBlueprint.setup }

theorem reaches_skittish : skittishBlueprint.Reaches skittish := .built 0 (pure () : Callback Unit Unit) rfl

/-- That lamp after it was started and pressed: it is on, and its light is bright but not done. -/
def startled : Machine Lamp Unit Unit := ((skittish.operate 1 .start).2.operate 1 (.process press)).2

end Lamp

/-- Where a hook panics at the event, the dispatch ends there, and the event is not reported as unprocessed. -/
example : (Lamp.startled.run (Lamp.startled.chart.handle .completion)).1 = .error (.panic "startled") ∧
    .hook (.unprocessed .completion) ∉
      (Lamp.startled.run (Lamp.startled.chart.handle .completion)).2.journal.notes := by decide +kernel

end Completion

end Statechart
