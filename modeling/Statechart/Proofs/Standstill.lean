import Statechart.Proofs.Brackets
import Statechart.Proofs.Lifecycle
import Statechart.Proofs.Sharing
import Statechart.Proofs.Unheeded

/-!
# Machines at a standstill

A machine whose regions are all stopped takes up nothing: what is still pending only goes to the hooks, and stopping
it once more does the same. A call that stops a machine without a failure hook brings it to a standstill from
wherever it was, and from there it starts like one that was just built.

* `Chart.Stands` : no top-level region runs; `Chart.stopRegions_stays`, `Chart.handle_of_stands` : what is done then;
* `Chart.discard` : pending events go to the hooks alone; `Chart.drain_of_stands`, `stop_at_standstill`;
  `stop_may_discard_events`;
* `Region.EntersInitial` : a region that starts enters its initial state first; `Machine.StartsAfresh` : each region
  that is reached starts so; `Machine.startsAfresh_of_isDown`;
* `stop_resets_the_tree`.
-/

set_option autoImplicit false

namespace Statechart

open Turn

variable {σ γ δ α : Type}

/-! ## Nothing runs -/

/-- No top-level region runs. -/
def Chart.Stands (c : Chart σ γ δ) (s : Configuration σ γ δ) : Prop := ∀ j < c.regions.length, ¬s.Runs 0 j

theorem Machine.isRunning_eq_false {m : Machine σ γ δ} :
    m.isRunning = false ↔ m.chart.Stands m.configuration := by
  simp [Machine.isRunning, Chart.Stands, Configuration.Runs, Marking.isRunning]

namespace Chart.Stands

variable {c : Chart σ γ δ} {s s' : Configuration σ γ δ}

theorem of_same (h : c.Stands s) (hs : s.marking.Same s'.marking) : c.Stands s' := by
  intro j hj
  rw [Configuration.Runs, (hs.child (0, j)).active]
  exact h j hj

theorem stopped (h : c.Stands s) {j : Nat} {r : BuiltRegion σ γ δ} (hr : c.regions[j]? = some r) {m : Marking δ}
    (hm : (s.marking.child (0, j)).Same m) : m.active = .stopped := by
  rw [hm.active]
  exact Decidable.of_not_not (h j (List.getElem?_eq_some_iff.1 hr).1)

end Chart.Stands

theorem Region.stop_of_stopped [Named σ] {setup : Setup σ γ} {e : Event} {c : Configuration σ γ δ}
    (r : BuiltRegion σ γ δ) (h : c.marking.active = .stopped) : r.stop setup e c = .ok () c := by
  obtain ⟨table, nodes⟩ := r
  have hactive : (Turn.active : Turn σ γ δ Active) c = .ok .stopped c := by
    rw [← h]
    rfl
  rw [Region.stop, bind_of_ok hactive]
  rfl

section Standstill

variable [Named σ] (c : Chart σ γ δ) {s t : Configuration σ γ δ} {e : Event}

theorem Chart.stopRegions_stays (h : c.Stands s) : Stays c.stopRegions () s := by
  have hloop : Stays (onEach (fun r => r.stop c.setup .stop) 0 0 c.regions) (List.replicate c.regions.length ()) s :=
    onEach_stays fun j r hr m hm => ⟨_, r.stop_of_stopped (h.stopped hr (by rwa [Nat.zero_add] at hm)), refl _⟩
  rw [stays_iff_ends] at hloop ⊢
  unfold Chart.stopRegions
  rw [Region.ends_stopAll]
  exact hloop.mono (fun _ _ h => ⟨rfl, h.2⟩) fun _ _ h => h

omit [Named σ] in
theorem Chart.setAside_unaware : Unaware (c.setAside e) := by
  refine (carries_intact.note _).bind fun _ => Lockstep.bind ?_ fun _ => carries_intact.note _
  refine (carries_intact.callHook _ _).bind fun _ => ?_
  exact (carries_intact.callHook _ _).bind fun _ => carries_intact.callHook _ _

omit [Named σ] in
theorem Chart.setAside_isQuiet : IsQuiet (c.setAside e) := by
  refine (note_isQuiet rfl).bind fun _ => Keeps.bind ?_ fun _ => note_isQuiet rfl
  refine (callHook_isQuiet rfl _).bind fun _ => ?_
  exact (callHook_isQuiet rfl _).bind fun _ => callHook_isQuiet rfl _

variable [DecidableEq σ]

/-- What is dispatched at a standstill is set aside. -/
theorem Chart.handle_of_stands (h : c.Stands s) :
    EndsAlike (c.setAside e) (c.handle e) s s (fun _ => Configuration.Intact) fun _ => Configuration.Intact := by
  refine c.handle_unheeded fun s₁ hs₁ => Region.processAll_stays fun j r hr m hm => ?_
  exact r.process_of_stopped (h.stopped hr (by rwa [hs₁] at hm))

omit [DecidableEq σ] in
/-- Sets pending events aside until none is left, at most `bound` of them. -/
def Chart.discard (bound : Nat) : Turn σ γ δ Unit :=
  match bound with
  | 0 => do
    if !(← get).world.exchange.mailbox.pending.isEmpty then throw .unfinished
  | bound + 1 => do
    let some e ← Chart.take | return
    c.setAside e
    discard bound

/-- What is pending at a standstill is set aside. -/
theorem Chart.drain_of_stands (bound : Nat) (hst : s.Intact t) (h : c.Stands s) :
    EndsAlike (c.discard bound) (c.drain bound) s t (fun _ => Configuration.Intact)
      fun _ => Configuration.Intact := by
  induction bound generalizing s t with
  | zero =>
    refine EndsAlike.get ?_
    rw [hst.world]
    split
    · exact ⟨rfl, hst⟩
    · exact .pure hst
  | succ bound ih =>
    have htake : EndsAlike Chart.take Chart.take s t (fun _ => Configuration.Intact) fun _ => Configuration.Intact :=
      (take_unaware s t hst).mono (fun _ _ _ h => h) fun _ _ _ h => h.2
    have htaken : Ends (Chart.take : Turn σ γ δ (Option Event)) s (fun _ s' => c.Stands s') fun _ _ => True :=
      (take_isQuiet s).mono (fun _ _ hs => h.of_same (by rw [hs.marking]; exact .refl _)) fun _ _ _ => trivial
    refine (htake.knowing htaken).bind fun event s₁ t₁ h₁ => ?_
    obtain ⟨hstands, hintact⟩ := h₁
    cases event with
    | none => exact .pure hintact
    | some e =>
      have haside : EndsAlike (c.setAside e) (c.setAside e) s₁ t₁ (fun _ => Configuration.Intact)
          fun _ => Configuration.Intact :=
        (c.setAside_unaware s₁ t₁ hintact).mono (fun _ _ _ h => h) fun _ _ _ h => h.2
      have hhandle := haside.trans (c.handle_of_stands (e := e) (hstands.of_same hintact.marking))
      have hleft : Ends (c.setAside e) s₁ (fun _ s₂ => c.Stands s₂) fun _ _ => True :=
        (c.setAside_minds s₁).mono (fun _ _ h => hstands.of_same h.marking) fun _ _ _ => trivial
      exact (hhandle.knowing hleft).bind fun _ s₂ t₂ h₂ => ih h₂.2 h₂.1

omit [DecidableEq σ] [Named σ] in
/-- Once all was set aside, nothing is pending; only a panic keeps it from that. -/
theorem Chart.discard_ends (bound : Nat) (s : Configuration σ γ δ) :
    Ends (c.discard bound) s (fun _ s' => s.Quiet s' ∧ s'.world.exchange.mailbox.pending = [])
      fun h s' => s.Quiet s' ∧ (h.IsPanic ∨ h = .unfinished) := by
  induction bound generalizing s with
  | zero =>
    rw [Chart.discard, ends_bind, ends_get]
    split
    · exact ⟨refl s, .inr rfl⟩
    · rename_i hempty
      exact ⟨refl s, by simpa using hempty⟩
  | succ bound ih =>
    rw [Chart.discard, ends_bind]
    have htake : Ends (Chart.take : Turn σ γ δ (Option Event)) s
        (fun event s' => event = none → s'.world.exchange.mailbox.pending = []) fun _ _ => False :=
      take_ends (fun hnone _ => hnone) fun _ _ _ _ => nofun
    refine (htake.and (take_isQuiet s)).mono (fun event s₁ h₁ => ?_) fun _ _ h => h.1.elim
    obtain ⟨hnone, hquiet₁⟩ := h₁
    cases event with
    | none => exact ⟨hquiet₁, hnone rfl⟩
    | some e =>
      dsimp only
      rw [ends_bind]
      refine ((c.setAside_isQuiet s₁).and (c.setAside_minds s₁)).mono (fun _ s₂ h₂ => ?_) fun _ s₂ h₂ => ?_
      · have hquiet₂ : s.Quiet s₂ := trans_of Configuration.Quiet hquiet₁ h₂.1
        exact (ih s₂).mono (fun _ _ h => ⟨trans_of Configuration.Quiet hquiet₂ h.1, h.2⟩)
          fun _ _ h => ⟨trans_of Configuration.Quiet hquiet₂ h.1, h.2⟩
      · exact ⟨trans_of Configuration.Quiet hquiet₁ h₂.1.1, .inl h₂.2.2⟩

/-- **Stopping a machine that is stopped.** No region is touched and no callback of the regions is called; but what is
still pending is dispatched, which at a standstill comes to the calls of the hooks around it. Where nothing is
pending, nothing at all is done. -/
theorem stop_at_standstill (m : Machine σ γ δ) (h : m.isRunning = false) (bound : Nat) :
    EndsAlike (m.chart.discard bound) (m.chart.stop bound) m.configuration m.configuration
        (fun _ => Configuration.Intact) (fun _ => Configuration.Intact) ∧
      Ends (m.chart.discard bound) m.configuration
        (fun _ s' => m.configuration.Quiet s' ∧ s'.world.exchange.mailbox.pending = [])
        (fun h s' => m.configuration.Quiet s' ∧ (h.IsPanic ∨ h = .unfinished)) ∧
      (m.mailbox.pending = [] → ∃ m', m.operate bound .stop = (.ok (), m') ∧ m.Intact m') := by
  have hstands := Machine.isRunning_eq_false.1 h
  obtain ⟨s', hpass, hintact⟩ := m.chart.stopRegions_stays hstands
  have hstopped : m.chart.recovering m.chart.stopRegions m.configuration = .ok () s' := by
    have hattempt : m.chart.stopRegions.attempt m.configuration = .ok (.ok ()) s' := by
      unfold attempt
      rw [hpass]
    unfold Chart.recovering
    rw [bind_of_ok hattempt]
    rfl
  have hstop : EndsAlike (m.chart.discard bound) (m.chart.stop bound) m.configuration m.configuration
      (fun _ => Configuration.Intact) fun _ => Configuration.Intact := by
    have hdrain := m.chart.drain_of_stands bound hintact hstands
    unfold EndsAlike Ends at hdrain ⊢
    unfold Chart.stop
    rwa [bind_of_ok hstopped]
  refine ⟨hstop, m.chart.discard_ends bound m.configuration, fun hpending => ?_⟩
  refine ⟨⟨m.chart, s'⟩, ?_, rfl, hintact⟩
  have hidle : Machine.mailbox ⟨m.chart, s'⟩ = m.mailbox := congrArg (·.exchange.mailbox) hintact.world
  have hrun : m.run (m.chart.recovering m.chart.stopRegions) = (.ok (), ⟨m.chart, s'⟩) := by
    unfold Machine.run
    rw [hstopped]
  unfold Machine.operate Operation.turn Chart.stop
  rw [Machine.run_bind, hrun]
  exact Machine.run_of_idle (m := ⟨m.chart, s'⟩) bound (by rw [hidle, hpending])

/-- The skittish lamp before it is started, with a press that was posted. -/
def Lamp.posted : Machine Lamp Unit Unit := (skittish.operate 0 (.post press)).2

/-- The press is dispatched by the call that stops the lamp, which is stopped already, and is reported to the hooks. -/
theorem stop_may_discard_events :
    Lamp.skittishBlueprint.Reaches Lamp.posted ∧ Lamp.posted.isRunning = false ∧
      Lamp.posted.mailbox.pending = [Lamp.press] ∧ (Lamp.posted.operate 1 .stop).1 = .ok () ∧
      (Lamp.posted.operate 1 .stop).2.mailbox.pending = [] ∧
      .hook (.unprocessed Lamp.press) ∈ (Lamp.posted.operate 1 .stop).2.journal.notes := by
  refine ⟨Lamp.reaches_skittish.next 0 (.post Lamp.press), ?_⟩
  decide +kernel

/-- The press is set aside; without it, nothing is done. -/
theorem stop_at_standstill_lamp :
    EndsAlike (Lamp.posted.chart.discard 1) (Lamp.posted.chart.stop 1) Lamp.posted.configuration
        Lamp.posted.configuration (fun _ => Configuration.Intact) (fun _ => Configuration.Intact) ∧
      ∃ m', Lamp.skittish.operate 1 .stop = (.ok (), m') ∧ Lamp.skittish.Intact m' :=
  ⟨(stop_at_standstill Lamp.posted (by decide +kernel) 1).1,
    (stop_at_standstill Lamp.skittish (by decide +kernel) 1).2.2 rfl⟩

end Standstill

/-! ## Starting from a standstill -/

section Starts

variable [DecidableEq σ] [Named σ]

omit [DecidableEq σ] in
/-- On the way to `c'` the region entered its initial state, and before that nothing but the hook ahead of the
transition was called. -/
def Region.EntersInitial (r : BuiltRegion σ γ δ) (e : Event) (c c' : Configuration σ γ δ) : Prop :=
  ∃ (n : BuiltNode σ γ δ) (before after : List (Note σ)), r.nodes[r.data.initial]? = some n ∧
    c.Writes (before ++ .entry r.data.path n.data.id e :: after) c' ∧
    ∀ note ∈ before, note.isSilent = true ∨
      note = .hook (.preTransition ⟨r.data.path, .stopped, .state n.data.id, e⟩)

theorem Node.enter_first {setup : Setup σ γ} {e : Event} (n : BuiltNode σ γ δ) (path : String) (position : Nat)
    (c : Configuration σ γ δ) :
    Ends (n.enter setup path position e) c (fun _ c' => ∃ after, c.Writes (.entry path n.data.id e :: after) c')
      fun _ c' => ∃ after, c.Writes (.entry path n.data.id e :: after) c' := by
  obtain ⟨unit, regions⟩ := n
  have hrest : Feeds (fun _ => True) (do
      Turn.orFail .entry path unit.id e
        (Turn.performAt position unit.behavior.initial (unit.behavior.onEntry e).run)
      Region.startAll setup position 0 regions e) := by
    refine (orFail_inert (fun _ _ _ => trivial) _ _ _ (performAt_inert (fun _ _ => trivial) _ _ _)).feeds.bind
      fun _ => ?_
    exact Region.startAll_feeds position regions fun r _ =>
      Region.start_feeds (fun _ _ => trivial) (fun _ _ => trivial) r
  have hentered := c.writes_note (.entry path unit.id e)
  rw [Node.enter, ends_bind, ends_note]
  refine (hrest _).mono (fun _ c' h => ?_) fun _ c' h => ?_
  · obtain ⟨l, hl, -⟩ := Configuration.Follows.writes h
    exact ⟨l, hentered.trans hl⟩
  · obtain ⟨l, hl, -⟩ := Configuration.Follows.writes h.1
    exact ⟨l, hentered.trans hl⟩

/-- A stopped region that starts enters its initial state first, unless the hook ahead of the transition panics: then
it is still stopped. -/
theorem Region.start_enters {setup : Setup σ γ} {e : Event} {r : BuiltRegion σ γ δ}
    (hinitial : r.data.initial < r.nodes.length) {c : Configuration σ γ δ} (hc : c.marking.active = .stopped) :
    Ends (r.start setup e) c (fun _ c' => r.EntersInitial e c c')
      fun h c' => r.EntersInitial e c c' ∨ h.IsPanic ∧ c'.marking.active = .stopped := by
  obtain ⟨table, nodes⟩ := r
  obtain ⟨n, hn⟩ : ∃ n, nodes[table.initial]? = some n := ⟨_, List.getElem?_eq_getElem hinitial⟩
  let move : Move σ := ⟨table.path, .stopped, .state n.data.id, e⟩
  let N (note : Note σ) : Prop := note.isSilent = true ∨ note = .hook (.preTransition move)
  have hbefore : Minds N (setup.hooks.beforeTransition move : Turn σ γ δ Unit) :=
    callHook_minds (fun _ => .inl) (.inr rfl) _
  have hrest : Feeds (fun _ => True) (do
      setup.hooks.afterTransition move
      Region.settle setup table nodes) :=
    (setup.hooks.afterTransition_inert (e := e) (fun _ _ _ => trivial) rfl).feeds.bind fun _ =>
      Region.settle_feeds (fun _ _ => trivial) table nodes
  rw [Region.start_eq, ends_bind, ends_active, hc, if_neg (by simp), endpoint_of_nodes n hn, ends_bind]
  refine (hbefore c).mono (fun _ c₁ h₁ => ?_) fun _ c₁ h₁ => .inr ⟨h₁.2, h₁.1.marking.active.trans hc⟩
  obtain ⟨before, hwrites, hN⟩ := h₁.follows.writes
  have henters {after : List (Note σ)} {c₂ c₃ : Configuration σ γ δ}
      (h : c₁.Writes (.entry table.path n.data.id e :: after) c₂) (h' : c₂.Follows (fun _ => True) c₃) :
      Region.EntersInitial ⟨table, nodes⟩ e c c₃ := by
    obtain ⟨l, hl, -⟩ := h'.writes
    exact ⟨n, before, after ++ l, hn, hwrites.trans (h.trans hl), hN⟩
  rw [ends_bind, ends_setActive, ends_bind, Node.enterAt_eq, hn]
  refine (n.enter_first table.path table.initial _).mono (fun _ c₂ h₂ => ?_) fun _ c₂ h₂ => ?_
  · obtain ⟨after, hafter⟩ := h₂
    exact (hrest c₂).mono (fun _ _ h => henters hafter h) fun _ _ h => .inl (henters hafter h.1)
  · obtain ⟨after, hafter⟩ := h₂
    exact .inl (henters hafter (refl c₂))

/-- Each top-level region that a start reaches is still stopped then, and enters its initial state first. -/
def Machine.StartsAfresh (m : Machine σ γ δ) : Prop :=
  ∀ (j : Nat) (r : BuiltRegion σ γ δ) (s : Configuration σ γ δ), m.chart.regions[j]? = some r →
    Region.startAll m.chart.setup 0 0 (m.chart.regions.take j) .start m.configuration = .ok () s →
    (s.marking.child (0, j)).active = .stopped ∧
      Ends (r.start m.chart.setup .start) ⟨s.world, s.marking.child (0, j)⟩
        (fun _ s' => r.EntersInitial .start ⟨s.world, s.marking.child (0, j)⟩ s')
        fun h s' => r.EntersInitial .start ⟨s.world, s.marking.child (0, j)⟩ s' ∨
          h.IsPanic ∧ s'.marking.active = .stopped

omit [DecidableEq σ] [Named σ] in
/-- The loop leaves alone the regions behind those of the list. -/
theorem Turn.onEach_behind {x : BuiltRegion σ γ δ → Turn σ γ δ α} {position index : Nat}
    (rs : List (BuiltRegion σ γ δ)) (c : Configuration σ γ δ) :
    Ends (onEach x position index rs) c
      (fun _ c' => ∀ j, index + rs.length ≤ j → c'.marking.child (position, j) = c.marking.child (position, j))
      fun _ _ => True := by
  refine Turn.onEach_ends (I := fun _ c' => ∀ j, index + rs.length ≤ j →
    c'.marking.child (position, j) = c.marking.child (position, j)) (fun _ _ => rfl) fun i r hr c₁ h₁ => ?_
  have hi : i < rs.length := (List.getElem?_eq_some_iff.1 hr).1
  refine (ends_inChild_runs (Q := fun _ _ => True) (E := fun _ _ => True) ?_).mono
    (fun _ c₂ h₂ j hj => ?_) fun _ _ _ => trivial
  · unfold Ends
    split <;> trivial
  · exact (h₂.2 j (by omega)).trans (h₁ j hj)

/-- A machine that is down starts afresh. -/
theorem Machine.startsAfresh_of_isDown {m : Machine σ γ δ} (hinitials : ∀ r ∈ m.chart.regions, r.HasInitials)
    (h : m.IsDown) : m.StartsAfresh := by
  intro j r s hr hreached
  have hbehind : Ends (Region.startAll m.chart.setup 0 0 (m.chart.regions.take j) .start) m.configuration
      (fun _ s' => ∀ i, 0 + (m.chart.regions.take j).length ≤ i →
        s'.marking.child (0, i) = m.configuration.marking.child (0, i)) fun _ _ => True := by
    rw [Region.ends_startAll]
    exact Turn.onEach_behind _ _
  have hstopped : (s.marking.child (0, j)).active = .stopped := by
    rw [hbehind.of_ok hreached j (by rw [Nat.zero_add]; exact List.length_take_le _ _)]
    simpa [Marking.isRunning] using (h j r hr).here
  exact ⟨hstopped, Region.start_enters (hinitials r (List.mem_of_getElem? hr) r (Region.mem_preorder_self r)) hstopped⟩

end Starts

/-! ## Calls that stop a machine -/

section Stops

variable [DecidableEq σ] [Named σ]

/-- Without a failure hook there are no verdicts. -/
theorem Machine.verdicts_eq_nil {m : Machine σ γ δ} (h : m.chart.setup.hooks.failure = none) (bound : Nat)
    (pass : Turn σ γ δ Unit) : m.verdicts bound pass = [] := by
  have hnone (pass : Turn σ γ δ Unit) (s : Configuration σ γ δ) : m.chart.verdict? pass s = none := by
    unfold Chart.verdict?
    rw [h]
    split
    · rename_i hhook
      cases hhook
    · rfl
  have hdrain (bound : Nat) (s : Configuration σ γ δ) : m.chart.verdicts bound s = [] := by
    induction bound generalizing s with
    | zero => rfl
    | succ bound ih =>
      unfold Chart.verdicts
      split
      · rw [hnone]
        split
        · exact ih _
        · rfl
      · rfl
  unfold Machine.verdicts
  rw [hnone]
  split
  · exact hdrain bound _
  · rfl

/-- A call that stops a machine without a failure hook and ends well brings the machine to a standstill. -/
theorem Machine.stands_of_stop {m m' : Machine σ γ δ} (hhook : m.chart.setup.hooks.failure = none) {bound : Nat}
    (hstop : m.operate bound .stop = (.ok (), m')) : m'.chart = m.chart ∧ m'.chart.Stands m'.configuration := by
  obtain ⟨hok, hchart⟩ := m.run_eq_ok hstop
  obtain ⟨s, later, hverdicts, hrecovers, hobeys⟩ := (m.call_ends bound m.chart.stopRegions).of_ok hok
  rw [Machine.verdicts_eq_nil hhook] at hverdicts
  obtain ⟨hnone, rfl⟩ := List.append_eq_nil_iff.1 hverdicts.symm
  rw [hchart]
  refine ⟨rfl, hobeys.none_runs.2 (.inl (Chart.Recovers.stopRegions hrecovers |>.2 ?_))⟩
  cases hrecovers with
  | passed hpass _ => exact .inl ⟨_, _, hpass⟩
  | stopped _ hverdict _ => exact absurd hnone (by simp [hverdict])
  | settled _ hverdict _ _ => exact absurd hnone (by simp [hverdict])

omit [DecidableEq σ] [Named σ] in
theorem Chart.Stands.allActiveStates {c : Chart σ γ δ} {s : Configuration σ γ δ} (h : c.Stands s) :
    Region.allActiveStates 0 0 c.regions s.marking = [] := by
  refine List.eq_nil_iff_forall_not_mem.2 fun a ha => ?_
  obtain ⟨j, ⟨table, nodes⟩, hr, hactive⟩ := Region.mem_allActiveStates.1 ha
  rw [Nat.zero_add] at hactive
  rw [Region.activeStates, h.stopped hr (.refl _)] at hactive
  cases hactive

omit [Named σ] in
theorem Region.anyActive_eq_true {state : σ} {position : Nat} {m : Marking δ} {index : Nat}
    {rs : List (BuiltRegion σ γ δ)} (h : Region.anyActive state position index rs m = true) :
    ∃ (j : Nat) (r : BuiltRegion σ γ δ), rs[j]? = some r ∧
      r.isActive state (m.child (position, index + j)) = true := by
  induction rs generalizing index with
  | nil => cases h
  | cons r rs ih =>
    rw [Region.anyActive, Bool.or_eq_true] at h
    rcases h with h | h
    · exact ⟨0, r, rfl, h⟩
    · obtain ⟨j, r', hr', h⟩ := ih h
      exact ⟨j + 1, r', hr', by rwa [show index + (j + 1) = index + 1 + j by omega]⟩

omit [Named σ] in
theorem Region.isActive_of_stopped {m : Marking δ} (h : m.active = .stopped) (state : σ) (r : BuiltRegion σ γ δ) :
    r.isActive state m = false := by
  obtain ⟨table, nodes⟩ := r
  obtain ⟨active, locals, children⟩ := m
  obtain rfl : active = .stopped := h
  rfl

omit [Named σ] in
theorem Chart.Stands.anyActive {c : Chart σ γ δ} {s : Configuration σ γ δ} (h : c.Stands s) (state : σ) :
    Region.anyActive state 0 0 c.regions s.marking = false := by
  refine Bool.eq_false_iff.2 fun hany => ?_
  obtain ⟨j, r, hr, hactive⟩ := Region.anyActive_eq_true hany
  rw [Nat.zero_add, Region.isActive_of_stopped (h.stopped hr (.refl _))] at hactive
  cases hactive

variable [Inhabited δ] {b : Blueprint σ γ δ}

/-- A machine that was just built is down. -/
theorem Blueprint.Assembled.isDown {chart : Chart σ γ δ} {c : Configuration σ γ δ} (h : b.Assembled chart c) :
    Machine.IsDown ⟨chart, c⟩ := by
  intro j r _
  rw [h.marking]
  exact Region.throughout_not_running (p := True) r.fit_fresh rfl

/-- **Stopping resets the tree.** Where a machine without a failure hook is stopped, whatever had failed before, and
the call ends well, then no region runs at any depth, as in the machine that was just built; nothing is pending, and
no state is active. A start then enters the initial state of each top-level region that it reaches first, as it does
in the machine that was just built. -/
theorem stop_resets_the_tree {m m' : Machine σ γ δ} (h : b.Reaches m) (hhook : m.chart.setup.hooks.failure = none)
    {bound : Nat} (hstop : m.operate bound .stop = (.ok (), m')) :
    m'.IsDown ∧ m'.mailbox.pending = [] ∧ m'.activeStates = [] ∧ (∀ s, m'.isActive s = false) ∧ m'.StartsAfresh ∧
      ∀ c, b.Assembled m.chart c → Machine.IsDown ⟨m.chart, c⟩ ∧ Machine.StartsAfresh ⟨m.chart, c⟩ := by
  obtain ⟨hchart, hstands⟩ := Machine.stands_of_stop hhook hstop
  obtain ⟨c₀, hc₀⟩ := h.assembled
  have hlegal : m'.chart.IsLegal m'.configuration := by
    have hnext := (h.next bound .stop).isLegal
    rwa [hstop] at hnext
  have hdown : m'.IsDown := (Machine.isDown_iff hlegal).2 hstands
  have hpending : m'.mailbox.pending = [] := by
    obtain ⟨_, s, -, hdrain⟩ := bind_ok_iff.1 (m.run_eq_ok hstop).1
    exact ((m.chart.drain_ends bound s).of_ok hdrain).1
  refine ⟨hdown, hpending, hstands.allActiveStates, hstands.anyActive, ?_, fun c hc => ⟨hc.isDown, ?_⟩⟩
  · exact Machine.startsAfresh_of_isDown (by rw [hchart]; exact hc₀.hasInitials) hdown
  · exact Machine.startsAfresh_of_isDown hc.hasInitials hc.isDown

end Stops

namespace Lamp

/-- A lamp whose light fails to be entered when it is switched on. -/
def flawedBlueprint : Blueprint Lamp Unit Unit where
  regions :=
    [Declaration.new "lamp" |>.initial off |>.composite on (Reactions.behavior {})
        [Declaration.new "light" |>.state dim (Reactions.behavior { entry := [(none, broken)] })]
      |>.transition (row off (.state on) press)]
  setup := blueprint.setup

/-- The tree of that lamp. -/
def flawedTree : BuiltRegion Lamp Unit Unit :=
  ⟨⟨"lamp", [row off (.state 0) press], 1⟩,
    [node on [⟨⟨"lamp/on/light", [], 0⟩, [⟨⟨dim, Reactions.behavior { entry := [(none, broken)] }⟩, []⟩]⟩], node off []]⟩

/-- That lamp before it is started. -/
def flawed : Machine Lamp Unit Unit where
  chart := ⟨[flawedTree], flawedBlueprint.setup⟩
  configuration := (withNotes [.stateMade off, .stateMade on, .stateMade dim, .contextMade] []).configuration

/-- That lamp after it was started and pressed. -/
def halfLit : Machine Lamp Unit Unit := ((flawed.operate 1 .start).2.operate 1 (.process press)).2

theorem reaches_halfLit : flawedBlueprint.Reaches halfLit := by
  have hbuilt : flawedBlueprint.Reaches flawed := .built 0 (pure () : Callback Unit Unit) rfl
  exact (hbuilt.next 1 .start).next 1 (.process press)

end Lamp

/-- The lamp failed half-way while its light was entered; once it was stopped it is as it was built. -/
theorem stop_resets_the_tree_lamp :
    Lamp.halfLit.activeStates = [.on, .dim] ∧ ∃ m', Lamp.halfLit.operate 1 .stop = (.ok (), m') ∧
      m'.IsDown ∧ m'.mailbox.pending = [] ∧ m'.activeStates = [] ∧ m'.StartsAfresh := by
  refine ⟨rfl, _, rfl, ?_⟩
  have hstop : Lamp.halfLit.operate 1 .stop = (.ok (), (Lamp.halfLit.operate 1 .stop).2) := rfl
  obtain ⟨hdown, hpending, hactive, -, hstarts, -⟩ := stop_resets_the_tree Lamp.reaches_halfLit rfl hstop
  exact ⟨hdown, hpending, hactive, hstarts⟩

end Statechart
