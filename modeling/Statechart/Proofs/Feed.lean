import Statechart.Proofs.Inert
import Statechart.Proofs.Siblings

/-!
# What regions write and raise

Whatever a region does about an event, it writes notes about that event and about completion only, the
mailbox grows by what the notes say, and every halt is noted.

* `Region.stop_feeds`, `Region.start_feeds`, `Region.process_feeds`;
* `Chart.stopRegions_feeds`, `Chart.startRegions_feeds`, `Chart.processRegions_feeds` : the same for the
  regions of a machine.
-/

set_option autoImplicit false

namespace Statechart

open Turn

variable {σ γ δ : Type} [Named σ] {setup : Setup σ γ} {N : Note σ → Prop} {e : Event}

/-! ## Stopping -/

theorem Region.stopAll_feeds (position : Nat) (rs : List (BuiltRegion σ γ δ))
    (h : ∀ r ∈ rs, Feeds N (r.stop setup e)) : Feeds N (Region.stopAll setup position 0 rs e) := by
  intro c
  rw [Region.ends_stopAll]
  exact Turn.onEach_feeds h 0 c

theorem Node.exit_feeds (hN : Note.AdmitsCrossings N e) (path : String) (position : Nat)
    (n : BuiltNode σ γ δ) (h : ∀ r ∈ n.regions, Feeds N (r.stop setup e)) :
    Feeds N (n.exit setup path position e) := by
  obtain ⟨unit, regions⟩ := n
  have hquiet := hN.admits
  rw [Node.exit]
  refine (Region.stopAll_feeds position regions h).bind fun _ => ?_
  refine (note_inert (hN _ ⟨rfl, by simp [Note.event?]⟩ rfl) rfl).feeds.bind fun _ => ?_
  exact (orFail_inert hquiet _ _ _ (performAt_inert (fun _ => hquiet.silent) _ _ _)).feeds

theorem Region.stop_feeds (hN : Note.AdmitsCrossings N e) (r : BuiltRegion σ γ δ) :
    Feeds N (r.stop setup e) := by
  have hquiet := hN.admits
  induction r using Region.induct with
  | step table nodes ih =>
    have hleave (i : Nat) : Feeds N (Node.exitAt setup table.path i nodes i e) := by
      rw [Node.exitAt_eq]
      exact Keeps.elim i () fun n hn => Node.exit_feeds hN _ _ n (ih n hn)
    have hstopped : Feeds N (setActive .stopped : Turn σ γ δ Unit) := fun c => .refl N _
    intro c
    rw [Region.stop, ends_bind, ends_active]
    split
    · exact Feeds.pure () c
    · refine Feeds.bind (setup.hooks.beforeTransition_inert hquiet rfl).feeds (fun _ => ?_) c
      have hafter : Feeds N (setActive .stopped >>= fun _ => setup.hooks.afterTransition
          ⟨table.path, endpoint nodes c.marking.active, .stopped, e⟩) :=
        hstopped.bind fun _ => (setup.hooks.afterTransition_inert hquiet rfl).feeds
      split
      · exact (hleave _).bind fun _ => hafter
      · exact hafter

theorem Node.exitAt_feeds (hN : Note.AdmitsCrossings N e) (path : String) (position : Nat)
    (nodes : List (BuiltNode σ γ δ)) (i : Nat) : Feeds N (Node.exitAt setup path position nodes i e) := by
  rw [Node.exitAt_eq]
  exact Keeps.elim i () fun n _ => Node.exit_feeds hN _ _ n fun r _ => Region.stop_feeds hN r

/-! ## Starting -/

theorem Region.fireWith_feeds (hN : ∀ n : Note σ, n.Concerns e → N n) (table : RegionTable σ γ)
    (nodes : List (BuiltNode σ γ δ)) {leave enter : Nat → Event → Turn σ γ δ Unit}
    (hleave : ∀ i, Feeds N (leave i e)) (henter : ∀ i, Feeds N (enter i e)) (choice : Choice σ γ) :
    Feeds N (Region.fireWith setup table nodes leave enter choice e) := by
  have hquiet := Note.Admits.of_concerns hN
  have hactive (a : Active) : Feeds N (setActive a : Turn σ γ δ Unit) := fun c => .refl N _
  unfold Region.fireWith
  refine (note_inert (hN _ ⟨rfl, by simp [Note.event?]⟩) rfl).feeds.bind fun _ => ?_
  split
  · exact (Region.act_inert hquiet _ _ _).feeds
  · split
    · refine (setup.hooks.beforeTransition_inert hquiet rfl).feeds.bind fun _ => ?_
      refine (hleave _).bind fun _ => (hactive _).bind fun _ => ?_
      refine (Region.act_inert hquiet _ _ _).feeds.bind fun _ => (henter _).bind fun _ => ?_
      exact (Region.remember_inert setup _ _ _ _).feeds.bind fun _ =>
        (setup.hooks.afterTransition_inert hquiet rfl).feeds
    · exact Feeds.pure ()
  · refine (setup.hooks.beforeTransition_inert hquiet rfl).feeds.bind fun _ => ?_
    refine (hleave _).bind fun _ => (hactive _).bind fun _ => ?_
    exact (Region.act_inert hquiet _ _ _).feeds.bind fun _ =>
      (setup.hooks.afterTransition_inert hquiet rfl).feeds

section Start

variable [DecidableEq σ]

theorem Region.chain_feeds (hN : ∀ n : Note σ, n.Concerns .completion → N n) (table : RegionTable σ γ)
    (nodes : List (BuiltNode σ γ δ)) {fire : Choice σ γ → Turn σ γ δ Unit}
    (hfire : ∀ choice, Feeds N (fire choice)) (n : Nat) :
    Feeds N (Region.chain setup table nodes fire n) := by
  have hdue := (Region.due_inert (Note.Admits.of_concerns hN) table nodes).feeds
  induction n with
  | zero =>
    rw [Region.chain]
    refine hdue.bind fun choice => ?_
    split
    · intro c
      rw [ends_bind, ends_note, ends_fail]
      refine ⟨Exchange.follows_note (hN _ ⟨rfl, by simp [Note.event?]⟩) rfl _, ?_⟩
      simp [Halt.IsNoted, Exchange.note]
    · exact Feeds.pure ()
  | succ n ih =>
    rw [Region.chain]
    refine hdue.bind fun choice => ?_
    split
    · exact (hfire _).bind fun _ => ih
    · exact Feeds.pure ()

theorem Region.startAll_feeds (position : Nat) (rs : List (BuiltRegion σ γ δ))
    (h : ∀ r ∈ rs, Feeds N (r.start setup e)) : Feeds N (Region.startAll setup position 0 rs e) := by
  intro c
  rw [Region.ends_startAll]
  exact Turn.onEach_feeds h 0 c

theorem Node.enter_feeds (hN : ∀ n : Note σ, n.Concerns e → N n) (path : String) (position : Nat)
    (n : BuiltNode σ γ δ) (h : ∀ r ∈ n.regions, Feeds N (r.start setup e)) :
    Feeds N (n.enter setup path position e) := by
  obtain ⟨unit, regions⟩ := n
  have hquiet := Note.Admits.of_concerns hN
  rw [Node.enter]
  refine (note_inert (hN _ ⟨rfl, by simp [Note.event?]⟩) rfl).feeds.bind fun _ => ?_
  refine (orFail_inert hquiet _ _ _ (performAt_inert (fun _ => hquiet.silent) _ _ _)).feeds.bind fun _ => ?_
  exact Region.startAll_feeds position regions h

/-- A region writes about the event that starts it, and about completion when it settles. -/
theorem Region.start_feeds (hN : ∀ n : Note σ, n.Concerns e → N n)
    (hC : ∀ n : Note σ, n.Concerns .completion → N n) (r : BuiltRegion σ γ δ) :
    Feeds N (r.start setup e) := by
  have hquiet := Note.Admits.of_concerns hN
  induction r using Region.induct generalizing e with
  | step table nodes ih =>
    have henter {e : Event} (hN : ∀ n : Note σ, n.Concerns e → N n) (i : Nat) :
        Feeds N (Node.enterAt setup table.path i nodes i e) := by
      rw [Node.enterAt_eq]
      exact Keeps.elim i () fun n hn => Node.enter_feeds hN _ _ n fun r hr =>
        ih n hn r hr hN (Note.Admits.of_concerns hN)
    have hsettle : Feeds N (Region.settle setup table nodes) :=
      Region.chain_feeds hC table nodes (fun choice => Region.fireWith_feeds hC table nodes
        (fun i => Node.exitAt_feeds (.of_concerns hC) _ _ nodes i) (henter hC) choice) _
    intro c
    rw [Region.start_eq, ends_bind, ends_active]
    split
    · exact Feeds.pure () c
    · refine Feeds.bind (setup.hooks.beforeTransition_inert hquiet rfl).feeds (fun _ => ?_) c
      refine Feeds.bind (fun c => .refl N _) fun _ => (henter hN _).bind fun _ => ?_
      exact (setup.hooks.afterTransition_inert hquiet rfl).feeds.bind fun _ => hsettle

theorem Node.enterAt_feeds (hN : ∀ n : Note σ, n.Concerns e → N n)
    (hC : ∀ n : Note σ, n.Concerns .completion → N n) (path : String) (position : Nat)
    (nodes : List (BuiltNode σ γ δ)) (i : Nat) : Feeds N (Node.enterAt setup path position nodes i e) := by
  rw [Node.enterAt_eq]
  exact Keeps.elim i () fun n _ => Node.enter_feeds hN _ _ n fun r _ => Region.start_feeds hN hC r

theorem Region.fire_feeds (hN : ∀ n : Note σ, n.Concerns e → N n)
    (hC : ∀ n : Note σ, n.Concerns .completion → N n) (table : RegionTable σ γ)
    (nodes : List (BuiltNode σ γ δ)) (choice : Choice σ γ) :
    Feeds N (Region.fire setup table nodes choice e) :=
  Region.fireWith_feeds hN table nodes (fun i => Node.exitAt_feeds (.of_concerns hN) _ _ nodes i)
    (fun i => Node.enterAt_feeds hN hC _ _ nodes i) choice

theorem Region.settle_feeds (hC : ∀ n : Note σ, n.Concerns .completion → N n) (table : RegionTable σ γ)
    (nodes : List (BuiltNode σ γ δ)) : Feeds N (Region.settle setup table nodes) :=
  Region.chain_feeds hC table nodes (fun choice => Region.fire_feeds hC hC table nodes choice) _

/-! ## Processing -/

theorem Region.processAll_feeds (position : Nat) (rs : List (BuiltRegion σ γ δ))
    (h : ∀ r ∈ rs, Feeds N (r.process setup e)) : Feeds N (Region.processAll setup position 0 rs e) := by
  intro c
  rw [Region.ends_processAll]
  exact Turn.onEach_feeds h 0 c

theorem Node.react_feeds (hN : ∀ n : Note σ, n.Concerns e → N n) (path : String) (position : Nat)
    (n : BuiltNode σ γ δ) (h : ∀ r ∈ n.regions, Feeds N (r.process setup e)) :
    Feeds N (n.react setup path position e) := by
  rw [Node.react_eq]
  refine (Region.processAll_feeds position n.regions h).bind fun _ => ?_
  split
  · exact Feeds.pure true
  · exact (Node.consult_inert (Note.Admits.of_concerns hN) path position n).feeds

theorem Region.process_feeds (hN : ∀ n : Note σ, n.Concerns e → N n)
    (hC : ∀ n : Note σ, n.Concerns .completion → N n) (r : BuiltRegion σ γ δ) :
    Feeds N (r.process setup e) := by
  induction r using Region.induct with
  | step table nodes ih =>
    have hsettle : Feeds N (Region.settle setup table nodes) := Region.settle_feeds hC table nodes
    have hrespond (i : Nat) (n : BuiltNode σ γ δ) (hn : n ∈ nodes) :
        Feeds N (Region.respond setup table nodes i n e) := by
      unfold Region.respond
      refine (RegionTable.resolve_inert (Note.Admits.of_concerns hN) _ _ _).feeds.bind fun choice => ?_
      split
      · refine (Region.fire_feeds hN hC table nodes _).bind fun _ => ?_
        split
        · exact hsettle.bind fun _ => Feeds.pure _
        · exact Feeds.pure _
      · refine (Node.react_feeds hN _ _ n (ih n hn)).bind fun processed => ?_
        split
        · exact hsettle.bind fun _ => Feeds.pure _
        · exact Feeds.pure _
    intro c
    exact Region.ends_process (.refl N _) fun i n _ hn => hrespond i n (List.mem_of_getElem? hn) c

end Start

/-! ## Passes over the regions of a machine -/

section Passes

variable (c : Chart σ γ δ)

theorem Chart.stopRegions_feeds (hN : ∀ n : Note σ, n.Concerns .stop → N n) : Feeds N c.stopRegions :=
  Region.stopAll_feeds 0 c.regions fun r _ => Region.stop_feeds (.of_concerns hN) r

variable [DecidableEq σ]

theorem Chart.startRegions_feeds (hN : ∀ n : Note σ, n.Concerns .start → N n)
    (hC : ∀ n : Note σ, n.Concerns .completion → N n) : Feeds N c.startRegions :=
  Region.startAll_feeds 0 c.regions fun r _ => Region.start_feeds hN hC r

theorem Chart.processRegions_feeds (hN : ∀ n : Note σ, n.Concerns e → N n)
    (hC : ∀ n : Note σ, n.Concerns .completion → N n) :
    Feeds N (Region.processAll c.setup 0 0 c.regions e) :=
  Region.processAll_feeds 0 c.regions fun r _ => Region.process_feeds hN hC r

end Passes

end Statechart
