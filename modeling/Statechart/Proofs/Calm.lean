import Statechart.Proofs.Quiescence

/-!
# Calm regions

A callback is calm that neither fails nor panics nor raises an event. Where all callbacks are calm and every guard
decides by the event alone, which row a region takes shows in what is active, and a region that has settled stays
as it is until a row is taken.

* `Callback.Returns`, `Transition.Calm`, `Behavior.Calm`, `Hooks.Calm`, `Region.Calm`, `Chart.Calm`;
* `Configuration.Still`, `Turn.Calm`, `Turn.Steady` : turns that leave the mailbox and what is active alone, and those
  that always answer the same besides; `RegionTable.resolve_steady` : the choice of a row;
* `Region.Settled` : no completion row is due; `Region.settle_noneDue`, `Region.settle_still`;
* `Region.stop_settles`, `Region.start_settles`, `Region.process_settles` : a region settles with all below it.
-/

set_option autoImplicit false

namespace Statechart

open Turn

variable {σ γ δ κ α β : Type}

/-- From every state the callback returns `a`, without raising an event. -/
def Callback.Returns (f : Callback κ α) (a : α) : Prop := ∀ s, ∃ s', f s = .done s' a

/-- The guard decides by the event alone, and the action does not fail. -/
structure Transition.Calm {τ : Type} (row : Transition σ γ τ) : Prop where
  guard : ∀ g, row.guard = some g → ∃ p : Event → Bool, ∀ e, (g.check e).run.Returns (.ok (p e))
  action : ∀ a, row.action = some a → ∀ e, (a.run e).run.Returns (.ok ())

/-- The state may answer an event as it likes. -/
structure Behavior.Calm (b : Behavior γ δ) : Prop where
  entry : ∀ e, (b.onEntry e).run.Returns (.ok ())
  exit : ∀ e, (b.onExit e).run.Returns (.ok ())
  event : ∀ e s, ∃ s' processed, (b.onEvent e).run s = .done s' (.ok processed)

structure Hooks.Calm (h : Hooks σ γ) : Prop where
  preTransition : ∀ f, h.preTransition = some f → ∀ m, (f m).Returns ()
  postTransition : ∀ f, h.postTransition = some f → ∀ m, (f m).Returns ()
  preProcessing : ∀ f, h.preProcessing = some f → ∀ e, (f e).Returns ()
  postProcessing : ∀ f, h.postProcessing = some f → ∀ e processed, (f e processed).Returns ()
  unprocessed : ∀ f, h.unprocessed = some f → ∀ e, (f e).Returns ()

/-- All rows and states are calm, at every depth. -/
structure Region.Calm (r : BuiltRegion σ γ δ) : Prop where
  rows : ∀ q ∈ r.preorder, ∀ row ∈ q.data.rows, row.Calm
  states : ∀ q ∈ r.preorder, ∀ n ∈ q.nodes, n.data.behavior.Calm

structure Chart.Calm (c : Chart σ γ δ) : Prop where
  hooks : c.setup.hooks.Calm
  regions : ∀ r ∈ c.regions, r.Calm

theorem Region.Calm.here {table : RegionTable σ γ} {nodes : List (BuiltNode σ γ δ)}
    (h : Region.Calm (⟨table, nodes⟩ : BuiltRegion σ γ δ)) : ∀ row ∈ table.rows, row.Calm :=
  h.rows _ (Region.mem_preorder_self _)

theorem Region.Calm.below {r s : BuiltRegion σ γ δ} {n : BuiltNode σ γ δ} (h : r.Calm) (hn : n ∈ r.nodes)
    (hs : s ∈ n.regions) : s.Calm :=
  ⟨fun q hq => h.rows q (Region.mem_preorder_of_mem hn hs hq),
    fun q hq => h.states q (Region.mem_preorder_of_mem hn hs hq)⟩

theorem Region.Calm.child {r s : BuiltRegion σ γ δ} (h : r.Calm) {k : Nat × Nat} (hs : r.child? k = some s) :
    s.Calm := by
  obtain ⟨n, hn, hs⟩ := Region.child?_eq_some.1 hs
  exact h.below (List.mem_of_getElem? hn) (List.mem_of_getElem? hs)

/-! ## Calm turns -/

/-- The mailbox and what is active are as they were. -/
structure Configuration.Still (c c' : Configuration σ γ δ) : Prop where
  mailbox : c'.world.exchange.mailbox = c.world.exchange.mailbox
  active : c'.marking.active = c.marking.active
  child : ∀ k, c'.marking.child k = c.marking.child k

instance : IsPreorder (Configuration σ γ δ) Configuration.Still where
  refl _ := ⟨rfl, rfl, fun _ => rfl⟩
  trans _ _ _ h h' := ⟨h'.mailbox.trans h.mailbox, h'.active.trans h.active, fun k => (h'.child k).trans (h.child k)⟩

namespace Turn

/-- Whatever it is run on, the turn ends well, and nothing moves. -/
abbrev Calm (x : Turn σ γ δ α) : Prop := Keeps Configuration.Still (fun _ _ => False) x

/-- Besides, the answer is always `a`. -/
def Steady (x : Turn σ γ δ α) (a : α) : Prop :=
  ∀ c, Ends x c (fun a' c' => a' = a ∧ c.Still c') fun _ _ => False

variable {x : Turn σ γ δ α} {a : α}

theorem Steady.calm (h : Steady x a) : Calm x :=
  fun c => (h c).mono (fun _ _ h => h.2) fun _ _ h => h.elim

theorem Steady.pure (a : α) : Steady (Pure.pure a : Turn σ γ δ α) a := fun c => ⟨rfl, refl c⟩

theorem Steady.bind {f : α → Turn σ γ δ β} {b : β} (hx : Steady x a) (hf : Steady (f a) b) :
    Steady (x >>= f) b := by
  intro c
  rw [ends_bind]
  refine (hx c).mono (fun a' c' h => ?_) fun _ _ h => h
  obtain ⟨rfl, h⟩ := h
  exact (hf c').mono (fun _ _ h' => ⟨h'.1, trans_of Configuration.Still h h'.2⟩) fun _ _ h => h

theorem note_steady (n : Note σ) : Steady (note n : Turn σ γ δ Unit) () := fun _ => ⟨rfl, rfl, rfl, fun _ => rfl⟩

theorem perform_steady {f : Callback γ α} (h : f.Returns a) : Steady (perform f : Turn σ γ δ α) a := by
  intro c
  obtain ⟨s, hs⟩ := h c.world.context
  rw [perform, ends_of_ok (performOn_of_done hs)]
  exact ⟨rfl, rfl, rfl, fun _ => rfl⟩

theorem performAt_still (i : Nat) {d : δ} {f : Callback (γ × δ) α} {c : Configuration σ γ δ} {s : γ × δ}
    (h : f (c.world.context, c.marking.data i d) = .done s a) :
    Ends (performAt i d f) c (fun a' c' => a' = a ∧ c.Still c') fun _ _ => False := by
  rw [performAt, ends_of_ok (performOn_of_done h)]
  exact ⟨rfl, rfl, rfl, fun _ => rfl⟩

theorem performAt_steady (i : Nat) (d : δ) {f : Callback (γ × δ) α} (h : f.Returns a) :
    Steady (performAt i d f : Turn σ γ δ α) a := by
  intro c
  obtain ⟨s, hs⟩ := h (c.world.context, c.marking.data i d)
  exact performAt_still i hs

theorem callHook_steady {call : HookCall σ} {hook : Option (Callback γ Unit)}
    (h : ∀ f, hook = some f → f.Returns ()) : Steady (callHook call hook : Turn σ γ δ Unit) () := by
  cases hook with
  | none => exact .pure ()
  | some f => exact (note_steady _).bind (perform_steady (h f rfl))

theorem orFail_steady [Named σ] (stage : Stage) (path : String) (s : σ) (e : Event)
    {x : Turn σ γ δ (Except Cause α)} (h : Steady x (.ok a)) : Steady (orFail stage path s e x) a :=
  h.bind (.pure a)

end Turn

namespace Hooks

variable {h : Hooks σ γ} (hh : h.Calm)

include hh

theorem Calm.before (m : Move σ) : Steady (h.beforeTransition m : Turn σ γ δ Unit) () := by
  refine callHook_steady fun f hf => ?_
  obtain ⟨g, hg, rfl⟩ := Option.map_eq_some_iff.1 hf
  exact hh.preTransition g hg m

theorem Calm.after (m : Move σ) : Steady (h.afterTransition m : Turn σ γ δ Unit) () := by
  refine callHook_steady fun f hf => ?_
  obtain ⟨g, hg, rfl⟩ := Option.map_eq_some_iff.1 hf
  exact hh.postTransition g hg m

theorem Calm.beforeProcessing (e : Event) : Steady (h.beforeProcessing e : Turn σ γ δ Unit) () := by
  refine callHook_steady fun f hf => ?_
  obtain ⟨g, hg, rfl⟩ := Option.map_eq_some_iff.1 hf
  exact hh.preProcessing g hg e

theorem Calm.afterProcessing (e : Event) (processed : Bool) :
    Steady (h.afterProcessing e processed : Turn σ γ δ Unit) () := by
  refine Steady.bind (callHook_steady fun f hf => ?_) ?_
  · obtain ⟨g, hg, rfl⟩ := Option.map_eq_some_iff.1 hf
    exact hh.postProcessing g hg e processed
  · split
    · refine callHook_steady fun f hf => ?_
      obtain ⟨g, hg, rfl⟩ := Option.map_eq_some_iff.1 hf
      exact hh.unprocessed g hg e
    · exact .pure ()

end Hooks

section Rows

variable [DecidableEq σ]

/-- A calm row answers by the state and the event alone. -/
theorem Transition.Calm.canFire {τ : Type} {row : Transition σ γ τ} (h : row.Calm) (s : σ) (e : Event) :
    ∃ verdict, (row.canFire s e).run.Returns (.ok verdict) := by
  unfold Transition.canFire
  split
  · split
    · rename_i g hg
      obtain ⟨p, hp⟩ := h.guard g hg
      exact ⟨p e, hp e⟩
    · exact ⟨true, fun s => ⟨s, rfl⟩⟩
  · exact ⟨false, fun s => ⟨s, rfl⟩⟩

namespace RegionTable

theorem ask_steady {row : Transition σ γ Nat} (h : row.Calm) (path : String) (s : σ) (e : Event) (index : Nat) :
    ∃ verdict, Steady (ask path s e index row : Turn σ γ δ (Except Cause Bool)) (.ok verdict) := by
  obtain ⟨verdict, hverdict⟩ := h.canFire s e
  refine ⟨verdict, ?_⟩
  unfold ask
  split
  · exact (note_steady _).bind (perform_steady hverdict)
  · exact perform_steady hverdict

theorem firstEnabled_steady {rows : List (Transition σ γ Nat)} (h : ∀ row ∈ rows, row.Calm) (path : String) (s : σ)
    (e : Event) (index : Nat) :
    ∃ found, Steady (firstEnabled path s e index rows : Turn σ γ δ _) (.ok found) := by
  induction rows generalizing index with
  | nil => exact ⟨none, .pure _⟩
  | cons row rows ih =>
    rw [List.forall_mem_cons] at h
    obtain ⟨verdict, hverdict⟩ := ask_steady (δ := δ) h.1 path s e index
    cases verdict with
    | true => exact ⟨some (index, row), hverdict.bind (.pure _)⟩
    | false =>
      obtain ⟨found, hfound⟩ := ih h.2 (index + 1)
      exact ⟨found, hverdict.bind hfound⟩

/-- Which row is chosen does not depend on the context. -/
theorem resolve_steady [Named σ] {t : RegionTable σ γ} (h : ∀ row ∈ t.rows, row.Calm) (i : Nat) (s : σ) (e : Event) :
    ∃ found, Steady (t.resolve i s e : Turn σ γ δ (Option (Choice σ γ))) found := by
  obtain ⟨found, hfound⟩ := firstEnabled_steady (δ := δ) h t.path s e 0
  exact ⟨_, (orFail_steady _ _ _ _ hfound).bind (.pure _)⟩

end RegionTable

end Rows

section Parts

variable [Named σ]

theorem Region.act_steady {choice : Choice σ γ} (h : choice.transition.Calm) (path : String) (s : σ) (e : Event) :
    Steady (Region.act path s choice e : Turn σ γ δ Unit) () := by
  unfold Region.act
  split
  · exact .pure ()
  · rename_i action haction
    exact (note_steady _).bind (orFail_steady _ _ _ _ (perform_steady (h.action action haction e)))

omit [Named σ] in
theorem Region.remember_steady (setup : Setup σ γ) (path : String) (source target : σ) (e : Event) :
    Steady (Region.remember setup path source target e : Turn σ γ δ Unit) () := by
  unfold Region.remember
  split
  · exact fun _ => ⟨rfl, rfl, rfl, fun _ => rfl⟩
  · exact .pure ()

theorem Node.consult_calm {n : BuiltNode σ γ δ} (h : n.data.behavior.Calm) (path : String) (i : Nat) (e : Event) :
    Turn.Calm (n.consult path i e) := by
  have hanswer : Turn.Calm (orFail .reaction path n.data.id e
      (performAt i n.data.behavior.initial (n.data.behavior.onEvent e).run) : Turn σ γ δ Bool) := by
    intro c
    obtain ⟨s, processed, hs⟩ := h.event e (c.world.context, c.marking.data i n.data.behavior.initial)
    unfold orFail
    rw [ends_bind]
    refine (performAt_still i hs).mono (fun _ c' h' => ?_) fun _ _ h => h.elim
    rw [h'.1]
    exact h'.2
  unfold Node.consult
  refine (note_steady _).calm.bind fun _ => hanswer.bind fun processed => ?_
  split
  · exact (note_steady _).calm.bind fun _ => Keeps.pure _
  · exact Keeps.pure _

end Parts

/-! ## Settled regions -/

section Settled

variable [DecidableEq σ] [Named σ]

/-- If the active state is complete, then no completion row is chosen for it. -/
def Region.NoneDue (r : BuiltRegion σ γ δ) (m : Marking δ) : Prop :=
  ∀ i n, m.active = .at i → r.nodes[i]? = some n → n.isComplete i m = true →
    Steady (r.data.resolve i n.data.id .completion : Turn σ γ δ (Option (Choice σ γ))) none

structure Region.Settled (r : BuiltRegion σ γ δ) (m : Marking δ) : Prop where
  bounded : ∀ i, m.active = .at i → i < r.nodes.length
  noneDue : r.NoneDue m

variable {r : BuiltRegion σ γ δ} {m m' : Marking δ} {setup : Setup σ γ} {table : RegionTable σ γ}
  {nodes : List (BuiltNode σ γ δ)} {c : Configuration σ γ δ} {e : Event} {i : Nat} {n : BuiltNode σ γ δ}

theorem Region.NoneDue.congr (h : r.NoneDue m) (hactive : m'.active = m.active)
    (hchild : ∀ i n, m.active = .at i → r.nodes[i]? = some n →
      ∀ j < n.regions.length, (m'.child (i, j)).active = (m.child (i, j)).active) : r.NoneDue m' := by
  intro i n hi hn hcomplete
  rw [hactive] at hi
  rw [Node.isComplete_congr (hchild i n hi hn)] at hcomplete
  exact h i n hi hn hcomplete

theorem Region.settled_isShallow : Region.IsShallow (Region.Settled (σ := σ) (γ := γ) (δ := δ)) := by
  intro r m m' hactive hchild h
  refine ⟨fun i hi => h.bounded i (hactive ▸ hi), h.noneDue.congr hactive fun i _ _ _ j _ => hchild (i, j)⟩

theorem Region.settled_of_not_at (h : ∀ i, m.active ≠ .at i) : r.Settled m :=
  ⟨fun i hi => absurd hi (h i), fun i _ hi => absurd hi (h i)⟩

/-- A region that was never started has settled. -/
theorem Region.settled_fresh (r : BuiltRegion σ γ δ) : r.Throughout Region.Settled .fresh :=
  Region.throughout_fresh (fun _ => Region.settled_of_not_at nofun) r

/-- Nothing that is due means that no completion row is chosen. -/
theorem Region.due_noneDue (ht : ∀ row ∈ table.rows, row.Calm) : Ends (due table nodes) c
    (fun found c' => found = none → Region.NoneDue ⟨table, nodes⟩ c'.marking) fun _ _ => True := by
  by_cases hdue : Region.NoneDue ⟨table, nodes⟩ c.marking
  · exact (due_inert (Note.admits_uncrossed .completion) table nodes c).mono
      (fun _ _ hsteps _ => hdue.congr hsteps.active fun i _ _ _ j _ => by rw [hsteps.child]) fun _ _ _ => trivial
  · unfold Region.NoneDue at hdue
    push Not at hdue
    obtain ⟨i, n, hactive, hn, hcomplete, hresolve⟩ := hdue
    obtain ⟨found, hfound⟩ := RegionTable.resolve_steady (δ := δ) ht i n.data.id .completion
    have hends := hfound c
    have hsame : due table nodes c = table.resolve i n.data.id .completion c := due_of_complete hactive hn hcomplete
    unfold Ends at hends ⊢
    rw [hsame]
    refine Ends.mono hends (fun found' _ h hnone => ?_) fun _ _ h => h.elim
    obtain rfl : found = none := h.1.symm.trans hnone
    exact absurd hfound hresolve

theorem Region.settle_noneDue (ht : ∀ row ∈ table.rows, row.Calm) (c : Configuration σ γ δ) :
    Ends (Region.settle setup table nodes) c
      (fun _ c' => Region.NoneDue ⟨table, nodes⟩ c'.marking) fun _ _ => True :=
  Region.settle_brings (fun _ => Region.due_noneDue ht) c

/-- Where nothing is due, settling does nothing. -/
theorem Region.settle_still (h : Region.NoneDue ⟨table, nodes⟩ c.marking) :
    Ends (Region.settle setup table nodes) c (fun _ c' => c.Still c') fun _ _ => False := by
  have hdue : Ends (due table nodes) c (fun found c' => found = none ∧ c.Still c') fun _ _ => False := by
    unfold Region.due
    simp only [ends_bind, ends_active]
    split
    · rename_i i hactive
      split
      · rename_i n hn
        rw [ends_bind, ends_get]
        split
        · rename_i hcomplete
          exact h i n hactive hn hcomplete c
        · exact ⟨rfl, refl c⟩
      · exact ⟨rfl, refl c⟩
    · exact ⟨rfl, refl c⟩
  unfold Region.settle
  cases setup.settings.maxCompletionChain with
  | zero =>
    rw [Region.chain, ends_bind]
    refine hdue.mono (fun found c' h' => ?_) fun _ _ h => h
    rw [h'.1]
    exact h'.2
  | succ n =>
    rw [Region.chain, ends_bind]
    refine hdue.mono (fun found c' h' => ?_) fun _ _ h => h
    rw [h'.1]
    exact h'.2

/-! ## Settling at every depth -/

/-- All that is below the region has settled. -/
def Region.SettledBelow (r : BuiltRegion σ γ δ) (m : Marking δ) : Prop :=
  ∀ k s, r.child? k = some s → s.Throughout Region.Settled (m.child k)

theorem Region.settledBelow_of_throughout (h : r.Throughout Region.Settled m) : r.SettledBelow m :=
  fun _ _ hs => h.child hs

theorem Region.settledBelow_withstands (r : BuiltRegion σ γ δ) :
    Withstands (fun _ _ => True) fun c : Configuration σ γ δ => r.SettledBelow c.marking :=
  fun _ _ hsteps hc => ⟨fun k s hs => by rw [hsteps.child]; exact hc k s hs, fun _ _ => trivial⟩

/-- Once the regions of a state have settled, so has all that is below. -/
theorem Region.SettledBelow.onEach {x : BuiltRegion σ γ δ → Turn σ γ δ α} (hn : r.nodes[i]? = some n)
    (hx : ∀ s ∈ n.regions, ∀ c : Configuration σ γ δ, s.Throughout Region.Settled c.marking →
      Ends (x s) c (fun _ c' => s.Throughout Region.Settled c'.marking) fun _ _ => True)
    (hc : r.SettledBelow c.marking) :
    Ends (onEach x i 0 n.regions) c (fun _ c' => r.SettledBelow c'.marking ∧ c.SameBut i c') fun _ _ => True := by
  have hchild (j : Nat) : r.child? (i, j) = n.regions[j]? := Region.child?_of_nodes hn j
  have hloop := onEach_children (P := fun s m => s.Throughout Region.Settled m)
    (Q := fun s m => s.Throughout Region.Settled m) (R := fun _ _ => True) (fun _ _ _ => trivial)
    (fun _ _ _ => trivial) hx fun j s hs => hc (i, j) s ((hchild j).trans hs)
  refine (hloop.and (onEach_confined 0 n.regions c)).mono (fun _ c' h => ⟨fun k s hs => ?_, h.2⟩) fun _ _ _ => trivial
  by_cases hk : k.1 = i
  · obtain ⟨k, j⟩ := k
    obtain rfl : k = i := hk
    exact h.1 j s ((hchild j).symm.trans hs)
  · rw [h.2.child k hk]
    exact hc k s hs

/-- What stopping does to a region. -/
def Region.StopSettles (setup : Setup σ γ) (r : BuiltRegion σ γ δ) : Prop :=
  ∀ (e : Event) (c : Configuration σ γ δ), r.Throughout Region.Settled c.marking →
    Ends (r.stop setup e) c (fun _ c' => r.Throughout Region.Settled c'.marking) fun _ _ => True

/-- What starting does to a region. -/
def Region.StartSettles (setup : Setup σ γ) (r : BuiltRegion σ γ δ) : Prop :=
  ∀ (e : Event) (c : Configuration σ γ δ), r.Throughout Region.Settled c.marking →
    Ends (r.start setup e) c (fun _ c' => r.Throughout Region.Settled c'.marking) fun _ _ => True

/-- A region between leaving a state and entering one: all below has settled, and what is active is one of the
states. -/
structure Region.SettledSave (r : BuiltRegion σ γ δ) (c : Configuration σ γ δ) : Prop where
  bounded : ∀ i, c.marking.active = .at i → i < r.nodes.length
  below : r.SettledBelow c.marking

theorem Region.settles_leaves (table : RegionTable σ γ) (e : Event)
    (ih : ∀ n ∈ nodes, ∀ s ∈ n.regions, s.StopSettles setup) :
    Region.Leaves setup table nodes (fun _ _ => True) (Region.SettledSave ⟨table, nodes⟩)
      (fun c => Region.SettledBelow ⟨table, nodes⟩ c.marking) e where
  live _ _ hsteps hc := ⟨⟨fun i hi => hc.bounded i (hsteps.active ▸ hi),
    (Region.settledBelow_withstands _ _ _ hsteps hc.below).1⟩, fun _ _ => trivial⟩
  left := Region.settledBelow_withstands _
  halted _ _ _ := trivial
  bounded _ i hc hi := hc.bounded i hi
  resting _ hc _ := hc.below
  rested _ hc hresting := ⟨fun i hi => absurd hi (hresting i), hc⟩
  leave i n hn c hc _ := by
    have hloop := hc.below.onEach hn fun s hs => ih n (List.mem_of_getElem? hn) s hs e
    have hN := Note.admits_uncrossed (σ := σ) e
    obtain ⟨unit, regions⟩ := n
    rw [Node.exit, ends_bind, Region.ends_stopAll]
    refine hloop.mono (fun _ c₁ hc₁ => ?_) fun _ _ h => h
    rw [ends_bind, ends_note]
    refine ((Region.settledBelow_withstands ⟨table, nodes⟩).ends
      (orFail_inert hN _ _ _ (performAt_inert (fun _ => hN.silent) _ _ _)) ?_).mono (fun _ _ h => h.1) fun _ _ h => h
    exact hc₁.1
  move _ _ hc _ := hc

theorem Region.stop_settles (r : BuiltRegion σ γ δ) : r.StopSettles setup := by
  induction r using Region.induct with
  | step table nodes ih =>
    intro e c hc
    have hpass := (Region.settles_leaves table e ih).stop ⟨hc.here.bounded, Region.settledBelow_of_throughout hc⟩
    refine hpass.mono (fun _ c' hc' => ?_) fun _ _ h => h
    refine .intro (Region.settled_of_not_at fun i hi => ?_) hc'.1.below
    rw [hc'.2] at hi
    cases hi

theorem Region.settles_moves (table : RegionTable σ γ) (e : Event)
    (ih : ∀ n ∈ nodes, ∀ s ∈ n.regions, s.StartSettles setup) :
    Region.Moves setup table nodes (fun _ _ => True) (Region.SettledSave ⟨table, nodes⟩)
      (fun c => Region.SettledBelow ⟨table, nodes⟩ c.marking) e where
  toLeaves := Region.settles_leaves table e fun _ _ s _ => s.stop_settles
  enter i n hn c hc hactive := by
    have hN := Note.admits_uncrossed (σ := σ) e
    have hloop (c : Configuration σ γ δ) (hc : Region.SettledBelow ⟨table, nodes⟩ c.marking) :=
      hc.onEach (c := c) hn fun s hs => ih n (List.mem_of_getElem? hn) s hs e
    obtain ⟨unit, regions⟩ := n
    rw [Node.enter, ends_bind, ends_note]
    refine (Region.settledBelow_withstands ⟨table, nodes⟩).bind
      (orFail_inert hN _ _ _ (performAt_inert (fun _ => hN.silent) _ _ _)) ?_ fun _ c₁ hc₁ h₁ => ?_
    · exact hc
    rw [Region.ends_startAll]
    refine (hloop c₁ hc₁).mono (fun _ c₂ hc₂ => ⟨fun k hk => ?_, hc₂.1⟩) fun _ _ h => h
    rw [hc₂.2.active, h₁] at hk
    obtain rfl : i = k := Active.at.inj (hactive.symm.trans hk)
    exact (List.getElem?_eq_some_iff.1 hn).1

theorem Region.start_settles (r : BuiltRegion σ γ δ) (hinitials : r.HasInitials) (hcalm : r.Calm) :
    r.StartSettles setup := by
  induction r using Region.induct with
  | step table nodes ih =>
    intro e c hc
    have hmoves (e : Event) : Region.Moves setup table nodes (fun _ _ => True) (Region.SettledSave ⟨table, nodes⟩)
        (fun c => Region.SettledBelow ⟨table, nodes⟩ c.marking) e :=
      Region.settles_moves table e fun n hn s hs => ih n hn s hs (hinitials.below hn hs) (hcalm.below hn hs)
    have hpass := (hmoves e).start (hmoves .completion) hinitials.here
      ⟨hc.here.bounded, Region.settledBelow_of_throughout hc⟩
    have hnone : Ends (Region.start setup ⟨table, nodes⟩ e) c
        (fun _ c' => Region.NoneDue ⟨table, nodes⟩ c'.marking) fun _ _ => True :=
      Region.start_brings (Region.settle_noneDue hcalm.here) hc.here.noneDue
    exact (hpass.and hnone).mono (fun _ _ h => .intro ⟨h.1.1.bounded, h.2⟩ h.1.1.below) fun _ _ _ => trivial

theorem Region.process_settles (r : BuiltRegion σ γ δ) (hinitials : r.HasInitials) (hcalm : r.Calm)
    (c : Configuration σ γ δ) (hc : r.Throughout Region.Settled c.marking) :
    Ends (r.process setup e) c (fun _ c' => r.Throughout Region.Settled c'.marking) fun _ _ => True := by
  induction r using Region.induct generalizing c with
  | step table nodes ih =>
    have hmoves (e : Event) : Region.Moves setup table nodes (fun _ _ => True) (Region.SettledSave ⟨table, nodes⟩)
        (fun c => Region.SettledBelow ⟨table, nodes⟩ c.marking) e :=
      Region.settles_moves table e fun n hn s hs => s.start_settles (hinitials.below hn hs) (hcalm.below hn hs)
    have hpass := (hmoves e).process (hmoves .completion) (fun i n hn c hc hactive => ?_)
      ⟨hc.here.bounded, Region.settledBelow_of_throughout hc⟩
    · have hnone : Ends (Region.process setup ⟨table, nodes⟩ e) c
          (fun _ c' => Region.NoneDue ⟨table, nodes⟩ c'.marking) fun _ _ => True :=
        Region.process_keeps (Q := Region.NoneDue ⟨table, nodes⟩) (fun _ _ hactive hchild h => h.congr hactive hchild)
          (Region.settle_noneDue hcalm.here) hc.here.noneDue
      exact (hpass.and hnone).mono (fun _ _ h => .intro ⟨h.1.1.bounded, h.2⟩ h.1.1.below) fun _ _ _ => trivial
    · -- the regions of the active state settle, and its own reaction moves nothing
      have hmem := List.mem_of_getElem? hn
      have hloop := hc.below.onEach hn fun s hs c hc =>
        ih n hmem s hs (hinitials.below hmem hs) (hcalm.below hmem hs) c hc
      rw [Node.ends_react]
      refine hloop.mono (fun _ c₁ hc₁ => ?_) fun _ _ h => h
      have hlive : Region.SettledSave ⟨table, nodes⟩ c₁ :=
        ⟨fun k hk => hc.bounded k (hc₁.2.active ▸ hk), hc₁.1⟩
      split
      · exact hlive
      · exact ((hmoves e).live.ends (Node.consult_inert (Note.admits_uncrossed e) _ _ _) hlive).mono
          (fun _ _ h => h.1) fun _ _ h => h

end Settled

end Statechart
