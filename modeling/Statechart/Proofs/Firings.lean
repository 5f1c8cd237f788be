import Statechart.Proofs.Calls
import Statechart.Proofs.Nesting

/-!
# The firings of one region

While a region fires a row, regions below it may start and fire rows of their own. As these have other paths, what is
told of the region itself is one row, and an overflow that ends the firing is one of a region below.

* `Turn.Spares path` : no row of the region with the path is fired, and its chain does not overflow;
  `Region.stop_spares`, `Region.start_spares` : the turns of regions with other paths;
* `Configuration.firedIn path` : how many rows of that region were fired so far;
* `Region.fire_counts` : firing a row fires one.
-/

set_option autoImplicit false

namespace Statechart

open Turn

variable {σ γ δ α : Type} {path : String} {e : Event}

/-- The path of the region that fires a row or whose chain overflows. -/
def Note.progress? : Note σ → Option String
  | .fired path _ _ _ | .overflowed path _ => some path
  | _ => none

/-- The path of the region whose chain overflows. -/
def Halt.overflow? : Halt → Option String
  | .error (.completionOverflow path _) => some path
  | _ => none

theorem Note.progress?_of_not_isProgress {n : Note σ} (h : n.isProgress = false) : n.progress? = none := by
  cases n <;> simp_all [isProgress, progress?]

theorem Halt.overflow?_of_not_isOverflow {h : Halt} (hh : h.isOverflow = false) : h.overflow? = none := by
  unfold isOverflow at hh
  unfold overflow?
  split at hh <;> simp_all

/-! ## Turns without progress of the region -/

/-- No row of the region with the path is fired, and its chain does not overflow. -/
abbrev Turn.Spares (path : String) (x : Turn σ γ δ α) : Prop :=
  Keeps (Configuration.Follows fun n => n.progress? ≠ some path) (fun h _ => h.overflow? ≠ some path) x

namespace Turn

theorem Inert.spares {x : Turn σ γ δ α} (h : Inert Note.Still x) : Spares path x := by
  refine Keeps.mono h (fun _ _ h => h.follows.mono fun n hn => ?_) fun halt _ h => ?_
  · rw [Note.progress?_of_not_isProgress hn]
    exact nofun
  · rw [Halt.overflow?_of_not_isOverflow h.2]
    exact nofun

theorem setActive_spares (a : Active) : Spares path (setActive a : Turn σ γ δ Unit) := fun _ => .refl _ _

theorem inChild_spares (k : Nat × Nat) {x : Turn σ γ δ α} (h : Spares path x) : Spares path (inChild k x) := by
  intro c
  rw [ends_inChild]
  exact h ⟨c.world, c.marking.child k⟩

theorem spares_onEach {x : BuiltRegion σ γ δ → Turn σ γ δ α} {rs : List (BuiltRegion σ γ δ)}
    (h : ∀ r ∈ rs, Spares path (x r)) (position index : Nat) : Spares path (onEach x position index rs) :=
  keeps_onEach (fun r hr _ => inChild_spares _ (h r hr)) index

end Turn

section Turns

variable [Named σ] {setup : Setup σ γ} {table : RegionTable σ γ} {nodes : List (BuiltNode σ γ δ)}

theorem Node.exit_spares (other : String) (position : Nat) (n : BuiltNode σ γ δ)
    (h : ∀ r ∈ n.regions, Spares path (r.stop setup e)) : Spares path (n.exit setup other position e) := by
  obtain ⟨unit, regions⟩ := n
  have hN := (Note.admits_still (σ := σ) e).admits
  have hstop : Spares path (Region.stopAll setup position 0 regions e) := by
    intro c
    rw [Region.ends_stopAll]
    exact spares_onEach h position 0 c
  have hnoted : Inert Note.Still (note (.exit other unit.id e) : Turn σ γ δ Unit) := note_inert rfl rfl
  rw [Node.exit]
  refine hstop.bind fun _ => hnoted.spares.bind fun _ => ?_
  exact (orFail_inert hN _ _ _ (performAt_inert (fun _ => hN.silent) _ _ _)).spares

/-- A region that stops fires no row. -/
theorem Region.stop_spares (r : BuiltRegion σ γ δ) : Spares path (r.stop setup e) := by
  have hN := (Note.admits_still (σ := σ) e).admits
  induction r using Region.induct with
  | step table nodes ih =>
    have hleave (i : Nat) : Spares path (Node.exitAt setup table.path i nodes i e) := by
      rw [Node.exitAt_eq]
      exact Keeps.elim i () fun n hn => Node.exit_spares _ _ n (ih n hn)
    intro c
    rw [Region.stop, ends_bind, ends_active]
    split
    · exact Keeps.pure () c
    · have hend : Spares path (setActive .stopped >>= fun _ => setup.hooks.afterTransition
          ⟨table.path, endpoint nodes c.marking.active, .stopped, e⟩ : Turn σ γ δ Unit) :=
        (setActive_spares _).bind fun _ => (setup.hooks.afterTransition_inert hN rfl).spares
      refine Keeps.bind (setup.hooks.beforeTransition_inert hN rfl).spares (fun _ => ?_) c
      split
      · exact (hleave _).bind fun _ => hend
      · exact hend

theorem Node.exitAt_spares (other : String) (position i : Nat) :
    Spares path (Node.exitAt setup other position nodes i e) := by
  rw [Node.exitAt_eq]
  exact Keeps.elim i () fun n _ => Node.exit_spares _ _ n fun r _ => r.stop_spares

variable [DecidableEq σ]

/-- Firing begins with its note; the rest is as entering is. -/
theorem Region.fire_eq_note (henter : ∀ i, Spares path (Node.enterAt setup table.path i nodes i e))
    (choice : Choice σ γ) : ∃ rest : Turn σ γ δ Unit, Spares path rest ∧ Region.fire setup table nodes choice e =
      (do note (.fired table.path choice.state choice.row e); rest) := by
  have hN := (Note.admits_still (σ := σ) e).admits
  have hbefore (move : Move σ) (hmove : move.event = e) :
      Spares path (setup.hooks.beforeTransition move : Turn σ γ δ Unit) :=
    (setup.hooks.beforeTransition_inert hN hmove).spares
  have hafter (move : Move σ) (hmove : move.event = e) :
      Spares path (setup.hooks.afterTransition move : Turn σ γ δ Unit) :=
    (setup.hooks.afterTransition_inert hN hmove).spares
  have hact (s : σ) : Spares path (Region.act table.path s choice e : Turn σ γ δ Unit) :=
    (Region.act_inert hN _ _ _).spares
  have hleave (i : Nat) : Spares path (Node.exitAt setup table.path i nodes i e) := Node.exitAt_spares _ _ _
  refine ⟨_, ?_, rfl⟩
  split
  · exact hact _
  · split
    · refine (hbefore _ rfl).bind fun _ => (hleave _).bind fun _ => (setActive_spares _).bind fun _ => ?_
      exact (hact _).bind fun _ => (henter _).bind fun _ =>
        (Region.remember_inert setup _ _ _ _).spares.bind fun _ => hafter _ rfl
    · exact Keeps.pure ()
  · exact (hbefore _ rfl).bind fun _ => (hleave _).bind fun _ => (setActive_spares _).bind fun _ =>
      (hact _).bind fun _ => hafter _ rfl

/-- While a region looks for a row, nothing is fired. -/
theorem Region.due_spares : Spares path (Region.due table nodes) :=
  (Region.due_inert (Note.admits_still .completion).admits table nodes).spares

theorem Region.chain_spares (htable : table.path ≠ path) {fire : Choice σ γ → Turn σ γ δ Unit}
    (hfire : ∀ choice, Spares path (fire choice)) (n : Nat) : Spares path (Region.chain setup table nodes fire n) := by
  have hdue : Spares path (Region.due table nodes) := Region.due_spares
  induction n with
  | zero =>
    rw [Region.chain]
    refine hdue.bind fun found => ?_
    split
    · intro c
      rw [ends_bind, ends_note, ends_fail]
      exact ⟨Exchange.follows_note (by simpa [Note.progress?] using htable) rfl _, by
        simpa [Halt.overflow?] using htable⟩
    · exact Keeps.pure ()
  | succ n ih =>
    rw [Region.chain]
    refine hdue.bind fun found => ?_
    split
    · exact (hfire _).bind fun _ => ih
    · exact Keeps.pure ()

theorem Node.enter_spares (other : String) (position : Nat) (n : BuiltNode σ γ δ)
    (h : ∀ r ∈ n.regions, Spares path (r.start setup e)) : Spares path (n.enter setup other position e) := by
  obtain ⟨unit, regions⟩ := n
  have hN := (Note.admits_still (σ := σ) e).admits
  have hstart : Spares path (Region.startAll setup position 0 regions e) := by
    intro c
    rw [Region.ends_startAll]
    exact spares_onEach h position 0 c
  have hnoted : Inert Note.Still (note (.entry other unit.id e) : Turn σ γ δ Unit) := note_inert rfl rfl
  rw [Node.enter]
  refine hnoted.spares.bind fun _ => Keeps.bind ?_ fun _ => hstart
  exact (orFail_inert hN _ _ _ (performAt_inert (fun _ => hN.silent) _ _ _)).spares

/-- A region that starts fires rows of its own and of regions below. -/
theorem Region.start_spares (r : BuiltRegion σ γ δ) (h : ∀ q ∈ r.preorder, q.data.path ≠ path) :
    Spares path (r.start setup e) := by
  -- for any event: what a region starts by settling is entered on completion
  induction r using Region.induct generalizing e with
  | step table nodes ih =>
    have hN := (Note.admits_still (σ := σ) e).admits
    have hhere : table.path ≠ path := h _ (Region.mem_preorder_self _)
    have henter (e : Event) (i : Nat) : Spares path (Node.enterAt setup table.path i nodes i e) := by
      rw [Node.enterAt_eq]
      exact Keeps.elim i () fun n hn => Node.enter_spares _ _ n fun r hr =>
        ih n hn r hr fun q hq => h q (Region.mem_preorder_of_mem hn hr hq)
    have hfire (choice : Choice σ γ) : Spares path (Region.fire setup table nodes choice .completion) := by
      obtain ⟨rest, hrest, heq⟩ := Region.fire_eq_note (henter .completion) choice
      have hnote : Spares path (note (.fired table.path choice.state choice.row .completion) : Turn σ γ δ Unit) :=
        fun _ => Exchange.follows_note (by simpa [Note.progress?] using hhere) rfl _
      rw [heq]
      exact hnote.bind fun _ => hrest
    have hsettle : Spares path (Region.settle setup table nodes) := Region.chain_spares hhere hfire _
    intro c
    rw [Region.start_eq, ends_bind, ends_active]
    split
    · exact Keeps.pure () c
    · refine Keeps.bind (setup.hooks.beforeTransition_inert hN rfl).spares (fun _ => ?_) c
      refine (setActive_spares _).bind fun _ => (henter _ _).bind fun _ => ?_
      exact (setup.hooks.afterTransition_inert hN rfl).spares.bind fun _ => hsettle

theorem Node.enterAt_spares (h : ∀ n ∈ nodes, ∀ r ∈ n.regions, ∀ q ∈ r.preorder, q.data.path ≠ path) (other : String)
    (position i : Nat) : Spares path (Node.enterAt setup other position nodes i e) := by
  rw [Node.enterAt_eq]
  exact Keeps.elim i () fun n hn => Node.enter_spares _ _ n fun r hr => r.start_spares (h n hn r hr)

end Turns

/-! ## How many rows were fired -/

/-- Whether a row of the region with the path is fired. -/
def Note.isFiredIn (path : String) : Note σ → Bool
  | .fired other _ _ _ => other = path
  | _ => false

/-- How many rows of the region with the path were fired so far. -/
def Configuration.firedIn (path : String) (c : Configuration σ γ δ) : Nat := c.notes.countP (Note.isFiredIn path)

theorem Configuration.Follows.firedIn {c c' : Configuration σ γ δ}
    (h : c.Follows (fun n => n.progress? ≠ some path) c') : c'.firedIn path = c.firedIn path := by
  obtain ⟨l, hl, hother⟩ := h.writes
  have hnone : l.countP (Note.isFiredIn path) = 0 := by
    refine List.countP_eq_zero.2 fun n hn => ?_
    have hthis := hother n hn
    cases n <;> simp_all [Note.progress?, Note.isFiredIn]
  rw [Configuration.firedIn, hl, List.countP_append, hnone]
  rfl

section Firing

variable [DecidableEq σ] [Named σ] {setup : Setup σ γ} {r : BuiltRegion σ γ δ}

/-- Firing a row fires one, and a chain that overflows meanwhile is one of a region below. -/
theorem Region.fire_counts (hapart : r.Apart) (choice : Choice σ γ) (c : Configuration σ γ δ) :
    Ends (Region.fire setup r.data r.nodes choice e) c
      (fun _ c' => c'.firedIn r.data.path = c.firedIn r.data.path + 1)
      fun h c' => c'.firedIn r.data.path = c.firedIn r.data.path + 1 ∧ h.overflow? ≠ some r.data.path := by
  have henter (i : Nat) : Spares r.data.path (Node.enterAt setup r.data.path i r.nodes i e) :=
    Node.enterAt_spares hapart _ _ _
  obtain ⟨rest, hrest, heq⟩ := Region.fire_eq_note henter choice
  have hnoted : Configuration.firedIn r.data.path
      { c with world.exchange := c.world.exchange.note (.fired r.data.path choice.state choice.row e) } =
      c.firedIn r.data.path + 1 := by
    rw [Configuration.firedIn, Configuration.notes_note, List.countP_append]
    simp [Note.isFiredIn, Configuration.firedIn]
  rw [heq, ends_bind, ends_note]
  refine (hrest _).mono (fun _ c' h => ?_) fun halt c' h => ⟨?_, h.2⟩
  · rw [h.firedIn, hnoted]
  · rw [h.1.firedIn, hnoted]

end Firing

end Statechart
