import Mathlib.Data.List.Perm.Basic
import Statechart.Proofs.Collecting
import Statechart.Proofs.Legality
import Statechart.Proofs.Queries
import Statechart.Proofs.Reliable
import Statechart.Proofs.SimpleStates

/-!
# The order in which states are left and entered

A row that leads to another state leaves all that is active at and below its source, from the inside out, then runs its
action, and then enters its target and the initial states below it, from the outside in.

* `Configuration.Shows l` : the notes about states left and entered and about actions that were written on the way;
* `Turn.onEach_shows` : what a loop over the regions of a state shows;
* `Node.leaving` : the active states at and below a state, each behind those inside it (`Node.leaving_perm`);
  `Node.entering` : a state and the initial states below it, each before those inside it;
* `Region.IsInitial` : every region is in its initial state, at every depth (`Region.IsInitial.activeStates`);
* `Region.moveOut`, `Region.moveIn` : firing a row, before and after its action (`Region.fire_eq_of_state`);
* `Region.stop_shows`, `Node.exit_shows`, `Region.start_shows`, `Node.enter_shows` : leaving and entering;
* `Region.Succession`, `external_transition_order`.
-/

set_option autoImplicit false

namespace Statechart

open Turn

variable {σ γ δ α β : Type}

/-! ## What is shown -/

/-- Whether a state is left or entered, or the action of a row runs. -/
def Note.isPassage : Note σ → Bool
  | .exit _ _ _ | .entry _ _ _ | .action _ _ _ _ => true
  | _ => false

/-- Nothing is left or entered, and no action runs. -/
abbrev Note.Aside (n : Note σ) : Prop := n.isPassage = false

theorem Note.aside_of_isSilent {n : Note σ} (h : n.isSilent = true) : n.Aside := by
  cases n <;> simp_all [isSilent, Aside, isPassage]

/-- What was shown on the way: the notes about states left and entered and about actions that were written. -/
def Configuration.Shows (c : Configuration σ γ δ) (l : List (Note σ)) (c' : Configuration σ γ δ) : Prop :=
  ∃ w, c.Writes w c' ∧ w.filter Note.isPassage = l

section Shows

variable {c c₁ c' : Configuration σ γ δ} {l l' : List (Note σ)}

theorem Configuration.Shows.refl (c : Configuration σ γ δ) : c.Shows [] c := ⟨[], .refl c, rfl⟩

theorem Configuration.Shows.trans (h : c.Shows l c₁) (h' : c₁.Shows l' c') : c.Shows (l ++ l') c' := by
  obtain ⟨w, hw, rfl⟩ := h
  obtain ⟨w', hw', rfl⟩ := h'
  exact ⟨w ++ w', hw.trans hw', List.filter_append _ _⟩

theorem Configuration.shows_note {n : Note σ} (hn : n.isPassage = true) (c : Configuration σ γ δ) :
    c.Shows [n] { c with world.exchange := c.world.exchange.note n } :=
  ⟨[n], c.writes_note n, List.filter_eq_self.2 (by simpa using hn)⟩

theorem Configuration.Steps.shows (h : c.Steps Note.Aside c') : c.Shows [] c' := by
  obtain ⟨w, hw, hnone⟩ := h.follows.writes
  exact ⟨w, hw, List.filter_eq_nil_iff.2 fun n hn => by simp [hnone n hn]⟩

theorem Configuration.Shows.after (h : c₁.Shows l c') (h₁ : c.Shows [] c₁) : c.Shows l c' := h₁.trans h

theorem Configuration.Shows.before (h : c.Shows l c₁) (h₁ : c₁.Shows [] c') : c.Shows l c' := by
  rw [← List.append_nil l]
  exact h.trans h₁

end Shows

/-- The loop over the regions of a state: each goes from `P` to `Q` and shows what `f` gives for it. -/
theorem Turn.onEach_shows {x : BuiltRegion σ γ δ → Turn σ γ δ α} {position : Nat}
    {P Q : BuiltRegion σ γ δ → Marking δ → Prop} (f : BuiltRegion σ γ δ → Marking δ → List (Note σ))
    {rs : List (BuiltRegion σ γ δ)}
    (step : ∀ r ∈ rs, ∀ c, P r c.marking →
      Ends (x r) c (fun _ c' => c.Shows (f r c.marking) c' ∧ Q r c'.marking) fun _ _ => False)
    (c : Configuration σ γ δ) (hc : ∀ (j : Nat) r, rs[j]? = some r → P r (c.marking.child (position, j))) :
    Ends (onEach x position 0 rs) c
      (fun _ c' => c.Shows ((Region.members position 0 rs c.marking).flatMap fun p => f p.1 p.2) c' ∧
        ∀ (j : Nat) r, rs[j]? = some r → Q r (c'.marking.child (position, j)))
      fun _ _ => False := by
  -- what is shown depends on the world alone
  let S (w : World σ γ) (l : List (Note σ)) (w' : World σ γ) : Prop :=
    Configuration.Shows (⟨w, c.marking⟩ : Configuration σ γ δ) l ⟨w', c.marking⟩
  have hloop := onEach_members (x := x) (P := P) (Q := Q) (V := fun _ => False)
    (K := fun r m _ w w' => S w (f r m) w') (T := fun l _ w w' => S w (l.flatMap fun p => f p.1 p.2) w')
    (fun w => Configuration.Shows.refl _) (fun _ _ _ _ _ _ _ _ h h' => Configuration.Shows.trans h h') step 0 c
    fun j r hr => by simpa using hc j r hr
  refine hloop.mono (fun _ c' h => ⟨h.1, fun j r hr => ?_⟩) fun _ _ h => h
  have hj := h.2.1 j r hr
  rwa [Nat.zero_add] at hj

/-! ## The states that are left -/

/-- The active states of a region with the paths of their regions, each behind those inside it. -/
def Region.leaving (r : BuiltRegion σ γ δ) (m : Marking δ) : List (String × σ) :=
  r.collect (fun table _ unit _ inside => inside ++ [(table.path, unit.id)]) m

/-- The active states inside a state of the region with the given path, in the order of its regions, then that state. -/
def Node.leaving (path : String) (position : Nat) (n : BuiltNode σ γ δ) (m : Marking δ) : List (String × σ) :=
  ((Region.members position 0 n.regions m).flatMap fun p => p.1.leaving p.2) ++ [(path, n.data.id)]

theorem Node.leaving_congr {path : String} {position : Nat} {n : BuiltNode σ γ δ} {m m' : Marking δ}
    (h : ∀ k, m'.child k = m.child k) : n.leaving path position m' = n.leaving path position m :=
  congrArg (· ++ [(path, n.data.id)]) (Node.inside_congr h)

theorem Region.leaving_at {r : BuiltRegion σ γ δ} {m : Marking δ} {i : Nat} (hactive : m.active = .at i) :
    r.leaving m = (r.nodes[i]?).elim [] fun n => n.leaving r.data.path i m :=
  Region.collect_at hactive

theorem Region.leaving_of_at {r : BuiltRegion σ γ δ} {m : Marking δ} {i : Nat} {n : BuiltNode σ γ δ}
    (hn : r.nodes[i]? = some n) (hactive : m.active = .at i) : r.leaving m = n.leaving r.data.path i m :=
  Region.collect_of_at hn hactive

theorem Region.leaving_of_resting {r : BuiltRegion σ γ δ} {m : Marking δ}
    (h : ∀ i n, m.active = .at i → r.nodes[i]? ≠ some n) : r.leaving m = [] :=
  Region.collect_of_resting h

theorem Region.allActiveStates_eq (position : Nat) :
    ∀ (index : Nat) (rs : List (BuiltRegion σ γ δ)) (m : Marking δ),
      Region.allActiveStates position index rs m =
        (Region.members position index rs m).flatMap fun p => p.1.activeStates p.2
  | _, [], _ => rfl
  | index, r :: rs, m => by
    rw [Region.allActiveStates, Region.allActiveStates_eq position (index + 1) rs m, Region.members, List.flatMap_cons]

theorem Region.leaving_perm (r : BuiltRegion σ γ δ) (m : Marking δ) :
    ((r.leaving m).map Prod.snd).Perm (r.activeStates m) := by
  induction r using Region.induct generalizing m with
  | step table nodes ih =>
    by_cases hactive : ∃ i n, m.active = .at i ∧ nodes[i]? = some n
    · obtain ⟨i, n, hactive, hn⟩ := hactive
      rw [Region.leaving_of_at hn hactive, Region.activeStates_of_at hn hactive, Node.leaving,
        Region.allActiveStates_eq, List.map_append, List.map_flatMap]
      refine (List.perm_append_singleton _ _).trans (List.Perm.cons _ (List.Perm.flatMap_left _ fun p hp => ?_))
      exact ih n (List.mem_of_getElem? hn) p.1 (Region.mem_members hp) p.2
    · have hresting (i : Nat) (n : BuiltNode σ γ δ) (hi : m.active = .at i) : nodes[i]? ≠ some n :=
        fun hn => hactive ⟨i, n, hi, hn⟩
      have hnone : Region.activeStates ⟨table, nodes⟩ m = [] := by
        refine List.eq_nil_iff_forall_not_mem.2 fun s hs => ?_
        obtain ⟨i, n, hi, hn⟩ := Region.exists_of_mem_activeStates hs
        exact hresting i n hi hn
      rw [Region.leaving_of_resting hresting, hnone]
      rfl

/-- What is left is what is active, in another order. -/
theorem Node.leaving_perm {r : BuiltRegion σ γ δ} {m : Marking δ} {i : Nat} {n : BuiltNode σ γ δ}
    (hn : r.nodes[i]? = some n) (hactive : m.active = .at i) :
    ((n.leaving r.data.path i m).map Prod.snd).Perm (r.activeStates m) := by
  rw [← Region.leaving_of_at hn hactive]
  exact r.leaving_perm m

/-! ## The states that are entered -/

mutual

/-- The initial state of a region and those below it with the paths of their regions, outer ones first. -/
def Region.entering : BuiltRegion σ γ δ → List (String × σ)
  | ⟨table, nodes⟩ => Node.enteringAt table.path nodes table.initial

/-- The state that is `n` places on in a list and the initial states below it. -/
def Node.enteringAt (path : String) : List (BuiltNode σ γ δ) → Nat → List (String × σ)
  | [], _ => []
  | node :: _, 0 => node.entering path
  | _ :: nodes, n + 1 => Node.enteringAt path nodes n

/-- A state and the initial states below it. -/
def Node.entering (path : String) : BuiltNode σ γ δ → List (String × σ)
  | ⟨unit, regions⟩ => (path, unit.id) :: Region.allEntering regions

/-- The initial states of regions and those below them, in the order of the regions. -/
def Region.allEntering : List (BuiltRegion σ γ δ) → List (String × σ)
  | [] => []
  | r :: rs => r.entering ++ Region.allEntering rs

end

theorem Node.enteringAt_eq (path : String) :
    ∀ (nodes : List (BuiltNode σ γ δ)) (n : Nat),
      Node.enteringAt path nodes n = (nodes[n]?).elim [] fun node => node.entering path
  | [], _ => rfl
  | _ :: _, 0 => rfl
  | _ :: nodes, n + 1 => Node.enteringAt_eq path nodes n

theorem Region.allEntering_eq (position : Nat) (m : Marking δ) :
    ∀ (index : Nat) (rs : List (BuiltRegion σ γ δ)),
      Region.allEntering rs = (Region.members position index rs m).flatMap fun p => p.1.entering
  | _, [] => rfl
  | index, r :: rs => by
    rw [Region.allEntering, Region.allEntering_eq position m (index + 1) rs, Region.members, List.flatMap_cons]

theorem Node.entering_eq (path : String) (n : BuiltNode σ γ δ) :
    n.entering path = (path, n.data.id) :: Region.allEntering n.regions := by
  obtain ⟨unit, regions⟩ := n
  rfl

theorem Region.entering_of_initial {r : BuiltRegion σ γ δ} {n : BuiltNode σ γ δ}
    (hn : r.nodes[r.data.initial]? = some n) : r.entering = n.entering r.data.path := by
  obtain ⟨table, nodes⟩ := r
  rw [Region.entering, Node.enteringAt_eq, show nodes[table.initial]? = some n from hn]
  rfl

/-- The region is in its initial state, and so are the regions of that state, at every depth. -/
inductive Region.IsInitial : BuiltRegion σ γ δ → Marking δ → Prop where
  | intro {r : BuiltRegion σ γ δ} {m : Marking δ} (active : m.active = .at r.data.initial)
      (inside : ∀ j r', r.child? (r.data.initial, j) = some r' → IsInitial r' (m.child (r.data.initial, j))) :
      IsInitial r m

theorem Region.IsInitial.congr {r : BuiltRegion σ γ δ} {m m' : Marking δ} (h : r.IsInitial m)
    (hactive : m'.active = m.active) (hchild : ∀ k, m'.child k = m.child k) : r.IsInitial m' := by
  cases h with
  | intro hinitial hinside =>
    refine .intro (hactive.trans hinitial) fun j r' hr' => ?_
    rw [hchild]
    exact hinside j r' hr'

theorem Region.allActiveStates_of_initial {position index : Nat} {rs : List (BuiltRegion σ γ δ)} {m : Marking δ}
    (h : ∀ (j : Nat) (r : BuiltRegion σ γ δ), rs[j]? = some r →
      r.activeStates (m.child (position, index + j)) = r.entering.map Prod.snd) :
    Region.allActiveStates position index rs m = (Region.allEntering rs).map Prod.snd := by
  induction rs generalizing index with
  | nil => rfl
  | cons r rs ih =>
    have hrest : Region.allActiveStates position (index + 1) rs m = (Region.allEntering rs).map Prod.snd := by
      refine ih fun j r' hr' => ?_
      rw [show index + 1 + j = index + (j + 1) by omega]
      exact h (j + 1) r' hr'
    rw [Region.allActiveStates, Region.allEntering, List.map_append, hrest]
    exact congrArg (· ++ _) (h 0 r rfl)

theorem Region.IsInitial.activeStates {r : BuiltRegion σ γ δ} {m : Marking δ} (h : r.IsInitial m)
    (hinitials : r.HasInitials) : r.activeStates m = r.entering.map Prod.snd := by
  induction h with
  | @intro r m hactive _ ih =>
    have hlt : r.data.initial < r.nodes.length := hinitials r r.mem_preorder_self
    have hn := List.getElem?_eq_getElem hlt
    rw [Region.activeStates_of_at hn hactive, Region.entering_of_initial hn, Node.entering_eq, List.map_cons]
    congr 1
    refine Region.allActiveStates_of_initial fun j r' hr' => ?_
    rw [Nat.zero_add]
    exact ih j r' ((Region.child?_of_nodes hn j).trans hr') (hinitials.below (List.mem_of_getElem? hn)
      (List.mem_of_getElem? hr'))

/-! ## Leaving and entering -/

/-- The call of the exit reaction of a state in the region with the given path. -/
def Note.exitOf (e : Event) (place : String × σ) : Note σ := .exit place.1 place.2 e

/-- The call of the entry reaction of a state in the region with the given path. -/
def Note.entryOf (e : Event) (place : String × σ) : Note σ := .entry place.1 place.2 e

section Turns

variable [Named σ] {setup : Setup σ γ} {e : Event}

/-- Stopping the region leaves what is active in it, from the inside out. -/
def Region.StopShows (setup : Setup σ γ) (e : Event) (r : BuiltRegion σ γ δ) : Prop :=
  ∀ c : Configuration σ γ δ, Ends (r.stop setup e) c
    (fun _ c' => c.Shows ((r.leaving c.marking).map (Note.exitOf e)) c') fun _ _ => False

theorem Node.exit_shows {n : BuiltNode σ γ δ} (hreliable : n.data.behavior.Reliable)
    (hstop : ∀ r ∈ n.regions, r.StopShows setup e) (path : String) (position : Nat) (c : Configuration σ γ δ) :
    Ends (n.exit setup path position e) c
      (fun _ c' => c.Shows ((n.leaving path position c.marking).map (Note.exitOf e)) c') fun _ _ => False := by
  rw [Node.leaving, List.map_append, List.map_flatMap]
  obtain ⟨unit, regions⟩ := n
  rw [Node.exit, ends_bind, Region.ends_stopAll]
  refine (onEach_shows (P := fun _ _ => True) (Q := fun _ _ => True)
    (fun r m => (r.leaving m).map (Note.exitOf e)) (fun r hr c _ => ?_) c fun _ _ _ => trivial).mono
    (fun _ c₁ h₁ => ?_) fun _ _ h => h
  · exact (hstop r hr c).mono (fun _ _ h => ⟨h, trivial⟩) fun _ _ h => h
  rw [ends_bind, ends_note]
  have hcall := Node.call_gives (N := Note.Aside) (fun _ => Note.aside_of_isSilent) (hreliable.onExit e) .exit path
    unit.id e position unit.behavior.initial
  refine (hcall _).mono (fun _ c₂ h₂ => ?_) fun _ _ h => h
  exact h₁.1.trans ((Configuration.shows_note rfl c₁).before h₂.2.shows)

theorem Node.exitAt_shows {r : BuiltRegion σ γ δ} (hreliable : ∀ n ∈ r.nodes, n.data.behavior.Reliable)
    (hstop : ∀ n ∈ r.nodes, ∀ r' ∈ n.regions, r'.StopShows setup e) (i : Nat) (c : Configuration σ γ δ) :
    Ends (Node.exitAt setup r.data.path i r.nodes i e) c
      (fun _ c' =>
        c.Shows (((r.nodes[i]?).elim [] fun n => n.leaving r.data.path i c.marking).map (Note.exitOf e)) c')
      fun _ _ => False := by
  rw [Node.exitAt_eq]
  cases hn : r.nodes[i]? with
  | none => exact .refl c
  | some n =>
    have hmem := List.mem_of_getElem? hn
    exact Node.exit_shows (hreliable n hmem) (hstop n hmem) r.data.path i c

theorem Region.stop_shows (hhooks : setup.hooks.Reliable) (r : BuiltRegion σ γ δ) (hr : r.Reliable) :
    r.StopShows setup e := by
  induction r using Region.induct with
  | step table nodes ih =>
    intro c
    -- what follows on leaving the active state
    have hhalt {move : Move σ} {l : List (Note σ)} {c₁ : Configuration σ γ δ} (h₁ : c.Shows l c₁) :
        Ends (do Turn.setActive .stopped; setup.hooks.afterTransition move) c₁ (fun _ c' => c.Shows l c')
          fun _ _ => False := by
      rw [ends_bind, ends_setActive]
      have hafter := Hooks.afterTransition_gives (δ := δ) (N := Note.Aside) (fun _ => Note.aside_of_isSilent) hhooks
        (m := move) rfl
      refine (hafter _).mono (fun _ c' h' => ?_) fun _ _ h => h
      exact h₁.before (Configuration.Shows.after h'.2.shows (.refl _))
    have hleave (i : Nat) := Node.exitAt_shows (e := e) (r := ⟨table, nodes⟩)
      (hr.behaviors _ (Region.mem_preorder_self _)) (fun n hn r hr' => ih n hn r hr' (hr.below hn hr')) i
    rw [Region.stop, ends_bind, ends_active]
    split
    · rename_i hstopped
      rw [Region.leaving_of_resting fun i n hi => by rw [hstopped] at hi; cases hi]
      exact .refl c
    · rw [ends_bind]
      have hbefore := Hooks.beforeTransition_gives (δ := δ) (N := Note.Aside) (fun _ => Note.aside_of_isSilent) hhooks
        (m := ⟨table.path, endpoint nodes c.marking.active, .stopped, e⟩) rfl
      refine (hbefore c).mono (fun _ c₁ h₁ => ?_) fun _ _ h => h
      cases hactive : c.marking.active with
      | «at» i =>
        dsimp only
        rw [ends_bind]
        refine (hleave i c₁).mono (fun _ c₂ h₂ => hhalt ?_) fun _ _ h => h
        rw [Region.leaving_at hactive]
        simp only [Node.leaving_congr h₁.2.child] at h₂
        exact h₂.after h₁.2.shows
      | stopped =>
        rw [Region.leaving_of_resting fun i n hi => by rw [hactive] at hi; cases hi]
        exact hhalt h₁.2.shows
      | final =>
        rw [Region.leaving_of_resting fun i n hi => by rw [hactive] at hi; cases hi]
        exact hhalt h₁.2.shows

variable [DecidableEq σ]

/-- No row of the region or of those below it is taken on completion. -/
def Region.Unchained (r : BuiltRegion σ γ δ) : Prop :=
  ∀ q ∈ r.preorder, ∀ row ∈ q.data.rows, row.trigger.isCompletion = false

omit [Named σ] [DecidableEq σ] in
theorem Region.Unchained.below {r r' : BuiltRegion σ γ δ} {n : BuiltNode σ γ δ} (h : r.Unchained) (hn : n ∈ r.nodes)
    (hr' : r' ∈ n.regions) : r'.Unchained := fun q hq => h q (Region.mem_preorder_of_mem hn hr' hq)

/-- Without completion rows, nothing is due. -/
theorem Region.due_of_unchained {table : RegionTable σ γ} {nodes : List (BuiltNode σ γ δ)}
    (h : ∀ row ∈ table.rows, row.trigger.isCompletion = false) (c : Configuration σ γ δ) :
    Region.due table nodes c = .ok none c := by
  by_cases hat : ∃ i n, c.marking.active = .at i ∧ nodes[i]? = some n
  · obtain ⟨i, n, hactive, hn⟩ := hat
    cases hcomplete : n.isComplete i c.marking with
    | true =>
      rw [Region.due_of_complete hactive hn hcomplete]
      refine RegionTable.resolve_of_none table i (List.find?_eq_none.2 fun row hrow => ?_)
      simp [Transition.concerns_completion, h row hrow]
    | false =>
      have hthis : (Turn.active : Turn σ γ δ Active) c = .ok (.at i) c := by
        rw [← hactive]
        rfl
      unfold Region.due
      rw [bind_of_ok hthis]
      dsimp only
      rw [hn]
      dsimp only
      rw [bind_of_ok (show (get : Turn σ γ δ _) c = .ok c c from rfl), hcomplete]
      rfl
  · exact Region.due_of_resting fun i n hactive hn => hat ⟨i, n, hactive, hn⟩

/-- Starting the region, which is stopped, enters its initial state and those below it, from the outside in. -/
def Region.StartShows (setup : Setup σ γ) (e : Event) (r : BuiltRegion σ γ δ) : Prop :=
  ∀ c : Configuration σ γ δ, r.Throughout (Region.Fit True) c.marking ∧ c.marking.active = .stopped →
    Ends (r.start setup e) c
      (fun _ c' => c.Shows (r.entering.map (Note.entryOf e)) c' ∧ r.IsInitial c'.marking) fun _ _ => False

theorem Node.enter_shows {n : BuiltNode σ γ δ} (hreliable : n.data.behavior.Reliable)
    (hstart : ∀ r ∈ n.regions, r.StartShows setup e) (path : String) (position : Nat) (c : Configuration σ γ δ)
    (hc : ∀ j r, n.regions[j]? = some r → r.Throughout (Region.Fit True) (c.marking.child (position, j)) ∧
      (c.marking.child (position, j)).active = .stopped) :
    Ends (n.enter setup path position e) c
      (fun _ c' => c.Shows ((n.entering path).map (Note.entryOf e)) c' ∧
        ∀ (j : Nat) (r : BuiltRegion σ γ δ), n.regions[j]? = some r → r.IsInitial (c'.marking.child (position, j)))
      fun _ _ => False := by
  rw [Node.entering_eq]
  obtain ⟨unit, regions⟩ := n
  rw [Node.enter, ends_bind, ends_note, ends_bind]
  have hcall := Node.call_gives (N := Note.Aside) (fun _ => Note.aside_of_isSilent) (hreliable.onEntry e) .entry path
    unit.id e position unit.behavior.initial
  refine (hcall _).mono (fun _ c₁ h₁ => ?_) fun _ _ h => h
  rw [Region.ends_startAll]
  refine (onEach_shows (P := fun r m => r.Throughout (Region.Fit True) m ∧ m.active = .stopped) (Q := Region.IsInitial)
    (fun r _ => r.entering.map (Note.entryOf e)) hstart c₁ fun j r hr => ?_).mono (fun _ c₂ h₂ => ⟨?_, h₂.2⟩)
    fun _ _ h => h
  · rw [h₁.2.child]
    exact hc j r hr
  · have hentry := (Configuration.shows_note (n := .entry path unit.id e) rfl c).before h₁.2.shows
    rw [Region.allEntering_eq position c₁.marking 0, List.map_cons, List.map_flatMap]
    exact hentry.trans h₂.1

theorem Region.start_shows (hhooks : setup.hooks.Reliable) (r : BuiltRegion σ γ δ) (hinitials : r.HasInitials)
    (hr : r.Reliable) (hunchained : r.Unchained) : r.StartShows setup e := by
  induction r using Region.induct with
  | step table nodes ih =>
    intro c hc
    have hn := List.getElem?_eq_getElem hinitials.here
    have hmem := List.mem_of_getElem? hn
    rw [Region.start_eq, ends_bind, ends_active, if_neg (by simp [hc.2]), ends_bind]
    have hbefore := Hooks.beforeTransition_gives (δ := δ) (N := Note.Aside) (fun _ => Note.aside_of_isSilent) hhooks
      (m := ⟨table.path, .stopped, endpoint nodes (.at table.initial), e⟩) rfl
    refine (hbefore c).mono (fun _ c₁ h₁ => ?_) fun _ _ h => h
    rw [ends_bind, ends_setActive, ends_bind, Node.enterAt_eq, hn, Option.elim_some]
    have hdormant : Region.Dormant ⟨table, nodes⟩ c.marking :=
      Region.dormant_of_resting hc.1 fun i hi => by rw [hc.2] at hi; cases hi
    refine Ends.mono (Ends.and (Node.enter_shows (hr.behaviors _ (Region.mem_preorder_self _) _ hmem)
      (fun r' hr' => ih _ hmem r' hr' (hinitials.below hmem hr') (hr.below hmem hr') (hunchained.below hmem hr'))
      table.path table.initial _ fun j r' hr' => ?_) (Node.enter_confined table.path table.initial _ e _))
      (fun _ c₂ h₂ => ?_) fun _ _ h => h.1
    · rw [Marking.child_setActive, h₁.2.child]
      exact hdormant _ r' ((Region.child?_of_nodes hn j).trans hr')
    · obtain ⟨⟨hshows, hinside⟩, hsame⟩ := h₂
      have hafter := Hooks.afterTransition_gives (δ := δ) (N := Note.Aside) (fun _ => Note.aside_of_isSilent) hhooks
        (m := ⟨table.path, .stopped, endpoint nodes (.at table.initial), e⟩) rfl
      rw [ends_bind]
      refine (hafter c₂).mono (fun _ c₃ h₃ => ?_) fun _ _ h => h
      have hrest : Region.due table nodes c₃ = .ok none c₃ :=
        Region.due_of_unchained (hunchained _ (Region.mem_preorder_self _)) c₃
      unfold Region.settle
      rw [Region.ends_chain_of_rest hrest, Region.entering_of_initial (r := ⟨table, nodes⟩) hn]
      refine ⟨(hshows.after h₁.2.shows).before h₃.2.shows, ?_⟩
      have hinitial : Region.IsInitial ⟨table, nodes⟩ c₂.marking := by
        refine .intro hsame.active fun j r' hr' => ?_
        exact hinside j r' ((Region.child?_of_nodes hn j).symm.trans hr')
      exact hinitial.congr h₃.2.active h₃.2.child

/-! ## Firing a row -/

/-- The call of the action of a chosen row, if it has one, while `s` is the state that is reported. -/
def Choice.actionCalls (choice : Choice σ γ) (path : String) (s : σ) (e : Event) : List (Note σ) :=
  (choice.transition.action.map fun _ => .action path s choice.row e).toList

omit [DecidableEq σ] in
theorem Region.act_shows {choice : Choice σ γ} (hrow : choice.transition.Reliable) (path : String) (s : σ)
    (c : Configuration σ γ δ) :
    Ends (Region.act path s choice e) c (fun _ c' => c.Shows (choice.actionCalls path s e) c') fun _ _ => False := by
  unfold Region.act Choice.actionCalls
  split
  · rename_i hnone
    rw [hnone]
    exact .refl c
  · rename_i a ha
    rw [ha, ends_bind, ends_note]
    have hrun : Gives Note.Aside (fun outcome => ∃ u, outcome = .ok u ∧ True)
        (perform (a.run e).run : Turn σ γ δ (Except Cause Unit)) := by
      refine (perform_gives (fun _ => Note.aside_of_isSilent) (hrow.action a ha e)).mono fun outcome h => ?_
      obtain ⟨u, hu⟩ := h
      exact ⟨u, hu, trivial⟩
    refine (orFail_gives hrun .action path s e _).mono (fun _ c' h => ?_) fun _ _ h => h
    exact (Configuration.shows_note rfl c).before h.2.shows

/-- The transition that a chosen row makes to a state. -/
def Choice.move (choice : Choice σ γ) (path : String) (s : σ) (e : Event) : Move σ :=
  ⟨path, .state choice.state, .state s, e⟩

/-- What firing a row that leads to `target`, the state at `t`, does before its action runs. -/
def Region.moveOut (setup : Setup σ γ) (r : BuiltRegion σ γ δ) (choice : Choice σ γ) (t : Nat)
    (target : BuiltNode σ γ δ) (e : Event) : Turn σ γ δ Unit := do
  note (.fired r.data.path choice.state choice.row e)
  setup.hooks.beforeTransition (choice.move r.data.path target.data.id e)
  Node.exitAt setup r.data.path choice.position r.nodes choice.position e
  setActive (.at t)

/-- What firing a row that leads to `target`, the state at `t`, does after its action has run. -/
def Region.moveIn (setup : Setup σ γ) (r : BuiltRegion σ γ δ) (choice : Choice σ γ) (t : Nat)
    (target : BuiltNode σ γ δ) (e : Event) : Turn σ γ δ Unit := do
  Node.enterAt setup r.data.path t r.nodes t e
  Region.remember setup r.data.path choice.state target.data.id e
  setup.hooks.afterTransition (choice.move r.data.path target.data.id e)

theorem Region.fire_eq_of_state {r : BuiltRegion σ γ δ} {choice : Choice σ γ} {t : Nat} {target : BuiltNode σ γ δ}
    (ht : choice.transition.target = .state t) (htarget : r.nodes[t]? = some target) :
    Region.fire setup r.data r.nodes choice e = (do
      r.moveOut setup choice t target e
      Region.act r.data.path target.data.id choice e
      r.moveIn setup choice t target e) := by
  unfold Region.fire Region.fireWith Region.moveOut Region.moveIn
  rw [ht]
  dsimp only
  rw [htarget]
  simp only [bind_assoc, Choice.move]

section Succession

variable {r : BuiltRegion σ γ δ} {choice : Choice σ γ} {t : Nat} {source target : BuiltNode σ γ δ}
  {c c₁ c₂ c' : Configuration σ γ δ}

omit [Named σ] [DecidableEq σ] in
/-- When the target is active and nothing below it is, the region reports the target alone. -/
theorem Region.Dormant.activeStates {m : Marking δ} (h : r.Dormant m) (htarget : r.nodes[t]? = some target)
    (hactive : m.active = .at t) : r.activeStates m = [target.data.id] := by
  rw [Region.activeStates_of_at htarget hactive]
  congr 1
  refine List.eq_nil_iff_forall_not_mem.2 fun s hs => ?_
  obtain ⟨j, r', hr', hs⟩ := Region.mem_allActiveStates.1 hs
  rw [Nat.zero_add] at hs
  obtain ⟨i, n, hi, -⟩ := Region.exists_of_mem_activeStates hs
  rw [(h (t, j) r' ((Region.child?_of_nodes htarget j).trans hr')).2] at hi
  cases hi

omit [DecidableEq σ] in
theorem Region.moveOut_shows (hreliable : r.Reliable) (hhooks : setup.hooks.Reliable)
    (hlegal : r.Throughout Region.Legal c.marking) (hactive : c.marking.active = .at choice.position)
    (hsource : r.nodes[choice.position]? = some source) (target : BuiltNode σ γ δ) (t : Nat) :
    Ends (r.moveOut setup choice t target e) c
      (fun _ c₁ => c.Shows ((source.leaving r.data.path choice.position c.marking).map (Note.exitOf e)) c₁ ∧
        r.Dormant c₁.marking ∧ c₁.marking.active = .at t) fun _ _ => False := by
  have hfit : r.Throughout (Region.Fit False) c.marking := hlegal.mono fun _ _ h => ⟨h, False.elim⟩
  have hfired := note_gives (γ := γ) (δ := δ) (N := Note.Aside)
    (n := .fired r.data.path choice.state choice.row e) rfl rfl
  have hbefore := Hooks.beforeTransition_gives (δ := δ) (N := Note.Aside) (fun _ => Note.aside_of_isSilent) hhooks
    (m := choice.move r.data.path target.data.id e) rfl
  unfold Region.moveOut
  rw [ends_bind]
  refine (hfired c).mono (fun _ c₁ h₁ => ?_) fun _ _ h => h
  rw [ends_bind]
  refine (hbefore c₁).mono (fun _ c₂ h₂ => ?_) fun _ _ h => h
  have hsteps := trans_of (Configuration.Steps Note.Aside) h₁.2 h₂.2
  have hleave := Node.exitAt_shows (e := e) (hreliable.behaviors r r.mem_preorder_self)
    (fun n hn r' hr' => r'.stop_shows hhooks (hreliable.below hn hr')) choice.position c₂
  have hvacate : Ends (Node.exitAt setup r.data.path choice.position r.nodes choice.position e) c₂
      (fun _ => r.Vacated) r.HaltsLegally := by
    obtain ⟨table, nodes⟩ := r
    refine (Region.fit_leaves table False fun _ _ r _ => r.stop_fit).leaveAt ?_ (hsteps.active.trans hactive)
    exact hfit.congr Region.fit_isShallow hsteps.active hsteps.child
  rw [ends_bind]
  refine (hleave.and hvacate).mono (fun _ c₃ h₃ => ?_) fun _ _ h => h.1
  obtain ⟨hshows, hdormant, -⟩ := h₃
  rw [ends_setActive]
  rw [hsource, Option.elim_some, Node.leaving_congr hsteps.child] at hshows
  exact ⟨(hshows.after hsteps.shows).before (Configuration.Shows.refl _), hdormant, rfl⟩

theorem Region.moveIn_shows (hinitials : r.HasInitials) (hreliable : r.Reliable) (hhooks : setup.hooks.Reliable)
    (htarget : r.nodes[t]? = some target) (hunchained : ∀ r' ∈ target.regions, r'.Unchained)
    (hdormant : r.Dormant c.marking) (hactive : c.marking.active = .at t) :
    Ends (r.moveIn setup choice t target e) c
      (fun _ c' => c.Shows ((target.entering r.data.path).map (Note.entryOf e)) c' ∧
        r.Throughout (Region.Fit True) c'.marking ∧ c'.marking.active = .at t ∧
        ∀ (j : Nat) (r' : BuiltRegion σ γ δ), target.regions[j]? = some r' → r'.IsInitial (c'.marking.child (t, j)))
      fun _ _ => False := by
  have hmem := List.mem_of_getElem? htarget
  have henter := Node.enter_shows (e := e) (hreliable.behaviors r r.mem_preorder_self target hmem)
    (fun r' hr' => r'.start_shows hhooks (hinitials.below hmem hr') (hreliable.below hmem hr') (hunchained r' hr'))
    r.data.path t c fun j r' hr' => hdormant (t, j) r' ((Region.child?_of_nodes htarget j).trans hr')
  have hfit : Ends (target.enter setup r.data.path t e) c
      (fun _ c' => r.Throughout (Region.Fit True) c'.marking) r.HaltsLegally := by
    obtain ⟨table, nodes⟩ := r
    refine Node.enter_fit htarget (fun r' hr' => r'.start_fit True (hinitials.below hmem hr')) ⟨hdormant, ?_⟩ hactive
    intro i hi
    obtain rfl : t = i := Active.at.inj (hactive.symm.trans hi)
    exact (List.getElem?_eq_some_iff.1 htarget).1
  have hremember := Region.remember_gives (γ := γ) (δ := δ) (N := Note.Aside) setup r.data.path choice.state
    target.data.id e
  have hafter := Hooks.afterTransition_gives (δ := δ) (N := Note.Aside) (fun _ => Note.aside_of_isSilent) hhooks
    (m := choice.move r.data.path target.data.id e) rfl
  unfold Region.moveIn
  rw [ends_bind, Node.enterAt_eq, htarget, Option.elim_some]
  refine ((henter.and hfit).and (Node.enter_confined r.data.path t target e c)).mono (fun _ c₁ h₁ => ?_)
    fun _ _ h => h.1.1
  obtain ⟨⟨⟨hshows, hinitial⟩, hfit₁⟩, hsame⟩ := h₁
  refine ((hremember.bind fun _ _ => hafter) c₁).mono (fun _ c' h' => ?_) fun _ _ h => h
  obtain ⟨-, hsteps⟩ := h'
  refine ⟨hshows.before hsteps.shows, hfit₁.congr Region.fit_isShallow hsteps.active hsteps.child, ?_,
    fun j r' hr' => ?_⟩
  · rw [hsteps.active, hsame.active, hactive]
  · rw [hsteps.child]
    exact hinitial j r' hr'

/-- The way of a row from `source` to `target`, the state at `t`: it is fired in `c`, its action begins in `c₁` and ends
in `c₂`, and all is done in `c'`. -/
structure Region.Succession (setup : Setup σ γ) (r : BuiltRegion σ γ δ) (choice : Choice σ γ) (t : Nat)
    (source target : BuiltNode σ γ δ) (e : Event) (c c₁ c₂ c' : Configuration σ γ δ) : Prop where
  departs : r.moveOut setup choice t target e c = .ok () c₁
  acts : Region.act r.data.path target.data.id choice e c₁ = .ok () c₂
  arrives : r.moveIn setup choice t target e c₂ = .ok () c'
  /-- Before the action, what is active at and below the source is left, from the inside out, and nothing else is. -/
  left : c.Shows ((source.leaving r.data.path choice.position c.marking).map (Note.exitOf e)) c₁
  active : ((source.leaving r.data.path choice.position c.marking).map Prod.snd).Perm (r.activeStates c.marking)
  once : r.Distinct → ((source.leaving r.data.path choice.position c.marking).map Prod.snd).Nodup
  /-- The action runs while the target is reported. -/
  reported : c₁.marking.active = .at t ∧ r.activeStates c₁.marking = [target.data.id] ∧
    r.isActive target.data.id c₁.marking = true
  acted : c₁.Shows (choice.actionCalls r.data.path target.data.id e) c₂
  /-- After it, the target and the initial states below it are entered, from the outside in. -/
  entered : c₂.Shows ((target.entering r.data.path).map (Note.entryOf e)) c'
  initial : c'.marking.active = .at t ∧
    ∀ (j : Nat) (r' : BuiltRegion σ γ δ), target.regions[j]? = some r' → r'.IsInitial (c'.marking.child (t, j))
  activeStates : r.activeStates c'.marking = (target.entering r.data.path).map Prod.snd
  fit : r.Throughout (Region.Fit True) c'.marking

/-- **The order of an external transition.** In a legal configuration, where no region below the target has completion
rows and no callback fails, a row that leads from the active state to a state leaves what is active at and below its
source, each state once and those inside a composite before it. Then its action runs, while the region reports the
target; and then the target is entered and the initial states below it, each composite before those inside it, regions
in the order of their declaration. In the end the target is in its initial configuration. -/
theorem external_transition_order (hinitials : r.HasInitials) (hreliable : r.Reliable)
    (hhooks : setup.hooks.Reliable) (hlegal : r.Throughout Region.Legal c.marking)
    (hchoice : choice.Fits r.data r.nodes c) (hsource : r.nodes[choice.position]? = some source)
    (ht : choice.transition.target = .state t) (htarget : r.nodes[t]? = some target)
    (hunchained : ∀ r' ∈ target.regions, r'.Unchained) (e : Event) :
    ∃ c₁ c₂ c', Region.fire setup r.data r.nodes choice e c = .ok () c' ∧
      c.Shows ((source.leaving r.data.path choice.position c.marking).map (Note.exitOf e) ++
        choice.actionCalls r.data.path target.data.id e ++ (target.entering r.data.path).map (Note.entryOf e)) c' ∧
      r.Succession setup choice t source target e c c₁ c₂ c' := by
  have hrow : choice.transition.Reliable :=
    hreliable.rows r r.mem_preorder_self _ (List.mem_of_getElem? hchoice.row)
  obtain ⟨⟨⟩, c₁, hdeparts, hleft, hdormant, hactive⟩ :=
    (Region.moveOut_shows (e := e) hreliable hhooks hlegal hchoice.active hsource target t).exists_ok
  have hact := (Region.act_shows (e := e) hrow r.data.path target.data.id c₁).and
    (Region.act_gives (N := fun _ => True) (fun _ _ => trivial) hrow r.data.path target.data.id trivial c₁)
  obtain ⟨⟨⟩, c₂, hacts, hacted, -, hsteps⟩ := (hact.mono (fun _ _ h => h) fun _ _ h => h.1).exists_ok
  obtain ⟨⟨⟩, c', harrives, hentered, hfit, hactive', hinside⟩ :=
    (Region.moveIn_shows (e := e) hinitials hreliable hhooks htarget hunchained
      (hdormant.congr hsteps.child) (hsteps.active.trans hactive)).exists_ok
  refine ⟨c₁, c₂, c', ?_, (hleft.trans hacted).trans hentered, ?_⟩
  · rw [Region.fire_eq_of_state ht htarget, bind_of_ok hdeparts, bind_of_ok hacts]
    exact harrives
  · have hmem := List.mem_of_getElem? htarget
    have hstates : r.activeStates c'.marking = (target.entering r.data.path).map Prod.snd := by
      rw [Region.activeStates_of_at htarget hactive', Node.entering_eq, List.map_cons]
      congr 1
      refine Region.allActiveStates_of_initial fun j r' hr' => ?_
      rw [Nat.zero_add]
      exact (hinside j r' hr').activeStates (hinitials.below hmem (List.mem_of_getElem? hr'))
    have hreported := hdormant.activeStates htarget hactive
    have hisActive : r.isActive target.data.id c₁.marking = true := by
      rw [r.isActive_iff, hreported]
      exact List.mem_singleton_self _
    have hperm := Node.leaving_perm hsource hchoice.active
    exact ⟨hdeparts, hacts, harrives, hleft, hperm,
      fun hdistinct => hperm.nodup_iff.2 (Region.activeStates_nodup hdistinct _),
      ⟨hactive, hreported, hisActive⟩, hacted, hentered, ⟨hactive', hinside⟩, hstates, hfit⟩

end Succession

end Turns

namespace Lamp

/-- A row that leads from `on` to itself, with an action. -/
def resetting : Transition Lamp Unit Nat :=
  { row on (.state 0) press with action := some (Action.new fun _ => pure ()) }

/-- A lamp that starts again when it is pressed, and its light with it. -/
def resettable : BuiltRegion Lamp Unit Unit :=
  ⟨⟨"lamp", [resetting], 0⟩, [node on [lightRegion [row dim (.state 1) turn]]]⟩

/-- That lamp while its light is bright. -/
def shining : Configuration Lamp Unit Unit := ⟨{ context := () }, ⟨.at 0, [], [((0, 0), ⟨.at 1, [], []⟩)]⟩⟩

theorem resettable_reliable : resettable.Reliable := by
  have hpreorder : resettable.preorder = [resettable, lightRegion [row dim (.state 1) turn]] := rfl
  have hresetting : resetting.Reliable := ⟨fun a ha e s => by cases ha; exact ⟨(), rfl⟩, nofun⟩
  refine ⟨?_, ?_⟩
  · rw [hpreorder, List.forall_mem_cons, List.forall_mem_singleton]
    exact ⟨List.forall_mem_singleton.2 hresetting, List.forall_mem_singleton.2 (row_reliable _ _ _)⟩
  · rw [hpreorder, List.forall_mem_cons, List.forall_mem_singleton]
    refine ⟨List.forall_mem_singleton.2 (node_reliable _ _), ?_⟩
    exact List.forall_mem_cons.2 ⟨node_reliable _ _, List.forall_mem_singleton.2 (node_reliable _ _)⟩

theorem resettable_legal : resettable.Throughout Region.Legal shining.marking := by
  have hchild (k : Nat × Nat) (r' : BuiltRegion Lamp Unit Unit) (hr' : resettable.child? k = some r') :
      k = (0, 0) ∧ r' = lightRegion [row dim (.state 1) turn] := by
    obtain ⟨n, hn, hr'⟩ := Region.child?_eq_some.1 hr'
    obtain ⟨i, j⟩ := k
    match i, j with
    | 0, 0 => exact ⟨rfl, by cases hn; cases hr'; rfl⟩
    | 0, j + 1 => cases hn; cases hr'
    | i + 1, j => cases hn
  refine .intro ⟨fun i hi => ?_, fun k r' hr' hk => ?_⟩ fun k r' hr' => ?_
  · cases hi
    decide
  · obtain ⟨rfl, rfl⟩ := hchild k r' hr'
    exact absurd rfl hk
  · obtain ⟨rfl, rfl⟩ := hchild k r' hr'
    have hnone (k : Nat × Nat) : (lightRegion [row dim (.state 1) turn]).child? k = none := by
      obtain ⟨i, j⟩ := k
      match i with
      | 0 => rfl
      | 1 => rfl
      | i + 2 => rfl
    refine .intro ⟨fun i hi => ?_, fun k r' hr' => ?_⟩ fun k r' hr' => ?_
    · cases hi
      decide
    · rw [hnone k] at hr'
      cases hr'
    · rw [hnone k] at hr'
      cases hr'

end Lamp

/-- When the lamp is pressed, its light and the lamp are left, and the lamp and its dim light are entered. -/
theorem external_transition_order_resettable :
    ∃ c₁ c₂ c', Region.Succession ({} : Setup Lamp Unit) Lamp.resettable ⟨0, .on, 0, Lamp.resetting⟩ 0
        Lamp.resettable.nodes[0] Lamp.resettable.nodes[0] Lamp.press Lamp.shining c₁ c₂ c' ∧
      Lamp.shining.Shows [.exit "light" .bright Lamp.press, .exit "lamp" .on Lamp.press] c₁ ∧
      c₁.Shows [.action "lamp" .on 0 Lamp.press] c₂ ∧
      c₂.Shows [.entry "lamp" .on Lamp.press, .entry "light" .dim Lamp.press] c' ∧
      Lamp.resettable.activeStates c'.marking = [.on, .dim] := by
  have hinitials : Lamp.resettable.HasInitials := by
    unfold Region.HasInitials
    decide
  have hunchained : ∀ r' ∈ (Lamp.resettable.nodes[0]).regions, r'.Unchained := by
    unfold Region.Unchained
    decide
  have hhooks : ({} : Setup Lamp Unit).hooks.Reliable := .of_none rfl rfl
  have hchoice : Choice.Fits ⟨0, .on, 0, Lamp.resetting⟩ Lamp.resettable.data Lamp.resettable.nodes Lamp.shining :=
    ⟨rfl, ⟨_, rfl, rfl⟩, rfl⟩
  obtain ⟨c₁, c₂, c', -, -, h⟩ := external_transition_order (t := 0) hinitials Lamp.resettable_reliable hhooks
    Lamp.resettable_legal hchoice rfl rfl rfl hunchained Lamp.press
  exact ⟨c₁, c₂, c', h, h.left, h.acted, h.entered, h.activeStates⟩

end Statechart
