import Statechart.Proofs.Completions
import Statechart.Proofs.Depth
import Statechart.Proofs.LockstepUntil

/-!
# Regions in lockstep

Two regions that were compiled from the same rows run in lockstep as soon as each of their own turns does.

* `Region.Own setup r x` : `x` is a turn of the region itself, in which it calls back or writes down;
* `Node.Matches` : states that do the same and own as many regions;
* `Turn.Carries R` : callbacks run in lockstep for `R`; `Carries.own` : then so do the own turns of regions;
* `Region.Coupling setup H L R` : regions linked by `L` have matching states wherever they can be, and `R`
  relates their configurations step by step;
* `Coupling.stop`, `Coupling.start`, `Coupling.process`, `Coupling.check` : then whole passes run in lockstep.
-/

set_option autoImplicit false

namespace Statechart

open Turn

variable {σ γ δ α : Type}

/-- The states do the same and own as many regions. -/
structure Node.Matches (n n' : BuiltNode σ γ δ) : Prop where
  data : n'.data = n.data
  regions : n'.regions.length = n.regions.length

theorem Node.Matches.isComposite {n n' : BuiltNode σ γ δ} (h : n.Matches n') :
    n'.isComposite = n.isComposite := by
  unfold Node.isComposite
  rw [Bool.eq_iff_iff]
  simp [← List.length_eq_zero_iff, h.regions]

section Coupling

variable [DecidableEq σ] [Named σ]

/-- The turns of a region itself. What else it does is to move, and to have the regions of its states
move. -/
inductive Region.Own (setup : Setup σ γ) (r : BuiltRegion σ γ δ) : {α : Type} → Turn σ γ δ α → Prop where
  | note (n : Note σ) : Own setup r (Turn.note n)
  | before (m : Move σ) : Own setup r (setup.hooks.beforeTransition m)
  | after (m : Move σ) : Own setup r (setup.hooks.afterTransition m)
  | remember (path : String) (source target : σ) (e : Event) :
    Own setup r (Region.remember setup path source target e)
  | resolve (i : Nat) (s : σ) (e : Event) : Own setup r (r.data.resolve i s e)
  | act (path : String) (s : σ) {choice : Choice σ γ} (e : Event) :
    choice.transition ∈ r.data.rows → Own setup r (Region.act path s choice e)
  | entry (path : String) {i : Nat} {n : BuiltNode σ γ δ} (e : Event) : r.nodes[i]? = some n →
    Own setup r (orFail .entry path n.data.id e
      (performAt i n.data.behavior.initial (n.data.behavior.onEntry e).run))
  | exit (path : String) {i : Nat} {n : BuiltNode σ γ δ} (e : Event) : r.nodes[i]? = some n →
    Own setup r (orFail .exit path n.data.id e
      (performAt i n.data.behavior.initial (n.data.behavior.onExit e).run))

/-! ## Callbacks in lockstep -/

/-- Callbacks run in lockstep, and what the engine writes down of them leaves `R` as it is. -/
structure Turn.Carries (R : Configuration σ γ δ → Configuration σ γ δ → Prop) : Prop where
  note : ∀ n, Lockstep (fun _ => True) R (Turn.note n) (Turn.note n)
  perform : ∀ {α : Type} (f : Callback γ α), Lockstep (fun _ => True) R (Turn.perform f) (Turn.perform f)
  performAt : ∀ {α : Type} (i : Nat) (d : δ) (f : Callback (γ × δ) α),
    Lockstep (fun _ => True) R (Turn.performAt i d f) (Turn.performAt i d f)
  remember : ∀ (setup : Setup σ γ) (path : String) (source target : σ) (e : Event),
    Lockstep (fun _ => True) R (Region.remember setup path source target e)
      (Region.remember setup path source target e)

namespace Turn.Carries

variable {R : Configuration σ γ δ → Configuration σ γ δ → Prop} (h : Turn.Carries R)

omit [DecidableEq σ] [Named σ] in
theorem fails (e : DispatchError) :
    Lockstep (fun _ => True) R (Turn.fail e : Turn σ γ δ α) (Turn.fail e) :=
  fun _ _ hR => EndsAlike.fail ⟨trivial, hR⟩

omit [DecidableEq σ] [Named σ] in
include h in
/-- These runs do not part. -/
theorem carriesUntil : CarriesUntil (fun _ => False) R where
  note n := .of_lockstep (fun _ => False.elim) (h.note n)
  perform f := .of_lockstep (fun _ => False.elim) (h.perform f)
  performAt i d f := .of_lockstep (fun _ => False.elim) (h.performAt i d f)

omit [DecidableEq σ] [Named σ] in
include h in
theorem callHook (call : HookCall σ) (hook : Option (Callback γ Unit)) :
    Lockstep (fun _ => True) R (Turn.callHook call hook : Turn σ γ δ Unit) (Turn.callHook call hook) :=
  (h.carriesUntil.callHook call hook).lockstep

omit [Named σ] in
include h in
theorem accepts (t : RegionTable σ γ) (s : σ) (e : Event) :
    Lockstep (fun _ => True) R (t.accepts s e) (t.accepts s e) :=
  (h.carriesUntil.accepts t s e).lockstep

include h in
/-- The own turns of every region are in lockstep. -/
theorem own {setup : Setup σ γ} {r : BuiltRegion σ γ δ} {x : Turn σ γ δ α} (hx : Region.Own setup r x) :
    Lockstep (fun _ => True) R x x := by
  have hcarries := h.carriesUntil
  cases hx with
  | note n => exact h.note n
  | before m => exact h.callHook _ _
  | after m => exact h.callHook _ _
  | remember path source target e => exact h.remember setup path source target e
  | resolve i s e => exact (hcarries.resolve _ i s e).lockstep
  | act path s e _ => exact (hcarries.act path s _ e).lockstep
  | entry path e _ => exact (hcarries.orFail _ _ _ _ (hcarries.performAt _ _ _)).lockstep
  | exit path e _ => exact (hcarries.orFail _ _ _ _ (hcarries.performAt _ _ _)).lockstep

omit [DecidableEq σ] in
include h in
/-- States are consulted in lockstep. -/
theorem consult (n : BuiltNode σ γ δ) (path : String) (i : Nat) (e : Event) :
    Lockstep (fun _ => True) R (n.consult path i e) (n.consult path i e) :=
  (h.carriesUntil.consult n path i e).lockstep

end Turn.Carries

/-! ## Linked regions -/

/-- Linked regions have one table, matching states and linked regions below; their own turns run in lockstep
for `R r`, where `r` is the first of the two. -/
structure Region.Coupling (setup : Setup σ γ) (H : Halt → Prop)
    (L : BuiltRegion σ γ δ → BuiltRegion σ γ δ → Prop)
    (R : BuiltRegion σ γ δ → Configuration σ γ δ → Configuration σ γ δ → Prop) : Prop where
  overflow : ∀ path limit, H (.error (.completionOverflow path limit))
  table : ∀ {r r'}, L r r' → r'.data = r.data
  child : ∀ {r r' s s' k}, L r r' → r.child? k = some s → r'.child? k = some s' →
    L s s' ∧ Spans k (R r) (R s)
  active : ∀ {r c d}, R r c d → d.marking.active = c.marking.active
  state : ∀ {r r' c d i}, L r r' → R r c d → c.marking.active = .at i →
    Option.Rel Node.Matches r.nodes[i]? r'.nodes[i]?
  move : ∀ {r r' c d a}, L r r' → R r c d → (∀ i, a = .at i → r.data.LeadsTo i) →
    R r { c with marking := c.marking.setActive a } { d with marking := d.marking.setActive a }
  own : ∀ {r r'} {α : Type} {x : Turn σ γ δ α}, L r r' → Region.Own setup r x → Lockstep H (R r) x x

variable {setup : Setup σ γ} {H : Halt → Prop} {L : BuiltRegion σ γ δ → BuiltRegion σ γ δ → Prop}
  {R : BuiltRegion σ γ δ → Configuration σ γ δ → Configuration σ γ δ → Prop}

/-! ## Loops over linked regions -/

section Loops

variable {T : Configuration σ γ δ → Configuration σ γ δ → Prop} {position index : Nat}
  {rs rs' : List (BuiltRegion σ γ δ)} {e : Event}

omit [DecidableEq σ] in
theorem Region.stopAll_lockstep
    (h : Lockstep H T (onEach (fun r => r.stop setup e) position index rs)
      (onEach (fun r => r.stop setup e) position index rs')) :
    Lockstep H T (Region.stopAll setup position index rs e) (Region.stopAll setup position index rs' e) := by
  intro c d hT
  unfold EndsAlike
  simp only [Region.ends_stopAll]
  refine Ends.mono (h c d hT) (fun _ _ h => ?_) fun _ _ h => h
  exact h.mono (fun _ _ h => ⟨trivial, h.2⟩) fun _ _ h => h

theorem Region.startAll_lockstep
    (h : Lockstep H T (onEach (fun r => r.start setup e) position index rs)
      (onEach (fun r => r.start setup e) position index rs')) :
    Lockstep H T (Region.startAll setup position index rs e) (Region.startAll setup position index rs' e) := by
  intro c d hT
  unfold EndsAlike
  simp only [Region.ends_startAll]
  refine Ends.mono (h c d hT) (fun _ _ h => ?_) fun _ _ h => h
  exact h.mono (fun _ _ h => ⟨trivial, h.2⟩) fun _ _ h => h

theorem Region.processAll_lockstep
    (h : Lockstep H T (onEach (fun r => r.process setup e) position index rs)
      (onEach (fun r => r.process setup e) position index rs')) :
    Lockstep H T (Region.processAll setup position index rs e)
      (Region.processAll setup position index rs' e) := by
  intro c d hT
  unfold EndsAlike
  simp only [Region.ends_processAll]
  refine Ends.mono (h c d hT) (fun _ _ h => ?_) fun _ _ h => h
  exact h.mono (fun _ _ h => ⟨by rw [h.1], h.2⟩) fun _ _ h => h

end Loops

namespace Region.Coupling

variable (C : Coupling setup H L R) {r r' : BuiltRegion σ γ δ} {n n' : BuiltNode σ γ δ} {i : Nat} {e : Event}

/-! ## States -/

include C in
/-- A state that can become active is there in both regions or in neither. -/
theorem led (hL : L r r') {c d : Configuration σ γ δ} (hR : R r c d) (hi : r.data.LeadsTo i) :
    Option.Rel Node.Matches r.nodes[i]? r'.nodes[i]? :=
  C.state hL (C.move (a := .at i) hL hR fun _ h => Active.at.inj h ▸ hi) rfl

include C in
/-- Every region of a state takes its turn in lockstep. -/
theorem onEach (hL : L r r') (hn : r.nodes[i]? = some n) (hn' : r'.nodes[i]? = some n') (hnn : n.Matches n')
    {x : BuiltRegion σ γ δ → Turn σ γ δ α}
    (hx : ∀ j s s', r.child? (i, j) = some s → r'.child? (i, j) = some s' → Lockstep H (R s) (x s) (x s')) :
    Lockstep H (R r) (Turn.onEach x i 0 n.regions) (Turn.onEach x i 0 n'.regions) := by
  refine Lockstep.onEach hnn.regions fun j s s' hs hs' => ?_
  rw [← Region.child?_of_nodes hn] at hs
  rw [← Region.child?_of_nodes hn'] at hs'
  rw [Nat.zero_add]
  exact (hx j s s' hs hs').inChild (C.child hL hs hs').2

include C in
/-- Matching states are complete at the same time. -/
theorem isComplete (hL : L r r') (hn : r.nodes[i]? = some n) (hn' : r'.nodes[i]? = some n') (hnn : n.Matches n')
    {c d : Configuration σ γ δ} (hR : R r c d) : n'.isComplete i d.marking = n.isComplete i c.marking := by
  have hactive (j : Nat) (hj : j < n.regions.length) :
      (d.marking.child (i, j)).active = (c.marking.child (i, j)).active := by
    have hs : r.child? (i, j) = some n.regions[j] := by
      rw [Region.child?_of_nodes hn, List.getElem?_eq_getElem hj]
    obtain ⟨s', hs'⟩ : ∃ s', r'.child? (i, j) = some s' := by
      rw [Region.child?_of_nodes hn']
      exact ⟨_, List.getElem?_eq_getElem (hnn.regions ▸ hj)⟩
    exact C.active ((C.child hL hs hs').2 c d hR).1
  unfold Node.isComplete
  rw [hnn.regions]
  refine Bool.eq_iff_iff.2 ?_
  simp only [List.all_eq_true, List.mem_range, decide_eq_true_eq]
  constructor
  · exact fun h j hj => (hactive j hj).symm.trans (h j hj)
  · exact fun h j hj => (hactive j hj).trans (h j hj)

include C in
/-- A state is left in lockstep if its regions stop in lockstep. -/
theorem exit (hL : L r r') (path : String) (hn : r.nodes[i]? = some n) (hn' : r'.nodes[i]? = some n')
    (hnn : n.Matches n')
    (ih : ∀ k s s', r.child? k = some s → r'.child? k = some s' →
      Lockstep H (R s) (s.stop setup e) (s'.stop setup e)) :
    Lockstep H (R r) (n.exit setup path i e) (n'.exit setup path i e) := by
  have hregions := Region.stopAll_lockstep (C.onEach hL hn hn' hnn fun j s s' => ih (i, j) s s')
  obtain ⟨unit, regions⟩ := n
  obtain ⟨unit', regions'⟩ := n'
  obtain rfl : unit' = unit := hnn.data
  rw [Node.exit, Node.exit]
  exact hregions.bind fun _ => (C.own hL (.note _)).bind fun _ => C.own hL (.exit path e hn)

include C in
/-- A state is entered in lockstep if its regions start in lockstep. -/
theorem enter (hL : L r r') (path : String) (hn : r.nodes[i]? = some n) (hn' : r'.nodes[i]? = some n')
    (hnn : n.Matches n')
    (ih : ∀ k s s', r.child? k = some s → r'.child? k = some s' →
      Lockstep H (R s) (s.start setup e) (s'.start setup e)) :
    Lockstep H (R r) (n.enter setup path i e) (n'.enter setup path i e) := by
  have hregions := Region.startAll_lockstep (C.onEach hL hn hn' hnn fun j s s' => ih (i, j) s s')
  obtain ⟨unit, regions⟩ := n
  obtain ⟨unit', regions'⟩ := n'
  obtain rfl : unit' = unit := hnn.data
  rw [Node.enter, Node.enter]
  exact (C.own hL (.note _)).bind fun _ => (C.own hL (.entry path e hn)).bind fun _ => hregions

include C in
/-- A state reacts in lockstep if its regions process the event in lockstep. -/
theorem react (hL : L r r') (path : String) (hn : r.nodes[i]? = some n) (hn' : r'.nodes[i]? = some n')
    (hnn : n.Matches n') (hconsult : Lockstep H (R r) (n.consult path i e) (n.consult path i e))
    (ih : ∀ k s s', r.child? k = some s → r'.child? k = some s' →
      Lockstep H (R s) (s.process setup e) (s'.process setup e)) :
    Lockstep H (R r) (n.react setup path i e) (n'.react setup path i e) := by
  have hregions := Region.processAll_lockstep (C.onEach hL hn hn' hnn fun j s s' => ih (i, j) s s')
  have hsame : n'.consult path i e = n.consult path i e := by unfold Node.consult; rw [hnn.data]
  rw [Node.react_eq, Node.react_eq, hsame]
  refine hregions.bind fun processed => ?_
  split
  · exact .pure true
  · exact hconsult

include C in
/-- What hooks are told of the active state is the same. -/
theorem endpoint (hL : L r r') {c d : Configuration σ γ δ} (hR : R r c d) {a : Active}
    (ha : ∀ i, a = .at i → c.marking.active = .at i ∨ r.data.LeadsTo i) :
    endpoint r'.nodes a = endpoint r.nodes a := by
  cases a with
  | stopped => rfl
  | final => rfl
  | «at» i =>
    have hmatch : Option.Rel Node.Matches r.nodes[i]? r'.nodes[i]? :=
      (ha i rfl).elim (C.state hL hR) (C.led hL hR)
    unfold Statechart.endpoint
    dsimp only
    generalize r.nodes[i]? = o, r'.nodes[i]? = o' at hmatch
    cases hmatch with
    | none => rfl
    | some hnn =>
      dsimp only [Option.elim]
      rw [hnn.data]

/-! ## Whole passes -/

include C in
theorem moved (hL : L r r') {a : Active} (ha : ∀ i, a = .at i → r.data.LeadsTo i) :
    Lockstep H (R r) (setActive a) (setActive a) :=
  fun _ _ hR => ⟨rfl, C.move hL hR ha⟩

include C in
theorem stop (e : Event) (hL : L r r') : Lockstep H (R r) (r.stop setup e) (r'.stop setup e) := by
  induction r using Region.induct_child generalizing r' with
  | step r ih =>
    have hbelow : ∀ k s s', r.child? k = some s → r'.child? k = some s' →
        Lockstep H (R s) (s.stop setup e) (s'.stop setup e) :=
      fun k s s' hs hs' => ih k s hs (C.child hL hs hs').1
    obtain ⟨table, nodes⟩ := r
    obtain ⟨table', nodes'⟩ := r'
    obtain rfl : table' = table := C.table hL
    rw [Region.stop, Region.stop]
    refine Lockstep.onActive (fun _ _ => C.active) fun c d hR => ?_
    have hexit (i : Nat) (hi : c.marking.active = .at i) : Lockstep H (R ⟨table', nodes⟩)
        (Node.exitAt setup table'.path i nodes i e) (Node.exitAt setup table'.path i nodes' i e) := by
      rw [Node.exitAt_eq, Node.exitAt_eq]
      exact Lockstep.elim (C.state hL hR hi) () fun n n' hn hn' hnn =>
        C.exit hL _ hn hn' hnn fun k s s' => hbelow k s s'
    have hsource : Statechart.endpoint nodes' c.marking.active = Statechart.endpoint nodes c.marking.active :=
      C.endpoint hL hR fun _ h => .inl h
    rw [hsource]
    generalize c.marking.active = a at hexit
    have hmove : Lockstep H (R ⟨table', nodes⟩) (setActive .stopped) (setActive .stopped) :=
      C.moved hL fun _ h => by cases h
    cases a with
    | stopped => exact EndsAlike.pure hR
    | «at» i =>
      refine Lockstep.bind (C.own hL (.before _)) (fun _ => ?_) c d hR
      exact (hexit i rfl).bind fun _ => hmove.bind fun _ => C.own hL (.after _)
    | final =>
      refine Lockstep.bind (C.own hL (.before _)) (fun _ => ?_) c d hR
      exact hmove.bind fun _ => C.own hL (.after _)

/-! ## Firing and settling -/

include C in
/-- A row fires in lockstep if the regions below stop and start in lockstep. -/
theorem fire (hL : L r r') {choice : Choice σ γ} (hrow : choice.transition ∈ r.data.rows)
    (hsource : Option.Rel Node.Matches r.nodes[choice.position]? r'.nodes[choice.position]?)
    (ih : ∀ k s s', r.child? k = some s → r'.child? k = some s' →
      Lockstep H (R s) (s.start setup e) (s'.start setup e)) :
    Lockstep H (R r) (Region.fire setup r.data r.nodes choice e) (Region.fire setup r.data r'.nodes choice e) := by
  intro c d hR
  have hexit : Lockstep H (R r) (Node.exitAt setup r.data.path choice.position r.nodes choice.position e)
      (Node.exitAt setup r.data.path choice.position r'.nodes choice.position e) := by
    rw [Node.exitAt_eq, Node.exitAt_eq]
    exact Lockstep.elim hsource () fun n n' hn hn' hnn =>
      C.exit hL _ hn hn' hnn fun k s s' hs hs' => C.stop e (C.child hL hs hs').1
  have hact (s : σ) : Lockstep H (R r) (act r.data.path s choice e) (act r.data.path s choice e) :=
    C.own hL (.act _ s e hrow)
  unfold Region.fire fireWith
  refine Lockstep.bind (C.own hL (.note _)) (fun _ => ?_) c d hR
  cases htarget : choice.transition.target with
  | internal => exact hact _
  | final =>
    refine (C.own hL (.before _)).bind fun _ => hexit.bind fun _ => ?_
    have hmove : Lockstep H (R r) (setActive .final) (setActive .final) :=
      C.moved hL fun _ h => by cases h
    exact hmove.bind fun _ => (hact _).bind fun _ => C.own hL (.after _)
  | state t =>
    have hleads : r.data.LeadsTo t := .inr ⟨_, hrow, htarget⟩
    have hmatch := C.led hL hR hleads
    have henter : Lockstep H (R r) (Node.enterAt setup r.data.path t r.nodes t e)
        (Node.enterAt setup r.data.path t r'.nodes t e) := by
      rw [Node.enterAt_eq, Node.enterAt_eq]
      exact Lockstep.elim hmatch () fun n n' hn hn' hnn => C.enter hL _ hn hn' hnn ih
    dsimp only
    obtain ⟨hn, hn'⟩ | ⟨n, n', hn, hn', hnn⟩ := Option.Rel.both hmatch
    · rw [hn, hn']
      exact .pure ()
    · rw [hn, hn']
      dsimp only
      rw [hnn.data]
      refine (C.own hL (.before _)).bind fun _ => hexit.bind fun _ => ?_
      refine (C.moved hL fun i hi => ?_).bind fun _ => (hact _).bind fun _ => ?_
      · obtain rfl := Active.at.inj hi
        exact hleads
      · exact henter.bind fun _ => (C.own hL (.remember _ _ _ _)).bind fun _ => C.own hL (.after _)

include C in
/-- The same completion row is due. -/
theorem due (hL : L r r') :
    Lockstep H (R r) (Region.due r.data r.nodes) (Region.due r.data r'.nodes) := by
  unfold Region.due
  refine Lockstep.onActive (fun _ _ => C.active) fun c d hR => ?_
  cases hactive : c.marking.active with
  | stopped => exact EndsAlike.pure hR
  | final => exact EndsAlike.pure hR
  | «at» i =>
    dsimp only
    obtain ⟨hn, hn'⟩ | ⟨n, n', hn, hn', hnn⟩ := Option.Rel.both (C.state hL hR hactive)
    · rw [hn, hn']
      exact EndsAlike.pure hR
    · rw [hn, hn']
      refine EndsAlike.get ?_
      rw [C.isComplete hL hn hn' hnn hR, hnn.data]
      split
      · exact C.own hL (.resolve i _ _) c d hR
      · exact EndsAlike.pure hR

include C in
/-- Completion rows are chained in lockstep. -/
theorem chain (hL : L r r')
    (ih : ∀ k s s', r.child? k = some s → r'.child? k = some s' →
      Lockstep H (R s) (s.start setup .completion) (s'.start setup .completion)) (steps : Nat) :
    Lockstep H (R r)
      (Region.chain setup r.data r.nodes (fun choice => Region.fire setup r.data r.nodes choice .completion) steps)
      (Region.chain setup r.data r'.nodes
        (fun choice => Region.fire setup r.data r'.nodes choice .completion) steps) := by
  induction steps with
  | zero =>
    rw [Region.chain, Region.chain]
    refine (C.due hL).bind fun found => ?_
    split
    · exact (C.own hL (.note _)).bind fun _ _ _ hR => EndsAlike.fail ⟨C.overflow _ _, hR⟩
    · exact .pure ()
  | succ steps ihsteps =>
    rw [Region.chain, Region.chain]
    intro c d hR
    refine ((C.due hL c d hR).knowing Region.due_fits).bind fun found c' d' h => ?_
    obtain ⟨hfits, hR'⟩ := h
    cases found with
    | none => exact EndsAlike.pure hR'
    | some choice =>
      have hchoice := hfits choice rfl
      have hfire := C.fire hL (List.mem_of_getElem? hchoice.row) (C.state hL hR' hchoice.active) ih
      exact hfire.bind (fun _ => ihsteps) c' d' hR'

include C in
/-- Regions settle in lockstep. -/
theorem settle (hL : L r r')
    (ih : ∀ k s s', r.child? k = some s → r'.child? k = some s' →
      Lockstep H (R s) (s.start setup .completion) (s'.start setup .completion)) :
    Lockstep H (R r) (Region.settle setup r.data r.nodes) (Region.settle setup r.data r'.nodes) :=
  C.chain hL ih _

include C in
theorem start (e : Event) (hL : L r r') : Lockstep H (R r) (r.start setup e) (r'.start setup e) := by
  induction r using Region.induct_child generalizing r' e with
  | step r ih =>
    have hbelow (e : Event) : ∀ k s s', r.child? k = some s → r'.child? k = some s' →
        Lockstep H (R s) (s.start setup e) (s'.start setup e) :=
      fun k s s' hs hs' => ih k s hs e (C.child hL hs hs').1
    have hsettle := C.settle hL (hbelow .completion)
    obtain ⟨table, nodes⟩ := r
    obtain ⟨table', nodes'⟩ := r'
    obtain rfl : table' = table := C.table hL
    rw [Region.start_eq, Region.start_eq]
    refine Lockstep.onActive (fun _ _ => C.active) fun c d hR => ?_
    have hleads : table'.LeadsTo table'.initial := .inl rfl
    have hinitial : ∀ i, Active.at table'.initial = .at i → table'.LeadsTo i := fun i hi =>
      Active.at.inj hi ▸ hleads
    have henter : Lockstep H (R ⟨table', nodes⟩)
        (Node.enterAt setup table'.path table'.initial nodes table'.initial e)
        (Node.enterAt setup table'.path table'.initial nodes' table'.initial e) := by
      rw [Node.enterAt_eq, Node.enterAt_eq]
      exact Lockstep.elim (C.led hL hR hleads) () fun n n' hn hn' hnn =>
        C.enter hL _ hn hn' hnn fun k s s' => hbelow e k s s'
    have htarget : Statechart.endpoint nodes' (.at table'.initial) =
        Statechart.endpoint nodes (.at table'.initial) :=
      C.endpoint hL hR fun i hi => .inr (hinitial i hi)
    rw [htarget]
    split
    · exact EndsAlike.pure hR
    · refine Lockstep.bind (C.own hL (.before _)) (fun _ => ?_) c d hR
      refine (C.moved hL hinitial).bind fun _ => henter.bind fun _ => ?_
      exact (C.own hL (.after _)).bind fun _ => hsettle

include C in
/-- The active state has the region respond in lockstep if the regions below process events in lockstep. -/
theorem respond (e : Event) (hL : L r r') {c d : Configuration σ γ δ} (hR : R r c d)
    (hactive : c.marking.active = .at i) (hn : r.nodes[i]? = some n) (hn' : r'.nodes[i]? = some n')
    (hnn : n.Matches n')
    (hconsult : Lockstep H (R r) (n.consult r.data.path i e) (n.consult r.data.path i e))
    (ih : ∀ k s s', r.child? k = some s → r'.child? k = some s' →
      Lockstep H (R s) (s.process setup e) (s'.process setup e)) :
    EndsAlike (Region.respond setup r.data r.nodes i n e) (Region.respond setup r.data r'.nodes i n' e) c d
      (fun _ => R r) fun h c' d' => H h ∧ R r c' d' := by
  have hstart (e : Event) : ∀ k s s', r.child? k = some s → r'.child? k = some s' →
      Lockstep H (R s) (s.start setup e) (s'.start setup e) :=
    fun k s s' hs hs' => C.start e (C.child hL hs hs').1
  have hsettle := C.settle hL (hstart .completion)
  unfold Region.respond
  rw [hnn.data, hnn.isComposite]
  refine EndsAlike.bind ((C.own hL (.resolve i n.data.id e) c d hR).knowing
    (RegionTable.resolve_fits hactive hn)) fun found c' d' h => ?_
  obtain ⟨hfits, hR'⟩ := h
  cases found with
  | some choice =>
    have hchoice := hfits choice rfl
    have hrow := List.mem_of_getElem? hchoice.row
    refine (C.fire hL hrow (C.state hL hR' hchoice.active) (hstart e)).bind (fun _ => ?_) c' d' hR'
    dsimp only
    split
    · exact hsettle.bind fun _ => .pure true
    · exact .pure true
  | none =>
    refine (C.react hL _ hn hn' hnn hconsult ih).bind (fun processed => ?_) c' d' hR'
    split
    · exact hsettle.bind fun _ => .pure processed
    · exact .pure processed

include C in
/-- Regions process events in lockstep if states are consulted in lockstep. -/
theorem process (hconsult : ∀ {r r' i} {n : BuiltNode σ γ δ}, L r r' → r.nodes[i]? = some n → ∀ path e,
      Lockstep H (R r) (n.consult path i e) (n.consult path i e)) (e : Event) (hL : L r r') :
    Lockstep H (R r) (r.process setup e) (r'.process setup e) := by
  induction r using Region.induct_child generalizing r' with
  | step r ih =>
    have hbelow : ∀ k s s', r.child? k = some s → r'.child? k = some s' →
        Lockstep H (R s) (s.process setup e) (s'.process setup e) :=
      fun k s s' hs hs' => ih k s hs (C.child hL hs hs').1
    obtain ⟨table, nodes⟩ := r
    obtain ⟨table', nodes'⟩ := r'
    obtain rfl : table' = table := C.table hL
    rw [Region.process, Region.process]
    refine Lockstep.onActive (fun _ _ => C.active) fun c d hR => ?_
    cases hactive : c.marking.active with
    | stopped => exact EndsAlike.pure hR
    | final => exact EndsAlike.pure hR
    | «at» i =>
      dsimp only
      obtain ⟨hn, hn'⟩ | ⟨n, n', hn, hn', hnn⟩ := Option.Rel.both (C.state hL hR hactive)
      · rw [show nodes[i]? = none from hn, show nodes'[i]? = none from hn']
        exact EndsAlike.pure hR
      · have hthis := C.respond e hL hR hactive hn hn' hnn (hconsult hL hn _ e) hbelow
        unfold Region.respond at hthis
        rw [show nodes[i]? = some n from hn, show nodes'[i]? = some n' from hn']
        dsimp only
        rw [Node.reactAt_eq, Node.reactAt_eq, show nodes[i]? = some n from hn,
          show nodes'[i]? = some n' from hn']
        cases e.isCompletion with
        | true => exact EndsAlike.pure hR
        | false => exact hthis

end Region.Coupling

/-! ## Dry runs -/

omit [DecidableEq σ] [Named σ] in
/-- What a state itself foretells about an event. -/
def Node.foretell (position : Nat) (n : BuiltNode σ γ δ) (e : Event) : Turn σ γ δ Bool := do
  let c ← get
  return n.data.behavior.accepts c.world.context (c.marking.data position n.data.behavior.initial) e

omit [Named σ] in
theorem Node.accepts_eq (position : Nat) (n : BuiltNode σ γ δ) (e : Event) :
    n.accepts position e = (do
      if ← Region.checkAny position 0 n.regions e then return true
      n.foretell position e) := by
  obtain ⟨unit, regions⟩ := n
  rfl

omit [Named σ] in
theorem Region.checkAny_lockstep {T : Configuration σ γ δ → Configuration σ γ δ → Prop} {position index : Nat}
    {rs rs' : List (BuiltRegion σ γ δ)} {e : Event} (hlength : rs'.length = rs.length)
    (h : ∀ j r r', rs[j]? = some r → rs'[j]? = some r' →
      Lockstep H T (inChild (position, index + j) (r.check e)) (inChild (position, index + j) (r'.check e))) :
    Lockstep H T (Region.checkAny position index rs e) (Region.checkAny position index rs' e) := by
  induction rs generalizing index rs' with
  | nil =>
    obtain rfl := List.eq_nil_of_length_eq_zero hlength
    exact .pure false
  | cons r rs ih =>
    obtain ⟨r', rs', rfl⟩ := List.exists_cons_of_length_eq_add_one hlength
    rw [Region.checkAny, Region.checkAny]
    refine (h 0 r r' rfl rfl).bind fun first => ?_
    split
    · exact .pure true
    · refine ih (by simpa using hlength) fun j s s' hs hs' => ?_
      have hj := h (j + 1) s s' hs hs'
      rwa [show index + (j + 1) = index + 1 + j by omega] at hj

/-- Dry runs are in lockstep, too, if tables and states foretell the same. -/
theorem Region.Coupling.check (C : Coupling setup H L R)
    (haccepts : ∀ {r r'}, L r r' → ∀ s e, Lockstep H (R r) (r.data.accepts s e) (r.data.accepts s e))
    (hforetell : ∀ {r r' i} {n : BuiltNode σ γ δ}, L r r' → r.nodes[i]? = some n → ∀ e,
      Lockstep H (R r) (n.foretell i e) (n.foretell i e))
    {r r' : BuiltRegion σ γ δ} (e : Event) (hL : L r r') : Lockstep H (R r) (r.check e) (r'.check e) := by
  induction r using Region.induct_child generalizing r' with
  | step r ih =>
    have hregions {i : Nat} {n n' : BuiltNode σ γ δ} (hn : r.nodes[i]? = some n) (hn' : r'.nodes[i]? = some n')
        (hnn : n.Matches n') :
        Lockstep H (R r) (Region.checkAny i 0 n.regions e) (Region.checkAny i 0 n'.regions e) := by
      refine Region.checkAny_lockstep hnn.regions fun j s s' hs hs' => ?_
      rw [← Region.child?_of_nodes hn] at hs
      rw [← Region.child?_of_nodes hn'] at hs'
      rw [Nat.zero_add]
      exact (ih _ s hs (C.child hL hs hs').1).inChild (C.child hL hs hs').2
    have hresolve := haccepts hL
    have htell {i : Nat} {n : BuiltNode σ γ δ} (hn : r.nodes[i]? = some n) := hforetell hL hn e
    obtain ⟨table, nodes⟩ := r
    obtain ⟨table', nodes'⟩ := r'
    obtain rfl : table' = table := C.table hL
    rw [Region.check, Region.check]
    refine Lockstep.onActive (fun _ _ => C.active) fun c d hR => ?_
    cases hactive : c.marking.active with
    | stopped => exact EndsAlike.pure hR
    | final => exact EndsAlike.pure hR
    | «at» i =>
      dsimp only
      obtain ⟨hn, hn'⟩ | ⟨n, n', hn, hn', hnn⟩ := Option.Rel.both (C.state hL hR hactive)
      · rw [show nodes[i]? = none from hn, show nodes'[i]? = none from hn']
        exact EndsAlike.pure hR
      · have hlook : n'.foretell i e = n.foretell i e := by unfold Node.foretell; rw [hnn.data]
        rw [show nodes[i]? = some n from hn, show nodes'[i]? = some n' from hn']
        dsimp only
        rw [Node.acceptsAt_eq, Node.acceptsAt_eq, show nodes[i]? = some n from hn,
          show nodes'[i]? = some n' from hn', hnn.data]
        dsimp only [Option.elim]
        rw [Node.accepts_eq, Node.accepts_eq, hlook]
        refine (hresolve n.data.id e).bind (fun accepted => ?_) c d hR
        split
        · exact .pure true
        · refine (hregions hn hn' hnn).bind fun below => ?_
          split
          · exact .pure true
          · exact htell hn

end Coupling

end Statechart
