import Statechart.Proofs.Calls

/-!
# The effort of a dispatch

What a dispatch does is bounded by the regions of the machine and the limit on completion chains, whatever the
callbacks answer: each chain of a region fires at most as many rows as the limit allows for, and each of them starts
and stops regions below, whose chains are bounded in the same way.

* `Region.effort` : what a region does at most when it starts, stops or gets an event;
* `Configuration.calls` : how much was done so far; `Turn.Costs n x` : the turn does at most `n` more;
* `Region.chain_costs`, `Region.stop_costs`, `Region.start_costs`, `Region.process_costs`;
* `Chart.handle_costs` : a whole dispatch with its recovery.
-/

set_option autoImplicit false

namespace Statechart

open Turn

variable {σ γ δ α β : Type}

/-! ## The effort of a region -/

mutual

/-- What a region does at most when it starts, stops or gets an event, where chains are limited. -/
def Region.effort (limit : Nat) : BuiltRegion σ γ δ → Nat
  | ⟨table, nodes⟩ => (limit + 2) * (table.rows.length + 2 * Node.effortOfNodes limit nodes + 7)

/-- The sum over the states of a region. -/
def Node.effortOfNodes (limit : Nat) : List (BuiltNode σ γ δ) → Nat
  | [] => 0
  | node :: nodes => node.effort limit + Node.effortOfNodes limit nodes

/-- What a state does at most when it is entered, left or reacts. -/
def Node.effort (limit : Nat) : BuiltNode σ γ δ → Nat
  | ⟨_, regions⟩ => 3 + Region.effortOfRegions limit regions

/-- The sum over the regions of a state. -/
def Region.effortOfRegions (limit : Nat) : List (BuiltRegion σ γ δ) → Nat
  | [] => 0
  | r :: rs => r.effort limit + Region.effortOfRegions limit rs

end

/-- What a region does at most for one row: it looks for the row, leaves one state and enters another. -/
def Region.effortOfRow (limit : Nat) (table : RegionTable σ γ) (nodes : List (BuiltNode σ γ δ)) : Nat :=
  table.rows.length + 2 * Node.effortOfNodes limit nodes + 7

theorem Region.effortOfRow_le (limit : Nat) (table : RegionTable σ γ) (nodes : List (BuiltNode σ γ δ)) :
    Region.effortOfRow limit table nodes ≤ Region.effort limit ⟨table, nodes⟩ :=
  Nat.le_mul_of_pos_left _ (Nat.succ_pos _)

theorem Node.effort_eq (limit : Nat) (n : BuiltNode σ γ δ) :
    n.effort limit = 3 + Region.effortOfRegions limit n.regions := by
  obtain ⟨unit, regions⟩ := n
  rw [Node.effort]
  rfl

theorem Node.effort_le {limit : Nat} {nodes : List (BuiltNode σ γ δ)} {n : BuiltNode σ γ δ} (hn : n ∈ nodes) :
    n.effort limit ≤ Node.effortOfNodes limit nodes := by
  induction nodes with
  | nil => cases hn
  | cons node nodes ih =>
    rw [Node.effortOfNodes]
    rcases List.mem_cons.1 hn with rfl | hn
    · exact Nat.le_add_right _ _
    · exact (ih hn).trans (Nat.le_add_left _ _)

/-! ## What turns cost -/

/-- How much was done so far: rows fired, callbacks called, dispatches begun and ended, failures and overflows. What
callbacks raise does not count. -/
def Configuration.calls (c : Configuration σ γ δ) : Nat := c.notes.countP fun n => !n.isSilent

/-- However the turn ends, it does at most `n`. -/
def Turn.Costs (n : Nat) (x : Turn σ γ δ α) : Prop :=
  ∀ c, Ends x c (fun _ c' => c'.calls ≤ c.calls + n) fun _ c' => c'.calls ≤ c.calls + n

namespace Turn.Costs

variable {n k : Nat} {x : Turn σ γ δ α}

theorem mono (h : Costs n x) (hnk : n ≤ k) : Costs k x := fun c =>
  (h c).mono (fun _ _ h => h.trans (Nat.add_le_add_left hnk _)) fun _ _ h => h.trans (Nat.add_le_add_left hnk _)

theorem pure (a : α) : Costs n (Pure.pure a : Turn σ γ δ α) := fun _ => Nat.le_add_right _ _

theorem bind {f : α → Turn σ γ δ β} (hx : Costs n x) (hf : ∀ a, Costs k (f a)) : Costs (n + k) (x >>= f) := by
  intro c
  rw [ends_bind]
  refine (hx c).mono (fun a c' h => ?_) fun _ c' h => by omega
  exact (hf a c').mono (fun _ _ h' => by omega) fun _ _ h' => by omega

theorem inChild (key : Nat × Nat) (hx : Costs n x) : Costs n (inChild key x) := by
  intro c
  rw [ends_inChild]
  exact hx ⟨c.world, c.marking.child key⟩

theorem elim {ι : Type} {o : Option ι} {a : α} {f : ι → Turn σ γ δ α} (h : ∀ i, o = some i → Costs n (f i)) :
    Costs n (o.elim (Pure.pure a) f) := by
  cases o with
  | none => exact Costs.pure a
  | some i => exact h i rfl

end Turn.Costs

section Calls

variable {n : Nat} {e : Event}

namespace Turn

theorem note_costs (note : Note σ) : Costs 1 (Turn.note note : Turn σ γ δ Unit) := by
  intro c
  have hcount : [note].countP (fun n => !n.isSilent) ≤ 1 := List.countP_le_length
  rw [ends_note, Configuration.calls, Configuration.notes_note, List.countP_append]
  exact Nat.add_le_add_left hcount _

/-- What is only raised does not count. -/
theorem costs_of_follows {x : Turn σ γ δ α}
    (h : ∀ c, Ends x c (fun _ c' => c.Follows (fun n => n.isSilent = true) c')
      fun _ c' => c.Follows (fun n => n.isSilent = true) c') : Costs 0 x := by
  have hcalls {c c' : Configuration σ γ δ} (h : c.Follows (fun n => n.isSilent = true) c') :
      c'.calls ≤ c.calls + 0 := by
    obtain ⟨l, hl, hsilent⟩ := h.writes
    have hnone : l.countP (fun n => !n.isSilent) = 0 := List.countP_eq_zero.2 fun n hn => by simp [hsilent n hn]
    rw [Configuration.calls, hl, List.countP_append, hnone]
    exact Nat.le_refl _
  exact fun c => (h c).mono (fun _ _ h => hcalls h) fun _ _ h => hcalls h

theorem Inert.costs {x : Turn σ γ δ α} (h : Inert (fun n => n.isSilent = true) x) : Costs 0 x :=
  costs_of_follows fun c => (h c).mono (fun _ _ h => h.follows) fun _ _ h => h.1.follows

theorem perform_costs (f : Callback γ α) : Costs 0 (perform f : Turn σ γ δ α) := (perform_inert (fun _ => id) f).costs

theorem performAt_costs (position : Nat) (initial : δ) (f : Callback (γ × δ) α) :
    Costs 0 (performAt position initial f : Turn σ γ δ α) :=
  (performAt_inert (fun _ => id) position initial f).costs

theorem setActive_costs (a : Active) : Costs 0 (setActive a : Turn σ γ δ Unit) := fun _ => Nat.le_refl _

theorem fail_costs (err : DispatchError) : Costs 0 (fail err : Turn σ γ δ α) := fun _ => Nat.le_refl _

theorem callHook_costs (call : HookCall σ) (hook : Option (Callback γ Unit)) :
    Costs 1 (callHook call hook : Turn σ γ δ Unit) := by
  cases hook with
  | none => exact Costs.pure ()
  | some f => exact (note_costs _).bind fun _ => perform_costs f

theorem orFail_costs [Named σ] (stage : Stage) (path : String) (s : σ) {x : Turn σ γ δ (Except Cause α)}
    (hx : Costs n x) : Costs (n + 1) (orFail stage path s e x) := by
  refine hx.bind fun outcome => ?_
  cases outcome with
  | ok a => exact Costs.pure a
  | error cause => exact (note_costs _).bind fun _ => fail_costs _

theorem offer_costs (e : Event) : Costs 0 (offer e : Turn σ γ δ Unit) := by
  refine costs_of_follows fun c => ?_
  have hoffer := Exchange.follows_offer (N := fun n => n.isSilent = true) (fun _ => id) c.world.exchange e
  unfold offer
  rw [ends_bind, ends_get]
  generalize c.world.exchange.offer e = receipt at hoffer
  obtain ⟨receipt, x⟩ := receipt
  cases receipt <;> exact hoffer

theorem attempt_costs {x : Turn σ γ δ α} (hx : Costs n x) : Costs n x.attempt := by
  intro c
  rw [ends_attempt]
  refine (hx c).mono (fun _ _ h => h) fun halt _ h => ?_
  cases halt <;> exact h

/-- The loop over sibling regions. -/
theorem onEach_costs {x : BuiltRegion σ γ δ → Turn σ γ δ α} {position limit : Nat} {rs : List (BuiltRegion σ γ δ)}
    (h : ∀ r ∈ rs, Costs (r.effort limit) (x r)) (index : Nat) :
    Costs (Region.effortOfRegions limit rs) (onEach x position index rs) := by
  induction rs generalizing index with
  | nil => exact Costs.pure []
  | cons r rs ih =>
    rw [List.forall_mem_cons] at h
    rw [Region.effortOfRegions]
    exact (h.1.inChild _).bind fun _ => (ih h.2 _).bind fun _ => Costs.pure (n := 0) _

end Turn

end Calls

/-! ## Turns of a region -/

section Turns

variable [Named σ] {setup : Setup σ γ} {table : RegionTable σ γ} {nodes : List (BuiltNode σ γ δ)} {e : Event}
  {limit : Nat}

theorem Region.stopAll_costs {rs : List (BuiltRegion σ γ δ)} (h : ∀ r ∈ rs, Costs (r.effort limit) (r.stop setup e))
    (position index : Nat) : Costs (Region.effortOfRegions limit rs) (Region.stopAll setup position index rs e) := by
  intro c
  rw [Region.ends_stopAll]
  exact onEach_costs h index c

theorem Node.exit_costs (path : String) (position : Nat) (n : BuiltNode σ γ δ)
    (h : ∀ r ∈ n.regions, Costs (r.effort limit) (r.stop setup e)) :
    Costs (n.effort limit) (n.exit setup path position e) := by
  obtain ⟨unit, regions⟩ := n
  rw [Node.effort, Node.exit]
  have hstop : Costs (Region.effortOfRegions limit regions) (Region.stopAll setup position 0 regions e) :=
    Region.stopAll_costs h position 0
  have hcalls := hstop.bind fun _ => (note_costs (.exit path unit.id e)).bind fun _ => orFail_costs (e := e) .exit path
    unit.id (performAt_costs position unit.behavior.initial (unit.behavior.onExit e).run)
  exact hcalls.mono (by omega)

theorem Region.stop_costs (r : BuiltRegion σ γ δ) : Costs (r.effort limit) (r.stop setup e) := by
  induction r using Region.induct with
  | step table nodes ih =>
    have hleave (i : Nat) : Costs (Node.effortOfNodes limit nodes) (Node.exitAt setup table.path i nodes i e) := by
      rw [Node.exitAt_eq]
      refine .elim fun n hn => ?_
      have hmem := List.mem_of_getElem? hn
      exact (Node.exit_costs _ _ n (ih n hmem)).mono (Node.effort_le hmem)
    have hend (move : Move σ) : Costs 1 (do setActive .stopped; setup.hooks.afterTransition move : Turn σ γ δ Unit) :=
      (setActive_costs _).bind fun _ => callHook_costs _ _
    have hstop : Costs (Node.effortOfNodes limit nodes + 2) (Region.stop setup ⟨table, nodes⟩ e) := by
      intro c
      rw [Region.stop, ends_bind, ends_active]
      split
      · exact Costs.pure () c
      · refine (Costs.bind (n := 1) (k := Node.effortOfNodes limit nodes + 1) (callHook_costs _ _) fun _ => ?_).mono
          (by omega) c
        split
        · exact (hleave _).bind fun _ => hend _
        · exact (hend _).mono (by omega)
    have hbase := Region.effortOfRow_le limit table nodes
    rw [Region.effortOfRow] at hbase
    exact hstop.mono (by omega)

theorem Node.exitAt_costs (path : String) (position i : Nat) :
    Costs (Node.effortOfNodes limit nodes) (Node.exitAt setup path position nodes i e) := by
  rw [Node.exitAt_eq]
  refine .elim fun n hn => ?_
  exact (Node.exit_costs _ _ n fun r _ => r.stop_costs).mono (Node.effort_le (List.mem_of_getElem? hn))

variable [DecidableEq σ]

omit [Named σ] in
theorem RegionTable.firstEnabled_costs (path : String) (active : σ) (rows : List (Transition σ γ Nat)) (index : Nat) :
    Costs rows.length (RegionTable.firstEnabled path active e index rows : Turn σ γ δ _) := by
  induction rows generalizing index with
  | nil => exact Costs.pure _
  | cons row rows ih =>
    have hask : Costs 1 (RegionTable.ask path active e index row : Turn σ γ δ (Except Cause Bool)) := by
      unfold RegionTable.ask
      split
      · exact (note_costs _).bind fun _ => perform_costs _
      · exact (perform_costs _).mono (Nat.zero_le _)
    rw [RegionTable.firstEnabled, List.length_cons, Nat.add_comm]
    refine hask.bind fun verdict => ?_
    split
    · exact Costs.pure _
    · exact Costs.pure _
    · exact ih _

theorem RegionTable.resolve_costs (t : RegionTable σ γ) (position : Nat) (active : σ) :
    Costs (t.rows.length + 1) (t.resolve position active e : Turn σ γ δ (Option (Choice σ γ))) :=
  (orFail_costs _ _ _ (RegionTable.firstEnabled_costs _ _ _ _)).bind fun _ => Costs.pure (n := 0) _

theorem Region.due_costs : Costs (table.rows.length + 1) (Region.due table nodes) := by
  intro c
  unfold Region.due
  simp only [ends_bind, ends_active]
  split
  · split
    · rw [ends_bind, ends_get]
      split
      · exact RegionTable.resolve_costs table _ _ c
      · exact Costs.pure _ c
    · exact Costs.pure _ c
  · exact Costs.pure _ c

omit [DecidableEq σ] in
theorem Region.act_costs (path : String) (active : σ) (choice : Choice σ γ) :
    Costs 2 (Region.act path active choice e : Turn σ γ δ Unit) := by
  unfold Region.act
  split
  · exact Costs.pure ()
  · exact (note_costs _).bind fun _ => orFail_costs _ _ _ (perform_costs _)

omit [DecidableEq σ] in
/-- Firing a row, given what leaving and entering cost. -/
theorem Region.fireWith_costs {n : Nat} {leave enter : Nat → Event → Turn σ γ δ Unit} (hleave : ∀ i, Costs n (leave i e))
    (henter : ∀ i, Costs n (enter i e)) (choice : Choice σ γ) :
    Costs (2 * n + 5) (Region.fireWith setup table nodes leave enter choice e) := by
  have hbefore (move : Move σ) : Costs 1 (setup.hooks.beforeTransition move : Turn σ γ δ Unit) := callHook_costs _ _
  have hafter (move : Move σ) : Costs 1 (setup.hooks.afterTransition move : Turn σ γ δ Unit) := callHook_costs _ _
  have hact (active : σ) : Costs 2 (Region.act table.path active choice e : Turn σ γ δ Unit) := Region.act_costs _ _ _
  have hremember (s t : σ) : Costs 0 (Region.remember setup table.path s t e : Turn σ γ δ Unit) :=
    (Region.remember_inert setup _ _ _ _).costs
  unfold Region.fireWith
  refine ((note_costs _).bind (k := 2 * n + 4) fun _ => ?_).mono (by omega)
  split
  · exact (hact _).mono (by omega)
  · split
    · rename_i t _ _ target _
      have hmove := (hbefore ⟨table.path, .state choice.state, .state target.data.id, e⟩).bind fun _ =>
        (hleave choice.position).bind fun _ => (setActive_costs (.at t)).bind fun _ =>
        (hact target.data.id).bind fun _ => (henter t).bind fun _ => (hremember choice.state target.data.id).bind fun _ =>
        hafter ⟨table.path, .state choice.state, .state target.data.id, e⟩
      exact hmove.mono (by omega)
    · exact Costs.pure ()
  · have hmove := (hbefore ⟨table.path, .state choice.state, .final, e⟩).bind fun _ =>
      (hleave choice.position).bind fun _ => (setActive_costs .final).bind fun _ =>
      (hact choice.state).bind fun _ => hafter ⟨table.path, .state choice.state, .final, e⟩
    exact hmove.mono (by omega)

/-- A chain looks for a row at most once more than it fires one. -/
theorem Region.chain_costs {k : Nat} {fire : Choice σ γ → Turn σ γ δ Unit} (hfire : ∀ choice, Costs k (fire choice))
    (n : Nat) : Costs ((n + 1) * (table.rows.length + 1 + k) + 1) (Region.chain setup table nodes fire n) := by
  induction n with
  | zero =>
    rw [Region.chain]
    refine (Costs.bind (k := 1) Region.due_costs fun found => ?_).mono (by omega)
    split
    · exact (note_costs _).bind fun _ => fail_costs _
    · exact Costs.pure ()
  | succ n ih =>
    rw [Region.chain, Nat.add_mul (n + 1) 1]
    refine (Costs.bind (k := k + ((n + 1) * (table.rows.length + 1 + k) + 1)) Region.due_costs fun found => ?_).mono
      (by omega)
    split
    · exact (hfire _).bind fun _ => ih
    · exact Costs.pure ()

theorem Node.enter_costs (path : String) (position : Nat) (n : BuiltNode σ γ δ)
    (h : ∀ r ∈ n.regions, Costs (r.effort limit) (r.start setup e)) :
    Costs (n.effort limit) (n.enter setup path position e) := by
  obtain ⟨unit, regions⟩ := n
  have hstart : Costs (Region.effortOfRegions limit regions) (Region.startAll setup position 0 regions e) := by
    intro c
    rw [Region.ends_startAll]
    exact onEach_costs h 0 c
  rw [Node.effort, Node.enter]
  have hcalls := (note_costs (.entry path unit.id e)).bind fun _ => (orFail_costs (e := e) .entry path unit.id
    (performAt_costs position unit.behavior.initial (unit.behavior.onEntry e).run)).bind fun _ => hstart
  exact hcalls.mono (by omega)

/-- Entering the state at an index, given what its regions cost when they start. -/
theorem Node.enterAt_costs_of (path : String) (position i : Nat)
    (h : ∀ n ∈ nodes, ∀ r ∈ n.regions, Costs (r.effort limit) (r.start setup e)) :
    Costs (Node.effortOfNodes limit nodes) (Node.enterAt setup path position nodes i e) := by
  rw [Node.enterAt_eq]
  refine .elim fun n hn => ?_
  have hmem := List.mem_of_getElem? hn
  exact (Node.enter_costs _ _ n (h n hmem)).mono (Node.effort_le hmem)

omit [Named σ] [DecidableEq σ] in
theorem Region.effort_eq (limit : Nat) (table : RegionTable σ γ) (nodes : List (BuiltNode σ γ δ)) :
    Region.effort limit ⟨table, nodes⟩ =
      (limit + 1) * Region.effortOfRow limit table nodes + Region.effortOfRow limit table nodes := by
  rw [Region.effort, Region.effortOfRow, ← Nat.succ_mul]

/-- Settling, given what the regions below cost when they start. -/
theorem Region.settle_costs_of (hlimit : setup.settings.maxCompletionChain = limit)
    (h : ∀ n ∈ nodes, ∀ r ∈ n.regions, Costs (r.effort limit) (r.start setup .completion)) :
    Costs ((limit + 1) * Region.effortOfRow limit table nodes) (Region.settle setup table nodes) := by
  have hfire (choice : Choice σ γ) : Costs (2 * Node.effortOfNodes limit nodes + 5)
      (Region.fire setup table nodes choice .completion) :=
    Region.fireWith_costs (fun i => Node.exitAt_costs table.path i i)
      (fun i => Node.enterAt_costs_of table.path i i h) choice
  have hchain : Costs ((limit + 1) * (table.rows.length + 1 + (2 * Node.effortOfNodes limit nodes + 5)) + 1)
      (Region.chain setup table nodes (fun choice => Region.fire setup table nodes choice .completion) limit) :=
    Region.chain_costs hfire limit
  have hrow : Region.effortOfRow limit table nodes =
      table.rows.length + 1 + (2 * Node.effortOfNodes limit nodes + 5) + 1 := by
    unfold Region.effortOfRow
    omega
  unfold Region.settle
  rw [hlimit]
  refine hchain.mono ?_
  rw [hrow, Nat.mul_add (limit + 1) _ 1]
  omega

theorem Region.start_costs (hlimit : setup.settings.maxCompletionChain = limit) (r : BuiltRegion σ γ δ) :
    Costs (r.effort limit) (r.start setup e) := by
  -- for any event: what a region starts by settling is entered on completion
  induction r using Region.induct generalizing e with
  | step table nodes ih =>
    have hsettle : Costs ((limit + 1) * Region.effortOfRow limit table nodes) (Region.settle setup table nodes) :=
      Region.settle_costs_of hlimit fun n hn r hr => ih n hn r hr
    have henter (i : Nat) : Costs (Node.effortOfNodes limit nodes) (Node.enterAt setup table.path i nodes i e) :=
      Node.enterAt_costs_of table.path i i fun n hn r hr => ih n hn r hr
    intro c
    rw [Region.start_eq, ends_bind, ends_active]
    split
    · exact Costs.pure () c
    · let move : Move σ := ⟨table.path, .stopped, endpoint nodes (.at table.initial), e⟩
      have hbefore : Costs 1 (setup.hooks.beforeTransition move : Turn σ γ δ Unit) := callHook_costs _ _
      have hafter : Costs 1 (setup.hooks.afterTransition move : Turn σ γ δ Unit) := callHook_costs _ _
      have hmove := hbefore.bind fun _ => (setActive_costs (.at table.initial)).bind fun _ =>
        (henter table.initial).bind fun _ => hafter.bind fun _ => hsettle
      refine hmove.mono ?_ c
      rw [Region.effort_eq, Region.effortOfRow]
      omega

theorem Region.settle_costs (hlimit : setup.settings.maxCompletionChain = limit) :
    Costs ((limit + 1) * Region.effortOfRow limit table nodes) (Region.settle setup table nodes) :=
  Region.settle_costs_of hlimit fun _ _ r _ => r.start_costs hlimit

theorem Region.fire_costs (hlimit : setup.settings.maxCompletionChain = limit) (choice : Choice σ γ) :
    Costs (2 * Node.effortOfNodes limit nodes + 5) (Region.fire setup table nodes choice e) :=
  Region.fireWith_costs (fun i => Node.exitAt_costs table.path i i)
    (fun i => Node.enterAt_costs_of table.path i i fun _ _ r _ => r.start_costs hlimit) choice

omit [DecidableEq σ] in
theorem Node.consult_costs (path : String) (position : Nat) (n : BuiltNode σ γ δ) :
    Costs 3 (n.consult path position e) := by
  unfold Node.consult
  refine (note_costs _).bind (k := 2) fun _ => (orFail_costs .reaction path n.data.id
    (performAt_costs position n.data.behavior.initial (n.data.behavior.onEvent e).run)).bind (k := 1) fun processed => ?_
  split
  · exact (note_costs _).bind fun _ => Costs.pure (n := 0) _
  · exact Costs.pure _

theorem Node.react_costs (path : String) (position : Nat) (n : BuiltNode σ γ δ)
    (h : ∀ r ∈ n.regions, Costs (r.effort limit) (r.process setup e)) :
    Costs (n.effort limit) (n.react setup path position e) := by
  have hregions : Costs (Region.effortOfRegions limit n.regions) (Region.processAll setup position 0 n.regions e) := by
    intro c
    rw [Region.ends_processAll]
    exact onEach_costs h 0 c
  rw [Node.react_eq, Node.effort_eq, Nat.add_comm]
  refine hregions.bind fun processed => ?_
  split
  · exact Costs.pure _
  · exact n.consult_costs path position

/-- Responding, given what the regions below cost when they get the event. -/
theorem Region.respond_costs (hlimit : setup.settings.maxCompletionChain = limit) (position : Nat)
    {n : BuiltNode σ γ δ} (hn : n ∈ nodes) (h : ∀ r ∈ n.regions, Costs (r.effort limit) (r.process setup e)) :
    Costs (Region.effort limit ⟨table, nodes⟩) (Region.respond setup table nodes position n e) := by
  have hsettle : Costs ((limit + 1) * Region.effortOfRow limit table nodes) (Region.settle setup table nodes) :=
    Region.settle_costs hlimit
  have hreact := (n.react_costs table.path position h).mono (Node.effort_le hn)
  unfold Region.respond
  refine ((RegionTable.resolve_costs table position n.data.id).bind
    (k := 2 * Node.effortOfNodes limit nodes + 5 + (limit + 1) * Region.effortOfRow limit table nodes)
    fun found => ?_).mono ?_
  · split
    · refine (Region.fire_costs hlimit _).bind fun _ => ?_
      split
      · exact hsettle.bind fun _ => Costs.pure (n := 0) _
      · exact Costs.pure _
    · refine (hreact.bind (k := (limit + 1) * Region.effortOfRow limit table nodes) fun processed => ?_).mono
        (by omega)
      split
      · exact hsettle.bind fun _ => Costs.pure (n := 0) _
      · exact Costs.pure _
  · rw [Region.effort_eq]
    unfold Region.effortOfRow
    omega

theorem Region.process_costs (hlimit : setup.settings.maxCompletionChain = limit) (r : BuiltRegion σ γ δ) :
    Costs (r.effort limit) (r.process setup e) := by
  induction r using Region.induct with
  | step table nodes ih =>
    refine fun c => Region.ends_process (Nat.le_add_right _ _) fun i n _ hn => ?_
    have hmem := List.mem_of_getElem? hn
    exact Region.respond_costs hlimit i hmem (fun r hr => ih n hmem r hr) c

end Turns

/-! ## A whole dispatch -/

namespace Chart

variable [DecidableEq σ] [Named σ] (c : Chart σ γ δ)

/-- What a dispatch does at most: every region gets the event, and recovery may stop every region; besides, the dispatch
begins and ends and three hooks are called. -/
def effort : Nat :=
  2 * Region.effortOfRegions c.setup.settings.maxCompletionChain c.regions + 6

omit [DecidableEq σ] in
theorem stopRegions_costs :
    Costs (Region.effortOfRegions c.setup.settings.maxCompletionChain c.regions) c.stopRegions :=
  Region.stopAll_costs (fun r _ => r.stop_costs) 0 0

omit [DecidableEq σ] in
theorem recover_costs (result : Except DispatchError Unit) :
    Costs (1 + Region.effortOfRegions c.setup.settings.maxCompletionChain c.regions) (c.recover result) := by
  unfold recover
  split
  · exact Costs.pure ()
  · split
    · exact (fail_costs _).mono (Nat.zero_le _)
    · refine (note_costs _).bind fun _ => (Costs.bind (n := 0) (perform_costs _) fun response => ?_).mono
        (Nat.le_of_eq (Nat.zero_add _))
      split
      · exact Costs.pure ()
      · exact (offer_costs _).mono (Nat.zero_le _)
      · exact c.stopRegions_costs
      · exact (fail_costs _).mono (Nat.zero_le _)
  · exact (fail_costs _).mono (Nat.zero_le _)

theorem dispatch_costs (e : Event) :
    Costs (Region.effortOfRegions c.setup.settings.maxCompletionChain c.regions + 3) (c.dispatch e) := by
  have hregions : Costs (Region.effortOfRegions c.setup.settings.maxCompletionChain c.regions)
      (Region.processAll c.setup 0 0 c.regions e) := by
    intro c'
    rw [Region.ends_processAll]
    exact onEach_costs (fun r _ => r.process_costs rfl) 0 c'
  have hafter (processed : Bool) : Costs 2 (c.setup.hooks.afterProcessing e processed : Turn σ γ δ Unit) := by
    unfold Hooks.afterProcessing
    refine (callHook_costs _ _).bind (n := 1) (k := 1) fun _ => ?_
    split
    · exact callHook_costs _ _
    · exact Costs.pure ()
  have hbefore : Costs 1 (c.setup.hooks.beforeProcessing e : Turn σ γ δ Unit) := callHook_costs _ _
  exact (hbefore.bind fun _ => hregions.bind hafter).mono (by omega)

/-- A dispatch does not go on for ever, whatever the callbacks answer. -/
theorem handle_costs (e : Event) : Costs c.effort (c.handle e) := by
  have hpass := (note_costs (γ := γ) (δ := δ) (.began e)).bind fun _ => ((attempt_costs (c.dispatch_costs e)).bind
    c.recover_costs).bind fun _ => note_costs (.ended e)
  refine Costs.mono hpass ?_
  unfold effort
  omega

end Chart

end Statechart
