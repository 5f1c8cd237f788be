import Statechart.Proofs.Depth

/-!
# What regions do to the world

A relation between worlds that tolerates the single steps of a region, which are the callbacks, the notes and the
records, tolerates whole turns of it.

* `Turn.Respects S` : however the turn ends, `S` relates the worlds before and after;
* `World.Tolerates S` : callbacks and remarks are in `S`; `World.ToleratesAt S path` : so are the marks of the region
  with the path; `Setup.Tolerates S path` : so are its completed transitions;
* `Region.act_respects`, `RegionTable.resolve_respects`, `Node.consult_respects` and others : turns without marks;
* `Region.stop_respects`, `Region.start_respects`, `Region.process_respects` : the turns of a region;
* `Chart.stable_of_respects` : what the steps of all regions preserve, the operations of the machine preserve.
-/

set_option autoImplicit false

namespace Statechart

open Turn

variable {σ γ δ α β κ : Type}

/-- The path of the region that the note marks: a row is fired, a state is entered or left, or a chain overflows. -/
def Note.mark? : Note σ → Option String
  | .fired path _ _ _ | .entry path _ _ | .exit path _ _ | .overflowed path _ => some path
  | _ => none

theorem Note.mark?_of_isOuter {n : Note σ} (h : n.isOuter = true) : n.mark? = none := by
  cases n <;> simp_all [isOuter, mark?]

/-- Region, source, target and name of the event of the transition between two states that the call is about which
the note tells of: a call after that transition. -/
def Note.completed? : Note σ → Option (String × σ × σ × String)
  | .hook (.postTransition ⟨path, .state s, .state t, e⟩) => some (path, s, t, e.typeName)
  | _ => none

/-- The relation between the worlds of two configurations. -/
def Configuration.Via (S : World σ γ → World σ γ → Prop) (c c' : Configuration σ γ δ) : Prop := S c.world c'.world

instance (S : World σ γ → World σ γ → Prop) [IsPreorder _ S] :
    IsPreorder (Configuration σ γ δ) (Configuration.Via S) where
  refl c := refl_of S c.world
  trans _ _ _ h h' := trans_of S h h'

/-- However the turn ends, the world before and the world after are in `S`. -/
abbrev Turn.Respects (S : World σ γ → World σ γ → Prop) (x : Turn σ γ δ α) : Prop :=
  Keeps (Configuration.Via S) (fun _ _ => True) x

/-- The relation has what callbacks do, and the writing of notes that mark nothing and complete nothing. -/
structure World.Tolerates (S : World σ γ → World σ γ → Prop) : Prop where
  callback : ∀ w context x, Exchange.Follows (fun n => n.isSilent = true) w.exchange x →
    S w { w with context := context, exchange := x }
  remark : ∀ w n, n.mark? = none → n.completed? = none → S w { w with exchange := w.exchange.note n }

/-- The relation also has the marks of the region with the path. -/
structure World.ToleratesAt (S : World σ γ → World σ γ → Prop) (path : String) : Prop extends World.Tolerates S where
  mark : ∀ w n, n.mark? = some path → S w { w with exchange := w.exchange.note n }

/-- The relation also has the completion of a row between states of that region. -/
structure Setup.Tolerates (setup : Setup σ γ) (δ : Type) (S : World σ γ → World σ γ → Prop) (path : String) : Prop
    extends World.ToleratesAt S path where
  conclude : ∀ s t e, Respects S (do
    Region.remember setup path s t e
    setup.hooks.afterTransition ⟨path, .state s, .state t, e⟩ : Turn σ γ δ Unit)

variable {S : World σ γ → World σ γ → Prop} [IsPreorder _ S] {e : Event}

/-! ## Turns without marks -/

namespace Turn

theorem setActive_respects (a : Active) : Respects S (setActive a : Turn σ γ δ Unit) := fun c => refl_of S c.world

theorem fail_respects (err : DispatchError) : Respects S (fail err : Turn σ γ δ α) :=
  fun c => ⟨refl_of S c.world, trivial⟩

omit [IsPreorder _ S] in
theorem inChild_respects (k : Nat × Nat) {x : Turn σ γ δ α} (hx : Respects S x) : Respects S (inChild k x) := by
  intro c
  rw [ends_inChild]
  exact hx ⟨c.world, c.marking.child k⟩

omit [IsPreorder _ S] in
theorem note_respects {n : Note σ} (hn : ∀ w : World σ γ, S w { w with exchange := w.exchange.note n }) :
    Respects S (note n : Turn σ γ δ Unit) :=
  fun c => hn c.world

theorem respects_onEach {x : BuiltRegion σ γ δ → Turn σ γ δ α} {rs : List (BuiltRegion σ γ δ)}
    (h : ∀ r ∈ rs, Respects S (x r)) (position index : Nat) : Respects S (onEach x position index rs) :=
  keeps_onEach (fun r hr _ => inChild_respects _ (h r hr)) index

omit [IsPreorder _ S] in
theorem performOn_respects (hS : World.Tolerates S) {part : Configuration σ γ δ → κ}
    {put : κ → Configuration σ γ δ → Configuration σ γ δ}
    (hput : ∀ s c, ∃ context, (put s c).world = { c.world with context := context }) (f : Callback κ α) :
    Respects S (performOn part put f) := by
  intro c
  have hplay := Course.play_follows (N := fun n => n.isSilent = true) (fun _ => id) (f (part c)) c.world.exchange
  have hplayed (state : κ) (x : Exchange σ) (hx : Exchange.Follows (fun n => n.isSilent = true) c.world.exchange x) :
      S c.world (put state { c with world.exchange := x }).world := by
    obtain ⟨context, hworld⟩ := hput state { c with world.exchange := x }
    rw [hworld]
    exact hS.callback c.world context x hx
  unfold Ends performOn
  generalize (f (part c)).play c.world.exchange = played at hplay
  obtain ⟨⟨result, state⟩, x⟩ := played
  cases result with
  | ok a => exact hplayed state x hplay
  | error message => exact ⟨hplayed state _ (hplay.trans (Exchange.follows_note (by rfl) rfl x)), trivial⟩

omit [IsPreorder _ S] in
theorem perform_respects (hS : World.Tolerates S) (f : Callback γ α) :
    Respects S (perform f : Turn σ γ δ α) :=
  performOn_respects hS (fun s _ => ⟨s, rfl⟩) f

omit [IsPreorder _ S] in
theorem performAt_respects (hS : World.Tolerates S) (position : Nat) (initial : δ) (f : Callback (γ × δ) α) :
    Respects S (performAt position initial f : Turn σ γ δ α) :=
  performOn_respects hS (fun s _ => ⟨s.1, rfl⟩) f

theorem orFail_respects [Named σ] (hS : World.Tolerates S) (stage : Stage) (path : String) (s : σ)
    {x : Turn σ γ δ (Except Cause α)} (hx : Respects S x) : Respects S (orFail stage path s e x) := by
  refine hx.bind fun outcome => ?_
  cases outcome with
  | ok a => exact Keeps.pure a
  | error cause => exact (note_respects fun w => hS.remark w _ rfl rfl).bind fun _ => fail_respects _

/-- A call that may be noted. -/
theorem callHook_respects (hS : World.Tolerates S) {call : HookCall σ}
    (hcall : ∀ w : World σ γ, S w { w with exchange := w.exchange.note (.hook call) })
    (hook : Option (Callback γ Unit)) : Respects S (callHook call hook : Turn σ γ δ Unit) := by
  cases hook with
  | none => exact Keeps.pure ()
  | some f => exact (note_respects hcall).bind fun _ => perform_respects hS f

end Turn

theorem Hooks.beforeTransition_respects (hS : World.Tolerates S) (h : Hooks σ γ) (m : Move σ) :
    Respects S (h.beforeTransition m : Turn σ γ δ Unit) :=
  callHook_respects hS (fun w => hS.remark w _ rfl rfl) _

theorem Hooks.afterTransition_respects (hS : World.Tolerates S) (h : Hooks σ γ) {m : Move σ}
    (hm : (Note.hook (.postTransition m)).completed? = none) :
    Respects S (h.afterTransition m : Turn σ γ δ Unit) :=
  callHook_respects hS (fun w => hS.remark w _ rfl hm) _

section Rows

variable [DecidableEq σ]

theorem RegionTable.ask_respects (hS : World.Tolerates S) (path : String) (active : σ) (index : Nat)
    (row : Transition σ γ Nat) : Respects S (ask path active e index row : Turn σ γ δ (Except Cause Bool)) := by
  unfold ask
  split
  · exact (note_respects fun w => hS.remark w _ rfl rfl).bind fun _ => perform_respects hS _
  · exact perform_respects hS _

theorem RegionTable.firstEnabled_respects (hS : World.Tolerates S) (path : String) (active : σ) :
    ∀ (index : Nat) (rows : List (Transition σ γ Nat)),
      Respects S (firstEnabled path active e index rows : Turn σ γ δ _)
  | _, [] => Keeps.pure _
  | index, row :: rows => by
    refine (ask_respects hS path active index row).bind fun verdict => ?_
    split
    · exact Keeps.pure _
    · exact Keeps.pure _
    · exact firstEnabled_respects hS path active (index + 1) rows

variable [Named σ]

theorem RegionTable.resolve_respects (hS : World.Tolerates S) (t : RegionTable σ γ) (position : Nat) (active : σ) :
    Respects S (t.resolve position active e : Turn σ γ δ (Option (Choice σ γ))) :=
  (orFail_respects hS _ _ _ (firstEnabled_respects hS _ _ _ _)).bind fun _ => Keeps.pure _

theorem Region.due_respects (hS : World.Tolerates S) (table : RegionTable σ γ) (nodes : List (BuiltNode σ γ δ)) :
    Respects S (due table nodes) := by
  intro c
  unfold due
  simp only [ends_bind, ends_active]
  split
  · split
    · rw [ends_bind, ends_get]
      split
      · exact RegionTable.resolve_respects hS table _ _ c
      · exact Keeps.pure _ c
    · exact Keeps.pure _ c
  · exact Keeps.pure _ c

end Rows

variable [Named σ]

theorem Region.act_respects (hS : World.Tolerates S) (path : String) (active : σ) (choice : Choice σ γ) :
    Respects S (act path active choice e : Turn σ γ δ Unit) := by
  unfold act
  split
  · exact Keeps.pure ()
  · exact (note_respects fun w => hS.remark w _ rfl rfl).bind fun _ =>
      orFail_respects hS _ _ _ (perform_respects hS _)

theorem Node.consult_respects (hS : World.Tolerates S) (path : String) (position : Nat) (n : BuiltNode σ γ δ) :
    Respects S (n.consult path position e) := by
  unfold Node.consult
  refine (note_respects fun w => hS.remark w _ rfl rfl).bind fun _ => ?_
  refine (orFail_respects hS _ _ _ (performAt_respects hS _ _ _)).bind fun processed => ?_
  split
  · exact (note_respects fun w => hS.remark w _ rfl rfl).bind fun _ => Keeps.pure _
  · exact Keeps.pure _

/-! ## Turns of a region -/

section Turns

variable {setup : Setup σ γ} {table : RegionTable σ γ} {nodes : List (BuiltNode σ γ δ)} {path : String}

theorem Region.stopAll_respects {rs : List (BuiltRegion σ γ δ)} (h : ∀ r ∈ rs, Respects S (r.stop setup e))
    (position index : Nat) : Respects S (Region.stopAll setup position index rs e) := by
  intro c
  rw [Region.ends_stopAll]
  exact respects_onEach h position index c

theorem Node.exit_respects (hS : World.ToleratesAt S path) (position : Nat) (n : BuiltNode σ γ δ)
    (h : ∀ r ∈ n.regions, Respects S (r.stop setup e)) : Respects S (n.exit setup path position e) := by
  obtain ⟨unit, regions⟩ := n
  rw [Node.exit]
  refine (Region.stopAll_respects h _ _).bind fun _ => (note_respects fun w => hS.mark w _ rfl).bind fun _ => ?_
  exact orFail_respects hS.toTolerates _ _ _ (performAt_respects hS.toTolerates _ _ _)

theorem Region.stop_respects (r : BuiltRegion σ γ δ) (hS : ∀ q ∈ r.preorder, World.ToleratesAt S q.data.path) :
    Respects S (r.stop setup e) := by
  induction r using Region.induct with
  | step table nodes ih =>
    have hhere : World.ToleratesAt S table.path := hS _ (Region.mem_preorder_self _)
    have hleave (i : Nat) : Respects S (Node.exitAt setup table.path i nodes i e) := by
      rw [Node.exitAt_eq]
      exact Keeps.elim i () fun n hn => Node.exit_respects hhere _ n fun r hr => ih n hn r hr fun q hq =>
        hS q (Region.mem_preorder_of_mem hn hr hq)
    intro c
    rw [Region.stop, ends_bind, ends_active]
    split
    · exact Keeps.pure () c
    · refine Keeps.bind (Hooks.beforeTransition_respects hhere.toTolerates _ _) (fun _ => ?_) c
      have hafter : Respects S (setActive .stopped >>= fun _ => setup.hooks.afterTransition
          ⟨table.path, endpoint nodes c.marking.active, .stopped, e⟩ : Turn σ γ δ Unit) :=
        (setActive_respects _).bind fun _ =>
          Hooks.afterTransition_respects hhere.toTolerates _ (by cases endpoint nodes c.marking.active <;> rfl)
      split
      · exact (hleave _).bind fun _ => hafter
      · exact hafter

theorem Node.exitAt_respects (hpath : World.ToleratesAt S path)
    (hS : ∀ n ∈ nodes, ∀ r ∈ n.regions, ∀ q ∈ r.preorder, World.ToleratesAt S q.data.path) (position i : Nat) :
    Respects S (Node.exitAt setup path position nodes i e) := by
  rw [Node.exitAt_eq]
  exact Keeps.elim i () fun n hn => Node.exit_respects hpath _ n fun r hr => r.stop_respects (hS n hn r hr)

variable [DecidableEq σ]

theorem Region.startAll_respects {rs : List (BuiltRegion σ γ δ)} (h : ∀ r ∈ rs, Respects S (r.start setup e))
    (position index : Nat) : Respects S (Region.startAll setup position index rs e) := by
  intro c
  rw [Region.ends_startAll]
  exact respects_onEach h position index c

/-- The entry is noted, and the regions of the state are started. -/
theorem Node.enter_respects (hS : World.Tolerates S) (position : Nat) (n : BuiltNode σ γ δ)
    (hentry : ∀ w : World σ γ, S w { w with exchange := w.exchange.note (.entry path n.data.id e) })
    (h : ∀ r ∈ n.regions, Respects S (r.start setup e)) : Respects S (n.enter setup path position e) := by
  obtain ⟨unit, regions⟩ := n
  rw [Node.enter]
  refine (note_respects hentry).bind fun _ => Keeps.bind ?_ fun _ => Region.startAll_respects h _ _
  exact orFail_respects hS _ _ _ (performAt_respects hS _ _ _)

omit [DecidableEq σ] in
/-- Firing a row, given what leaving and entering do. -/
theorem Region.fireWith_respects (hS : setup.Tolerates δ S table.path) {leave enter : Nat → Event → Turn σ γ δ Unit}
    (hleave : ∀ i, Respects S (leave i e)) (henter : ∀ i, Respects S (enter i e)) (choice : Choice σ γ) :
    Respects S (Region.fireWith setup table nodes leave enter choice e) := by
  unfold Region.fireWith
  refine (note_respects fun w => hS.mark w _ rfl).bind fun _ => ?_
  split
  · exact act_respects hS.toTolerates _ _ _
  · split
    · refine (Hooks.beforeTransition_respects hS.toTolerates _ _).bind fun _ => (hleave _).bind fun _ => ?_
      refine (setActive_respects _).bind fun _ => (act_respects hS.toTolerates _ _ _).bind fun _ => ?_
      exact (henter _).bind fun _ => hS.conclude _ _ _
    · exact Keeps.pure ()
  · refine (Hooks.beforeTransition_respects hS.toTolerates _ _).bind fun _ => (hleave _).bind fun _ => ?_
    refine (setActive_respects _).bind fun _ => (act_respects hS.toTolerates _ _ _).bind fun _ => ?_
    exact Hooks.afterTransition_respects hS.toTolerates _ rfl

theorem Region.chain_respects (hS : setup.Tolerates δ S table.path) {fire : Choice σ γ → Turn σ γ δ Unit}
    (hfire : ∀ choice, Respects S (fire choice)) (n : Nat) :
    Respects S (Region.chain setup table nodes fire n) := by
  have hdue := Region.due_respects hS.toTolerates table nodes
  induction n with
  | zero =>
    rw [Region.chain]
    refine hdue.bind fun found => ?_
    split
    · exact (note_respects fun w => hS.mark w _ rfl).bind fun _ => fail_respects _
    · exact Keeps.pure ()
  | succ n ih =>
    rw [Region.chain]
    refine hdue.bind fun found => ?_
    split
    · exact (hfire _).bind fun _ => ih
    · exact Keeps.pure ()

theorem Region.start_respects (r : BuiltRegion σ γ δ) (hS : ∀ q ∈ r.preorder, setup.Tolerates δ S q.data.path) :
    Respects S (r.start setup e) := by
  -- for any event: what a region starts by settling is entered on completion
  induction r using Region.induct generalizing e with
  | step table nodes ih =>
    have hhere : setup.Tolerates δ S table.path := hS _ (Region.mem_preorder_self _)
    have hbelow (n : BuiltNode σ γ δ) (hn : n ∈ nodes) (r : BuiltRegion σ γ δ) (hr : r ∈ n.regions)
        (q : BuiltRegion σ γ δ) (hq : q ∈ r.preorder) : setup.Tolerates δ S q.data.path :=
      hS q (Region.mem_preorder_of_mem hn hr hq)
    have henter (e : Event) (i : Nat) : Respects S (Node.enterAt setup table.path i nodes i e) := by
      rw [Node.enterAt_eq]
      exact Keeps.elim i () fun n hn => Node.enter_respects hhere.toTolerates _ n
        (fun w => hhere.mark w _ rfl) fun r hr => ih n hn r hr (hbelow n hn r hr)
    have hleave (e : Event) (i : Nat) : Respects S (Node.exitAt setup table.path i nodes i e) :=
      Node.exitAt_respects hhere.toToleratesAt
        (fun n hn r hr q hq => (hbelow n hn r hr q hq).toToleratesAt) i i
    have hsettle : Respects S (Region.settle setup table nodes) :=
      Region.chain_respects hhere (Region.fireWith_respects hhere (hleave .completion) (henter .completion)) _
    intro c
    rw [Region.start_eq, ends_bind, ends_active]
    split
    · exact Keeps.pure () c
    · refine Keeps.bind (Hooks.beforeTransition_respects hhere.toTolerates _ _) (fun _ => ?_) c
      refine (setActive_respects _).bind fun _ => (henter _ _).bind fun _ => ?_
      exact (Hooks.afterTransition_respects hhere.toTolerates _ rfl).bind fun _ => hsettle

/-- Entering a state of a region. -/
theorem Node.enterAt_respects (hpath : World.Tolerates S)
    (hentry : ∀ (w : World σ γ) s, S w { w with exchange := w.exchange.note (.entry path s e) })
    (hS : ∀ n ∈ nodes, ∀ r ∈ n.regions, ∀ q ∈ r.preorder, setup.Tolerates δ S q.data.path) (position i : Nat) :
    Respects S (Node.enterAt setup path position nodes i e) := by
  rw [Node.enterAt_eq]
  exact Keeps.elim i () fun n hn =>
    Node.enter_respects hpath _ n (fun w => hentry w _) fun r hr => r.start_respects (hS n hn r hr)

/-- Firing a row. -/
theorem Region.fire_respects (r : BuiltRegion σ γ δ) (hS : ∀ q ∈ r.preorder, setup.Tolerates δ S q.data.path)
    (choice : Choice σ γ) : Respects S (Region.fire setup r.data r.nodes choice e) := by
  have hhere : setup.Tolerates δ S r.data.path := hS _ (Region.mem_preorder_self _)
  have hbelow (n : BuiltNode σ γ δ) (hn : n ∈ r.nodes) (r' : BuiltRegion σ γ δ) (hr' : r' ∈ n.regions)
      (q : BuiltRegion σ γ δ) (hq : q ∈ r'.preorder) : setup.Tolerates δ S q.data.path :=
    hS q (Region.mem_preorder_of_mem hn hr' hq)
  refine Region.fireWith_respects hhere (fun i => Node.exitAt_respects hhere.toToleratesAt ?_ i i)
    (fun i => Node.enterAt_respects hhere.toTolerates (fun w _ => hhere.mark w _ rfl) hbelow i i) choice
  exact fun n hn r' hr' q hq => (hbelow n hn r' hr' q hq).toToleratesAt

theorem Region.processAll_respects {rs : List (BuiltRegion σ γ δ)} (h : ∀ r ∈ rs, Respects S (r.process setup e))
    (position index : Nat) : Respects S (Region.processAll setup position index rs e) := by
  intro c
  rw [Region.ends_processAll]
  exact respects_onEach h position index c

theorem Node.react_respects (hS : World.Tolerates S) (position : Nat) (n : BuiltNode σ γ δ)
    (h : ∀ r ∈ n.regions, Respects S (r.process setup e)) : Respects S (n.react setup path position e) := by
  rw [Node.react_eq]
  refine (Region.processAll_respects h _ _).bind fun processed => ?_
  split
  · exact Keeps.pure true
  · exact Node.consult_respects hS _ _ n

theorem Region.process_respects (r : BuiltRegion σ γ δ) (hS : ∀ q ∈ r.preorder, setup.Tolerates δ S q.data.path) :
    Respects S (r.process setup e) := by
  induction r using Region.induct with
  | step table nodes ih =>
    have hhere : setup.Tolerates δ S table.path := hS _ (Region.mem_preorder_self _)
    have hfire (e : Event) (choice : Choice σ γ) : Respects S (Region.fire setup table nodes choice e) :=
      Region.fire_respects ⟨table, nodes⟩ hS choice
    have hsettle : Respects S (Region.settle setup table nodes) :=
      Region.chain_respects hhere (hfire .completion) _
    have hrespond (i : Nat) (n : BuiltNode σ γ δ) (hn : n ∈ nodes) :
        Respects S (Region.respond setup table nodes i n e) := by
      unfold Region.respond
      refine (RegionTable.resolve_respects hhere.toTolerates _ _ _).bind fun found => ?_
      split
      · refine (hfire e _).bind fun _ => ?_
        split
        · exact hsettle.bind fun _ => Keeps.pure _
        · exact Keeps.pure _
      · have hreact : Respects S (n.react setup table.path i e) :=
          Node.react_respects hhere.toTolerates i n fun r hr =>
            ih n hn r hr fun q hq => hS q (Region.mem_preorder_of_mem hn hr hq)
        refine hreact.bind fun processed => ?_
        split
        · exact hsettle.bind fun _ => Keeps.pure _
        · exact Keeps.pure _
    intro c
    exact Region.ends_process (refl_of S c.world) fun i n _ hn => hrespond i n (List.mem_of_getElem? hn) c

end Turns

omit [Named σ] in
/-- Dry runs. -/
theorem Region.checkAny_respects [DecidableEq σ] (hS : World.Tolerates S) (position index : Nat)
    (rs : List (BuiltRegion σ γ δ)) : Respects S (Region.checkAny position index rs e) := by
  refine Region.checkAny_keeps (fun k _ => inChild_respects k) (fun r _ => ?_) position index
  exact r.check_keeps (fun k _ => inChild_respects k) fun _ _ row _ path s index =>
    RegionTable.ask_respects hS path s index row

/-! ## Machines -/

variable [DecidableEq σ]

/-- What holds in the first world holds in the second. -/
def World.Preserves (I : World σ γ → Prop) (w w' : World σ γ) : Prop := I w → I w'

instance (I : World σ γ → Prop) : IsPreorder (World σ γ) (World.Preserves I) where
  refl _ := id
  trans _ _ _ h h' := h' ∘ h

omit [Named σ] [DecidableEq σ] in
theorem Turn.Respects.upholds {I : World σ γ → Prop} {x : Turn σ γ δ α} (hx : Respects (World.Preserves I) x) :
    Upholds (fun s => I s.world) x :=
  fun c hc => (hx c).mono (fun _ _ h => h hc) fun _ _ h => h.1 hc

/-- A property of worlds that the single steps of every region preserve, and what is quiet, is stable. -/
theorem Chart.stable_of_respects {chart : Chart σ γ δ} {I : World σ γ → Prop}
    (hcalls : World.Tolerates (World.Preserves I))
    (hquiet : ∀ s s' : Configuration σ γ δ, s.Quiet s' → I s.world → I s'.world)
    (hS : ∀ q ∈ Region.preorderOfRegions chart.regions,
      chart.setup.Tolerates δ (World.Preserves I) q.data.path) : chart.Stable fun s => I s.world := by
  have hbelow (r : BuiltRegion σ γ δ) (hr : r ∈ chart.regions) (q : BuiltRegion σ γ δ) (hq : q ∈ r.preorder) :
      chart.setup.Tolerates δ (World.Preserves I) q.data.path := hS q (Region.mem_preorderOfRegions hr hq)
  refine ⟨hquiet, fun _ _ h => h, fun _ _ h => h, ?_, ?_, fun e => ?_, fun e => ?_⟩
  · exact Respects.upholds (Region.startAll_respects (fun r hr => r.start_respects (hbelow r hr)) 0 0)
  · exact Respects.upholds (Region.stopAll_respects (fun r hr => r.stop_respects fun q hq =>
      (hbelow r hr q hq).toToleratesAt) 0 0)
  · exact Respects.upholds (Region.processAll_respects (fun r hr => r.process_respects (hbelow r hr)) 0 0)
  · exact Respects.upholds (Region.checkAny_respects hcalls 0 0 chart.regions)

end Statechart
