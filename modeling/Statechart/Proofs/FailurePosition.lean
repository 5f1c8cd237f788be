import Statechart.Proofs.Blame
import Statechart.Proofs.Depth
import Statechart.Proofs.Feed
import Statechart.Proofs.SimpleStates

/-!
# The position of a failure

A failure says in which region and for which state it arose. That region is found again below the one that was
called by following the active states, and there the named state is active, or the region has just become
final by leaving it.

* `Region.Descends r m r' m'` : from `r` to `r'` by active states; `Region.JustFinished`; `Region.Bears f` : the
  failure is at this region; `Region.Broken e f` : it is at or below the region, and about `e` or completion;
* `Region.announce`, `Region.depart`, `Region.arrive`, `Region.conclude` : the parts of a row that leads to a
  state (`fire_state`); `Region.FailsLeaving`, `Region.FailsArriving` : in which of them a failure ends it;
* `Region.Locates` : a turn that no failure halts but those at the region or below; `Region.stop_locates`,
  `Region.start_locates`, `Region.process_locates`;
* `failure_position`.
-/

set_option autoImplicit false

namespace Statechart

open Turn

variable {σ γ δ α β : Type}

/-! ## Positions -/

/-- From a region and its marking to a region below and its marking, by active states. -/
inductive Region.Descends :
    BuiltRegion σ γ δ → Marking δ → BuiltRegion σ γ δ → Marking δ → Prop where
  | here {r : BuiltRegion σ γ δ} {m : Marking δ} : Descends r m r m
  | inner {r r' r'' : BuiltRegion σ γ δ} {m m' : Marking δ} {i j : Nat} (hactive : m.active = .at i)
      (hr' : r.child? (i, j) = some r') (h : Descends r' (m.child (i, j)) r'' m') : Descends r m r'' m'

/-- The region is final, and the last row that was fired, of which the notes `l` tell, is the one that made it
so by leaving `s`. -/
structure Region.JustFinished (r : BuiltRegion σ γ δ) (l : List (Note σ)) (s : σ) (m : Marking δ) : Prop where
  final : m.active = .final
  source : ∃ n ∈ r.nodes, n.data.id = s
  fired : ∃ k row e before after, r.data.rows[k]? = some row ∧ row.target = .final ∧
    l = before ++ .fired r.data.path s k e :: after ∧ ∀ n ∈ after, n.isFired = false

variable [Named σ]

/-- The failure names the region, and either its active state or, for an action, the one it left to become
final; `l` was noted meanwhile. -/
structure Region.Bears (f : Failure) (l : List (Note σ)) (r : BuiltRegion σ γ δ) (m : Marking δ) : Prop where
  path : r.data.path = f.region
  state : (∃ i n, m.active = .at i ∧ r.nodes[i]? = some n ∧ Named.name n.data.id = f.state) ∨
    f.stage = .action ∧ ∃ s, r.JustFinished l s m ∧ Named.name s = f.state

/-- A turn from `c` to `c'` about `e` was halted by the failure, at a region that the active states lead to. -/
def Region.Broken (e : Event) (f : Failure) (r : BuiltRegion σ γ δ) (c c' : Configuration σ γ δ) : Prop :=
  (f.event = e.kind ∨ f.event = .completion) ∧
    ∃ l, c.world.exchange.Wrote [] l c'.world.exchange ∧
      ∃ r' m', r.Descends c'.marking r' m' ∧ r'.Bears f l m'

namespace Region

variable {e : Event} {f : Failure} {r r' : BuiltRegion σ γ δ} {c c₁ c' : Configuration σ γ δ}
  {N : Note σ → Prop}

theorem Bears.append {l : List (Note σ)} {m : Marking δ} (h : r.Bears f l m) (l' : List (Note σ)) :
    r.Bears f (l' ++ l) m where
  path := h.path
  state := by
    refine h.state.imp_right fun ⟨hstage, s, hfinished, hname⟩ => ⟨hstage, s, ?_, hname⟩
    obtain ⟨k, row, e, before, after, hrow, htarget, rfl, hlast⟩ := hfinished.fired
    refine ⟨hfinished.final, hfinished.source, k, row, e, l' ++ before, after, hrow, htarget, ?_, hlast⟩
    rw [List.append_assoc]

/-- What was noted before does not matter. -/
theorem Broken.of_follows (hfollows : c.Follows N c₁) (h : r.Broken e f c₁ c') : r.Broken e f c c' := by
  obtain ⟨hevent, l, hwrote, r', m', hdescends, hbears⟩ := h
  obtain ⟨l', hwrote', -⟩ := hfollows
  exact ⟨hevent, l' ++ l, hwrote'.trans hwrote, r', m', hdescends, hbears.append l'⟩

theorem Broken.of_completion (h : r.Broken .completion f c c') : r.Broken e f c c' :=
  ⟨h.1.elim .inr .inr, h.2⟩

/-- A failure below the active state. -/
theorem Broken.below {i j : Nat} (hr' : r.child? (i, j) = some r') (hactive : c.marking.active = .at i)
    (h : r'.Broken e f ⟨c.world, c.marking.child (i, j)⟩ c') :
    r.Broken e f c ⟨c'.world, c.marking.setChild (i, j) c'.marking⟩ := by
  obtain ⟨hevent, l, hwrote, r'', m'', hdescends, hbears⟩ := h
  have hbelow : r.Descends (c.marking.setChild (i, j) c'.marking) r'' m'' :=
    .inner hactive hr' (by rwa [Marking.child_setChild_self])
  exact ⟨hevent, l, hwrote, r'', m'', hbelow, hbears⟩

/-- A failure that names the active state. -/
theorem Broken.at_active {table : RegionTable σ γ} {nodes : List (BuiltNode σ γ δ)} {i : Nat}
    {n : BuiltNode σ γ δ} {stage : Stage} (hfollows : c.Follows N c') (hactive : c'.marking.active = .at i)
    (hn : nodes[i]? = some n) (hf : f.Names stage table.path n.data.id e) :
    Region.Broken e f ⟨table, nodes⟩ c c' := by
  obtain ⟨l, hwrote, -⟩ := hfollows
  exact ⟨.inl hf.event, l, hwrote, _, _, .here, hf.region.symm, .inl ⟨i, n, hactive, hn, hf.state.symm⟩⟩

/-- The action of a row that ends the region has failed. -/
theorem Broken.at_final {table : RegionTable σ γ} {nodes : List (BuiltNode σ γ δ)} {choice : Choice σ γ}
    (htarget : choice.transition.target = .final) (hc : choice.Fits table nodes c)
    (hfollows : Exchange.Follows Note.Still
      (c.world.exchange.note (.fired table.path choice.state choice.row e)) c'.world.exchange)
    (hfinal : c'.marking.active = .final) (hf : f.Names .action table.path choice.state e) :
    Region.Broken e f ⟨table, nodes⟩ c c' := by
  obtain ⟨l, hwrote, hl⟩ := hfollows
  obtain ⟨n, hn, hstate⟩ := hc.node
  have hfinished : Region.JustFinished ⟨table, nodes⟩ (.fired table.path choice.state choice.row e :: l)
      choice.state c'.marking :=
    ⟨hfinal, ⟨n, List.mem_of_getElem? hn, hstate⟩, choice.row, _, e, [], l, hc.row, htarget, rfl,
      fun n hn => Note.isFired_of_not_isProgress (hl n hn)⟩
  exact ⟨.inl hf.event, _, (Exchange.wrote_note rfl _).trans hwrote, _, _, .here, hf.region.symm,
    .inr ⟨hf.stage, _, hfinished, hf.state.symm⟩⟩

/-! ## Rows that lead to a state -/

section Crossings

variable [DecidableEq σ] (setup : Setup σ γ) (r : BuiltRegion σ γ δ) (choice : Choice σ γ) (t : Nat)
  (target : BuiltNode σ γ δ) (e : Event)

/-- The row is noted and announced to the hook. -/
def announce : Turn σ γ δ Unit := do
  note (.fired r.data.path choice.state choice.row e)
  setup.hooks.beforeTransition ⟨r.data.path, .state choice.state, .state target.data.id, e⟩

/-- The source of the row is left, with all that is active below it. -/
def depart : Turn σ γ δ Unit :=
  Node.exitAt setup r.data.path choice.position r.nodes choice.position e

/-- The region moves on to the target of the row, runs the action and enters the target. -/
def arrive : Turn σ γ δ Unit := do
  setActive (.at t)
  act r.data.path target.data.id choice e
  Node.enterAt setup r.data.path t r.nodes t e

/-- The row is completed. -/
def conclude : Turn σ γ δ Unit := do
  remember setup r.data.path choice.state target.data.id e
  setup.hooks.afterTransition ⟨r.data.path, .state choice.state, .state target.data.id, e⟩

/-- The failure came from leaving the source of the row. -/
def FailsLeaving (f : Failure) (c c' : Configuration σ γ δ) : Prop :=
  ∃ c₁, announce setup r choice target e c = .ok () c₁ ∧
    depart setup r choice e c₁ = .error (.error (.failure f)) c'

/-- The failure came from the action of the row or from entering its target. -/
def FailsArriving (f : Failure) (c c' : Configuration σ γ δ) : Prop :=
  ∃ c₁ c₂, announce setup r choice target e c = .ok () c₁ ∧ depart setup r choice e c₁ = .ok () c₂ ∧
    arrive setup r choice t target e c₂ = .error (.error (.failure f)) c'

variable {setup r choice t target e}

theorem fire_state (ht : choice.transition.target = .state t) (hn : r.nodes[t]? = some target) :
    Region.fire setup r.data r.nodes choice e = (do
      announce setup r choice target e
      depart setup r choice e
      arrive setup r choice t target e
      conclude setup r choice target e) := by
  unfold Region.fire Region.fireWith announce arrive conclude
  simp only [ht, hn, bind_assoc]
  rfl

omit [Named σ] [DecidableEq σ] in
theorem announce_faultless : Faultless (announce setup r choice target e) :=
  (note_faultless _).bind fun _ => callHook_faultless _ _

omit [Named σ] [DecidableEq σ] in
theorem conclude_faultless : Faultless (conclude setup r choice target e) :=
  (remember_faultless setup _ _ _ _).bind fun _ => callHook_faultless _ _

/-- A row that leads to a state fails on the way out of its source or on the way into its target. -/
theorem fire_fails_iff (ht : choice.transition.target = .state t) (hn : r.nodes[t]? = some target) :
    Region.fire setup r.data r.nodes choice e c = .error (.error (.failure f)) c' ↔
      r.FailsLeaving setup choice target e f c c' ∨ r.FailsArriving setup choice t target e f c c' := by
  have hannounce (c₁) : announce setup r choice target e c ≠ .error (.error (.failure f)) c₁ :=
    announce_faultless.ne c c₁ f
  have hconclude (c₁) : conclude setup r choice target e c₁ ≠ .error (.error (.failure f)) c' :=
    conclude_faultless.ne c₁ c' f
  rw [fire_state ht hn, bind_eq_error, or_iff_right (hannounce c')]
  simp only [bind_eq_error, hconclude, and_false, exists_false, or_false]
  constructor
  · rintro ⟨_, c₁, h₁, hleave | ⟨_, c₂, h₂, harrive⟩⟩
    · exact .inl ⟨c₁, h₁, hleave⟩
    · exact .inr ⟨c₁, c₂, h₁, h₂, harrive⟩
  · rintro (⟨c₁, h₁, hleave⟩ | ⟨c₁, c₂, h₁, h₂, harrive⟩)
    · exact ⟨(), c₁, h₁, .inl hleave⟩
    · exact ⟨(), c₁, h₁, .inr ⟨(), c₂, h₂, harrive⟩⟩

end Crossings

/-! ## Turns that locate failures -/

/-- If a failure halts the turn, then at the region or below. -/
abbrev Breaks (e : Event) (r : BuiltRegion σ γ δ) (c : Configuration σ γ δ) (h : Halt)
    (c' : Configuration σ γ δ) : Prop :=
  ∀ f, h = .error (.failure f) → r.Broken e f c c'

/-- From `P` the turn ends in `Q`, or in a failure that is located at the region or below, unless something
else halts it. -/
def Locates (e : Event) (r : BuiltRegion σ γ δ) (P : Configuration σ γ δ → Prop) (x : Turn σ γ δ α)
    (Q : α → Configuration σ γ δ → Prop) : Prop :=
  ∀ c, P c → Ends x c (fun a c' => c.Follows (fun _ => True) c' ∧ Q a c') (r.Breaks e c)

/-- What is active in the region. -/
abbrev Rests (a : Active) (c : Configuration σ γ δ) : Prop := c.marking.active = a

/-- The turn also keeps what is active in the region. -/
abbrev LocatesAt (e : Event) (r : BuiltRegion σ γ δ) (a : Active) (x : Turn σ γ δ α) : Prop :=
  r.Locates e (Rests a) x fun _ => Rests a

/-- Whatever is active. -/
abbrev LocatesAnywhere (e : Event) (r : BuiltRegion σ γ δ) (x : Turn σ γ δ α) : Prop :=
  r.Locates e (fun _ => True) x fun _ _ => True

section Rules

variable {P P' : Configuration σ γ δ → Prop} {x : Turn σ γ δ α} {Q Q' : α → Configuration σ γ δ → Prop}

theorem Locates.bind {y : α → Turn σ γ δ β} {R : β → Configuration σ γ δ → Prop} (hx : r.Locates e P x Q)
    (hy : ∀ a, r.Locates e (Q a) (y a) R) : r.Locates e P (x >>= y) R := by
  intro c hc
  rw [ends_bind]
  refine (hx c hc).mono (fun a _ h₁ => ?_) fun _ _ h => h
  refine (hy a _ h₁.2).mono (fun b c₂ h₂ => ⟨h₁.1.trans h₂.1, h₂.2⟩) fun _ _ h₂ f hf => ?_
  exact (h₂ f hf).of_follows h₁.1

theorem Locates.mono (hx : r.Locates e P x Q) (hP : ∀ c, P' c → P c) (hQ : ∀ a c, Q a c → Q' a c) :
    r.Locates e P' x Q' := fun c hc =>
  (hx c (hP c hc)).mono (fun a c' h => ⟨h.1, hQ a c' h.2⟩) fun _ _ h => h

theorem Locates.weaken (hx : r.Locates e P x Q) : r.Locates e P x fun _ _ => True :=
  hx.mono (fun _ h => h) fun _ _ _ => trivial

theorem Locates.of_completion (hx : r.Locates .completion P x Q) : r.Locates e P x Q := fun c hc =>
  (hx c hc).mono (fun _ _ h => h) fun _ _ h f hf => (h f hf).of_completion

theorem Locates.pure (a : α) (h : ∀ c, P c → Q a c) : r.Locates e P (Pure.pure a : Turn σ γ δ α) Q :=
  fun _ hc => ⟨.refl _ _, h _ hc⟩

theorem locates_setActive (a : Active) : r.Locates e P (setActive a : Turn σ γ δ Unit) fun _ => Rests a :=
  fun _ _ => ⟨.refl _ _, rfl⟩

theorem locates_active : r.Locates e (fun _ => True) (Turn.active : Turn σ γ δ Active) Rests :=
  fun _ _ => ⟨.refl _ _, rfl⟩

theorem locates_note {n : Note σ} (hn : accepted [n] = []) {a : Active} :
    r.LocatesAt e a (note n : Turn σ γ δ Unit) :=
  fun _ hc => ⟨Exchange.follows_note trivial hn _, hc⟩

/-- An inert turn that no failure halts. -/
theorem Locates.of_faultless {a : Active} (hx : Inert Note.Still x) (hfaultless : Faultless x) :
    r.LocatesAt e a x := fun c hc =>
  ((hx c).and (hfaultless c)).mono
    (fun _ _ h => ⟨Exchange.Follows.mono h.1.follows fun _ _ => trivial, h.1.active.trans hc⟩)
    fun _ _ h f hf => (h.2 f hf).elim

variable {table : RegionTable σ γ} {nodes : List (BuiltNode σ γ δ)} {i : Nat} {n : BuiltNode σ γ δ}

/-- An inert turn whose failures name the active state. -/
theorem Locates.of_blames {stage : Stage} (hx : Inert Note.Still x) (hn : nodes[i]? = some n)
    (hblames : Blames (fun f => f.Names stage table.path n.data.id e) x) :
    LocatesAt e ⟨table, nodes⟩ (.at i) x := fun c hc =>
  ((hx c).and (hblames c)).mono
    (fun _ _ h => ⟨Exchange.Follows.mono h.1.follows fun _ _ => trivial, h.1.active.trans hc⟩)
    fun _ _ h f hf => .at_active h.1.1.follows (h.1.1.active.trans hc) hn (h.2 f hf)

/-- A reaction of the active state. -/
theorem locates_reaction (hn : nodes[i]? = some n) (stage : Stage) (initial : δ)
    (f : Callback (γ × δ) (Except Cause α)) :
    LocatesAt e ⟨table, nodes⟩ (.at i) (orFail stage table.path n.data.id e (performAt i initial f)) := by
  have hN := (Note.admits_still (σ := σ) e).admits
  refine Locates.of_blames ?_ hn (orFail_blames _ _ _ _ (performOn_faultless _ _ f))
  exact orFail_inert hN _ _ _ (performAt_inert (fun _ => hN.silent) _ _ f)

theorem locates_elim (a : α) {y : BuiltNode σ γ δ → Turn σ γ δ α}
    (h : ∀ n, nodes[i]? = some n → r.Locates e P (y n) fun _ => P) :
    r.Locates e P ((nodes[i]?).elim (Pure.pure a) y) fun _ => P := by
  cases hn : nodes[i]? with
  | none => exact Locates.pure a fun _ hc => hc
  | some n => exact h n hn

/-- The turns of the regions of the active state. -/
theorem locates_onEach {x : BuiltRegion σ γ δ → Turn σ γ δ α} (hn : nodes[i]? = some n)
    (h : ∀ r' ∈ n.regions, r'.LocatesAnywhere e (x r')) :
    LocatesAt e ⟨table, nodes⟩ (.at i) (onEach x i 0 n.regions) := by
  intro c hc
  refine onEach_ends (I := fun _ c₁ => c.Follows (fun _ => True) c₁ ∧ Rests (.at i) c₁) ⟨.refl _ _, hc⟩ ?_
  intro j r' hr' c₁ hc₁
  have hchild : Region.child? ⟨table, nodes⟩ (i, 0 + j) = some r' := by
    rw [Region.child?_of_nodes hn, Nat.zero_add]
    exact hr'
  rw [ends_inChild]
  refine (h r' (List.mem_of_getElem? hr') ⟨c₁.world, _⟩ trivial).mono (fun _ c₂ h₂ => ?_) fun _ c₂ h₂ f hf => ?_
  · exact ⟨hc₁.1.trans h₂.1, hc₁.2⟩
  · exact ((h₂ f hf).below hchild hc₁.2).of_follows hc₁.1

end Rules

/-! ## Turns of a region -/

section Turns

variable {setup : Setup σ γ} {table : RegionTable σ γ} {nodes : List (BuiltNode σ γ δ)} {i : Nat}
  {n : BuiltNode σ γ δ}

theorem locates_beforeTransition {m : Move σ} (hm : m.event = e) (a : Active) :
    r.LocatesAt e a (setup.hooks.beforeTransition m) :=
  .of_faultless (setup.hooks.beforeTransition_inert (Note.admits_still e).admits hm) (callHook_faultless _ _)

theorem locates_afterTransition {m : Move σ} (hm : m.event = e) (a : Active) :
    r.LocatesAt e a (setup.hooks.afterTransition m) :=
  .of_faultless (setup.hooks.afterTransition_inert (Note.admits_still e).admits hm) (callHook_faultless _ _)

theorem announce_locates (choice : Choice σ γ) (target : BuiltNode σ γ δ) (a : Active) :
    r.LocatesAt e a (announce setup r choice target e) :=
  (locates_note rfl).bind fun _ => locates_beforeTransition rfl a

theorem conclude_locates (choice : Choice σ γ) (target : BuiltNode σ γ δ) (a : Active) :
    r.LocatesAt e a (conclude setup r choice target e) :=
  .bind (.of_faultless (remember_inert setup _ _ _ _) (remember_faultless setup _ _ _ _)) fun _ =>
    locates_afterTransition rfl a

theorem exit_locates (hn : nodes[i]? = some n)
    (ih : ∀ r ∈ n.regions, r.LocatesAnywhere e (r.stop setup e)) :
    LocatesAt e ⟨table, nodes⟩ (.at i) (n.exit setup table.path i e) := by
  have hstop : LocatesAt e ⟨table, nodes⟩ (.at i) (Region.stopAll setup i 0 n.regions e) := by
    intro c hc
    rw [Region.ends_stopAll]
    exact locates_onEach hn ih c hc
  obtain ⟨unit, regions⟩ := n
  rw [Node.exit]
  refine hstop.bind fun _ => (locates_note rfl).bind fun _ => ?_
  exact locates_reaction hn _ _ _

theorem exitAt_locates_of
    (ih : ∀ n ∈ nodes, ∀ r ∈ n.regions, r.LocatesAnywhere e (r.stop setup e)) (i : Nat) :
    LocatesAt e ⟨table, nodes⟩ (.at i) (Node.exitAt setup table.path i nodes i e) := by
  rw [Node.exitAt_eq]
  exact locates_elim () fun n hn => exit_locates hn (ih n (List.mem_of_getElem? hn))

theorem stop_locates (r : BuiltRegion σ γ δ) (e : Event) : r.LocatesAnywhere e (r.stop setup e) := by
  induction r using Region.induct with
  | step table nodes ih =>
    have hhalt (a : Active) (m : Move σ) (hm : m.event = e) : Locates e ⟨table, nodes⟩ (Rests a)
        (do setActive .stopped; setup.hooks.afterTransition m) fun _ _ => True :=
      (locates_setActive .stopped).bind fun _ => (locates_afterTransition hm _).weaken
    rw [Region.stop]
    refine locates_active.bind fun a => ?_
    split
    · exact Locates.pure () fun _ _ => trivial
    · refine (locates_beforeTransition rfl a).bind fun _ => ?_
      cases a with
      | stopped => exact hhalt _ _ rfl
      | «at» i => exact (exitAt_locates_of ih i).bind fun _ => hhalt _ _ rfl
      | final => exact hhalt _ _ rfl

theorem exitAt_locates (i : Nat) :
    LocatesAt e ⟨table, nodes⟩ (.at i) (Node.exitAt setup table.path i nodes i e) :=
  exitAt_locates_of (fun _ _ r _ => stop_locates r e) i

/-- The action of a row for which the active state answers. -/
theorem act_locates (hn : nodes[i]? = some n) (choice : Choice σ γ) :
    LocatesAt e ⟨table, nodes⟩ (.at i) (act table.path n.data.id choice e) :=
  .of_blames (act_inert (Note.admits_still e).admits _ _ _) hn (act_blames _ _ _)

variable [DecidableEq σ]

/-- The choice of a row for the active state. -/
theorem resolve_locates (hn : nodes[i]? = some n) :
    Locates e ⟨table, nodes⟩ (Rests (.at i)) (table.resolve i n.data.id e)
      fun found c => Rests (.at i) c ∧ ∀ choice, found = some choice → choice.Fits table nodes c := by
  have hN := (Note.admits_still (σ := σ) e).admits
  have hblames := Locates.of_blames (RegionTable.resolve_inert hN table i n.data.id) hn
    (RegionTable.resolve_blames table i n.data.id)
  intro c hc
  exact ((hblames c hc).and (RegionTable.resolve_fits hc hn)).mono
    (fun _ _ h => ⟨h.1.1, h.1.2, h.2⟩) fun _ _ h => h.1

theorem enter_locates (hn : nodes[i]? = some n)
    (ih : ∀ r ∈ n.regions, r.LocatesAnywhere e (r.start setup e)) :
    LocatesAt e ⟨table, nodes⟩ (.at i) (n.enter setup table.path i e) := by
  have hstart : LocatesAt e ⟨table, nodes⟩ (.at i) (Region.startAll setup i 0 n.regions e) := by
    intro c hc
    rw [Region.ends_startAll]
    exact locates_onEach hn ih c hc
  obtain ⟨unit, regions⟩ := n
  rw [Node.enter]
  refine (locates_note rfl).bind fun _ => Locates.bind ?_ fun _ => hstart
  exact locates_reaction hn _ _ _

/-- Firing a row that ends the region: once it is noted, no other row is fired. -/
theorem finish_locates {choice : Choice σ γ} (htarget : choice.transition.target = .final) :
    Locates e ⟨table, nodes⟩ (choice.Fits table nodes) (Region.fire setup table nodes choice e)
      fun _ _ => True := by
  intro c hc
  have hN := (Note.admits_still (σ := σ) e).admits
  let c₁ : Configuration σ γ δ :=
    { c with world.exchange := c.world.exchange.note (.fired table.path choice.state choice.row e) }
  have hnoted : c.Follows (fun _ => True) c₁ := Exchange.follows_note trivial rfl _
  have hfrom {c₂ : Configuration σ γ δ} (h : c₁.Follows Note.Still c₂) : c.Follows (fun _ => True) c₂ :=
    hnoted.trans (h.mono fun _ _ => trivial)
  unfold Region.fire Region.fireWith
  rw [ends_bind, ends_note, htarget]
  dsimp only
  rw [ends_bind]
  refine ((setup.hooks.beforeTransition_inert hN rfl c₁).and (callHook_faultless _ _ c₁)).mono
    (fun _ c₂ h₂ => ?_) fun _ _ h f hf => (h.2 f hf).elim
  have hactive : c₂.marking.active = .at choice.position := h₂.1.active.trans hc.active
  rw [ends_bind]
  refine ((Node.exitAt_feeds (Note.admits_still e) table.path choice.position nodes choice.position c₂).and
    (exitAt_locates choice.position c₂ hactive)).mono (fun _ c₃ h₃ => ?_) fun _ _ h f hf => ?_
  · have hleft : c₁.Follows Note.Still c₃ := h₂.1.follows.trans h₃.1
    rw [ends_bind, ends_setActive, ends_bind]
    refine ((act_inert hN table.path choice.state choice _).and
      (act_blames table.path choice.state choice _)).mono (fun _ c₄ h₄ => ?_) fun _ c₄ h₄ f hf => ?_
    · have hacted : c₁.Follows Note.Still c₄ := hleft.trans h₄.1.follows
      refine ((setup.hooks.afterTransition_inert hN rfl c₄).and (callHook_faultless _ _ c₄)).mono
        (fun _ _ h => ⟨hfrom (hacted.trans h.1.follows), trivial⟩) fun _ _ h f hf => (h.2 f hf).elim
    · exact .at_final htarget hc (hleft.trans h₄.1.1.follows) h₄.1.1.active (h₄.2 f hf)
  · exact (h.2 f hf).of_follows (hfrom h₂.1.follows)

/-- Firing a row, given what entering a state does. -/
theorem fire_locates_of
    (henter : ∀ t, LocatesAt e ⟨table, nodes⟩ (.at t) (Node.enterAt setup table.path t nodes t e))
    (choice : Choice σ γ) :
    Locates e ⟨table, nodes⟩ (choice.Fits table nodes) (Region.fire setup table nodes choice e)
      fun _ _ => True := by
  intro c hc
  cases htarget : choice.transition.target with
  | internal =>
    obtain ⟨n, hn, hstate⟩ := hc.node
    unfold Region.fire Region.fireWith
    rw [htarget, ← hstate]
    exact ((locates_note rfl).bind fun _ => (act_locates hn choice).weaken) c hc.active
  | state t =>
    cases ht : nodes[t]? with
    | none =>
      unfold Region.fire Region.fireWith
      rw [htarget]
      dsimp only
      rw [ht]
      exact (locates_note rfl).weaken c hc.active
    | some target =>
      have hparts : Region.fire setup table nodes choice e = (do
          announce setup ⟨table, nodes⟩ choice target e
          depart setup ⟨table, nodes⟩ choice e
          arrive setup ⟨table, nodes⟩ choice t target e
          conclude setup ⟨table, nodes⟩ choice target e) := fire_state (r := ⟨table, nodes⟩) htarget ht
      rw [hparts]
      have harrive : Locates e ⟨table, nodes⟩ (Rests (.at choice.position))
          (arrive setup ⟨table, nodes⟩ choice t target e) fun _ => Rests (.at t) :=
        (locates_setActive (.at t)).bind fun _ => (act_locates ht choice).bind fun _ => henter t
      refine ((announce_locates choice target _).bind fun _ => (exitAt_locates _).bind fun _ => ?_) c hc.active
      exact harrive.bind fun _ => (conclude_locates choice target _).weaken
  | final => exact finish_locates htarget c hc

theorem due_locates (table : RegionTable σ γ) (nodes : List (BuiltNode σ γ δ)) :
    Locates .completion ⟨table, nodes⟩ (fun _ => True) (due table nodes)
      fun found c => ∀ choice, found = some choice → choice.Fits table nodes c := by
  have hN := (Note.admits_still (σ := σ) .completion).admits
  intro c _
  refine (((due_inert hN table nodes c).and (due_blames table nodes c)).and due_fits).mono
    (fun _ _ h => ⟨Exchange.Follows.mono h.1.1.follows fun _ _ => trivial, h.2⟩) fun _ _ h f hf => ?_
  obtain ⟨⟨⟨hsteps, -⟩, hblames⟩, -⟩ := h
  obtain ⟨i, n, hactive, hn, hnames⟩ := hblames f hf
  exact .at_active hsteps.follows (hsteps.active.trans hactive) hn hnames

theorem settle_locates_of
    (henter : ∀ t, LocatesAt .completion ⟨table, nodes⟩ (.at t)
      (Node.enterAt setup table.path t nodes t .completion)) :
    LocatesAnywhere .completion ⟨table, nodes⟩ (Region.settle setup table nodes) := by
  unfold Region.settle
  generalize setup.settings.maxCompletionChain = k
  induction k with
  | zero =>
    rw [Region.chain]
    refine (due_locates table nodes).bind fun found => ?_
    split
    · intro c _
      rw [ends_bind, ends_note, ends_fail]
      intro _ h
      cases h
    · exact Locates.pure () fun _ _ => trivial
  | succ k ih =>
    rw [Region.chain]
    refine (due_locates table nodes).bind fun found => ?_
    cases found with
    | none => exact Locates.pure () fun _ _ => trivial
    | some choice =>
      refine Locates.bind (Locates.mono (fire_locates_of henter choice) ?_ fun _ _ h => h) fun _ => ih
      exact fun _ h => h choice rfl

theorem start_locates (r : BuiltRegion σ γ δ) (e : Event) : r.LocatesAnywhere e (r.start setup e) := by
  induction r using Region.induct generalizing e with
  | step table nodes ih =>
    have henter (e : Event) (t : Nat) : LocatesAt e ⟨table, nodes⟩ (.at t)
        (Node.enterAt setup table.path t nodes t e) := by
      rw [Node.enterAt_eq]
      exact locates_elim () fun n hn => enter_locates hn fun r hr => ih n (List.mem_of_getElem? hn) r hr e
    rw [Region.start_eq]
    refine locates_active.bind fun a => ?_
    split
    · exact Locates.pure () fun _ _ => trivial
    · refine (locates_beforeTransition rfl a).bind fun _ => ?_
      refine (locates_setActive (.at table.initial)).bind fun _ => (henter e table.initial).bind fun _ => ?_
      refine (locates_afterTransition rfl _).weaken.bind fun _ => ?_
      exact (settle_locates_of (henter .completion)).of_completion

theorem enterAt_locates (t : Nat) :
    LocatesAt e ⟨table, nodes⟩ (.at t) (Node.enterAt setup table.path t nodes t e) := by
  rw [Node.enterAt_eq]
  exact locates_elim () fun n hn => enter_locates hn fun r _ => start_locates r e

theorem react_locates (hn : nodes[i]? = some n)
    (ih : ∀ r ∈ n.regions, r.LocatesAnywhere e (r.process setup e)) :
    LocatesAt e ⟨table, nodes⟩ (.at i) (n.react setup table.path i e) := by
  have hprocess : LocatesAt e ⟨table, nodes⟩ (.at i) (Region.processAll setup i 0 n.regions e) := by
    intro c hc
    rw [Region.ends_processAll]
    exact locates_onEach hn ih c hc
  rw [Node.react_eq]
  refine hprocess.bind fun processed => ?_
  split
  · exact Locates.pure true fun _ hc => hc
  · exact .of_blames (Node.consult_inert (Note.admits_still e).admits _ _ _) hn (Node.consult_blames _ _ _)

theorem process_locates (r : BuiltRegion σ γ δ) (e : Event) : r.LocatesAnywhere e (r.process setup e) := by
  induction r using Region.induct with
  | step table nodes ih =>
    have hsettle : LocatesAnywhere e ⟨table, nodes⟩ (Region.settle setup table nodes) :=
      (settle_locates_of enterAt_locates).of_completion
    have hrespond (i : Nat) (n : BuiltNode σ γ δ) (hn : nodes[i]? = some n) : Locates e ⟨table, nodes⟩
        (Rests (.at i)) (Region.respond setup table nodes i n e) fun _ _ => True := by
      unfold Region.respond
      refine (resolve_locates hn).bind fun found => ?_
      cases found with
      | some choice =>
        refine Locates.bind ((fire_locates_of enterAt_locates choice).mono
          (fun _ h => h.2 choice rfl) fun _ _ h => h) fun _ => ?_
        split
        · exact hsettle.bind fun _ => Locates.pure _ fun _ _ => trivial
        · exact Locates.pure _ fun _ _ => trivial
      | none =>
        have hreact : LocatesAt e ⟨table, nodes⟩ (.at i) (n.react setup table.path i e) :=
          react_locates hn (ih n (List.mem_of_getElem? hn))
        refine (hreact.mono (fun _ h => h.1) fun _ _ _ => trivial).bind fun processed => ?_
        split
        · exact hsettle.bind fun _ => Locates.pure _ fun _ _ => trivial
        · exact Locates.pure _ fun _ _ => trivial
    intro c _
    exact Region.ends_process ⟨.refl _ _, trivial⟩ fun i n hactive hn => hrespond i n hn c hactive

end Turns

/-! ## Where a row is broken off -/

section Crossings

variable {setup : Setup σ γ} {choice : Choice σ γ} {t : Nat} {target : BuiltNode σ γ δ}

/-- On the way out, the source stays active. -/
theorem FailsLeaving.active (h : r.FailsLeaving setup choice target e f c c')
    (hactive : c.marking.active = .at choice.position) : c'.marking.active = .at choice.position := by
  obtain ⟨c₁, h₁, hleave⟩ := h
  have hannounced : c₁.marking.active = .at choice.position :=
    ((announce_locates choice target _ c hactive).of_ok h₁).2
  exact ((Node.exitAt_confined r.data.path _ r.nodes e c₁).of_error hleave).1.active.trans hannounced

/-- On the way in, the target is active. -/
theorem FailsArriving.active [DecidableEq σ] (h : r.FailsArriving setup choice t target e f c c') :
    c'.marking.active = .at t := by
  obtain ⟨c₁, c₂, -, -, harrive⟩ := h
  have hN := (Note.admits_still (σ := σ) e).admits
  have harrived : Ends (arrive setup r choice t target e) c₂ (fun _ => Rests (.at t))
      fun _ => Rests (.at t) := by
    unfold arrive
    rw [ends_bind, ends_setActive, ends_bind]
    refine (act_inert hN _ _ _ _).mono (fun _ c₃ h₃ => ?_) fun _ _ h => h.1.active
    refine (Node.enterAt_confined r.data.path t r.nodes e c₃).mono (fun _ _ h => ?_) fun _ _ h => ?_
    · exact h.active.trans h₃.active
    · exact h.1.active.trans h₃.active
  exact harrived.of_error harrive

end Crossings

end Region

variable [DecidableEq σ]

/-- **The position of a failure.** When a failure ends the start, the stop or the processing of a region, it
names a region that is found by following the active states, and there either its active state or, if an action
failed, the state that the region has just left to become final; and it was an event of the dispatch or
completion. When a failure ends a row that leads to a state, it came either from leaving the source, and the
source is still active, or from the action or from entering the target, and the target is active. -/
theorem failure_position (setup : Setup σ γ) (r : BuiltRegion σ γ δ) (e : Event) (f : Failure)
    (c c' : Configuration σ γ δ) :
    (r.start setup e c = .error (.error (.failure f)) c' ∨ r.stop setup e c = .error (.error (.failure f)) c' ∨
      r.process setup e c = .error (.error (.failure f)) c' → r.Broken e f c c') ∧
    ∀ choice : Choice σ γ, choice.Fits r.data r.nodes c →
      ∀ t target, choice.transition.target = .state t → r.nodes[t]? = some target →
        (Region.fire setup r.data r.nodes choice e c = .error (.error (.failure f)) c' ↔
          r.FailsLeaving setup choice target e f c c' ∨ r.FailsArriving setup choice t target e f c c') ∧
        (r.FailsLeaving setup choice target e f c c' → c'.marking.active = .at choice.position) ∧
        (r.FailsArriving setup choice t target e f c c' → c'.marking.active = .at t) := by
  refine ⟨?_, fun choice hfits t target ht hn => ⟨Region.fire_fails_iff ht hn, fun h => h.active hfits.active,
    fun h => h.active⟩⟩
  rintro (h | h | h)
  · exact (Region.start_locates r e c trivial).of_error h f rfl
  · exact (Region.stop_locates r e c trivial).of_error h f rfl
  · exact (Region.process_locates r e c trivial).of_error h f rfl

/-- Pressed, the light breaks as it becomes final, below the lamp that is still on. Turned, it breaks with its
target active. -/
theorem failure_position_brittle :
    (∃ c', Lamp.brittle.process {} Lamp.press Lamp.glowing =
        .error (.error (.failure (Lamp.burnout "dim" Lamp.press))) c' ∧
      Lamp.brittle.Broken Lamp.press (Lamp.burnout "dim" Lamp.press) Lamp.glowing c') ∧
    ∃ c', Region.fire {} Lamp.brittleLight.data Lamp.brittleLight.nodes Lamp.turning Lamp.turn
        (Lamp.untold (.at 0)) = .error (.error (.failure (Lamp.burnout "bright" Lamp.turn))) c' ∧
      c'.marking.active = .at 1 := by
  refine ⟨⟨_, rfl, (failure_position {} Lamp.brittle _ _ _ _).1 (.inr (.inr rfl))⟩, ?_⟩
  have hfits : Lamp.turning.Fits Lamp.brittleLight.data Lamp.brittleLight.nodes (Lamp.untold (.at 0)) :=
    ⟨rfl, ⟨Lamp.node .dim [], rfl, rfl⟩, rfl⟩
  obtain ⟨c', harrives⟩ : ∃ c', Lamp.brittleLight.FailsArriving {} Lamp.turning 1 (Lamp.node .bright [])
      Lamp.turn (Lamp.burnout "bright" Lamp.turn) (Lamp.untold (.at 0)) c' := ⟨_, _, _, rfl, rfl, rfl⟩
  obtain ⟨hfails, -, hactive⟩ := (failure_position {} Lamp.brittleLight _ _ _ c').2 _ hfits 1 _ rfl rfl
  exact ⟨c', hfails.2 (.inr harrives), hactive harrives⟩

end Statechart
