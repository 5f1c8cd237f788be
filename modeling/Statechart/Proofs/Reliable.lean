import Statechart.Proofs.Calls
import Statechart.Proofs.Traversal

/-!
# Callbacks that neither fail nor panic

A callback is reliable if it always comes to a value, whatever becomes of the events that it raises. What a region does
between leaving one state and entering another then ends well.

* `Course.Completes P`, `Callback.Completes P` : a course ends, and a call always ends, with a value in `P`;
* `Fallible.Succeeds`, `Behavior.Reliable`, `Transition.Reliable`, `Hooks.Reliable`, `Region.Reliable` : callbacks that
  do not fail;
* `Turn.Gives N P x` : the turn ends well with a value in `P`, writes notes in `N` and changes nothing that is active;
* `Region.act_gives`, `RegionTable.resolve_gives`, `Hooks.beforeTransition_gives` and others : the steps of a region;
* `Turn.Lasts N x` : only an overflow halts the turn; `Region.Reliable.settling`, `Region.Reliable.offering` : so it is
  with whatever a reliable region does.
-/

set_option autoImplicit false

namespace Statechart

open Turn

variable {σ γ δ κ α β : Type}

/-! ## Reliable callbacks -/

/-- Whatever receipts it gets, the course ends with a value in `P`. -/
def Course.Completes (P : α → Prop) : Course κ α → Prop
  | .done _ a => P a
  | .panic _ _ => False
  | .raise _ next => ∀ receipt, (next receipt).Completes P

def Callback.Completes (P : α → Prop) (f : Callback κ α) : Prop := ∀ s, (f s).Completes P

/-- The callback neither panics nor reports a cause. -/
def Fallible.Succeeds (f : Fallible κ α) : Prop := Callback.Completes (fun outcome => ∃ a, outcome = .ok a) f.run

structure Behavior.Reliable (b : Behavior γ δ) : Prop where
  onEntry : ∀ e, Fallible.Succeeds (b.onEntry e)
  onExit : ∀ e, Fallible.Succeeds (b.onExit e)
  onEvent : ∀ e, Fallible.Succeeds (b.onEvent e)

structure Transition.Reliable {τ : Type} (row : Transition σ γ τ) : Prop where
  action : ∀ a, row.action = some a → ∀ e, Fallible.Succeeds (a.run e)
  guard : ∀ g, row.guard = some g → ∀ e, Fallible.Succeeds (g.check e)

/-- The hooks around transitions do not panic. -/
structure Hooks.Reliable (h : Hooks σ γ) : Prop where
  before : ∀ f, h.preTransition = some f → ∀ m, Callback.Completes (fun _ => True) (f m)
  after : ∀ f, h.postTransition = some f → ∀ m, Callback.Completes (fun _ => True) (f m)

theorem Hooks.Reliable.of_none {h : Hooks σ γ} (hbefore : h.preTransition = none) (hafter : h.postTransition = none) :
    h.Reliable where
  before f hf := by rw [hbefore] at hf; cases hf
  after f hf := by rw [hafter] at hf; cases hf

/-- No callback of the region or of a region below it fails. -/
structure Region.Reliable (r : BuiltRegion σ γ δ) : Prop where
  rows : ∀ q ∈ r.preorder, ∀ row ∈ q.data.rows, row.Reliable
  behaviors : ∀ q ∈ r.preorder, ∀ n ∈ q.nodes, n.data.behavior.Reliable

theorem Region.Reliable.below {r r' : BuiltRegion σ γ δ} {n : BuiltNode σ γ δ} (h : r.Reliable) (hn : n ∈ r.nodes)
    (hr' : r' ∈ n.regions) : r'.Reliable where
  rows q hq := h.rows q (Region.mem_preorder_of_mem hn hr' hq)
  behaviors q hq := h.behaviors q (Region.mem_preorder_of_mem hn hr' hq)

theorem Course.Completes.mono {P P' : α → Prop} {x : Course κ α} (h : x.Completes P) (hP : ∀ a, P a → P' a) :
    x.Completes P' := by
  induction x with
  | done s a => exact hP a h
  | panic s message => exact h
  | raise e next ih => exact fun receipt => ih receipt (h receipt)

theorem Course.Completes.play {P : α → Prop} {x : Course κ α} (h : x.Completes P) (exchange : Exchange σ) :
    ∃ a, (x.play exchange).1.result = .ok a ∧ P a := by
  induction x generalizing exchange with
  | done s a => exact ⟨a, rfl, h⟩
  | panic s message => exact h.elim
  | raise e next ih => exact ih _ (h _) _

/-- A course on a part of the state completes as it does on the part alone. -/
theorem Course.Completes.mapState {κ' : Type} {P : α → Prop} {x : Course κ α} (h : x.Completes P) (f : κ → κ') :
    (x.mapState f).Completes P := by
  induction x with
  | done s a => exact h
  | panic s message => exact h
  | raise e next ih => exact fun receipt => ih receipt (h receipt)

theorem Course.Completes.bind {P : α → Prop} {Q : β → Prop} {x : Course κ α} {f : α → κ → Course κ β}
    (h : x.Completes P) (hf : ∀ a, P a → ∀ s, (f a s).Completes Q) : (x.bind f).Completes Q := by
  induction x with
  | done s a => exact hf a h s
  | panic s message => exact h.elim
  | raise e next ih => exact fun receipt => ih receipt (h receipt)

/-- One callback after another succeeds if both do. -/
theorem Fallible.Succeeds.bind {x : Fallible κ α} {f : α → Fallible κ β} (hx : Fallible.Succeeds x)
    (hf : ∀ a, Fallible.Succeeds (f a)) : Fallible.Succeeds (x >>= f) := by
  intro s
  refine Course.Completes.bind (hx s) fun outcome houtcome s' => ?_
  obtain ⟨a, rfl⟩ := houtcome
  exact hf a s'

theorem Fallible.Succeeds.pure (a : α) : Fallible.Succeeds (Pure.pure a : Fallible κ α) := fun _ => ⟨a, rfl⟩

theorem Reactions.runMatching_succeeds {l : List (Option EventKind × Action γ)}
    (h : ∀ reaction ∈ l, ∀ e, Fallible.Succeeds (reaction.2.run e)) (e : Event) :
    Fallible.Succeeds (Reactions.runMatching e l) := by
  induction l with
  | nil => exact .pure ()
  | cons reaction rest ih =>
    rw [List.forall_mem_cons] at h
    obtain ⟨kind, a⟩ := reaction
    rw [Reactions.runMatching]
    split
    · exact (h.1 e).bind fun _ => ih h.2
    · exact ih h.2

/-- Reactions that are listed by kind are reliable if each of them is. -/
theorem Reactions.behavior_reliable [Inhabited δ] {r : Reactions γ}
    (hentry : ∀ reaction ∈ r.entry, ∀ e, Fallible.Succeeds (reaction.2.run e))
    (hexit : ∀ reaction ∈ r.exit, ∀ e, Fallible.Succeeds (reaction.2.run e))
    (hinternal : ∀ e a, r.reaction? e = some a → Fallible.Succeeds (a.run e)) :
    (r.behavior : Behavior γ δ).Reliable where
  onEntry e s := Course.Completes.mapState (Reactions.runMatching_succeeds hentry e s.1) _
  onExit e s := Course.Completes.mapState (Reactions.runMatching_succeeds hexit e s.1) _
  onEvent e s := by
    cases hreaction : r.reaction? e with
    | none =>
      simp only [Reactions.behavior, hreaction]
      refine Course.Completes.mapState ?_ _
      exact Fallible.Succeeds.pure false s.1
    | some a =>
      have hrun : Fallible.Succeeds (do a.run e; return true) := (hinternal e a hreaction).bind fun _ => .pure true
      simp only [Reactions.behavior, hreaction]
      refine Course.Completes.mapState ?_ _
      exact hrun s.1

/-! ## Turns that give a value -/

namespace Turn

/-- A turn that nothing halts ends well. -/
theorem Ends.exists_ok {x : Turn σ γ δ α} {c : Configuration σ γ δ} {Q : α → Configuration σ γ δ → Prop}
    (h : Ends x c Q fun _ _ => False) : ∃ a c', x c = .ok a c' ∧ Q a c' := by
  unfold Ends at h
  cases hx : x c with
  | ok a c' =>
    rw [hx] at h
    exact ⟨a, c', rfl, h⟩
  | error halt c' =>
    rw [hx] at h
    exact h.elim

/-- The turn ends well with a value in `P`; it writes notes in `N`, and of the marking only local data may differ. -/
def Gives (N : Note σ → Prop) (P : α → Prop) (x : Turn σ γ δ α) : Prop :=
  ∀ c, Ends x c (fun a c' => P a ∧ c.Steps N c') fun _ _ => False

variable {N : Note σ → Prop} {P : α → Prop} {Q : β → Prop}

theorem Gives.keeps {x : Turn σ γ δ α} (h : Gives N P x) {H : Halt → Configuration σ γ δ → Prop} :
    Keeps (Configuration.Follows N) H x :=
  fun c => (h c).mono (fun _ _ h => h.2.follows) fun _ _ h => h.elim

theorem Gives.mono {P' : α → Prop} {x : Turn σ γ δ α} (h : Gives N P x) (hP : ∀ a, P a → P' a) : Gives N P' x :=
  fun c => (h c).mono (fun a _ h => ⟨hP a h.1, h.2⟩) fun _ _ h => h

theorem Gives.pure {a : α} (h : P a) : Gives N P (Pure.pure a : Turn σ γ δ α) :=
  fun c => ⟨h, refl_of (Configuration.Steps N) c⟩

theorem Gives.bind {x : Turn σ γ δ α} {f : α → Turn σ γ δ β} (hx : Gives N P x) (hf : ∀ a, P a → Gives N Q (f a)) :
    Gives N Q (x >>= f) := by
  intro c
  rw [ends_bind]
  refine (hx c).mono (fun a c₁ h₁ => ?_) fun _ _ h => h
  refine (hf a h₁.1 c₁).mono (fun _ _ h₂ => ⟨h₂.1, ?_⟩) fun _ _ h => h
  exact trans_of (Configuration.Steps N) h₁.2 h₂.2

theorem note_gives {n : Note σ} (hn : N n) (hq : accepted [n] = []) :
    Gives N (fun _ => True) (note n : Turn σ γ δ Unit) := by
  intro c
  rw [ends_note]
  exact ⟨trivial, Exchange.follows_note hn hq _, rfl, fun _ => rfl⟩

theorem performOn_ends {part : Configuration σ γ δ → κ} {put : κ → Configuration σ γ δ → Configuration σ γ δ}
    {f : Callback κ α} {c : Configuration σ γ δ} (hf : (f (part c)).Completes P) :
    Ends (performOn part put f) c (fun a _ => P a) fun _ _ => False := by
  obtain ⟨a, ha, hP⟩ := hf.play c.world.exchange
  unfold Ends performOn
  generalize (f (part c)).play c.world.exchange = played at ha
  obtain ⟨⟨result, state⟩, x⟩ := played
  obtain rfl : result = .ok a := ha
  exact hP

theorem perform_gives (hN : ∀ n : Note σ, n.isSilent = true → N n) {f : Callback γ α} (hf : f.Completes P) :
    Gives N P (perform f : Turn σ γ δ α) := fun c =>
  (Ends.and (performOn_ends (hf _)) (perform_inert hN f c)).mono (fun _ _ h => h) fun _ _ h => h.1

/-- A call that completes from the context and the local data as they are. -/
theorem performAt_ends (hN : ∀ n : Note σ, n.isSilent = true → N n) (position : Nat) (initial : δ)
    {f : Callback (γ × δ) α} {c : Configuration σ γ δ}
    (hf : (f (c.world.context, c.marking.data position initial)).Completes P) :
    Ends (performAt position initial f) c (fun a c' => P a ∧ c.Steps N c') fun _ _ => False :=
  (Ends.and (performOn_ends hf) (performAt_inert hN position initial f c)).mono (fun _ _ h => h) fun _ _ h => h.1

theorem performAt_gives (hN : ∀ n : Note σ, n.isSilent = true → N n) (position : Nat) (initial : δ)
    {f : Callback (γ × δ) α} (hf : f.Completes P) : Gives N P (performAt position initial f : Turn σ γ δ α) :=
  fun _ => performAt_ends hN position initial (hf _)

/-- A callback that reports no cause. -/
theorem orFail_ends [Named σ] {x : Turn σ γ δ (Except Cause α)} {c : Configuration σ γ δ}
    {Q : α → Configuration σ γ δ → Prop} {E : Halt → Configuration σ γ δ → Prop}
    (hx : Ends x c (fun outcome c' => ∃ a, outcome = .ok a ∧ Q a c') E) (stage : Stage) (path : String) (s : σ)
    (e : Event) : Ends (orFail stage path s e x) c Q E := by
  unfold orFail
  rw [ends_bind]
  refine hx.mono (fun outcome c' h => ?_) fun _ _ h => h
  obtain ⟨a, rfl, hQ⟩ := h
  exact hQ

theorem orFail_gives [Named σ] {x : Turn σ γ δ (Except Cause α)}
    (hx : Gives N (fun outcome => ∃ a, outcome = .ok a ∧ P a) x) (stage : Stage) (path : String) (s : σ) (e : Event) :
    Gives N P (orFail stage path s e x) := by
  refine fun c => orFail_ends ((hx c).mono (fun outcome c' h => ?_) fun _ _ h => h) stage path s e
  obtain ⟨⟨a, rfl, ha⟩, hsteps⟩ := h
  exact ⟨a, rfl, ha, hsteps⟩

theorem callHook_gives (hN : ∀ n : Note σ, n.isSilent = true → N n) {call : HookCall σ} (hcall : N (.hook call))
    {hook : Option (Callback γ Unit)} (hhook : ∀ f, hook = some f → f.Completes fun _ => True) :
    Gives N (fun _ => True) (callHook call hook : Turn σ γ δ Unit) := by
  cases hook with
  | none => exact .pure trivial
  | some f => exact (note_gives hcall rfl).bind fun _ _ => perform_gives hN (hhook f rfl)

end Turn

/-! ## Steps of a region -/

section Steps

variable {N : Note σ → Prop} (hN : ∀ n : Note σ, n.isSilent = true → N n) {e : Event}

include hN

theorem Hooks.beforeTransition_gives {h : Hooks σ γ} (hreliable : h.Reliable) {m : Move σ}
    (hm : N (.hook (.preTransition m))) : Gives N (fun _ => True) (h.beforeTransition m : Turn σ γ δ Unit) := by
  refine callHook_gives hN hm fun f hf => ?_
  obtain ⟨g, hg, rfl⟩ := Option.map_eq_some_iff.1 hf
  exact hreliable.before g hg m

theorem Hooks.afterTransition_gives {h : Hooks σ γ} (hreliable : h.Reliable) {m : Move σ}
    (hm : N (.hook (.postTransition m))) : Gives N (fun _ => True) (h.afterTransition m : Turn σ γ δ Unit) := by
  refine callHook_gives hN hm fun f hf => ?_
  obtain ⟨g, hg, rfl⟩ := Option.map_eq_some_iff.1 hf
  exact hreliable.after g hg m

omit hN in
theorem Region.remember_gives (setup : Setup σ γ) (path : String) (s t : σ) (e : Event) :
    Gives N (fun _ => True) (Region.remember setup path s t e : Turn σ γ δ Unit) := by
  unfold Region.remember
  split
  · exact fun _ => ⟨trivial, .refl N _, rfl, fun _ => rfl⟩
  · exact .pure trivial

variable [Named σ]

/-- The call of a state's own callback. -/
theorem Node.call_gives {f : Fallible (γ × δ) α} (hf : Fallible.Succeeds f) (stage : Stage) (path : String) (s : σ)
    (e : Event) (position : Nat) (initial : δ) : Gives N (fun _ => True)
      (orFail stage path s e (performAt position initial f.run) : Turn σ γ δ α) := by
  refine orFail_gives ((performAt_gives hN position initial hf).mono fun outcome h => ?_) stage path s e
  obtain ⟨a, ha⟩ := h
  exact ⟨a, ha, trivial⟩

theorem Region.act_gives {choice : Choice σ γ} (hrow : choice.transition.Reliable) (path : String) (s : σ)
    (haction : N (.action path s choice.row e)) :
    Gives N (fun _ => True) (Region.act path s choice e : Turn σ γ δ Unit) := by
  unfold Region.act
  split
  · exact .pure trivial
  · rename_i a ha
    refine (note_gives haction rfl).bind fun _ _ => ?_
    refine orFail_gives ((perform_gives hN (hrow.action a ha e)).mono fun outcome h => ?_) _ _ _ _
    obtain ⟨u, hu⟩ := h
    exact ⟨u, hu, trivial⟩

variable [DecidableEq σ]

omit [Named σ] in
theorem RegionTable.ask_gives {row : Transition σ γ Nat} (hrow : row.Reliable) (path : String) (s : σ) (index : Nat)
    (hguard : N (.guard path s index e)) : Gives N (fun verdict => ∃ b, verdict = .ok b)
      (ask path s e index row : Turn σ γ δ (Except Cause Bool)) := by
  have hfire : Fallible.Succeeds (row.canFire s e) := by
    unfold Transition.canFire
    split
    · split
      · rename_i g hg
        exact hrow.guard g hg e
      · exact .pure true
    · exact .pure false
  unfold ask
  split
  · exact (note_gives hguard rfl).bind fun _ _ => perform_gives hN hfire
  · exact perform_gives hN hfire

omit [Named σ] in
theorem RegionTable.firstEnabled_gives {rows : List (Transition σ γ Nat)} (hrows : ∀ row ∈ rows, row.Reliable)
    (path : String) (s : σ) (hguard : ∀ index, N (.guard path s index e)) (index : Nat) :
    Gives N (fun outcome => ∃ found, outcome = .ok found)
      (firstEnabled path s e index rows : Turn σ γ δ (Except Cause (Option (Nat × Transition σ γ Nat)))) := by
  induction rows generalizing index with
  | nil => exact .pure ⟨none, rfl⟩
  | cons row rows ih =>
    rw [List.forall_mem_cons] at hrows
    refine (ask_gives hN hrows.1 path s index (hguard index)).bind fun verdict hverdict => ?_
    obtain ⟨b, rfl⟩ := hverdict
    cases b with
    | true => exact .pure ⟨_, rfl⟩
    | false => exact ih hrows.2 (index + 1)

theorem RegionTable.resolve_gives {t : RegionTable σ γ} (hrows : ∀ row ∈ t.rows, row.Reliable)
    (hguard : ∀ s index, N (.guard t.path s index e)) (position : Nat) (s : σ) :
    Gives N (fun _ => True) (t.resolve position s e : Turn σ γ δ (Option (Choice σ γ))) := by
  have hfound : Gives N (fun _ => True) (orFail .guard t.path s e (firstEnabled t.path s e 0 t.rows) :
      Turn σ γ δ (Option (Nat × Transition σ γ Nat))) := by
    refine orFail_gives ((firstEnabled_gives hN hrows t.path s (hguard s) 0).mono fun outcome h => ?_) _ _ _ _
    obtain ⟨found, hfound⟩ := h
    exact ⟨found, hfound, trivial⟩
  exact hfound.bind fun _ _ => .pure trivial

end Steps

/-! ## Turns of a region -/

/-- The turn writes notes in `N`, and only an overflow halts it. -/
abbrev Turn.Lasts (N : Note σ → Prop) (x : Turn σ γ δ α) : Prop :=
  Keeps (Configuration.Follows N) (fun h _ => h.isOverflow = true) x

theorem Turn.Lasts.inChild {N : Note σ → Prop} (k : Nat × Nat) (x : Turn σ γ δ α) (hx : Lasts N x) :
    Lasts N (inChild k x) := by
  intro c
  rw [ends_inChild]
  exact (hx ⟨c.world, c.marking.child k⟩).mono (fun _ _ h => h) fun _ _ h => h

/-- Whether the note may be written while a state is left, an action is run or a state is entered. -/
def Note.isOfCrossing : Note σ → Bool
  | .entry _ _ _ | .exit _ _ _ | .action _ _ _ _ | .hook (.preTransition _) | .hook (.postTransition _) => true
  | n => n.isSilent

theorem Note.isOfCrossing_of_isSilent {n : Note σ} (h : n.isSilent = true) : n.isOfCrossing = true := by
  cases n <;> simp_all [isSilent, isOfCrossing]

theorem Note.concerns_of_event? {n : Note σ} {e : Event} (h : n.event? = some e) : n.Concerns e :=
  ⟨by cases n <;> simp_all [event?, isBoundary], fun e' he' => Option.some.inj (he'.symm.trans h)⟩

section Turns

variable [Named σ] {setup : Setup σ γ} {N : Note σ → Prop} {e : Event} {r : BuiltRegion σ γ δ}

theorem Region.Reliable.crosses (hr : r.Reliable) (hhooks : setup.hooks.Reliable)
    (hN : ∀ n : Note σ, n.Concerns e → n.isOfCrossing = true → N n) {q : BuiltRegion σ γ δ} (hq : q ∈ r.preorder)
    {x : Turn σ γ δ Unit} (hx : q.Crosses setup e x) : Lasts N x := by
  have hsilent (n : Note σ) (hn : n.isSilent = true) : N n :=
    hN n (Note.concerns_of_isSilent hn e) (Note.isOfCrossing_of_isSilent hn)
  have habout {n : Note σ} (hevent : n.event? = some e) (hn : n.isOfCrossing = true) : N n :=
    hN n (Note.concerns_of_event? hevent) hn
  cases hx with
  | move a => exact fun c => .refl N c.world.exchange
  | before hm => exact (Hooks.beforeTransition_gives hsilent hhooks (habout (congrArg some hm) rfl)).keeps
  | after hm => exact (Hooks.afterTransition_gives hsilent hhooks (habout (congrArg some hm) rfl)).keeps
  | exit hn =>
    have hcall := (hr.behaviors q hq _ hn).onExit e
    exact ((note_gives (habout rfl rfl) rfl).bind fun _ _ => Node.call_gives hsilent hcall _ _ _ _ _ _).keeps
  | entry hn _ =>
    have hcall := (hr.behaviors q hq _ (List.mem_of_getElem? hn)).onEntry e
    exact ((note_gives (habout rfl rfl) rfl).bind fun _ _ => Node.call_gives hsilent hcall _ _ _ _ _ _).keeps
  | act s hrow => exact (Region.act_gives hsilent (hr.rows q hq _ hrow) _ _ (habout rfl rfl)).keeps
  | remember s t => exact (Region.remember_gives setup _ _ _ _).keeps

variable [DecidableEq σ]

theorem Region.Reliable.settling (hr : r.Reliable) (hhooks : setup.hooks.Reliable)
    (hN : ∀ n : Note σ, n.Concerns .completion → N n) :
    r.Settling setup (Configuration.Follows N) fun h _ => h.isOverflow = true where
  crosses q hq x hx := hr.crosses hhooks (fun n hn _ => hN n hn) hq hx
  fired q hq s row := (note_gives (hN _ (Note.concerns_of_event? rfl)) rfl).keeps
  resolve q hq i s := (RegionTable.resolve_gives (fun n hn => hN n (Note.concerns_of_isSilent hn _)) (hr.rows q hq)
    (fun s k => hN _ (Note.concerns_of_event? rfl)) i s).keeps
  overflow q hq := by
    intro c
    rw [ends_bind, ends_note, ends_fail]
    exact ⟨Exchange.follows_note (hN _ ⟨rfl, by simp [Note.event?]⟩) rfl _, rfl⟩

theorem Region.Reliable.offering (hr : r.Reliable) (hhooks : setup.hooks.Reliable)
    (hN : ∀ n : Note σ, n.Concerns e → N n) :
    r.Offering setup (Configuration.Follows N) (fun h _ => h.isOverflow = true) e where
  crosses q hq x hx := hr.crosses hhooks (fun n hn _ => hN n hn) hq hx
  fired q hq s row := (note_gives (hN _ (Note.concerns_of_event? rfl)) rfl).keeps
  resolve q hq i s := (RegionTable.resolve_gives (fun n hn => hN n (Note.concerns_of_isSilent hn _)) (hr.rows q hq)
    (fun s k => hN _ (Note.concerns_of_event? rfl)) i s).keeps
  consult q hq i n hn := by
    have hsilent (n : Note σ) (hn : n.isSilent = true) : N n := hN n (Note.concerns_of_isSilent hn e)
    have hcall := (hr.behaviors q hq n hn).onEvent e
    have hconsult : Gives N (fun _ => True) (n.consult q.data.path i e) := by
      refine (note_gives (hN _ (Note.concerns_of_event? rfl)) rfl).bind fun _ _ => ?_
      refine (Node.call_gives hsilent hcall _ _ _ _ _ _).bind fun processed _ => ?_
      split
      · exact (note_gives (hN _ (Note.concerns_of_event? rfl)) rfl).bind fun _ _ => .pure trivial
      · exact .pure trivial
    exact hconsult.keeps

end Turns

namespace Lamp

theorem row_reliable {τ : Type} (source : Lamp) (target : Target τ) (e : Event) : (row source target e).Reliable :=
  ⟨nofun, nofun⟩

theorem node_reliable (s : Lamp) (regions : List (BuiltRegion Lamp Unit Unit)) :
    (node s regions).data.behavior.Reliable := Reactions.behavior_reliable nofun nofun nofun

theorem completing_reliable {τ : Type} (source : Lamp) (target : Target τ) : (completing source target).Reliable :=
  ⟨nofun, nofun⟩

theorem lightRegion_reliable {rows : List (Transition Lamp Unit Nat)} (h : ∀ row ∈ rows, row.Reliable) :
    (lightRegion rows).Reliable := by
  have hpreorder : (lightRegion rows).preorder = [lightRegion rows] := rfl
  refine ⟨?_, ?_⟩
  · rw [hpreorder, List.forall_mem_singleton]
    exact h
  · rw [hpreorder, List.forall_mem_singleton]
    exact List.forall_mem_cons.2 ⟨node_reliable _ _, List.forall_mem_singleton.2 (node_reliable _ _)⟩

theorem tree_reliable : tree.Reliable := by
  have hpreorder : tree.preorder =
      [tree, ⟨⟨"lamp/on/light", [row dim (.state 1) turn], 0⟩, [node dim [], node bright []]⟩] := rfl
  refine ⟨?_, ?_⟩
  · rw [hpreorder, List.forall_mem_cons, List.forall_mem_singleton]
    refine ⟨List.forall_mem_cons.2 ⟨row_reliable _ _ _, ?_⟩, List.forall_mem_singleton.2 (row_reliable _ _ _)⟩
    exact List.forall_mem_singleton.2 (row_reliable _ _ _)
  · rw [hpreorder, List.forall_mem_cons, List.forall_mem_singleton]
    refine ⟨List.forall_mem_cons.2 ⟨node_reliable _ _, ?_⟩, List.forall_mem_cons.2 ⟨node_reliable _ _, ?_⟩⟩
    · exact List.forall_mem_singleton.2 (node_reliable _ _)
    · exact List.forall_mem_singleton.2 (node_reliable _ _)

end Lamp

end Statechart
