import Statechart.Proofs.Depth
import Statechart.Proofs.Queue
import Statechart.Proofs.Traversal

/-!
# What passes over regions write

Regions write about what they do, and about what becomes of the events that their callbacks raise. That the context or a
state was constructed, that a dispatch begins or ends, and that the failure hook is called is written elsewhere.

* `Note.isOfPass`, `Note.AdmitsPasses` : the notes that a pass over regions may write;
* `Note.AdmitsRemarks`, `Region.AdmitsEntries` : all of them but those on states that are entered, and these, which are
  about states that a table leads to;
* `Turn.WritesOnly N` : a turn that writes only notes in `N` and takes nothing out of the mailbox;
* `Region.stop_writesOnly`, `Region.start_writesOnly`, `Region.process_writesOnly`, `Region.check_writesOnly` : the turns
  of a region;
* `Chart.stopRegions_writesOnly`, `Chart.startRegions_writesOnly`, `Chart.dispatch_writesOnly`,
  `Chart.check_writesOnly` : the passes over the regions of a machine;
* `Turn.AddsOnly N` : a turn that writes only notes in `N`, whatever it takes out of the mailbox; `Chart.start_addsOnly`.
-/

set_option autoImplicit false

namespace Statechart

open Turn

variable {σ γ δ α : Type}

/-! ## Notes -/

/-- Whether the note may be written in a pass over regions. -/
def Note.isOfPass : Note σ → Bool
  | .contextMade | .stateMade _ | .began _ | .ended _ | .hook (.failure _) => false
  | _ => true

theorem Note.isOfPass_of_isSilent {n : Note σ} (h : n.isSilent = true) : n.isOfPass = true := by
  cases n <;> simp_all [isSilent, isOfPass]

/-- `N` has every note that may be written in a pass over regions. -/
def Note.AdmitsPasses (N : Note σ → Prop) : Prop := ∀ n : Note σ, n.isOfPass = true → N n

/-- Whether the note tells that a state is entered. -/
def Note.isEntry : Note σ → Bool
  | .entry _ _ _ => true
  | _ => false

/-- `N` has every note that may be written in a pass over regions, but maybe not those on states that are entered. -/
def Note.AdmitsRemarks (N : Note σ → Prop) : Prop := ∀ n : Note σ, n.isOfPass = true → n.isEntry = false → N n

/-- `N` has the notes on entering the states to which the table of the region leads, or that of a region below it. -/
def Region.AdmitsEntries (r : BuiltRegion σ γ δ) (N : Note σ → Prop) : Prop :=
  ∀ q ∈ r.preorder, ∀ (i : Nat) (n : BuiltNode σ γ δ) (e : Event), q.nodes[i]? = some n → q.data.LeadsTo i →
    N (.entry q.data.path n.data.id e)

variable {N : Note σ → Prop}

theorem Note.AdmitsRemarks.silent (h : Note.AdmitsRemarks N) (n : Note σ) (hn : n.isSilent = true) : N n :=
  h n (Note.isOfPass_of_isSilent hn) (by cases n <;> simp_all [isSilent, isEntry])

theorem Note.AdmitsPasses.remarks (h : Note.AdmitsPasses N) : Note.AdmitsRemarks N := fun n hn _ => h n hn

theorem Note.AdmitsPasses.entries (h : Note.AdmitsPasses N) (r : BuiltRegion σ γ δ) : r.AdmitsEntries N :=
  fun _ _ _ _ _ _ _ => h _ rfl

/-! ## Turns -/

/-- However the turn ends, it writes only notes in `N`, and takes nothing out of the mailbox. -/
abbrev Turn.WritesOnly (N : Note σ → Prop) (x : Turn σ γ δ α) : Prop :=
  Keeps (Configuration.Follows N) (fun _ _ => True) x

namespace Turn

theorem Inert.writesOnly {x : Turn σ γ δ α} (h : Inert N x) : WritesOnly N x :=
  Keeps.mono h (fun _ _ h => h.follows) fun _ _ _ => trivial

theorem note_writesOnly {n : Note σ} (hn : N n) (hq : accepted [n] = []) : WritesOnly N (note n : Turn σ γ δ Unit) :=
  (note_inert hn hq).writesOnly

theorem fail_writesOnly (e : DispatchError) : WritesOnly N (fail e : Turn σ γ δ α) :=
  fun c => ⟨.refl _ c.world.exchange, trivial⟩

theorem WritesOnly.inChild (k : Nat × Nat) {x : Turn σ γ δ α} (h : WritesOnly N x) : WritesOnly N (inChild k x) := by
  intro c
  rw [ends_inChild]
  exact (h ⟨c.world, c.marking.child k⟩).mono (fun _ _ h => h) fun _ _ h => h

variable (hN : Note.AdmitsRemarks N)

include hN

theorem perform_writesOnly (f : Callback γ α) : WritesOnly N (perform f : Turn σ γ δ α) :=
  (perform_inert hN.silent f).writesOnly

theorem performAt_writesOnly (position : Nat) (initial : δ) (f : Callback (γ × δ) α) :
    WritesOnly N (performAt position initial f : Turn σ γ δ α) :=
  (performAt_inert hN.silent position initial f).writesOnly

theorem orFail_writesOnly [Named σ] (stage : Stage) (path : String) (s : σ) (e : Event)
    {x : Turn σ γ δ (Except Cause α)} (hx : WritesOnly N x) : WritesOnly N (orFail stage path s e x) := by
  refine hx.bind fun outcome => ?_
  split
  · exact Keeps.pure _
  · exact (note_writesOnly (hN _ rfl rfl) rfl).bind fun _ => fail_writesOnly _

/-- The other hooks. -/
theorem callHook_writesOnly {call : HookCall σ} (hcall : N (.hook call)) (hook : Option (Callback γ Unit)) :
    WritesOnly N (callHook call hook : Turn σ γ δ Unit) := by
  cases hook with
  | none => exact Keeps.pure ()
  | some f => exact (note_writesOnly hcall rfl).bind fun _ => perform_writesOnly hN f

theorem offer_writesOnly (e : Event) : WritesOnly N (offer e : Turn σ γ δ Unit) := by
  intro c
  have hoffer := Exchange.follows_offer hN.silent c.world.exchange e
  unfold offer
  rw [ends_bind, ends_get]
  generalize c.world.exchange.offer e = receipt at hoffer
  obtain ⟨receipt, x⟩ := receipt
  cases receipt with
  | queued => exact hoffer
  | refused capacity => exact ⟨hoffer, trivial⟩

end Turn

/-! ## Regions -/

section Regions

variable [Named σ] {setup : Setup σ γ} {e : Event} (hN : Note.AdmitsRemarks N)

include hN

theorem Region.act_writesOnly (path : String) (s : σ) (choice : Choice σ γ) (e : Event) :
    WritesOnly N (Region.act path s choice e : Turn σ γ δ Unit) := by
  unfold Region.act
  split
  · exact Keeps.pure ()
  · exact (note_writesOnly (hN _ rfl rfl) rfl).bind fun _ => orFail_writesOnly hN _ _ _ _ (perform_writesOnly hN _)

theorem Region.Crosses.writesOnly {r q : BuiltRegion σ γ δ} (hr : r.AdmitsEntries N) (hq : q ∈ r.preorder)
    {x : Turn σ γ δ Unit} (hx : q.Crosses setup e x) : WritesOnly N x := by
  cases hx with
  | move a => exact fun c => .refl _ c.world.exchange
  | before => exact callHook_writesOnly hN (hN _ rfl rfl) _
  | after => exact callHook_writesOnly hN (hN _ rfl rfl) _
  | exit =>
    refine (note_writesOnly (hN _ rfl rfl) rfl).bind fun _ => ?_
    exact orFail_writesOnly hN _ _ _ _ (performAt_writesOnly hN _ _ _)
  | entry hn hi =>
    refine (note_writesOnly (hr q hq _ _ e hn hi) rfl).bind fun _ => ?_
    exact orFail_writesOnly hN _ _ _ _ (performAt_writesOnly hN _ _ _)
  | act s => exact Region.act_writesOnly hN _ _ _ _
  | remember s t => exact (Region.remember_inert setup _ _ _ _).writesOnly

theorem Region.stop_writesOnly {r : BuiltRegion σ γ δ} (hr : r.AdmitsEntries N) : WritesOnly N (r.stop setup e) :=
  r.stop_keeps (fun k _ => WritesOnly.inChild k) fun _ hq _ hx => hx.writesOnly hN hr hq

theorem Node.consult_writesOnly (path : String) (position : Nat) (n : BuiltNode σ γ δ) (e : Event) :
    WritesOnly N (n.consult path position e) := by
  unfold Node.consult
  refine (note_writesOnly (hN _ rfl rfl) rfl).bind fun _ => ?_
  refine (orFail_writesOnly hN _ _ _ _ (performAt_writesOnly hN _ _ _)).bind fun processed => ?_
  split
  · exact (note_writesOnly (hN _ rfl rfl) rfl).bind fun _ => Keeps.pure _
  · exact Keeps.pure _

variable [DecidableEq σ]

omit [Named σ] in
theorem RegionTable.ask_writesOnly (path : String) (s : σ) (e : Event) (index : Nat) (row : Transition σ γ Nat) :
    WritesOnly N (RegionTable.ask path s e index row : Turn σ γ δ (Except Cause Bool)) := by
  unfold RegionTable.ask
  split
  · exact (note_writesOnly (hN _ rfl rfl) rfl).bind fun _ => perform_writesOnly hN _
  · exact perform_writesOnly hN _

theorem RegionTable.resolve_writesOnly (t : RegionTable σ γ) (position : Nat) (s : σ) (e : Event) :
    WritesOnly N (t.resolve position s e : Turn σ γ δ (Option (Choice σ γ))) := by
  have hsearch (index : Nat) (rows : List (Transition σ γ Nat)) :
      WritesOnly N (RegionTable.firstEnabled t.path s e index rows : Turn σ γ δ _) := by
    induction rows generalizing index with
    | nil => exact Keeps.pure _
    | cons row rows ih =>
      refine (RegionTable.ask_writesOnly hN t.path s e index row).bind fun verdict => ?_
      split
      · exact Keeps.pure _
      · exact Keeps.pure _
      · exact ih (index + 1)
  exact (orFail_writesOnly hN _ _ _ _ (hsearch 0 t.rows)).bind fun _ => Keeps.pure _

theorem Region.settling_writesOnly {r : BuiltRegion σ γ δ} (hr : r.AdmitsEntries N) :
    r.Settling setup (Configuration.Follows N) fun _ _ => True where
  crosses _ hq _ hx := hx.writesOnly hN hr hq
  fired _ _ _ _ := note_writesOnly (hN _ rfl rfl) rfl
  resolve q _ i s := q.data.resolve_writesOnly hN i s _
  overflow _ _ := (note_writesOnly (hN _ rfl rfl) rfl).bind fun _ => fail_writesOnly _

theorem Region.start_writesOnly {r : BuiltRegion σ γ δ} (hr : r.AdmitsEntries N) : WritesOnly N (r.start setup e) :=
  r.start_keeps (fun k _ => WritesOnly.inChild k) (fun _ hq _ hx => hx.writesOnly hN hr hq)
    (Region.settling_writesOnly hN hr)

theorem Region.process_writesOnly {r : BuiltRegion σ γ δ} (hr : r.AdmitsEntries N) :
    WritesOnly N (r.process setup e) := by
  have hoffering : r.Offering setup (Configuration.Follows N) (fun _ _ => True) e :=
    ⟨fun _ hq _ hx => hx.writesOnly hN hr hq, fun _ _ _ _ => note_writesOnly (hN _ rfl rfl) rfl,
      fun q _ i s => q.data.resolve_writesOnly hN i s e, fun q _ i n _ => n.consult_writesOnly hN q.data.path i e⟩
  exact r.processing_keeps (fun k _ => WritesOnly.inChild k) hoffering (Region.settling_writesOnly hN hr)

omit [Named σ] in
theorem Region.check_writesOnly (r : BuiltRegion σ γ δ) : WritesOnly N (r.check e) :=
  r.check_keeps (fun k _ => WritesOnly.inChild k) fun _ _ row _ path s index =>
    RegionTable.ask_writesOnly hN path s e index row

end Regions

/-! ## Passes over the regions of a machine -/

section Chart

variable [Named σ] (hN : Note.AdmitsPasses N) (c : Chart σ γ δ)

include hN

theorem Chart.stopRegions_writesOnly : WritesOnly N c.stopRegions := by
  intro s
  unfold Chart.stopRegions
  rw [Region.ends_stopAll]
  exact keeps_onEach (fun r _ j => (Region.stop_writesOnly hN.remarks (hN.entries r)).inChild (0, j)) 0 s

variable [DecidableEq σ]

theorem Chart.startRegions_writesOnly : WritesOnly N c.startRegions := by
  intro s
  unfold Chart.startRegions
  rw [Region.ends_startAll]
  exact keeps_onEach (fun r _ j => (Region.start_writesOnly hN.remarks (hN.entries r)).inChild (0, j)) 0 s

theorem Chart.dispatch_writesOnly (e : Event) : WritesOnly N (c.dispatch e) := by
  have hprocess : WritesOnly N (Region.processAll c.setup 0 0 c.regions e) := fun s => by
    rw [Region.ends_processAll]
    exact keeps_onEach (fun r _ j => (Region.process_writesOnly hN.remarks (hN.entries r)).inChild (0, j)) 0 s
  refine (callHook_writesOnly hN.remarks (hN _ rfl) _).bind fun _ => hprocess.bind fun processed => ?_
  refine (callHook_writesOnly hN.remarks (hN _ rfl) _).bind fun _ => ?_
  split
  · exact callHook_writesOnly hN.remarks (hN _ rfl) _
  · exact Keeps.pure ()

omit [Named σ] in
theorem Chart.check_writesOnly (e : Event) : WritesOnly N (c.check e) :=
  Region.checkAny_keeps (fun k _ => WritesOnly.inChild k) (fun r _ => r.check_writesOnly hN.remarks) 0 0

end Chart

/-! ## Starting a machine -/

/-- Only notes in `N` were written. -/
def Configuration.Adds (N : Note σ → Prop) (c c' : Configuration σ γ δ) : Prop :=
  ∃ l, c'.world.exchange.journal.toList = c.world.exchange.journal.toList ++ l ∧ ∀ n ∈ l, N n

instance (N : Note σ → Prop) : IsPreorder (Configuration σ γ δ) (Configuration.Adds N) where
  refl _ := ⟨[], by simp, by simp⟩
  trans _ _ _ h h' := by
    obtain ⟨l, hj, hl⟩ := h
    obtain ⟨l', hj', hl'⟩ := h'
    exact ⟨l ++ l', by rw [hj', hj, List.append_assoc], fun n hn => (List.mem_append.1 hn).elim (hl n) (hl' n)⟩

/-- However the turn ends, it writes only notes in `N`. -/
abbrev Turn.AddsOnly (N : Note σ → Prop) (x : Turn σ γ δ α) : Prop := Keeps (Configuration.Adds N) (fun _ _ => True) x

theorem Turn.WritesOnly.addsOnly {x : Turn σ γ δ α} (h : WritesOnly N x) : AddsOnly N x :=
  Keeps.mono h (fun _ _ ⟨l, hw, hl⟩ => ⟨l, hw.journal, hl⟩) fun _ _ h => h

theorem Turn.attempt_addsOnly {x : Turn σ γ δ α} (h : AddsOnly N x) : AddsOnly N x.attempt := by
  intro s
  rw [ends_attempt]
  refine (h s).mono (fun _ _ h => h) fun halt s' hs => ?_
  cases halt with
  | error err => exact hs.1
  | panic message => exact hs
  | unfinished => exact hs

theorem Chart.take_addsOnly : AddsOnly N (Chart.take : Turn σ γ δ (Option Event)) :=
  fun s => take_ends (fun _ => refl s) fun _ _ hw _ => ⟨[], hw.journal, by simp⟩

section Start

variable [DecidableEq σ] [Named σ] (hN : Note.AdmitsPasses N) (hfailure : ∀ f, N (.hook (.failure f))) (c : Chart σ γ δ)

include hN hfailure

omit [DecidableEq σ] in
theorem Chart.recovering_addsOnly {pass : Turn σ γ δ Unit} (hpass : AddsOnly N pass) :
    AddsOnly N (c.recovering pass) := by
  refine (attempt_addsOnly hpass).bind fun outcome => ?_
  unfold Chart.recover
  split
  · exact Keeps.pure ()
  · split
    · exact (fail_writesOnly _).addsOnly
    · refine (note_writesOnly (hfailure _) rfl).addsOnly.bind fun _ => ?_
      refine (perform_writesOnly hN.remarks _).addsOnly.bind fun verdict => ?_
      split
      · exact Keeps.pure ()
      · exact (offer_writesOnly hN.remarks _).addsOnly
      · exact (c.stopRegions_writesOnly hN).addsOnly
      · exact (fail_writesOnly _).addsOnly
  · exact (fail_writesOnly _).addsOnly

variable (hbegan : ∀ e, N (.began e)) (hended : ∀ e, N (.ended e))

include hbegan hended

/-- By induction on what the caller allows for. -/
theorem Chart.drain_addsOnly (bound : Nat) : AddsOnly N (c.drain bound) := by
  induction bound with
  | zero =>
    intro s
    rw [Chart.drain, ends_bind, ends_get]
    split
    · exact ⟨(refl s : s.Adds N s), trivial⟩
    · exact (refl s : s.Adds N s)
  | succ bound ih =>
    rw [Chart.drain]
    refine Chart.take_addsOnly.bind fun event => ?_
    split
    · refine Keeps.bind ?_ fun _ => ih
      refine (note_writesOnly (hbegan _) rfl).addsOnly.bind fun _ => ?_
      refine (c.recovering_addsOnly hN hfailure (c.dispatch_writesOnly hN _).addsOnly).bind fun _ => ?_
      exact (note_writesOnly (hended _) rfl).addsOnly
    · exact Keeps.pure ()

theorem Chart.start_addsOnly (bound : Nat) : AddsOnly N (c.start bound) :=
  (c.recovering_addsOnly hN hfailure (c.startRegions_writesOnly hN).addsOnly).bind fun _ =>
    c.drain_addsOnly hN hfailure hbegan hended bound

end Start

end Statechart
