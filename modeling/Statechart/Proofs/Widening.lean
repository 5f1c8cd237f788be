import Statechart.Proofs.LockstepUntil

/-!
# Regions under wider limits

What a region does under wider limits is what it does under narrower ones, until one of these bites: until the mailbox
refuses an event, or a chain of completion rows is cut off.

* `Note.isHindrance`, `Configuration.Hindered` : a limit has bitten;
* `Settings.Widened s s'` : the settings `s'` have wider limits than `s`, and may keep a history or not;
* `Configuration.Roomier` : the second mailbox is wider, and the histories may differ;
* `Exchange.Roomier.offer`, `Course.play_roomier` : events are taken by the wider mailbox, too;
* `Turn.Eased` : two turns come to the same until a limit bites;
* `Region.chain_eased` : the longer chain does what the shorter one does;
* `Region.stop_eased`, `Region.start_eased`, `Region.process_eased`, `Region.check_eased` : whole passes.
-/

set_option autoImplicit false

namespace Statechart

open Turn

variable {σ γ δ κ α β : Type}

/-! ## Limits that bite -/

/-- Whether a limit has bitten: an event was refused, or a chain of completion rows was cut off. -/
def Note.isHindrance : Note σ → Bool
  | .refused _ | .overflowed _ _ => true
  | _ => false

/-- A limit has bitten. -/
def Exchange.Hindered (x : Exchange σ) : Prop := ∃ n ∈ x.journal.toList, n.isHindrance = true

theorem Exchange.hindered_note {n : Note σ} (hn : n.isHindrance = true) (x : Exchange σ) : (x.note n).Hindered :=
  ⟨n, by simp [note], hn⟩

theorem Exchange.Follows.hindered {N : Note σ → Prop} {x x' : Exchange σ} (h : Follows N x x') (hx : x.Hindered) :
    x'.Hindered := by
  obtain ⟨l, hw, -⟩ := h
  obtain ⟨n, hn, hhindrance⟩ := hx
  refine ⟨n, ?_, hhindrance⟩
  rw [hw.journal]
  exact List.mem_append_left l hn

/-- A limit has bitten. -/
def Configuration.Hindered (c : Configuration σ γ δ) : Prop := c.world.exchange.Hindered

/-! ## Wider limits -/

/-- There is no second bound, or it is not below the first. -/
def Wider (n n' : Option Nat) : Prop := ∀ k' ∈ n', ∃ k ∈ n, k ≤ k'

/-- The settings differ at most in that the limits of the second are wider, and in whether a history is kept. -/
structure Settings.Widened (s s' : Settings) : Prop where
  autoStart : s'.autoStart = s.autoStart
  maxCompletionChain : s.maxCompletionChain ≤ s'.maxCompletionChain
  queueCapacity : Wider s.queueCapacity s'.queueCapacity

/-- The exchanges differ at most in the capacities of their mailboxes, of which the second is wider. -/
structure Exchange.Roomier (x x' : Exchange σ) : Prop where
  journal : x'.journal = x.journal
  pending : x'.mailbox.pending = x.mailbox.pending
  capacity : Wider x.mailbox.capacity x'.mailbox.capacity

/-- The configurations differ at most in their histories and in the capacities of their mailboxes, of which the second
is wider. -/
structure Configuration.Roomier (c d : Configuration σ γ δ) : Prop where
  exchange : c.world.exchange.Roomier d.world.exchange
  context : d.world.context = c.world.context
  clock : d.world.clock = c.world.clock
  marking : d.marking = c.marking

/-! ## Mailboxes -/

theorem Mailbox.offer_queued_iff {b : Mailbox} {e : Event} :
    (b.offer e).1 = .queued ↔ ∀ k ∈ b.capacity, b.pending.length < k := by
  unfold Mailbox.offer
  split
  · rename_i k hk
    split <;> simp [hk] <;> omega
  · rename_i hk
    simp [hk]

namespace Exchange.Roomier

variable {x x' : Exchange σ} (h : x.Roomier x')

include h

theorem note (n : Note σ) : (x.note n).Roomier (x'.note n) :=
  ⟨congrArg (Journal.write · n) h.journal, h.pending, h.capacity⟩

/-- An event that the narrower mailbox takes is taken by the wider one. -/
theorem offer (e : Event) :
    (x.offer e).2.Hindered ∨ ((x'.offer e).1 = (x.offer e).1 ∧ (x.offer e).2.Roomier (x'.offer e).2) := by
  cases hoffer : (x.mailbox.offer e).1 with
  | refused capacity =>
    rw [offer_of_refused hoffer]
    exact .inl (hindered_note rfl x)
  | queued =>
    have hoffer' : (x'.mailbox.offer e).1 = .queued := by
      rw [Mailbox.offer_queued_iff] at hoffer ⊢
      intro k' hk'
      obtain ⟨k, hk, hle⟩ := h.capacity k' hk'
      rw [h.pending]
      exact Nat.lt_of_lt_of_le (hoffer k hk) hle
    rw [offer_of_queued hoffer, offer_of_queued hoffer']
    have htaken : Roomier { x with mailbox.pending := x.mailbox.pending ++ [e] }
        { x' with mailbox.pending := x'.mailbox.pending ++ [e] } :=
      ⟨h.journal, congrArg (· ++ [e]) h.pending, h.capacity⟩
    exact .inr ⟨rfl, htaken.note _⟩

end Exchange.Roomier

/-- A course plays the same with a wider mailbox, until an event is refused. -/
theorem Course.play_roomier (y : Course κ α) {x x' : Exchange σ} (h : x.Roomier x') :
    (y.play x).2.Hindered ∨ ((y.play x').1 = (y.play x).1 ∧ (y.play x).2.Roomier (y.play x').2) := by
  induction y generalizing x x' with
  | done => exact .inr ⟨rfl, h⟩
  | panic => exact .inr ⟨rfl, h⟩
  | raise e next ih =>
    rw [Course.play, Course.play]
    rcases h.offer e with hrefused | ⟨hreceipt, h'⟩
    · exact .inl ((Course.play_follows (N := fun _ => True) (fun _ _ => trivial) _ _).hindered hrefused)
    · rw [hreceipt]
      exact ih _ h'

/-! ## Turns -/

namespace Turn

/-- The second turn does what the first does, with wider limits, until a limit bites. -/
abbrev Eased (x y : Turn σ γ δ α) : Prop := LockstepUntil Configuration.Hindered Configuration.Roomier x y

theorem active_eased : Eased (active : Turn σ γ δ Active) active :=
  LockstepUntil.onPart (fun c => c.marking.active) (fun c d h => by rw [h.marking]) fun a => .pure a

theorem setActive_eased (a : Active) : Eased (setActive a : Turn σ γ δ Unit) (setActive a) where
  stays _ h := h
  alike _ _ h := .inr ⟨rfl, h.exchange, h.context, h.clock, congrArg (Marking.setActive a) h.marking⟩

theorem note_eased (n : Note σ) : Eased (note n : Turn σ γ δ Unit) (note n) where
  stays c h := by
    obtain ⟨n', hn', hhindrance⟩ := h
    exact ⟨n', by simpa [Exchange.note] using .inl hn', hhindrance⟩
  alike _ _ h := .inr ⟨rfl, h.exchange.note n, h.context, h.clock, h.marking⟩

/-- A callback in whose course an event is refused, or that is called after one was. -/
theorem performOn_hindered {part : Configuration σ γ δ → κ} {put : κ → Configuration σ γ δ → Configuration σ γ δ}
    (hexchange : ∀ s c, (put s c).world.exchange = c.world.exchange) {f : Callback κ α} {c : Configuration σ γ δ}
    (h : ((f (part c)).play c.world.exchange).2.Hindered) : EndsIn Configuration.Hindered (performOn part put f) c := by
  unfold EndsIn Ends performOn
  generalize (f (part c)).play c.world.exchange = played at h
  obtain ⟨⟨result, state⟩, x⟩ := played
  cases result with
  | ok a =>
    show Exchange.Hindered (put state _).world.exchange
    rwa [hexchange]
  | error message =>
    show Exchange.Hindered (put state _).world.exchange
    rw [hexchange]
    exact (Exchange.follows_note (N := fun _ => True) trivial rfl x).hindered h

theorem performOn_eased {part : Configuration σ γ δ → κ} {put : κ → Configuration σ γ δ → Configuration σ γ δ}
    (hpart : ∀ c d, c.Roomier d → part d = part c) (hexchange : ∀ s c, (put s c).world.exchange = c.world.exchange)
    (hput : ∀ s c d, c.Roomier d → (put s c).Roomier (put s d)) (f : Callback κ α) :
    Eased (performOn part put f) (performOn part put f) where
  stays c h := by
    have hplay := Course.play_follows (N := fun _ => True) (fun _ _ => trivial) (f (part c)) c.world.exchange
    exact performOn_hindered hexchange (hplay.hindered h)
  alike c d h := by
    refine ((f (part c)).play_roomier h.exchange).imp (performOn_hindered hexchange) fun ⟨hsame, hroomier⟩ => ?_
    unfold EndsAlike Ends performOn
    rw [hpart c d h]
    generalize (f (part c)).play c.world.exchange = played at hsame hroomier
    generalize (f (part c)).play d.world.exchange = played' at hsame hroomier
    obtain ⟨⟨result, state⟩, x⟩ := played
    obtain ⟨_, x'⟩ := played'
    obtain rfl := hsame
    cases result with
    | ok a => exact ⟨rfl, hput state _ _ ⟨hroomier, h.context, h.clock, h.marking⟩⟩
    | error message => exact ⟨rfl, hput state _ _ ⟨hroomier.note _, h.context, h.clock, h.marking⟩⟩

theorem perform_eased (f : Callback γ α) : Eased (perform f : Turn σ γ δ α) (perform f) := by
  unfold perform
  apply performOn_eased
  · exact fun _ _ h => h.context
  · exact fun _ _ => rfl
  · exact fun _ _ _ h => ⟨h.exchange, rfl, h.clock, h.marking⟩

theorem performAt_eased (position : Nat) (initial : δ) (f : Callback (γ × δ) α) :
    Eased (performAt position initial f : Turn σ γ δ α) (performAt position initial f) := by
  unfold performAt
  apply performOn_eased
  · exact fun _ _ h => by rw [h.context, h.marking]
  · exact fun _ _ => rfl
  · exact fun s _ _ h => ⟨h.exchange, rfl, h.clock, congrArg (Marking.setData · position s.2) h.marking⟩

theorem inChild_eased (k : Nat × Nat) {x y : Turn σ γ δ α} (h : Eased x y) : Eased (inChild k x) (inChild k y) := by
  refine h.inChild (fun _ _ _ h => h) fun c d hR => ⟨?_, fun c' d' hR' => ?_⟩
  · exact ⟨hR.exchange, hR.context, hR.clock, by rw [hR.marking]⟩
  · exact ⟨hR'.exchange, hR'.context, hR'.clock, by rw [hR.marking, hR'.marking]⟩

/-- An overflow is a limit that has bitten, whatever is done instead. -/
theorem overflow_eased (path : String) (limit : Nat) (y : Turn σ γ δ Unit) :
    Eased (do note (.overflowed path limit); fail (.completionOverflow path limit)) y :=
  .of_forall fun c => Exchange.hindered_note rfl c.world.exchange

theorem offer_hindered {e : Event} {c : Configuration σ γ δ} (h : (c.world.exchange.offer e).2.Hindered) :
    EndsIn Configuration.Hindered (offer e) c := by
  unfold EndsIn offer
  rw [ends_bind, ends_get]
  dsimp only
  generalize c.world.exchange.offer e = offered at h
  obtain ⟨receipt, x⟩ := offered
  cases receipt <;> exact h

theorem offer_eased (e : Event) : Eased (offer e : Turn σ γ δ Unit) (offer e) where
  stays c h := by
    have hoffer := Exchange.follows_offer (N := fun _ => True) (fun _ _ => trivial) c.world.exchange e
    exact offer_hindered (hoffer.hindered h)
  alike c d h := by
    refine (h.exchange.offer e).imp offer_hindered fun ⟨hsame, hroomier⟩ => ?_
    unfold offer
    refine EndsAlike.get ?_
    generalize c.world.exchange.offer e = offered at hsame hroomier
    generalize d.world.exchange.offer e = offered' at hsame hroomier
    obtain ⟨receipt, x⟩ := offered
    obtain ⟨receipt', x'⟩ := offered'
    obtain rfl : receipt' = receipt := hsame
    cases receipt' <;> exact ⟨rfl, hroomier, h.context, h.clock, h.marking⟩

/-- Callbacks do the same with wider limits. -/
theorem carries_eased : CarriesUntil (σ := σ) (γ := γ) (δ := δ) Configuration.Hindered Configuration.Roomier :=
  ⟨note_eased, perform_eased, performAt_eased⟩

end Turn

/-! ## Regions -/

theorem Region.due_eased [DecidableEq σ] [Named σ] (table : RegionTable σ γ) (nodes : List (BuiltNode σ γ δ)) :
    Eased (Region.due table nodes) (Region.due table nodes) := by
  unfold Region.due
  refine active_eased.bind fun a => ?_
  split
  · split
    · rename_i i _ n _
      refine LockstepUntil.onPart (fun c => n.isComplete i c.marking) (fun c d h => by rw [h.marking])
        (f := fun complete => if complete then table.resolve i n.data.id .completion else pure none)
        (g := fun complete => if complete then table.resolve i n.data.id .completion else pure none) fun complete => ?_
      split
      · exact carries_eased.resolve _ _ _ _
      · exact .pure none
    · exact .pure none
  · exact .pure none

/-- The setup under other settings. -/
def Setup.under (setup : Setup σ γ) (s : Settings) : Setup σ γ := { setup with settings := s }

section Passes

variable {setup : Setup σ γ} {s : Settings}

theorem Region.remember_eased (path : String) (source target : σ) (e : Event) :
    Eased (Region.remember setup path source target e : Turn σ γ δ Unit)
      (Region.remember (setup.under s) path source target e) where
  stays c h := by
    unfold EndsIn Region.remember
    split <;> exact h
  alike c d h := by
    right
    unfold EndsAlike Ends Region.remember Setup.under
    cases setup.settings.trackHistory <;> cases s.trackHistory <;>
      exact ⟨rfl, h.exchange, h.context, h.clock, h.marking⟩

variable [Named σ]

mutual

/-- Regions stop alike: no limit is asked for, but reactions and hooks may raise events. -/
theorem Region.stop_eased :
    ∀ (r : BuiltRegion σ γ δ) (e : Event), Eased (r.stop setup e) (r.stop (setup.under s) e)
  | ⟨table, nodes⟩, e => by
    rw [Region.stop, Region.stop]
    refine active_eased.bind fun a => ?_
    cases a with
    | stopped => exact .pure ()
    | «at» i =>
      refine (carries_eased.callHook _ _).bind fun _ => (Node.exitAt_eased table.path i nodes i e).bind fun _ => ?_
      exact (setActive_eased _).bind fun _ => carries_eased.callHook _ _
    | final =>
      refine (carries_eased.callHook _ _).bind fun _ => ?_
      exact (setActive_eased _).bind fun _ => carries_eased.callHook _ _

theorem Node.exitAt_eased (path : String) (position : Nat) :
    ∀ (nodes : List (BuiltNode σ γ δ)) (i : Nat) (e : Event),
      Eased (Node.exitAt setup path position nodes i e) (Node.exitAt (setup.under s) path position nodes i e)
  | [], _, _ => .pure ()
  | n :: _, 0, e => Node.exit_eased path position n e
  | _ :: nodes, i + 1, e => Node.exitAt_eased path position nodes i e

theorem Node.exit_eased (path : String) (position : Nat) :
    ∀ (n : BuiltNode σ γ δ) (e : Event),
      Eased (n.exit setup path position e) (n.exit (setup.under s) path position e)
  | ⟨_, regions⟩, e => by
    rw [Node.exit, Node.exit]
    exact (Region.stopAll_eased position 0 regions e).bind fun _ => (note_eased _).bind fun _ =>
      carries_eased.orFail _ _ _ _ (performAt_eased _ _ _)

theorem Region.stopAll_eased (position index : Nat) :
    ∀ (rs : List (BuiltRegion σ γ δ)) (e : Event),
      Eased (Region.stopAll setup position index rs e) (Region.stopAll (setup.under s) position index rs e)
  | [], _ => .pure ()
  | r :: rs, e =>
    (inChild_eased _ (Region.stop_eased r e)).bind fun _ => Region.stopAll_eased position (index + 1) rs e

end

theorem Region.fireWith_eased (table : RegionTable σ γ) (nodes : List (BuiltNode σ γ δ))
    {leave leave' enter enter' : Nat → Event → Turn σ γ δ Unit} (hleave : ∀ i e, Eased (leave i e) (leave' i e))
    (henter : ∀ i e, Eased (enter i e) (enter' i e)) (choice : Choice σ γ) (e : Event) :
    Eased (Region.fireWith setup table nodes leave enter choice e)
      (Region.fireWith (setup.under s) table nodes leave' enter' choice e) := by
  unfold Region.fireWith
  refine (note_eased _).bind fun _ => ?_
  split
  · exact carries_eased.act _ _ _ _
  · split
    · refine (carries_eased.callHook _ _).bind fun _ => (hleave _ _).bind fun _ => (setActive_eased _).bind fun _ => ?_
      refine (carries_eased.act _ _ _ _).bind fun _ => (henter _ _).bind fun _ => ?_
      exact (Region.remember_eased _ _ _ _).bind fun _ => carries_eased.callHook _ _
    · exact .pure ()
  · refine (carries_eased.callHook _ _).bind fun _ => (hleave _ _).bind fun _ => (setActive_eased _).bind fun _ => ?_
    exact (carries_eased.act _ _ _ _).bind fun _ => carries_eased.callHook _ _

variable [DecidableEq σ]

/-- A longer chain does what the shorter one does, until this is cut off. -/
theorem Region.chain_eased (table : RegionTable σ γ) (nodes : List (BuiltNode σ γ δ))
    {fire fire' : Choice σ γ → Turn σ γ δ Unit} (hfire : ∀ choice, Eased (fire choice) (fire' choice)) {n n' : Nat}
    (hn : n ≤ n') :
    Eased (Region.chain setup table nodes fire n) (Region.chain (setup.under s) table nodes fire' n') := by
  induction n generalizing n' with
  | zero =>
    -- what is due is cut off, and only if nothing is due it matters what the longer chain does
    cases n' with
    | zero =>
      rw [Region.chain, Region.chain]
      refine (Region.due_eased table nodes).bind fun found => ?_
      split
      · exact overflow_eased _ _ _
      · exact .pure ()
    | succ n' =>
      rw [Region.chain, Region.chain]
      refine (Region.due_eased table nodes).bind fun found => ?_
      cases found with
      | none => exact .pure ()
      | some choice => exact overflow_eased _ _ _
  | succ n ih =>
    obtain ⟨n', rfl⟩ : ∃ k, n' = k + 1 := ⟨n' - 1, by omega⟩
    rw [Region.chain, Region.chain]
    refine (Region.due_eased table nodes).bind fun found => ?_
    cases found with
    | none => exact .pure ()
    | some choice => exact (hfire choice).bind fun _ => ih (by omega)

mutual

/-- Regions start alike, each settling with a budget of its own. -/
theorem Region.start_eased (hs : setup.settings.Widened s) :
    ∀ (r : BuiltRegion σ γ δ) (e : Event), Eased (r.start setup e) (r.start (setup.under s) e)
  | ⟨table, nodes⟩, e => by
    rw [Region.start, Region.start]
    refine active_eased.bind fun a => ?_
    split
    · exact .pure ()
    · refine (carries_eased.callHook _ _).bind fun _ => (setActive_eased _).bind fun _ => ?_
      refine (Node.enterAt_eased hs table.path _ nodes _ e).bind fun _ => (carries_eased.callHook _ _).bind fun _ => ?_
      refine Region.chain_eased table nodes (fun choice => ?_) hs.maxCompletionChain
      exact Region.fireWith_eased table nodes (fun i e => Node.exitAt_eased table.path i nodes i e)
        (fun i e => Node.enterAt_eased hs table.path i nodes i e) choice .completion

theorem Node.enterAt_eased (hs : setup.settings.Widened s) (path : String) (position : Nat) :
    ∀ (nodes : List (BuiltNode σ γ δ)) (i : Nat) (e : Event),
      Eased (Node.enterAt setup path position nodes i e) (Node.enterAt (setup.under s) path position nodes i e)
  | [], _, _ => .pure ()
  | n :: _, 0, e => Node.enter_eased hs path position n e
  | _ :: nodes, i + 1, e => Node.enterAt_eased hs path position nodes i e

theorem Node.enter_eased (hs : setup.settings.Widened s) (path : String) (position : Nat) :
    ∀ (n : BuiltNode σ γ δ) (e : Event),
      Eased (n.enter setup path position e) (n.enter (setup.under s) path position e)
  | ⟨_, regions⟩, e => by
    rw [Node.enter, Node.enter]
    exact (note_eased _).bind fun _ => (carries_eased.orFail _ _ _ _ (performAt_eased _ _ _)).bind fun _ =>
      Region.startAll_eased hs position 0 regions e

theorem Region.startAll_eased (hs : setup.settings.Widened s) (position index : Nat) :
    ∀ (rs : List (BuiltRegion σ γ δ)) (e : Event),
      Eased (Region.startAll setup position index rs e) (Region.startAll (setup.under s) position index rs e)
  | [], _ => .pure ()
  | r :: rs, e =>
    (inChild_eased _ (Region.start_eased hs r e)).bind fun _ => Region.startAll_eased hs position (index + 1) rs e

end

theorem Region.fire_eased (hs : setup.settings.Widened s) (table : RegionTable σ γ)
    (nodes : List (BuiltNode σ γ δ)) (choice : Choice σ γ) (e : Event) :
    Eased (Region.fire setup table nodes choice e) (Region.fire (setup.under s) table nodes choice e) :=
  Region.fireWith_eased table nodes (fun i e => Node.exitAt_eased table.path i nodes i e)
    (fun i e => Node.enterAt_eased hs table.path i nodes i e) choice e

theorem Region.settle_eased (hs : setup.settings.Widened s) (table : RegionTable σ γ)
    (nodes : List (BuiltNode σ γ δ)) :
    Eased (Region.settle setup table nodes) (Region.settle (setup.under s) table nodes) :=
  Region.chain_eased table nodes (fun choice => Region.fire_eased hs table nodes choice .completion)
    hs.maxCompletionChain

mutual

/-- Regions process events alike. -/
theorem Region.process_eased (hs : setup.settings.Widened s) :
    ∀ (r : BuiltRegion σ γ δ) (e : Event), Eased (r.process setup e) (r.process (setup.under s) e)
  | ⟨table, nodes⟩, e => by
    rw [Region.process, Region.process]
    refine active_eased.bind fun a => ?_
    split
    · split
      · split
        · exact .pure false
        · refine (carries_eased.resolve _ _ _ _).bind fun found => ?_
          cases found with
          | some choice =>
            refine (Region.fire_eased hs table nodes choice e).bind fun _ => ?_
            dsimp only
            split
            · exact (Region.settle_eased hs table nodes).bind fun _ => .pure true
            · exact .pure true
          | none =>
            refine (Node.reactAt_eased hs table.path _ nodes _ e).bind fun processed => ?_
            split
            · exact (Region.settle_eased hs table nodes).bind fun _ => .pure processed
            · exact .pure processed
      · exact .pure false
    · exact .pure false

theorem Node.reactAt_eased (hs : setup.settings.Widened s) (path : String) (position : Nat) :
    ∀ (nodes : List (BuiltNode σ γ δ)) (i : Nat) (e : Event),
      Eased (Node.reactAt setup path position nodes i e) (Node.reactAt (setup.under s) path position nodes i e)
  | [], _, _ => .pure false
  | n :: _, 0, e => Node.react_eased hs path position n e
  | _ :: nodes, i + 1, e => Node.reactAt_eased hs path position nodes i e

theorem Node.react_eased (hs : setup.settings.Widened s) (path : String) (position : Nat) :
    ∀ (n : BuiltNode σ γ δ) (e : Event),
      Eased (n.react setup path position e) (n.react (setup.under s) path position e)
  | ⟨unit, regions⟩, e => by
    have hregions := Region.processAll_eased hs position 0 regions e
    rw [Node.react_eq, Node.react_eq]
    refine hregions.bind fun processed => ?_
    split
    · exact .pure true
    · exact carries_eased.consult _ path position e

theorem Region.processAll_eased (hs : setup.settings.Widened s) (position index : Nat) :
    ∀ (rs : List (BuiltRegion σ γ δ)) (e : Event),
      Eased (Region.processAll setup position index rs e) (Region.processAll (setup.under s) position index rs e)
  | [], _ => .pure false
  | r :: rs, e =>
    (inChild_eased _ (Region.process_eased hs r e)).bind fun first =>
      (Region.processAll_eased hs position (index + 1) rs e).bind fun others => .pure (first || others)

end

omit [Named σ] in
mutual

/-- Dry runs are alike; only guards can raise events. -/
theorem Region.check_eased : ∀ (r : BuiltRegion σ γ δ) (e : Event), Eased (r.check e) (r.check e)
  | ⟨table, nodes⟩, e => by
    rw [Region.check]
    refine active_eased.bind fun a => ?_
    split
    · split
      · refine (carries_eased.accepts table _ e).bind fun accepted => ?_
        split
        · exact .pure true
        · exact Node.acceptsAt_eased _ nodes _ e
      · exact .pure false
    · exact .pure false

theorem Node.acceptsAt_eased (position : Nat) :
    ∀ (nodes : List (BuiltNode σ γ δ)) (i : Nat) (e : Event),
      Eased (Node.acceptsAt position nodes i e) (Node.acceptsAt position nodes i e)
  | [], _, _ => .pure false
  | n :: _, 0, e => Node.accepts_eased position n e
  | _ :: nodes, i + 1, e => Node.acceptsAt_eased position nodes i e

theorem Node.accepts_eased (position : Nat) :
    ∀ (n : BuiltNode σ γ δ) (e : Event), Eased (n.accepts position e) (n.accepts position e)
  | ⟨unit, regions⟩, e => by
    rw [Node.accepts]
    refine (Region.checkAny_eased position 0 regions e).bind fun below => ?_
    split
    · exact .pure true
    · exact .onPart (fun c => unit.behavior.accepts c.world.context (c.marking.data position unit.behavior.initial) e)
        (fun c d h => by rw [h.context, h.marking]) fun accepted => .pure accepted

theorem Region.checkAny_eased (position index : Nat) :
    ∀ (rs : List (BuiltRegion σ γ δ)) (e : Event),
      Eased (Region.checkAny position index rs e) (Region.checkAny position index rs e)
  | [], _ => .pure false
  | r :: rs, e => by
    rw [Region.checkAny]
    refine (inChild_eased _ (Region.check_eased r e)).bind fun first => ?_
    split
    · exact .pure true
    · exact Region.checkAny_eased position (index + 1) rs e

end

end Passes

end Statechart
