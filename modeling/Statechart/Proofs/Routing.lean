import Statechart.Proofs.Judgements
import Statechart.Proofs.Lifecycle
import Statechart.Proofs.Queue

/-!
# The routes of failures

A pass over the regions of a machine that ends in a failure is put before the failure hook, once and with that failure.
The verdict says whether the machine goes on with what is pending or the caller gets an error; whatever an error leaves
pending stays in its order.

* `Turn.Offered e s` : what becomes of an event that is offered to the mailbox;
* `Chart.heed`, `Chart.Heeds` : what follows on a verdict (`Chart.recover_eq`);
* `Chart.Routes`, `Chart.Routed` : how a pass ends, with the calls of the hook and what the caller gets;
* `Chart.Handles`, `Chart.Drains`, `Chart.Carries` : the same for a dispatch, for the pending events and for an
  operation;
* `Turn.ComesTo` : a turn comes to what a relation says; `Chart.recovering_routed`, `Chart.handle_handles`,
  `Chart.drain_drains`, `Chart.turn_carries` : the machine keeps to these relations;
* `Machine.resumes` : what is pending is taken up again from its head;
* `failure_routing`.
-/

set_option autoImplicit false

namespace Statechart

open Turn

variable {σ γ δ α β : Type}

/-- The events that wait to be dispatched. -/
def Configuration.pending (s : Configuration σ γ δ) : List Event := s.world.exchange.mailbox.pending

/-- The same with other events pending. -/
def Configuration.awaiting (s : Configuration σ γ δ) (events : List Event) : Configuration σ γ δ :=
  { s with world.exchange.mailbox.pending := events }

/-- What becomes of an event that is offered: it goes behind all that is pending, or the mailbox is at capacity and
stays as it is. -/
inductive Turn.Offered (e : Event) (s : Configuration σ γ δ) : Except Halt Unit → Configuration σ γ δ → Prop where
  | queued :
    (∀ capacity, s.world.exchange.mailbox.capacity = some capacity → s.pending.length < capacity) →
      Offered e s (.ok ()) ((s.awaiting (s.pending ++ [e])).noting (.queued e))
  | refused {capacity : Nat} :
    s.world.exchange.mailbox.capacity = some capacity → capacity ≤ s.pending.length →
      Offered e s (.error (.error (.queueFull capacity))) (s.noting (.refused e))

section Relations

variable [DecidableEq σ] [Named σ] (c : Chart σ γ δ)

/-- What follows on a verdict on the failure `f`, with what the caller gets if it does not go on. -/
inductive Chart.Heeds (f : Failure) (s : Configuration σ γ δ) :
    Recovery → Except Halt Unit → Configuration σ γ δ → Prop where
  | handled : Heeds f s .handled (.ok ()) s
  | raised {x : Event} {result : Except Halt Unit} {s' : Configuration σ γ δ} :
    Offered x s result s' → Heeds f s (.raise x) result s'
  | stopped {s' : Configuration σ γ δ} :
    c.stopRegions s = .ok () s' → Machine.IsDown ⟨c, s'⟩ → Heeds f s .stop (.ok ()) s'
  /-- Whatever halts the stop, a failure too, is not put before the hook. -/
  | unstopped {h : Halt} {s' : Configuration σ γ δ} :
    c.stopRegions s = .error h s' → Heeds f s .stop (.error h) s'
  | propagated : Heeds f s .propagate (.error (.error (.failure f))) s

/-- How a pass over the regions comes to its end: `judged` are the failures that the hook is called with, and the caller
gets the result unless it is good. -/
inductive Chart.Routes (pass : Turn σ γ δ Unit) (s : Configuration σ γ δ) :
    List Failure → Except Halt Unit → Configuration σ γ δ → Prop where
  | passed {s' : Configuration σ γ δ} : pass s = .ok () s' → Routes pass s [] (.ok ()) s'
  /-- What is no failure is not put before the hook. -/
  | bypassed {h : Halt} {s' : Configuration σ γ δ} :
    pass s = .error h s' → (∀ f, h ≠ .error (.failure f)) → Routes pass s [] (.error h) s'
  | unhooked {f : Failure} {s' : Configuration σ γ δ} :
    c.setup.hooks.failure = none → pass s = .error (.error (.failure f)) s' →
      Routes pass s [] (.error (.error (.failure f))) s'
  | judged {hook : Failure → Callback γ Recovery} {f : Failure} {verdict : Recovery} {result : Except Halt Unit}
      {s₁ s₂ s' : Configuration σ γ δ} :
    c.setup.hooks.failure = some hook → pass s = .error (.error (.failure f)) s₁ →
      judge hook f s₁ = .ok verdict s₂ → c.Heeds f s₂ verdict result s' → Routes pass s [f] result s'
  | panicked {hook : Failure → Callback γ Recovery} {f : Failure} {h : Halt} {s₁ s' : Configuration σ γ δ} :
    c.setup.hooks.failure = some hook → pass s = .error (.error (.failure f)) s₁ →
      judge hook f s₁ = .error h s' → h.IsPanic → Routes pass s [f] (.error h) s'

omit [DecidableEq σ] in
/-- A pass that comes to its end on a route, while the hook is called as the route says. -/
structure Chart.Routed (pass : Turn σ γ δ Unit) (s : Configuration σ γ δ) (judged : List Failure)
    (result : Except Halt Unit) (s' : Configuration σ γ δ) : Prop where
  routes : c.Routes pass s judged result s'
  tells : s.Tells [] judged s'

/-- The dispatch of one event. -/
inductive Chart.Handles (e : Event) (s : Configuration σ γ δ) :
    List Failure → Except Halt Unit → Configuration σ γ δ → Prop where
  | ended {judged : List Failure} {s' : Configuration σ γ δ} :
    c.Routed (c.dispatch e) (s.noting (.began e)) judged (.ok ()) s' →
      Handles e s judged (.ok ()) (s'.noting (.ended e))
  | brokenOff {judged : List Failure} {h : Halt} {s' : Configuration σ γ δ} :
    c.Routed (c.dispatch e) (s.noting (.began e)) judged (.error h) s' → Handles e s judged (.error h) s'

/-- The dispatch of the pending events, from the first on, until none is left or the caller gets an error; `D` are those
that are dispatched. -/
inductive Chart.Drains : Nat → Configuration σ γ δ → List Failure → List Event → Except Halt Unit →
    Configuration σ γ δ → Prop where
  | rest {bound : Nat} {s : Configuration σ γ δ} : s.pending = [] → Drains bound s [] [] (.ok ()) s
  /-- The caller allows for no more dispatches. -/
  | spent {s : Configuration σ γ δ} : s.pending ≠ [] → Drains 0 s [] [] (.error .unfinished) s
  | brokenOff {bound : Nat} {s s' : Configuration σ γ δ} {e : Event} {rest : List Event} {judged : List Failure}
      {h : Halt} :
    s.pending = e :: rest → c.Handles e (s.awaiting rest) judged (.error h) s' →
      Drains (bound + 1) s judged [e] (.error h) s'
  | next {bound : Nat} {s s₁ s' : Configuration σ γ δ} {e : Event} {rest D : List Event}
      {judged judged' : List Failure} {result : Except Halt Unit} :
    s.pending = e :: rest → c.Handles e (s.awaiting rest) judged (.ok ()) s₁ → Drains bound s₁ judged' D result s' →
      Drains (bound + 1) s (judged ++ judged') (e :: D) result s'

/-- What an operation does before it goes on with the pending events. -/
inductive Chart.Opens (s : Configuration σ γ δ) :
    Operation γ → List Failure → Except Halt Unit → Configuration σ γ δ → Prop where
  | start {judged : List Failure} {result : Except Halt Unit} {s' : Configuration σ γ δ} :
    c.Routed c.startRegions s judged result s' → Opens s .start judged result s'
  | stop {judged : List Failure} {result : Except Halt Unit} {s' : Configuration σ γ δ} :
    c.Routed c.stopRegions s judged result s' → Opens s .stop judged result s'
  | process {e : Event} {result : Except Halt Unit} {s' : Configuration σ γ δ} :
    Offered e s result s' → Opens s (.process e) [] result s'
  | processNow {e : Event} {judged : List Failure} {result : Except Halt Unit} {s' : Configuration σ γ δ} :
    c.Handles e s judged result s' → Opens s (.processNow e) judged result s'
  | processPending : Opens s .processPending [] (.ok ()) s

omit [DecidableEq σ] [Named σ] in
/-- The operation starts, stops and dispatches nothing. -/
def Operation.isAside : Operation γ → Bool
  | .post _ | .check _ | .setContext _ | .setClock _ => true
  | _ => false

/-- An operation: `judged` are the failures that the hook is called with, and `D` the events that are taken out of the
mailbox to be dispatched. -/
inductive Chart.Carries (bound : Nat) (s : Configuration σ γ δ) :
    Operation γ → List Failure → List Event → Except Halt Unit → Configuration σ γ δ → Prop where
  | aside {op : Operation γ} {result : Except Halt Unit} {s' : Configuration σ γ δ} :
    op.isAside = true → s.Tells [] [] s' → Carries bound s op [] [] result s'
  | brokenOff {op : Operation γ} {judged : List Failure} {h : Halt} {s' : Configuration σ γ δ} :
    c.Opens s op judged (.error h) s' → Carries bound s op judged [] (.error h) s'
  | goesOn {op : Operation γ} {judged judged' : List Failure} {D : List Event} {result : Except Halt Unit}
      {s₁ s' : Configuration σ γ δ} :
    c.Opens s op judged (.ok ()) s₁ → c.Drains bound s₁ judged' D result s' →
      Carries bound s op (judged ++ judged') D result s'

end Relations

/-! ## What the relations tell -/

theorem Configuration.tells_noting {n : Note σ} (hn : n.Unjudged) (hq : accepted [n] = []) (s : Configuration σ γ δ) :
    s.Tells [] [] (s.noting n) :=
  ⟨[n], Exchange.wrote_note hq _, by simp [hn]⟩

theorem Configuration.tells_awaiting {s : Configuration σ γ δ} {e : Event} {rest : List Event}
    (h : s.pending = e :: rest) : s.Tells [e] [] (s.awaiting rest) := by
  refine ⟨[], ⟨(List.append_nil _).symm, ?_, rfl, rfl⟩, rfl⟩
  change e :: rest = s.pending ++ []
  rw [h, List.append_nil]

theorem Turn.Offered.tells {e : Event} {s s' : Configuration σ γ δ} {result : Except Halt Unit}
    (h : Offered e s result s') : s.Tells [] [] s' := by
  cases h with
  | queued => exact ⟨[.queued e], ⟨Journal.toList_write _ _, rfl, rfl, rfl⟩, rfl⟩
  | refused => exact Configuration.tells_noting rfl rfl s

section Told

variable [DecidableEq σ] [Named σ] {c : Chart σ γ δ} {bound : Nat} {s s' : Configuration σ γ δ}
  {judged : List Failure} {D : List Event} {result : Except Halt Unit}

theorem Chart.Handles.tells {e : Event} (h : c.Handles e s judged result s') : s.Tells [] judged s' := by
  have hbegan := Configuration.tells_noting (n := .began e) rfl rfl s
  cases h with
  | @ended s₁ hrouted =>
    have hended := Configuration.tells_noting (n := .ended e) rfl rfl s₁
    have hall : s.Tells [] (judged ++ []) (s₁.noting (.ended e)) := (hbegan.trans hrouted.tells).trans hended
    rwa [List.append_nil] at hall
  | brokenOff hrouted => exact hbegan.trans hrouted.tells

theorem Chart.Drains.tells (h : c.Drains bound s judged D result s') : s.Tells D judged s' := by
  induction h with
  | rest => exact .refl _
  | spent => exact .refl _
  | brokenOff hpending hhandles => exact (Configuration.tells_awaiting hpending).trans hhandles.tells
  | next hpending hhandles _ ih => exact ((Configuration.tells_awaiting hpending).trans hhandles.tells).trans ih

theorem Chart.Opens.tells {op : Operation γ} (h : c.Opens s op judged result s') : s.Tells [] judged s' := by
  cases h with
  | start hrouted => exact hrouted.tells
  | stop hrouted => exact hrouted.tells
  | process hoffered => exact hoffered.tells
  | processNow hhandles => exact hhandles.tells
  | processPending => exact .refl s

theorem Chart.Carries.tells {op : Operation γ} (h : c.Carries bound s op judged D result s') : s.Tells D judged s' := by
  cases h with
  | aside _ htells => exact htells
  | brokenOff hopens => exact hopens.tells
  | goesOn hopens hdrains => exact hopens.tells.trans hdrains.tells

end Told

/-! ## Turns that come to what a relation says -/

/-- However the turn ends, its result and the configuration are in `P`. -/
def Turn.ComesTo (x : Turn σ γ δ α) (s : Configuration σ γ δ)
    (P : Except Halt α → Configuration σ γ δ → Prop) : Prop :=
  Ends x s (fun a s' => P (.ok a) s') fun h s' => P (.error h) s'

section ComesTo

variable {x : Turn σ γ δ α} {s : Configuration σ γ δ} {P P' : Except Halt α → Configuration σ γ δ → Prop}

theorem Turn.ComesTo.mono (h : ComesTo x s P) (hP : ∀ result s', P result s' → P' result s') : ComesTo x s P' :=
  Ends.mono h (fun a s' => hP (.ok a) s') fun h s' => hP (.error h) s'

theorem Turn.ComesTo.and (h : ComesTo x s P) (h' : ComesTo x s P') :
    ComesTo x s fun result s' => P result s' ∧ P' result s' :=
  Ends.and h h'

/-- What a turn comes to, case by case. -/
theorem Turn.comesTo_of (hok : ∀ a s', x s = .ok a s' → P (.ok a) s')
    (hhalt : ∀ h s', x s = .error h s' → P (.error h) s') : ComesTo x s P := by
  unfold ComesTo Ends
  cases hx : x s with
  | ok a s' => exact hok a s' hx
  | error h s' => exact hhalt h s' hx

/-- A turn that ends well comes to what follows on it, and one that is halted to its halt. -/
theorem Turn.comesTo_bind {f : α → Turn σ γ δ β} {Q : Except Halt β → Configuration σ γ δ → Prop}
    (hok : ∀ a s', x s = .ok a s' → ComesTo (f a) s' Q)
    (hhalt : ∀ h s', x s = .error h s' → Q (.error h) s') : ComesTo (x >>= f) s Q := by
  unfold ComesTo
  rw [ends_bind]
  unfold Ends
  cases hx : x s with
  | ok a s' => exact hok a s' hx
  | error h s' => exact hhalt h s' hx

theorem Turn.ComesTo.bind {f : α → Turn σ γ δ β} {Q : Except Halt β → Configuration σ γ δ → Prop} (h : ComesTo x s P)
    (hok : ∀ a s', P (.ok a) s' → ComesTo (f a) s' Q) (hhalt : ∀ h s', P (.error h) s' → Q (.error h) s') :
    ComesTo (x >>= f) s Q :=
  comesTo_bind (fun a s' hx => hok a s' (Ends.of_ok h hx)) fun halt s' hx => hhalt halt s' (Ends.of_error h hx)

theorem Turn.comesTo_bind_of_ok {f : α → Turn σ γ δ β} {Q : Except Halt β → Configuration σ γ δ → Prop} {a : α}
    {s' : Configuration σ γ δ} (hx : x s = .ok a s') : ComesTo (x >>= f) s Q ↔ ComesTo (f a) s' Q := by
  unfold ComesTo
  rw [ends_bind, ends_of_ok hx]

/-- What a turn is followed by that takes its error as a value. -/
theorem Turn.comesTo_attempt {f : Except DispatchError α → Turn σ γ δ β}
    {Q : Except Halt β → Configuration σ γ δ → Prop}
    (hok : ∀ a s', x s = .ok a s' → ComesTo (f (.ok a)) s' Q)
    (herror : ∀ err s', x s = .error (.error err) s' → ComesTo (f (.error err)) s' Q)
    (hhalt : ∀ h s', x s = .error h s' → (∀ err, h ≠ .error err) → Q (.error h) s') :
    ComesTo (x.attempt >>= f) s Q := by
  unfold ComesTo
  rw [ends_bind, ends_attempt]
  unfold Ends
  cases hx : x s with
  | ok a s' => exact hok a s' hx
  | error h s' =>
    cases h with
    | error err => exact herror err s' hx
    | panic message => exact hhalt _ s' hx nofun
    | unfinished => exact hhalt _ s' hx nofun

theorem Turn.Unheard.comesTo (h : Unheard x) (s : Configuration σ γ δ) : ComesTo x s fun _ s' => s.Tells [] [] s' :=
  (h s).mono (fun _ _ h => h.tells) fun _ _ h => h.1.tells

theorem Machine.comesTo_run {m : Machine σ γ δ} (h : ComesTo x m.configuration P) :
    P (m.run x).1 (m.run x).2.configuration :=
  m.run_of_ends (P := fun result m' => P result m'.configuration) h

end ComesTo

theorem Turn.offer_offered (e : Event) (s : Configuration σ γ δ) : ComesTo (offer e) s (Offered e s) := by
  unfold ComesTo offer
  rw [ends_bind, ends_get]
  cases hreceipt : (s.world.exchange.mailbox.offer e).1 with
  | queued =>
    rw [Exchange.offer_of_queued hreceipt]
    refine .queued fun capacity hcapacity => ?_
    simp only [Mailbox.offer, hcapacity] at hreceipt
    split at hreceipt
    · cases hreceipt
    · rename_i hlt
      exact Nat.lt_of_not_le hlt
  | refused capacity =>
    rw [Exchange.offer_of_refused hreceipt]
    cases hcapacity : s.world.exchange.mailbox.capacity with
    | none => simp [Mailbox.offer, hcapacity] at hreceipt
    | some limit =>
      simp only [Mailbox.offer, hcapacity] at hreceipt
      split at hreceipt
      · rename_i hfull
        cases hreceipt
        exact .refused hcapacity hfull
      · cases hreceipt

/-! ## Recovery -/

section Recovery

variable [DecidableEq σ] [Named σ] (c : Chart σ γ δ)

omit [DecidableEq σ] in
/-- What the machine does about a verdict. -/
def Chart.heed (f : Failure) : Recovery → Turn σ γ δ Unit
  | .handled => return
  | .raise e => offer e
  | .stop => c.stopRegions
  | .propagate => fail (.failure f)

omit [DecidableEq σ] in
theorem Chart.recover_eq {hook : Failure → Callback γ Recovery} (hhook : c.setup.hooks.failure = some hook)
    (f : Failure) : c.recover (.error (.failure f)) = (do c.heed f (← judge hook f)) := by
  unfold Chart.recover judge
  dsimp only
  rw [hhook]
  simp only [bind_assoc]
  rfl

omit [DecidableEq σ] in
theorem Chart.heed_unheard (f : Failure) (verdict : Recovery) : Unheard (c.heed f verdict) := by
  cases verdict with
  | handled => exact Keeps.pure ()
  | raise e => exact offer_unheard e
  | stop => exact c.stopRegions_unheard
  | propagate => exact fail_unheard _

omit [DecidableEq σ] [Named σ] in
theorem Turn.judge_isQuiet (hook : Failure → Callback γ Recovery) (f : Failure) :
    IsQuiet (judge hook f : Turn σ γ δ Recovery) :=
  (note_isQuiet rfl).bind fun _ => perform_isQuiet _

omit [DecidableEq σ] [Named σ] in
/-- The call of the hook is told, and only a panic halts it. -/
theorem Turn.judge_tells (hook : Failure → Callback γ Recovery) (f : Failure) (s : Configuration σ γ δ) :
    Ends (judge hook f) s (fun _ s' => s.Tells [] [f] s') fun h s' => s.Tells [] [f] s' ∧ h.IsPanic := by
  have hcall : s.Tells [] [f] (s.noting (.hook (.failure f))) := ⟨_, Exchange.wrote_note rfl _, rfl⟩
  unfold judge
  rw [ends_bind, ends_note]
  exact ((perform_unheard (hook f) _).and (perform_panics (hook f) _)).mono
    (fun _ _ h => hcall.trans h.1.tells) fun _ _ h => ⟨hcall.trans h.1.1.tells, h.2⟩

variable {c} (hinitials : ∀ r ∈ c.regions, r.HasInitials) {s : Configuration σ γ δ} (hs : c.IsLegal s)

include hinitials hs

theorem Chart.heed_heeds (f : Failure) (verdict : Recovery) : ComesTo (c.heed f verdict) s (c.Heeds f s verdict) := by
  cases verdict with
  | handled => exact Chart.Heeds.handled
  | raise e => exact (offer_offered e s).mono fun _ _ => .raised
  | stop =>
    have hruns := c.stopRegions_runs s
    have hlegal := (Chart.stable_isLegal hinitials).stop s hs
    refine comesTo_of (fun a s' hstop => ?_) fun h s' hstop => .unstopped hstop
    exact .stopped hstop ((Machine.isDown_iff (m := ⟨c, s'⟩) (hlegal.of_ok hstop)).2 (hruns.of_ok hstop))
  | propagate => exact Chart.Heeds.propagated

/-- A pass that failed keeps to its route, and the hook is called as the route says. -/
theorem Chart.recover_routed {pass : Turn σ γ δ Unit} {s₀ : Configuration σ γ δ} {f : Failure}
    (hpass : pass s₀ = .error (.error (.failure f)) s) (hbefore : s₀.Tells [] [] s) :
    ComesTo (c.recover (.error (.failure f))) s fun result s' => ∃ judged, c.Routed pass s₀ judged result s' := by
  cases hhook : c.setup.hooks.failure with
  | none =>
    unfold Chart.recover
    dsimp only
    rw [hhook]
    exact ⟨[], ⟨.unhooked hhook hpass, hbefore⟩⟩
  | some hook =>
    have htold := judge_tells (σ := σ) (δ := δ) hook f s
    rw [Chart.recover_eq c hhook f]
    refine comesTo_bind (fun verdict s₁ hjudge => ?_) fun h s₁ hjudge => ?_
    · -- the hook touches no region, so what follows on its verdict begins in a legal configuration again
      have hlegal₁ : c.IsLegal s₁ :=
        (Chart.stable_isLegal hinitials).quiet _ _ ((judge_isQuiet hook f s).of_ok hjudge) hs
      have htells : s₀.Tells [] [f] s₁ := hbefore.trans (htold.of_ok hjudge)
      have hheeds := (Chart.heed_heeds hinitials hlegal₁ f verdict).and ((c.heed_unheard f verdict).comesTo s₁)
      exact hheeds.mono fun _ _ h => ⟨[f], ⟨.judged hhook hpass hjudge h.1, htells.trans h.2⟩⟩
    · obtain ⟨htells, hpanic⟩ := htold.of_error hjudge
      exact ⟨[f], ⟨.panicked hhook hpass hjudge hpanic, hbefore.trans htells⟩⟩

theorem Chart.recovering_routed {pass : Turn σ γ δ Unit} (hunheard : Unheard pass) (hlegal : Upholds c.IsLegal pass) :
    ComesTo (c.recovering pass) s fun result s' => ∃ judged, c.Routed pass s judged result s' := by
  refine comesTo_attempt (fun _ s₁ hpass => ?_) (fun err s₁ hpass => ?_) fun h s₁ hpass hne => ?_
  · exact ⟨[], ⟨.passed hpass, ((hunheard s).of_ok hpass).tells⟩⟩
  · have hbefore : s.Tells [] [] s₁ := ((hunheard s).of_error hpass).1.tells
    cases err with
    | failure f => exact Chart.recover_routed hinitials ((hlegal s hs).of_error hpass) hpass hbefore
    | completionOverflow region limit => exact ⟨[], ⟨.bypassed hpass nofun, hbefore⟩⟩
    | queueFull capacity => exact ⟨[], ⟨.bypassed hpass nofun, hbefore⟩⟩
    | poisoned => exact ⟨[], ⟨.bypassed hpass nofun, hbefore⟩⟩
  · exact ⟨[], ⟨.bypassed hpass fun f => hne _, ((hunheard s).of_error hpass).1.tells⟩⟩

end Recovery

/-! ## Dispatches -/

section Dispatches

variable [DecidableEq σ] [Named σ] {c : Chart σ γ δ} {s : Configuration σ γ δ}

omit [DecidableEq σ] [Named σ] in
theorem Chart.take_of_nil (h : s.pending = []) : (Chart.take : Turn σ γ δ _) s = .ok none s := by
  have hnone : s.world.exchange.mailbox.take? = none := by
    unfold Configuration.pending at h
    unfold Mailbox.take?
    rw [h]
  unfold Chart.take
  rw [bind_of_ok (x := get) rfl, hnone]
  rfl

omit [DecidableEq σ] [Named σ] in
theorem Chart.take_of_cons {e : Event} {rest : List Event} (h : s.pending = e :: rest) :
    (Chart.take : Turn σ γ δ _) s = .ok (some e) (s.awaiting rest) := by
  have hsome : s.world.exchange.mailbox.take? = some (e, { s.world.exchange.mailbox with pending := rest }) := by
    unfold Configuration.pending at h
    unfold Mailbox.take?
    rw [h]
  unfold Chart.take
  rw [bind_of_ok (x := get) rfl, hsome]
  rfl

variable (hinitials : ∀ r ∈ c.regions, r.HasInitials)

include hinitials

theorem Chart.handle_handles (hs : c.IsLegal s) (e : Event) :
    ComesTo (c.handle e) s fun result s' => ∃ judged, c.Handles e s judged result s' := by
  have hstable := Chart.stable_isLegal hinitials
  have hlegal : c.IsLegal (s.noting (.began e)) :=
    hstable.quiet s _ (show s.Quiet (s.noting (.began e)) from note_isQuiet rfl s) hs
  have hrouted := Chart.recovering_routed hinitials hlegal (c.dispatch_unheard e) (hstable.dispatch e)
  have hnote : (note (.began e) : Turn σ γ δ Unit) s = .ok () (s.noting (.began e)) := rfl
  unfold Chart.handle
  rw [comesTo_bind_of_ok hnote]
  refine hrouted.bind (fun _ s₁ h₁ => ?_) fun h s₁ h₁ => ?_
  · exact h₁.imp fun _ hrouted => .ended hrouted
  · exact h₁.imp fun _ hrouted => .brokenOff hrouted

/-- By induction on what the caller allows for: every dispatch leaves a legal configuration to the next one. -/
theorem Chart.drain_drains (bound : Nat) (hs : c.IsLegal s) :
    ComesTo (c.drain bound) s fun result s' => ∃ judged D, c.Drains bound s judged D result s' := by
  induction bound generalizing s with
  | zero =>
    rw [Chart.drain]
    have hget : (get : Turn σ γ δ (Configuration σ γ δ)) s = .ok s s := rfl
    rw [comesTo_bind_of_ok hget]
    split
    · rename_i hpending
      exact ⟨[], [], .spent (by simpa [Configuration.pending] using hpending)⟩
    · rename_i hempty
      exact ⟨[], [], .rest (by simpa [Configuration.pending] using hempty)⟩
  | succ bound ih =>
    rw [Chart.drain]
    cases hpending : s.pending with
    | nil =>
      rw [comesTo_bind_of_ok (Chart.take_of_nil hpending)]
      exact ⟨[], [], .rest hpending⟩
    | cons e rest =>
      have htake := Chart.take_of_cons hpending
      have hlegal : c.IsLegal (s.awaiting rest) :=
        (Chart.stable_isLegal hinitials).quiet s _ ((take_isQuiet s).of_ok htake) hs
      have hhandles := Chart.handle_handles hinitials hlegal e
      have hstays : ComesTo (c.handle e) (s.awaiting rest) fun _ => c.IsLegal :=
        (Chart.stable_isLegal hinitials).lasting.handle e _ hlegal
      rw [comesTo_bind_of_ok htake]
      refine (hhandles.and hstays).bind (fun _ s₁ h₁ => ?_) fun h s₁ h₁ => ?_
      · obtain ⟨⟨judged, hhandle⟩, hlegal₁⟩ := h₁
        refine (ih hlegal₁).mono fun result s' h' => ?_
        obtain ⟨judged', D, hdrains⟩ := h'
        exact ⟨_, _, .next hpending hhandle hdrains⟩
      · obtain ⟨⟨judged, hhandle⟩, -⟩ := h₁
        exact ⟨_, _, .brokenOff hpending hhandle⟩

end Dispatches

/-! ## Operations -/

section Operations

variable [DecidableEq σ] [Named σ]

/-- What an operation begins with keeps to the relations, and then what is pending is dispatched. -/
theorem Chart.opens_carries {c : Chart σ γ δ} (hinitials : ∀ r ∈ c.regions, r.HasInitials) {s : Configuration σ γ δ}
    (hs : c.IsLegal s) (bound : Nat) {op : Operation γ} {opening : Turn σ γ δ Unit}
    (hopens : ComesTo opening s fun result s' => ∃ judged, c.Opens s op judged result s')
    (hlegal : Upholds c.IsLegal opening) :
    ComesTo (do opening; c.drain bound) s fun result s' => ∃ judged D, c.Carries bound s op judged D result s' := by
  have hstays : ComesTo opening s fun _ => c.IsLegal := hlegal s hs
  refine (hopens.and hstays).bind (fun _ s₁ h₁ => ?_) fun h s₁ h₁ => ?_
  · obtain ⟨⟨judged, hopen⟩, hlegal₁⟩ := h₁
    refine (Chart.drain_drains hinitials bound hlegal₁).mono fun result s' h' => ?_
    obtain ⟨judged', D, hdrains⟩ := h'
    exact ⟨_, D, .goesOn hopen hdrains⟩
  · obtain ⟨⟨judged, hopen⟩, -⟩ := h₁
    exact ⟨judged, [], .brokenOff hopen⟩

theorem Chart.turn_carries {c : Chart σ γ δ} (hinitials : ∀ r ∈ c.regions, r.HasInitials) {s : Configuration σ γ δ}
    (hs : c.IsLegal s) (bound : Nat) (op : Operation γ) :
    ComesTo (op.turn c bound) s fun result s' => ∃ judged D, c.Carries bound s op judged D result s' := by
  have hstable := Chart.stable_isLegal hinitials
  have haside {op : Operation γ} (hop : op.isAside = true) {x : Turn σ γ δ Unit} (hx : Unheard x) :
      ComesTo x s fun result s' => ∃ judged D, c.Carries bound s op judged D result s' :=
    (hx.comesTo s).mono fun _ _ htells => ⟨[], [], .aside hop htells⟩
  cases op with
  | start =>
    have hrouted := Chart.recovering_routed hinitials hs c.startRegions_unheard hstable.start
    refine Chart.opens_carries hinitials hs bound (hrouted.mono fun _ _ h => ?_) (hstable.recovering hstable.start)
    exact h.imp fun _ h => .start h
  | stop =>
    have hrouted := Chart.recovering_routed hinitials hs c.stopRegions_unheard hstable.stop
    refine Chart.opens_carries hinitials hs bound (hrouted.mono fun _ _ h => ?_) (hstable.recovering hstable.stop)
    exact h.imp fun _ h => .stop h
  | process e =>
    have hoffered := offer_offered e s
    refine Chart.opens_carries hinitials hs bound (hoffered.mono fun _ _ h => ?_) ((offer_isQuiet e).upholds hstable)
    exact ⟨[], .process h⟩
  | processNow e =>
    have hhandles := Chart.handle_handles hinitials hs e
    refine Chart.opens_carries hinitials hs bound (hhandles.mono fun _ _ h => ?_) (hstable.lasting.handle e)
    exact h.imp fun _ h => .processNow h
  | processPending =>
    have hopens : ComesTo (pure () : Turn σ γ δ Unit) s fun result s' =>
        ∃ judged, c.Opens s .processPending judged result s' := ⟨[], .processPending⟩
    exact Chart.opens_carries hinitials hs bound hopens (Upholds.pure ())
  | post e => exact haside rfl (offer_unheard e)
  | check e => exact haside rfl ((c.check_unheard e).bind fun _ => Keeps.pure ())
  | setContext context => exact haside rfl fun s => .refl _ s.world.exchange
  | setClock now => exact haside rfl fun s => .refl _ s.world.exchange

omit [DecidableEq σ] [Named σ] in
/-- The first of the pending events is the first to be dispatched. -/
theorem Dispatches.begins {D : List Event} {l : List (Note σ)} {result : Except Halt Unit} (h : Dispatches D l result)
    (hne : D ≠ []) {x x' : Exchange σ} (hw : x.Wrote D l x') {e : Event} {rest : List Event}
    (hpending : x.mailbox.pending = e :: rest) : ∃ l', x'.journal.toList = x.journal.toList ++ .began e :: l' := by
  have hbalance := hw.pending
  rw [hpending] at hbalance
  cases h with
  | rest => exact absurd rfl hne
  | spent => exact absurd rfl hne
  | broken =>
    obtain rfl := (List.cons.inj hbalance).1
    exact ⟨_, hw.journal⟩
  | next =>
    obtain rfl := (List.cons.inj hbalance).1
    exact ⟨_, hw.journal⟩

/-- What is pending is taken up again from its head. -/
theorem Machine.resumes {m : Machine σ γ δ} {e : Event} {rest : List Event} (h : m.mailbox.pending = e :: rest)
    (n : Nat) : ∃ l, (m.operate (n + 1) .processPending).2.journal.toList = m.journal.toList ++ .began e :: l := by
  refine m.run_of_ends (P := fun _ m' => ∃ l, m'.journal.toList = m.journal.toList ++ .began e :: l) ?_
  refine (m.chart.drain_ends (n + 1) m.configuration).mono (fun _ s' hs' => ?_) fun halt s' hs' => ?_
  · obtain ⟨hempty, D, l, hD, hw⟩ := hs'
    have hne : D ≠ [] := by
      rintro rfl
      have hbalance := hw.pending
      rw [hempty, show m.configuration.world.exchange.mailbox.pending = e :: rest from h] at hbalance
      cases hbalance
    exact hD.begins hne hw h
  · obtain ⟨D, l, hD, hw, hspent⟩ := hs'
    -- only the caller's bound can keep it from dispatching anything, and that allows for one event at least
    have hne : D ≠ [] := by
      rintro rfl
      cases hD
      cases (hspent rfl).1
    exact hD.begins hne hw h

variable [Inhabited δ] {b : Blueprint σ γ δ} {m : Machine σ γ δ}

/-- **Failures are routed through the failure hook.** In every machine, also while it starts by itself, and for every
operation: each pass that ends in a failure, a start, a stop or the dispatch of an event, is put before the hook once
and with that failure, and the hook is not called otherwise, neither for other errors nor for what fails when the hook
said to stop. When the failure was handled, the event of a verdict was queued behind all that is pending, or all regions
were stopped at every depth, the machine goes on with the next pending event. The caller gets that failure if there is
no hook or it is propagated, `queueFull` if the mailbox is at capacity, which then stays as it is, and otherwise what
halted the stop. Whatever is not dispatched stays pending in its order, and the next call resumes with the first of it.
-/
theorem failure_routing (h : b.Assembled m.chart m.configuration ∨ b.Reaches m) (bound : Nat) (op : Operation γ) :
    let after := m.operate bound op
    (∃ judged D, m.chart.Carries bound m.configuration op judged D after.1 after.2.configuration ∧
      m.configuration.Tells D judged after.2.configuration) ∧
    ∀ e rest, after.2.mailbox.pending = e :: rest → ∀ n,
      ∃ l, (after.2.operate (n + 1) .processPending).2.journal.toList = after.2.journal.toList ++ .began e :: l := by
  have hinitials : ∀ r ∈ m.chart.regions, r.HasInitials := by
    rcases h with h | h
    · exact h.hasInitials
    · obtain ⟨c, hc⟩ := h.assembled
      exact hc.hasInitials
  have hlegal : m.chart.IsLegal m.configuration := by
    rcases h with h | h
    · exact fun j r _ => by rw [h.marking]; exact r.fit_fresh
    · exact h.isLegal
  obtain ⟨judged, D, hcarries⟩ := Machine.comesTo_run (Chart.turn_carries hinitials hlegal bound op)
  exact ⟨⟨judged, D, hcarries, hcarries.tells⟩, fun e rest hpending n => Machine.resumes hpending n⟩

end Operations

/-- The left lamp fails to start, the hook is told so and counts it as dealt with. -/
theorem failure_routing_paired :
    let after := Lamp.paired.operate 1 .start
    Lamp.pair.Reaches Lamp.paired ∧ after.1 = .ok () ∧
      after.2.journal.toList.filterMap Note.judged? = [⟨.entry, "left", "off", Event.start.kind, "broken"⟩] ∧
      ∃ judged D, Lamp.paired.chart.Carries 1 Lamp.paired.configuration .start judged D after.1 after.2.configuration ∧
        Lamp.paired.configuration.Tells D judged after.2.configuration := by
  have hreaches : Lamp.pair.Reaches Lamp.paired := .built 0 (pure () : Callback Unit Unit) rfl
  exact ⟨hreaches, by decide +kernel, by decide +kernel, (failure_routing (.inr hreaches) 1 .start).1⟩

end Statechart
