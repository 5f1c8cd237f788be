import Statechart.Proofs.Feed

/-!
# The queue of pending events

Events are dispatched in the order in which the mailbox took them, one after the other, and none is
lost or dispatched twice, wherever an operation breaks off.

* `Note.During e n` : `n` may stand between the beginning and the end of the dispatch of `e`;
* `Dispatches D l result` : `l` are the notes of dispatching `D`, one event after the other, and
  `result` is how that ended;
* `Machine.Dispatched` : the balance of an operation, as in `queue_is_fifo`.
-/

set_option autoImplicit false

namespace Statechart

open Turn

variable {σ γ δ : Type}

/-- The note may stand between the beginning and the end of the dispatch of `e`: it marks no dispatch,
and a callback is called for `e`, for completion or, when a failure stops the machine, for its stop. -/
def Note.During (e : Event) (n : Note σ) : Prop :=
  n.isBoundary = false ∧ ∀ e', n.event? = some e' → e' = e ∨ e' = .completion ∨ e' = .stop

theorem Note.during_of_concerns {e : Event} (n : Note σ) (h : n.Concerns e) : n.During e :=
  ⟨h.1, fun e' he' => .inl (h.2 e' he')⟩

theorem Note.during_of_completion {e : Event} (n : Note σ) (h : n.Concerns .completion) : n.During e :=
  ⟨h.1, fun e' he' => .inr (.inl (h.2 e' he'))⟩

theorem Note.during_of_stop {e : Event} (n : Note σ) (h : n.Concerns .stop) : n.During e :=
  ⟨h.1, fun e' he' => .inr (.inr (h.2 e' he'))⟩

/-- The notes of dispatching events one after the other. A dispatch ends before the next one begins; an
error or a panic breaks off the last one, and no more is dispatched. -/
inductive Dispatches : List Event → List (Note σ) → Except Halt Unit → Prop where
  | rest : Dispatches [] [] (.ok ())
  /-- The caller allows for no more dispatches. -/
  | spent : Dispatches [] [] (.error .unfinished)
  | broken {e : Event} {body : List (Note σ)} {h : Halt} :
    (∀ n ∈ body, n.During e) → h ≠ .unfinished → Dispatches [e] (.began e :: body) (.error h)
  | next {e : Event} {D : List Event} {body l : List (Note σ)} {result : Except Halt Unit} :
    (∀ n ∈ body, n.During e) → Dispatches D l result →
      Dispatches (e :: D) (.began e :: body ++ .ended e :: l) result

/-! ## One dispatch -/

section Chart

variable [DecidableEq σ] [Named σ] (c : Chart σ γ δ) {e : Event}

/-- The turn writes notes that belong into a dispatch of `e`, and does not run out of dispatches. -/
abbrev WithinDispatch (e : Event) {α : Type} (x : Turn σ γ δ α) : Prop :=
  Keeps (Configuration.Follows (Note.During e)) (fun h _ => h ≠ .unfinished) x

omit [DecidableEq σ] [Named σ] in
theorem withinDispatch_of_feeds {α : Type} {x : Turn σ γ δ α} (h : Feeds (Note.During e) x) :
    WithinDispatch e x :=
  Keeps.mono h (fun _ _ h => h) fun h _ hn => by
    rintro rfl
    exact hn

omit [DecidableEq σ] [Named σ] in
theorem withinDispatch_fail {α : Type} (err : DispatchError) :
    WithinDispatch e (fail err : Turn σ γ δ α) :=
  fun s => ⟨.refl _ s.world.exchange, by simp⟩

omit [DecidableEq σ] [Named σ] in
theorem offer_withinDispatch (e' : Event) : WithinDispatch e (offer e' : Turn σ γ δ Unit) := by
  intro s
  have hoffer : Exchange.Follows (Note.During e) s.world.exchange (s.world.exchange.offer e').2 :=
    Exchange.follows_offer (fun n hn => Note.during_of_concerns n (Note.concerns_of_isSilent hn e)) _ _
  unfold offer
  rw [ends_bind, ends_get]
  generalize s.world.exchange.offer e' = receipt at hoffer
  obtain ⟨receipt, x⟩ := receipt
  cases receipt with
  | queued => exact hoffer
  | refused capacity => exact ⟨hoffer, by simp⟩

omit [DecidableEq σ] in
theorem Chart.stopRegions_withinDispatch : WithinDispatch e c.stopRegions :=
  withinDispatch_of_feeds (c.stopRegions_feeds Note.during_of_stop)

omit [DecidableEq σ] in
theorem Chart.recover_withinDispatch (outcome : Except DispatchError Unit) :
    WithinDispatch e (c.recover outcome) := by
  unfold Chart.recover
  split
  · exact Keeps.pure ()
  · split
    · exact withinDispatch_fail _
    · rename_i hook
      refine Keeps.bind (withinDispatch_of_feeds (note_inert ⟨rfl, by simp [Note.event?]⟩ rfl).feeds)
        fun _ => ?_
      refine Keeps.bind (withinDispatch_of_feeds (perform_inert (fun n hn => ?_) _).feeds) fun _ => ?_
      · exact Note.during_of_concerns n (Note.concerns_of_isSilent hn e)
      · split
        · exact Keeps.pure ()
        · exact offer_withinDispatch _
        · exact c.stopRegions_withinDispatch
        · exact withinDispatch_fail _
  · exact withinDispatch_fail _

omit [DecidableEq σ] [Named σ] in
theorem attempt_withinDispatch {α : Type} {x : Turn σ γ δ α} (h : WithinDispatch e x) :
    WithinDispatch e x.attempt := by
  intro s
  rw [ends_attempt]
  refine (h s).mono (fun _ _ h => h) fun halt s' hs => ?_
  cases halt with
  | error err => exact hs.1
  | panic message => exact hs
  | unfinished => exact hs

omit [DecidableEq σ] in
theorem Chart.recovering_withinDispatch {pass : Turn σ γ δ Unit} (h : Feeds (Note.During e) pass) :
    WithinDispatch e (c.recovering pass) :=
  (attempt_withinDispatch (withinDispatch_of_feeds h)).bind fun _ => c.recover_withinDispatch _

theorem Chart.dispatch_feeds : Feeds (Note.During e) (c.dispatch e) := by
  have hquiet := Note.Admits.of_concerns (Note.during_of_concerns (σ := σ) (e := e))
  refine (c.setup.hooks.beforeProcessing_inert hquiet).feeds.bind fun _ => ?_
  refine (c.processRegions_feeds Note.during_of_concerns Note.during_of_completion).bind fun processed => ?_
  exact (c.setup.hooks.afterProcessing_inert hquiet processed).feeds

/-- A dispatch that comes to its end is closed in the journal, one that is broken off is not. -/
theorem Chart.handle_ends (s : Configuration σ γ δ) :
    Ends (c.handle e) s
      (fun _ s' => ∃ body, (∀ n ∈ body, n.During e) ∧
        s.world.exchange.Wrote [] (.began e :: body ++ [.ended e]) s'.world.exchange)
      (fun h s' => h ≠ .unfinished ∧ ∃ body, (∀ n ∈ body, n.During e) ∧
        s.world.exchange.Wrote [] (.began e :: body) s'.world.exchange) := by
  have hbegan := Exchange.wrote_note (n := .began e) rfl s.world.exchange
  unfold Chart.handle
  rw [ends_bind, ends_note, ends_bind]
  refine (c.recovering_withinDispatch c.dispatch_feeds _).mono (fun _ s' h => ?_) fun h s' hs => ?_
  · obtain ⟨body, hw, hbody⟩ := h
    rw [ends_note]
    exact ⟨body, hbody, (hbegan.trans hw).trans (Exchange.wrote_note rfl _)⟩
  · obtain ⟨⟨body, hw, hbody⟩, hne⟩ := hs
    exact ⟨hne, body, hbody, hbegan.trans hw⟩

/-! ## All pending events -/

omit [DecidableEq σ] [Named σ] in
theorem take_ends {s : Configuration σ γ δ} {Q : Option Event → Configuration σ γ δ → Prop}
    {E : Halt → Configuration σ γ δ → Prop} (hnone : s.world.exchange.mailbox.pending = [] → Q none s)
    (hsome : ∀ e s', s.world.exchange.Wrote [e] [] s'.world.exchange → s'.marking = s.marking →
      Q (some e) s') : Ends Chart.take s Q E := by
  unfold Chart.take
  rw [ends_bind, ends_get]
  unfold Mailbox.take?
  cases h : s.world.exchange.mailbox.pending with
  | nil => exact hnone h
  | cons e rest =>
    refine hsome e _ ⟨?_, ?_, rfl, rfl⟩ rfl
    · simp
    · simp [h, accepted]

/-- What is pending is dispatched in order until nothing is left or an error breaks off. -/
theorem Chart.drain_ends (bound : Nat) (s : Configuration σ γ δ) :
    Ends (c.drain bound) s
      (fun _ s' => s'.world.exchange.mailbox.pending = [] ∧ ∃ D l, Dispatches D l (.ok ()) ∧
        s.world.exchange.Wrote D l s'.world.exchange)
      (fun h s' => ∃ D l, Dispatches D l (.error h) ∧ s.world.exchange.Wrote D l s'.world.exchange ∧
        (h = .unfinished → D.length = bound ∧ s'.world.exchange.mailbox.pending ≠ [])) := by
  induction bound generalizing s with
  | zero =>
    rw [Chart.drain, ends_bind, ends_get]
    split
    · rename_i hpending
      exact ⟨[], [], .spent, .refl _, fun _ => ⟨rfl, by simpa using hpending⟩⟩
    · rename_i hempty
      exact ⟨by simpa using hempty, [], [], .rest, .refl _⟩
  | succ bound ih =>
    rw [Chart.drain, ends_bind]
    refine take_ends (fun hnone => ⟨hnone, [], [], .rest, .refl _⟩) fun e s₁ htake _ => ?_
    rw [ends_bind]
    refine (c.handle_ends s₁).mono (fun _ s₂ hs => ?_) fun h s₂ hs => ?_
    · obtain ⟨body, hbody, hw⟩ := hs
      refine (ih s₂).mono (fun _ s₃ hs₃ => ?_) fun h s₃ hs₃ => ?_
      · obtain ⟨hempty, D, l, hD, hw'⟩ := hs₃
        refine ⟨hempty, e :: D, _, .next hbody hD, ?_⟩
        simpa using (htake.trans hw).trans hw'
      · obtain ⟨D, l, hD, hw', hspent⟩ := hs₃
        refine ⟨e :: D, _, .next hbody hD, ?_, fun hh => ⟨by simpa using (hspent hh).1, (hspent hh).2⟩⟩
        simpa using (htake.trans hw).trans hw'
    · obtain ⟨hne, body, hbody, hw⟩ := hs
      exact ⟨[e], _, .broken hbody hne, by simpa using htake.trans hw, fun hh => absurd hh hne⟩

end Chart

/-! ## Operations -/

/-- The balance of an operation that leads from `m` to `m'`: after the notes `opening` the events
`jumped` and then at most `bound` events `D` were dispatched, with the notes `l`. -/
structure Machine.Dispatched (m : Machine σ γ δ) (bound : Nat) (opening : List (Note σ))
    (jumped D : List Event) (l : List (Note σ)) (result : Except Halt Unit) (m' : Machine σ γ δ) : Prop where
  /-- Each dispatch ended before the next one began, and an error broke off the last one. -/
  order : Dispatches (jumped ++ D) l result
  journal : m'.journal.toList = m.journal.toList ++ opening ++ l
  /-- Nothing is lost or dispatched twice. -/
  balance : D ++ m'.mailbox.pending = m.mailbox.pending ++ accepted (opening ++ l)
  drained : result = .ok () → m'.mailbox.pending = []
  /-- An operation is left unfinished only when all that the caller allowed for was dispatched. -/
  spent : result = .error .unfinished → D.length = bound ∧ m'.mailbox.pending ≠ []

/-- The balance of an operation whose first pass over the regions failed: nothing was dispatched. -/
structure Machine.FailedAtOnce (m : Machine σ γ δ) (opening : List (Note σ))
    (result : Except Halt Unit) (m' : Machine σ γ δ) : Prop where
  failed : ∃ h, result = .error h ∧ h ≠ .unfinished
  journal : m'.journal.toList = m.journal.toList ++ opening
  balance : m'.mailbox.pending = m.mailbox.pending ++ accepted opening

section Operations

variable [DecidableEq σ] [Named σ] (m : Machine σ γ δ)

omit [DecidableEq σ] [Named σ] in
theorem Machine.dispatched_of_wrote {bound : Nat} {opening l : List (Note σ)} {jumped D : List Event}
    {result : Except Halt Unit} {s : Configuration σ γ δ} (horder : Dispatches (jumped ++ D) l result)
    (hw : m.configuration.world.exchange.Wrote D (opening ++ l) s.world.exchange)
    (hdrained : result = .ok () → s.world.exchange.mailbox.pending = [])
    (hspent : result = .error .unfinished → D.length = bound ∧ s.world.exchange.mailbox.pending ≠ []) :
    m.Dispatched bound opening jumped D l result { m with configuration := s } :=
  ⟨horder, by rw [List.append_assoc]; exact hw.journal, hw.pending, hdrained, hspent⟩

/-- Draining after `opening` was written. -/
theorem Machine.drain_dispatched {opening : List (Note σ)} {s : Configuration σ γ δ} (bound : Nat)
    (hs : m.configuration.world.exchange.Wrote [] opening s.world.exchange) :
    Ends (m.chart.drain bound) s
      (fun a s' => ∃ D l, m.Dispatched bound opening [] D l (.ok a) { m with configuration := s' })
      (fun h s' => ∃ D l, m.Dispatched bound opening [] D l (.error h) { m with configuration := s' }) := by
  refine (m.chart.drain_ends bound s).mono (fun _ s' h => ?_) fun h s' hs' => ?_
  · obtain ⟨hempty, D, l, hD, hw⟩ := h
    exact ⟨D, l, m.dispatched_of_wrote hD (hs.trans hw) (fun _ => hempty) nofun⟩
  · obtain ⟨D, l, hD, hw, hspent⟩ := hs'
    exact ⟨D, l, m.dispatched_of_wrote hD (hs.trans hw) nofun fun hh => hspent (Except.error.inj hh)⟩

/-- A full mailbox refuses the event, and nothing else happens. -/
theorem Machine.process_of_refused {e : Event} {capacity : Nat}
    (h : (m.mailbox.offer e).1 = .refused capacity) (bound : Nat) :
    m.run (m.chart.process bound e) = (.error (.error (.queueFull capacity)),
      { m with
        configuration.world.exchange := m.configuration.world.exchange.note (.refused e) }) := by
  have hoffer := Exchange.offer_of_refused (x := m.configuration.world.exchange) h
  have hends : Ends (m.chart.process bound e) m.configuration (fun _ _ => False) fun h s =>
      h = .error (.queueFull capacity) ∧ s = { m.configuration with
        world.exchange := m.configuration.world.exchange.note (.refused e) } := by
    unfold Chart.process offer
    rw [ends_bind, ends_bind, ends_get, hoffer]
    exact ⟨rfl, rfl⟩
  exact m.run_of_ends (P := fun result m' => (result, m') = _) (hends.mono (fun _ _ h => h.elim)
    fun h s hs => by rw [hs.1, hs.2])

theorem Machine.process_dispatched {e : Event} (h : (m.mailbox.offer e).1 = .queued) (bound : Nat) :
    ∃ D l, m.Dispatched bound [.queued e] [] D l (m.run (m.chart.process bound e)).1
      (m.run (m.chart.process bound e)).2 := by
  obtain ⟨hqueued, hw⟩ := Exchange.wrote_offer_of_queued (x := m.configuration.world.exchange) h
  refine m.run_of_ends (P := fun result m' => ∃ D l, m.Dispatched bound [.queued e] [] D l result m') ?_
  unfold Chart.process offer
  rw [ends_bind, ends_bind, ends_get]
  generalize m.configuration.world.exchange.offer e = receipt at hqueued hw
  obtain ⟨receipt, x⟩ := receipt
  subst hqueued
  exact m.drain_dispatched bound hw

/-- A pass over the regions, then what is pending. -/
theorem Machine.pass_dispatched (e : Event) {pass : Turn σ γ δ Unit} (hpass : Feeds (Note.During e) pass)
    (bound : Nat) : ∃ opening, (∀ n ∈ opening, n.During e) ∧
      let run := m.run (do m.chart.recovering pass; m.chart.drain bound)
      (m.FailedAtOnce opening run.1 run.2 ∨ ∃ D l, m.Dispatched bound opening [] D l run.1 run.2) := by
  refine m.run_of_ends (P := fun result m' => ∃ opening, (∀ n ∈ opening, n.During e) ∧
    (m.FailedAtOnce opening result m' ∨ ∃ D l, m.Dispatched bound opening [] D l result m')) ?_
  rw [ends_bind]
  refine (m.chart.recovering_withinDispatch hpass _).mono (fun _ s hs => ?_) fun h s hs => ?_
  · obtain ⟨opening, hw, hopening⟩ := hs
    exact (m.drain_dispatched bound hw).mono (fun _ _ h => ⟨opening, hopening, .inr h⟩)
      fun _ _ h => ⟨opening, hopening, .inr h⟩
  · obtain ⟨⟨opening, hw, hopening⟩, hne⟩ := hs
    exact ⟨opening, hopening, .inl ⟨⟨h, rfl, hne⟩, hw.journal, hw.pending⟩⟩

theorem Machine.processPending_dispatched (bound : Nat) :
    ∃ D l, m.Dispatched bound [] [] D l (m.run (m.chart.processPending bound)).1
      (m.run (m.chart.processPending bound)).2 :=
  m.run_of_ends (P := fun result m' => ∃ D l, m.Dispatched bound [] [] D l result m') (m.drain_dispatched bound (.refl _))

theorem Machine.processNow_dispatched (e : Event) (bound : Nat) :
    ∃ D l, m.Dispatched bound [] [e] D l (m.run (m.chart.processNow bound e)).1
      (m.run (m.chart.processNow bound e)).2 := by
  refine m.run_of_ends (P := fun result m' => ∃ D l, m.Dispatched bound [] [e] D l result m') ?_
  unfold Chart.processNow
  rw [ends_bind]
  refine (m.chart.handle_ends m.configuration).mono (fun _ s hs => ?_) fun h s hs => ?_
  · obtain ⟨body, hbody, hw⟩ := hs
    refine (m.chart.drain_ends bound s).mono (fun _ s' h => ?_) fun h s' hs' => ?_
    · obtain ⟨hempty, D, l, hD, hw'⟩ := h
      exact ⟨D, _, m.dispatched_of_wrote (.next hbody hD) (by simpa using hw.trans hw') (fun _ => hempty) nofun⟩
    · obtain ⟨D, l, hD, hw', hspent⟩ := hs'
      exact ⟨D, _, m.dispatched_of_wrote (.next hbody hD) (by simpa using hw.trans hw') nofun
        fun hh => hspent (Except.error.inj hh)⟩
  · obtain ⟨hne, body, hbody, hw⟩ := hs
    exact ⟨[], _, m.dispatched_of_wrote (.broken hbody hne) hw nofun
      fun hh => absurd (Except.error.inj hh) hne⟩

/-- **The queue is first in, first out.** The events that an operation dispatches, followed by those it
leaves pending, are those that were pending, followed by those it took, in the order in which it took
them; no callback for one event is called before the dispatch of the one before has ended; after an
operation that succeeds nothing is pending, an error breaks off the last dispatch, and an operation is left
unfinished only when as many events were dispatched as the caller allowed for. An event that is dispatched
ahead of the queue comes first. A mailbox without room refuses an event and stays as it is. -/
theorem queue_is_fifo (bound : Nat) :
    (∀ e, let run := m.run (m.chart.process bound e)
      match (m.mailbox.offer e).1 with
      | .queued => ∃ D l, m.Dispatched bound [.queued e] [] D l run.1 run.2
      | .refused capacity => run = (.error (.error (.queueFull capacity)),
          { m with
            configuration.world.exchange := m.configuration.world.exchange.note (.refused e) })) ∧
    (let run := m.run (m.chart.processPending bound)
      ∃ D l, m.Dispatched bound [] [] D l run.1 run.2) ∧
    (let run := m.run (m.chart.start bound)
      ∃ pass, (∀ n ∈ pass, n.During .start) ∧
        (m.FailedAtOnce pass run.1 run.2 ∨ ∃ D l, m.Dispatched bound pass [] D l run.1 run.2)) ∧
    (let run := m.run (m.chart.stop bound)
      ∃ pass, (∀ n ∈ pass, n.During .stop) ∧
        (m.FailedAtOnce pass run.1 run.2 ∨ ∃ D l, m.Dispatched bound pass [] D l run.1 run.2)) ∧
    (∀ e, let run := m.run (m.chart.processNow bound e)
      ∃ D l, m.Dispatched bound [] [e] D l run.1 run.2) ∧
    ∀ (x : Exchange σ) (e : Event) (capacity : Nat), (x.mailbox.offer e).1 = .refused capacity →
      x.offer e = (.refused capacity, x.note (.refused e)) := by
  refine ⟨fun e => ?_, ?_, ?_, ?_, fun e => m.processNow_dispatched e bound,
    fun x e capacity h => Exchange.offer_of_refused h⟩
  · cases h : (m.mailbox.offer e).1 with
    | queued => exact m.process_dispatched h bound
    | refused capacity => exact m.process_of_refused h bound
  · exact m.run_of_ends (P := fun result m' => ∃ D l, m.Dispatched bound [] [] D l result m')
      (m.drain_dispatched bound (.refl _))
  · have hfeeds := m.chart.startRegions_feeds Note.during_of_concerns Note.during_of_completion
    exact m.pass_dispatched .start hfeeds bound
  · exact m.pass_dispatched .stop (m.chart.stopRegions_feeds Note.during_of_concerns) bound

end Operations

end Statechart
