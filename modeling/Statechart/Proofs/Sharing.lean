import Mathlib.Data.List.Forall2
import Statechart.Proofs.CoupledCharts
import Statechart.Proofs.Queue
import Statechart.Shared

/-!
# A shared machine is the machine

On one thread, the sharing of a machine that was never shared before does what the machine itself does: to
post is to process, and to have the machine to oneself is to work on it and then to dispatch what is pending.

* `Machine.mark`, `Turn.Blind`, `Machine.operate_mark` : nothing that a machine does depends on whether its mailbox is
  attached;
* `Procedure` : what somebody may do to a machine that he has to himself;
* `Request`, `Shared.serve`, `Machine.serve` : requests to a shared machine, what they come to there and on the
  machine itself;
* `Shared.drive_of_free`, `Shared.post_of_free` : driving takes one round; `Shared.post_of_busy` : what is posted
  while the lock is held is only queued;
* `Shared.Mirrors`, `Shared.Mirrors.serve`, `Shared.Mirrors.transcript` : one request, and any number;
* `sharing_refines_machine`.
-/

set_option autoImplicit false

namespace Statechart

open Turn

variable {σ γ δ α β : Type}

/-! ## The mark on the mailbox -/

section Mark

variable (b : Bool)

/-- The exchange with its mailbox marked as attached, or as not attached. -/
def Exchange.mark (x : Exchange σ) : Exchange σ := { x with mailbox.attached := b }

/-- The configuration with its mailbox marked. -/
def Configuration.mark (c : Configuration σ γ δ) : Configuration σ γ δ :=
  { c with world.exchange := c.world.exchange.mark b }

/-- The machine with its mailbox marked. -/
def Machine.mark (m : Machine σ γ δ) : Machine σ γ δ := { m with configuration := m.configuration.mark b }

theorem Machine.mark_attached (m : Machine σ γ δ) : m.mark m.mailbox.attached = m := rfl

theorem Exchange.offer_mark (x : Exchange σ) (e : Event) :
    (x.mark b).offer e = ((x.offer e).1, (x.offer e).2.mark b) := by
  obtain ⟨⟨pending, capacity, attached⟩, journal⟩ := x
  cases capacity with
  | none => rfl
  | some capacity =>
    unfold Exchange.offer Mailbox.offer Exchange.mark
    dsimp only
    by_cases h : capacity ≤ pending.length
    · simp only [h, if_true]
      rfl
    · simp only [h, if_false]
      rfl

/-- A course plays the same whatever the mark. -/
theorem Course.play_mark {κ : Type} (y : Course κ α) (x : Exchange σ) :
    y.play (x.mark b) = ((y.play x).1, (y.play x).2.mark b) := by
  induction y generalizing x with
  | done => rfl
  | panic => rfl
  | raise e next ih =>
    rw [Course.play, Course.play, Exchange.offer_mark]
    exact ih _ _

/-- The turn does the same whatever the mark, and leaves the mark as it is. -/
abbrev Turn.Blind (x : Turn σ γ δ α) : Prop := Lockstep (fun _ => True) (fun c d => d = c.mark b) x x

theorem Turn.performOn_blind {κ : Type} {part : Configuration σ γ δ → κ}
    {put : κ → Configuration σ γ δ → Configuration σ γ δ} (hpart : ∀ c, part (c.mark b) = part c)
    (hput : ∀ s c, put s (c.mark b) = (put s c).mark b) (f : Callback κ α) : Blind b (performOn part put f) := by
  rintro c _ rfl
  have hplay := (f (part c)).play_mark b c.world.exchange
  unfold EndsAlike Ends performOn
  rw [hpart, show (c.mark b).world.exchange = c.world.exchange.mark b from rfl, hplay]
  generalize (f (part c)).play c.world.exchange = played
  obtain ⟨⟨result, state⟩, x⟩ := played
  cases result with
  | ok a => exact ⟨rfl, hput state { c with world.exchange := x }⟩
  | error message => exact ⟨rfl, trivial, hput state { c with world.exchange := x.note (.panicked message) }⟩

theorem Turn.carries_mark : Turn.Carries (σ := σ) (γ := γ) (δ := δ) fun c d => d = c.mark b where
  note _ := by
    rintro c _ rfl
    exact ⟨rfl, rfl⟩
  perform f := by
    unfold Turn.perform
    apply performOn_blind <;> intros <;> rfl
  performAt _ _ f := by
    unfold Turn.performAt
    apply performOn_blind <;> intros <;> rfl
  remember setup path source target e := by
    unfold Region.remember
    split
    · rintro c _ rfl
      exact ⟨rfl, rfl⟩
    · exact .pure ()

theorem Turn.offer_blind (e : Event) : Blind b (offer e : Turn σ γ δ Unit) := by
  rintro c _ rfl
  unfold offer
  refine EndsAlike.get ?_
  rw [show (c.mark b).world.exchange = c.world.exchange.mark b from rfl, Exchange.offer_mark]
  generalize c.world.exchange.offer e = offered
  obtain ⟨receipt, x⟩ := offered
  cases receipt with
  | queued => exact ⟨rfl, rfl⟩
  | refused capacity => exact ⟨rfl, trivial, rfl⟩

theorem Chart.take_blind : Blind b (Chart.take : Turn σ γ δ (Option Event)) := by
  rintro c _ rfl
  obtain ⟨⟨context, ⟨⟨pending, capacity, attached⟩, journal⟩, history, clock⟩, marking⟩ := c
  cases pending with
  | nil => exact ⟨rfl, rfl⟩
  | cons e rest => exact ⟨rfl, rfl⟩

variable [DecidableEq σ] [Named σ]

theorem Region.blind_coupling (setup : Setup σ γ) :
    Region.Coupling (δ := δ) setup (fun _ => True) Eq fun _ c d => d = c.mark b where
  overflow _ _ := trivial
  table h := by rw [h]
  child h hs hs' := by
    obtain rfl := h
    refine ⟨Option.some.inj (hs.symm.trans hs'), ?_⟩
    rintro c _ rfl
    refine ⟨rfl, ?_⟩
    rintro c' _ rfl
    rfl
  active h := by rw [h]; rfl
  state {r r' c d i} h _ _ := by
    obtain rfl := h
    cases r.nodes[i]? with
    | none => exact .none
    | some n => exact .some ⟨rfl, rfl⟩
  move _ hR _ := by rw [hR]; rfl
  own _ hx := (Turn.carries_mark b).own hx

theorem Chart.blind_coupling (c : Chart σ γ δ) : Chart.Coupling c c Eq (fun _ s t => t = s.mark b)
    fun s t => t = s.mark b where
  regions := Region.blind_coupling b c.setup
  consult {_ _ i n} _ _ path e := (Turn.carries_mark b).consult n path i e
  accepts _ s e := (Turn.carries_mark b).accepts _ s e
  foretell _ _ e := by
    rintro s _ rfl
    exact ⟨rfl, rfl⟩
  setup := rfl
  length := rfl
  child hr hr' := by
    refine ⟨Option.some.inj (hr.symm.trans hr'), ?_⟩
    rintro s _ rfl
    refine ⟨rfl, ?_⟩
    rintro s' _ rfl
    rfl
  carries := Turn.carries_mark b
  offer e := Turn.offer_blind b e
  take := Chart.take_blind b
  setContext _ h := by rw [h]; rfl
  setClock _ h := by rw [h]; rfl
  pending h := by rw [h]; rfl

/-- What an operation comes to does not depend on the mark. -/
theorem Machine.operate_mark (m : Machine σ γ δ) (bound : Nat) (op : Operation γ) :
    (m.mark b).operate bound op = ((m.operate bound op).1, (m.operate bound op).2.mark b) := by
  have hrun := Machine.run_of_lockstep ((m.chart.blind_coupling b).operation bound op) m (m.mark b) rfl
  refine Prod.ext hrun.1 (Machine.ext ?_ hrun.2)
  exact ((m.mark b).chart_operate bound op).trans (m.chart_operate bound op).symm

end Mark

/-! ## Requests -/

/-- What somebody may do to a machine that he has to himself. It ends with a value or the message of a panic, and can
neither see nor change whether the mailbox is attached (`blind`). This leaves out what puts another machine in the place
of this one, since the other machine has a mailbox of its own, which is not that of the sharing. -/
structure Procedure (σ γ δ α : Type) where
  run : Machine σ γ δ → Except String α × Machine σ γ δ
  blind : ∀ b m, run (m.mark b) = ((run m).1, (run m).2.mark b)

namespace Procedure

/-- Returns a value that can be seen of the machine. -/
def look (f : Machine σ γ δ → α) (hf : ∀ b m, f (m.mark b) = f m) : Procedure σ γ δ α where
  run m := (.ok (f m), m)
  blind b m := by rw [hf]

/-- One procedure after another. -/
def bind (p : Procedure σ γ δ α) (q : α → Procedure σ γ δ β) : Procedure σ γ δ β where
  run m :=
    match p.run m with
    | (.ok a, m) => (q a).run m
    | (.error message, m) => (.error message, m)
  blind b m := by
    rw [p.blind b m]
    generalize p.run m = after
    obtain ⟨result, m⟩ := after
    cases result with
    | ok a => exact (q a).blind b m
    | error message => rfl

/-- Carries out an operation; only a panic ends the procedure. -/
def operate [DecidableEq σ] [Named σ] (bound : Nat) (op : Operation γ) :
    Procedure σ γ δ (Except Halt Unit) where
  run m :=
    match m.operate bound op with
    | (.error (.panic message), m) => (.error message, m)
    | (result, m) => (.ok result, m)
  blind b m := by
    rw [m.operate_mark b bound op]
    generalize m.operate bound op = after
    obtain ⟨result, m⟩ := after
    rcases result with halt | _
    · cases halt <;> rfl
    · rfl

end Procedure

/-- A request to a shared machine. -/
inductive Request (σ γ δ α : Type) where
  | post (e : Event)
  | processPending
  | exclusively (f : Procedure σ γ δ α)

section Requests

variable [DecidableEq σ] [Named σ] (bound : Nat)

/-- What a request to the sharing comes to: the answer has the value of a procedure, if there was one. -/
def Shared.serve (s : Shared σ γ δ) : Request σ γ δ α → Except Halt (Option α) × Shared σ γ δ
  | .post e => (s.post bound e).map (·.map fun _ => none) id
  | .processPending => (s.processPending bound).map (·.map fun _ => none) id
  | .exclusively f => (s.exclusively bound f.run).map (·.map some) id

/-- The same on the machine itself. Who has the machine to himself works on it, and then all that is pending is
dispatched. -/
def Machine.serve (m : Machine σ γ δ) : Request σ γ δ α → Except Halt (Option α) × Machine σ γ δ
  | .post e => (m.run (m.chart.process bound e)).map (·.map fun _ => none) id
  | .processPending => (m.run (m.chart.processPending bound)).map (·.map fun _ => none) id
  | .exclusively f => (m.exclusively bound f.run).map (·.map some) id

/-! ## Driving -/

omit [DecidableEq σ] [Named σ] in
theorem Machine.run_bind (m : Machine σ γ δ) (x : Turn σ γ δ α) (f : α → Turn σ γ δ β) :
    m.run (x >>= f) =
      match m.run x with
      | (.ok a, m) => m.run (f a)
      | (.error h, m) => (.error h, m) := by
  unfold Machine.run
  cases hx : x m.configuration with
  | ok a c => rw [bind_of_ok hx]
  | error h c => rw [bind_eq_error.2 (.inl hx)]

/-- Once all that is pending was dispatched, nothing is pending. -/
theorem Machine.pending_of_ok {m m' : Machine σ γ δ} (h : m.run (m.chart.processPending bound) = (.ok (), m')) :
    m'.mailbox.pending = [] := by
  have hdispatched := m.processPending_dispatched bound
  rw [h] at hdispatched
  obtain ⟨D, l, hD⟩ := hdispatched
  exact hD.drained rfl

/-- Where nothing is pending, nothing is done. -/
theorem Machine.run_of_idle {m : Machine σ γ δ} (h : m.mailbox.pending = []) :
    m.run (m.chart.processPending bound) = (.ok (), m) := by
  have hpending : m.configuration.world.exchange.mailbox.pending = [] := h
  have hdrain : m.chart.drain bound m.configuration = .ok () m.configuration := by
    cases bound with
    | zero =>
      rw [Chart.drain, bind_of_ok (show (get : Turn σ γ δ _) m.configuration = .ok m.configuration _ from rfl),
        hpending]
      rfl
    | succ bound =>
      have htake : Chart.take m.configuration = .ok none m.configuration := by
        unfold Chart.take Mailbox.take?
        rw [bind_of_ok (show (get : Turn σ γ δ _) m.configuration = .ok m.configuration _ from rfl), hpending]
        rfl
      rw [Chart.drain, bind_of_ok htake]
      rfl
  unfold Machine.run Chart.processPending
  rw [hdrain]

/-- Who has the machine to himself leaves nothing pending. -/
theorem Machine.pending_of_exclusively {m : Machine σ γ δ} {f : Machine σ γ δ → Except String α × Machine σ γ δ}
    {a : α} (h : (m.exclusively bound f).1 = .ok a) : (m.exclusively bound f).2.mailbox.pending = [] := by
  unfold Machine.exclusively at h ⊢
  generalize f m = worked at h
  obtain ⟨result, m⟩ := worked
  cases result with
  | error message => cases h
  | ok =>
    dsimp only at h ⊢
    cases hrun : m.run (m.chart.processPending bound) with
    | mk drained m' =>
      rw [hrun] at h
      cases drained with
      | error => cases h
      | ok => exact Machine.pending_of_ok bound hrun

theorem Machine.exclusively_mark (b : Bool) (m : Machine σ γ δ) (f : Procedure σ γ δ α) :
    (m.mark b).exclusively bound f.run =
      ((m.exclusively bound f.run).1, (m.exclusively bound f.run).2.mark b) := by
  unfold Machine.exclusively
  rw [f.blind b m]
  generalize f.run m = worked
  obtain ⟨result, m⟩ := worked
  cases result with
  | error message => rfl
  | ok =>
    have hdrain : (m.mark b).run ((m.mark b).chart.processPending bound) =
        ((m.run (m.chart.processPending bound)).1, (m.run (m.chart.processPending bound)).2.mark b) :=
      m.operate_mark b bound .processPending
    dsimp only
    rw [hdrain]
    generalize m.run (m.chart.processPending bound) = drained
    obtain ⟨result, m⟩ := drained
    cases result <;> rfl

/-- Nothing is queued behind the back of who drives on one thread, so driving takes one round. -/
theorem Shared.drive_of_free {s : Shared σ γ δ} (h : s.lock = .free) (rounds : Nat) :
    s.drive bound (rounds + 1) = s.locked fun m => m.run (m.chart.processPending bound) := by
  rw [Shared.drive, h]
  dsimp only
  cases hrun : s.machine.run (s.machine.chart.processPending bound) with
  | mk result m =>
    unfold Shared.locked
    dsimp only
    rw [hrun]
    cases result with
    | error halt => rfl
    | ok =>
      dsimp only
      rw [Machine.pending_of_ok bound hrun]
      rfl

omit [DecidableEq σ] [Named σ] in
theorem Machine.isPanic_post (m : Machine σ γ δ) (e : Event) : Shared.isPanic (m.post e).1 = false := by
  refine m.run_of_ends (P := fun result _ => Shared.isPanic result = false) ?_
  unfold offer
  rw [ends_bind, ends_get]
  generalize m.configuration.world.exchange.offer e = offered
  obtain ⟨receipt, x⟩ := offered
  cases receipt <;> rfl

/-- What is posted to a sharing that drives its mailbox is processed, if nobody holds the lock. -/
theorem Shared.post_of_free {s : Shared σ γ δ} (hdriving : s.driving = true) (h : s.lock = .free) (e : Event) :
    s.post bound e = s.locked fun m => m.run (m.chart.process bound e) := by
  have hcalm := s.machine.isPanic_post e
  have hchart : (s.machine.post e).2.chart = s.machine.chart := s.machine.chart_run _
  unfold Shared.post Shared.locked Chart.process
  dsimp only
  rw [Machine.run_bind]
  unfold Machine.post at hcalm hchart ⊢
  generalize s.machine.run (offer e) = posted at hcalm hchart
  obtain ⟨result, m⟩ := posted
  cases result with
  | error halt =>
    dsimp only at hcalm ⊢
    rw [hcalm, ← h]
    rfl
  | ok =>
    dsimp only at hchart ⊢
    rw [if_pos hdriving, ← hchart]
    have hqueued : Shared.lock { s with machine := m } = .free := h
    exact Shared.drive_of_free bound hqueued bound

/-- While somebody holds the lock, and where the sharing does not drive its mailbox, what is posted is offered to the
queue, as what a callback raises is. -/
theorem Shared.post_of_busy {s : Shared σ γ δ} (h : s.driving = true → s.lock = .held) (e : Event) :
    s.post bound e = ((s.machine.post e).1, { s with machine := (s.machine.post e).2 }) := by
  unfold Shared.post
  generalize s.machine.post e = posted
  obtain ⟨result, m⟩ := posted
  cases result with
  | error halt => rfl
  | ok =>
    dsimp only
    split
    · rename_i hdriving
      unfold Shared.processPending
      rw [Shared.drive, h hdriving]
    · rfl

/-! ## One request -/

/-- The sharing drives its mailbox, nobody holds the lock, and inside is the machine. -/
structure Shared.Mirrors (s : Shared σ γ δ) (m : Machine σ γ δ) : Prop where
  machine : s.machine = m.attach
  driving : s.driving = true
  lock : s.lock = .free

variable {bound} {s : Shared σ γ δ} {m : Machine σ γ δ}

omit [DecidableEq σ] [Named σ] in
/-- What is done under the lock, if it does not panic. -/
theorem Shared.Mirrors.locked (h : s.Mirrors m) {f : Machine σ γ δ → Except Halt α × Machine σ γ δ}
    {after : Except Halt α × Machine σ γ δ} (hf : f m.attach = (after.1, after.2.attach))
    (hcalm : Shared.isPanic after.1 = false) :
    (s.locked f).1 = after.1 ∧ (s.locked f).2.Mirrors after.2 := by
  unfold Shared.locked
  rw [h.machine, hf]
  exact ⟨rfl, rfl, h.driving, by simp [hcalm]⟩

/-- Driving the sharing dispatches what is pending on the machine. -/
theorem Shared.Mirrors.processPending (h : s.Mirrors m)
    (hcalm : Shared.isPanic (m.run (m.chart.processPending bound)).1 = false) :
    (s.processPending bound).1 = (m.run (m.chart.processPending bound)).1 ∧
      (s.processPending bound).2.Mirrors (m.run (m.chart.processPending bound)).2 := by
  unfold Shared.processPending
  rw [Shared.drive_of_free bound h.lock]
  exact h.locked (m.operate_mark true bound .processPending) hcalm

/-- Posting to the sharing processes the event on the machine. -/
theorem Shared.Mirrors.post (h : s.Mirrors m) (e : Event)
    (hcalm : Shared.isPanic (m.run (m.chart.process bound e)).1 = false) :
    (s.post bound e).1 = (m.run (m.chart.process bound e)).1 ∧
      (s.post bound e).2.Mirrors (m.run (m.chart.process bound e)).2 := by
  rw [Shared.post_of_free bound h.driving h.lock]
  exact h.locked (m.operate_mark true bound (.process e)) hcalm

/-- Where nothing is pending, driving the sharing does nothing. -/
theorem Shared.Mirrors.idle (h : s.Mirrors m) (hidle : m.mailbox.pending = []) :
    (s.processPending bound).1 = .ok () ∧ (s.processPending bound).2.Mirrors m := by
  have hrun := Machine.run_of_idle bound hidle
  have hcalm : Shared.isPanic (m.run (m.chart.processPending bound)).1 = false := by
    rw [hrun]
    rfl
  have hpending := h.processPending hcalm
  rwa [hrun] at hpending

/-- Who has the sharing to himself works on the machine, and then all that is pending is dispatched. -/
theorem Shared.Mirrors.exclusively (h : s.Mirrors m) (f : Procedure σ γ δ α)
    (hcalm : Shared.isPanic (m.exclusively bound f.run).1 = false) :
    (s.exclusively bound f.run).1 = (m.exclusively bound f.run).1 ∧
      (s.exclusively bound f.run).2.Mirrors (m.exclusively bound f.run).2 := by
  have hinside := h.locked (f := fun m => m.exclusively bound f.run) (m.exclusively_mark bound true f) hcalm
  have hidle (a : α) (ha : (m.exclusively bound f.run).1 = .ok a) :
      (m.exclusively bound f.run).2.mailbox.pending = [] := Machine.pending_of_exclusively bound ha
  unfold Shared.exclusively
  rw [h.lock]
  dsimp only
  generalize m.exclusively bound f.run = after at hinside hidle
  generalize s.locked (fun m => m.exclusively bound f.run) = locked at hinside
  obtain ⟨result, m'⟩ := after
  obtain ⟨result', s'⟩ := locked
  obtain ⟨hresult, hmirrors⟩ := hinside
  obtain rfl : result' = result := hresult
  cases result' with
  | error halt => exact ⟨rfl, hmirrors⟩
  | ok a =>
    obtain ⟨hok, hafter⟩ : (s'.processPending bound).1 = .ok () ∧ (s'.processPending bound).2.Mirrors m' :=
      hmirrors.idle (hidle a rfl)
    dsimp only at hok hafter ⊢
    generalize s'.processPending bound = again at hok hafter
    obtain ⟨result, s''⟩ := again
    obtain rfl : result = .ok () := hok
    exact ⟨rfl, hafter⟩

/-- A request to the sharing comes to what it comes to on the machine. -/
theorem Shared.Mirrors.serve (h : s.Mirrors m) (q : Request σ γ δ α)
    (hcalm : Shared.isPanic (m.serve bound q).1 = false) :
    (s.serve bound q).1 = (m.serve bound q).1 ∧ (s.serve bound q).2.Mirrors (m.serve bound q).2 := by
  have hkept {β : Type} {r : Except Halt β} {k : β → Option α} (hr : Shared.isPanic (r.map k) = false) :
      Shared.isPanic r = false := by
    cases r with
    | ok => rfl
    | error halt =>
      cases halt with
      | panic message => exact hr
      | error e => rfl
      | unfinished => rfl
  cases q with
  | post e =>
    obtain ⟨hresult, hafter⟩ := h.post e (hkept hcalm)
    exact ⟨congrArg (Except.map _) hresult, hafter⟩
  | processPending =>
    obtain ⟨hresult, hafter⟩ := h.processPending (hkept hcalm)
    exact ⟨congrArg (Except.map _) hresult, hafter⟩
  | exclusively f =>
    obtain ⟨hresult, hafter⟩ := h.exclusively f (hkept hcalm)
    exact ⟨congrArg (Except.map _) hresult, hafter⟩

/-- So do any number of requests, one after the other. -/
theorem Shared.Mirrors.transcript (h : s.Mirrors m) (qs : List (Request σ γ δ α))
    (hcalm : ∀ answer ∈ Statechart.transcript (Machine.serve bound) m qs, Shared.isPanic answer.1 = false) :
    List.Forall₂ (fun answer answer' => answer.1 = answer'.1 ∧ answer.2.Mirrors answer'.2)
      (Statechart.transcript (Shared.serve bound) s qs) (Statechart.transcript (Machine.serve bound) m qs) := by
  induction qs generalizing s m with
  | nil => exact .nil
  | cons q qs ih =>
    rw [Statechart.transcript, List.forall_mem_cons] at hcalm
    have hone := h.serve q hcalm.1
    exact .cons hone (ih hone.2 hcalm.2)

end Requests

/-- The sharing of a machine that was never shared before refines the machine. As long as nothing panics, every
request comes to the same, and leaves the machine as it leaves it: in the same marking, with the same context, history
and queue, and with the same journal of what was called. What is posted while somebody works on the machine, also by
its callbacks, is offered to the queue and nothing else.

The requests do not include those that put another machine in the place of the shared one: a `Procedure` works on the
machine that it is given, and by its field `blind` leaves the mark on the mailbox as it is. -/
theorem sharing_refines_machine [DecidableEq σ] [Named σ] (bound : Nat) (m : Machine σ γ δ)
    (hfresh : m.mailbox.attached = false) (qs : List (Request σ γ δ α))
    (hcalm : ∀ answer ∈ transcript (Machine.serve bound) m qs, Shared.isPanic answer.1 = false) :
    List.Forall₂ (fun answer answer' => answer.1 = answer'.1 ∧ answer.2.machine = answer'.2.attach)
        (transcript (Shared.serve bound) (.wrap m) qs) (transcript (Machine.serve bound) m qs) ∧
      ∀ (s : Shared σ γ δ) (e : Event), s.lock = .held →
        s.post bound e = ((s.machine.run (offer e)).1, { s with machine := (s.machine.run (offer e)).2 }) := by
  have hwrap : (Shared.wrap m).Mirrors m := ⟨rfl, by rw [Shared.wrap, hfresh]; rfl, rfl⟩
  refine ⟨(hwrap.transcript qs hcalm).imp fun _ _ h => ⟨h.1, h.2.machine⟩, ?_⟩
  exact fun s e h => Shared.post_of_busy bound (fun _ => h) e

/-- Somebody has the lamp to himself: he turns it, and posts that it be pressed. -/
def Lamp.errand : Procedure Lamp Unit Unit (Except Halt Unit) :=
  (Procedure.operate 1 (.process turn)).bind fun _ => Procedure.operate 1 (.post press)

/-- The started lamp is pressed through its sharing, and then there is the errand. -/
theorem sharing_refines_machine_started :
    Lamp.started.mailbox.attached = false ∧
      (∀ answer ∈ transcript (Machine.serve 1) Lamp.started [.post Lamp.press, .exclusively Lamp.errand],
        Shared.isPanic answer.1 = false) ∧
      (Shared.wrap Lamp.started).driving = true ∧
      List.Forall₂ (fun answer answer' => answer.1 = answer'.1 ∧ answer.2.machine = answer'.2.attach)
        (transcript (Shared.serve 1) (.wrap Lamp.started) [.post Lamp.press, .exclusively Lamp.errand])
        (transcript (Machine.serve 1) Lamp.started [.post Lamp.press, .exclusively Lamp.errand]) := by
  have hcalm : ∀ answer ∈
      transcript (Machine.serve 1) Lamp.started [.post Lamp.press, .exclusively Lamp.errand],
      Shared.isPanic answer.1 = false := by decide +kernel
  exact ⟨rfl, hcalm, rfl, (sharing_refines_machine 1 Lamp.started rfl _ hcalm).1⟩

end Statechart
