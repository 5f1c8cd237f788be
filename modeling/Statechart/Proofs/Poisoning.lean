import Statechart.Proofs.Rewrapping

/-!
# Sharings that are poisoned

Once a callback has panicked, a sharing lets nobody at the machine any more. What is posted is queued all the same, and
whoever takes the machine back finds all of it.

* `Shared.lock_serve` : a request that ends in a panic poisons the lock;
* `Mailbox.receipts` : what becomes of events that are offered while none is taken out;
* `Shared.Act`, `Shared.act` : what can be done to a sharing, panicking closures included;
* `Shared.Freezes`, `Shared.freezes_act`, `Shared.freezes_acts` : of the machine nothing changes but the mailbox and the
  journal, by one act and by any number;
* `poisoned_sharing_loses_nothing`.
-/

set_option autoImplicit false

namespace Statechart

open Turn

variable {σ γ δ α β : Type}

/-! ## A panic poisons the lock -/

theorem Shared.isPanic_map (r : Except Halt α) (f : α → β) : Shared.isPanic (r.map f) = Shared.isPanic r := by
  rcases r with (_ | _ | _) | _ <;> rfl

section Panic

variable [DecidableEq σ] [Named σ] (bound : Nat)

omit [DecidableEq σ] [Named σ] in
theorem Shared.lock_locked {s : Shared σ γ δ} {f : Machine σ γ δ → Except Halt α × Machine σ γ δ}
    (h : Shared.isPanic (s.locked f).1 = true) : (s.locked f).2.lock = .poisoned :=
  if_pos h

/-- By induction on the rounds: the round that panics poisons the lock, and is the last one. -/
theorem Shared.lock_drive {s : Shared σ γ δ} (rounds : Nat) (h : Shared.isPanic (s.drive bound rounds).1 = true) :
    (s.drive bound rounds).2.lock = .poisoned := by
  induction rounds generalizing s with
  | zero => cases h
  | succ rounds ih =>
    rw [Shared.drive] at h ⊢
    cases hlock : s.lock with
    | held =>
      rw [hlock] at h
      cases h
    | poisoned => exact hlock
    | free =>
      have hround := Shared.lock_locked (s := s) (f := fun m => m.run (m.chart.processPending bound))
      rw [hlock] at h
      dsimp only at h ⊢
      generalize s.locked (fun m => m.run (m.chart.processPending bound)) = after at h hround
      obtain ⟨result, s'⟩ := after
      cases result with
      | error halt => exact hround h
      | ok =>
        dsimp only at h ⊢
        split at h
        · cases h
        · rename_i hpending
          rw [if_neg hpending]
          exact ih h

theorem Shared.lock_post {s : Shared σ γ δ} {e : Event} (h : Shared.isPanic (s.post bound e).1 = true) :
    (s.post bound e).2.lock = .poisoned := by
  have hcalm := s.machine.isPanic_post e
  unfold Shared.post at h ⊢
  generalize s.machine.post e = posted at h hcalm
  obtain ⟨result, m⟩ := posted
  cases result with
  | error halt => exact absurd (hcalm.symm.trans h) Bool.false_ne_true
  | ok =>
    dsimp only at h ⊢
    split at h
    · rename_i hdriving
      rw [if_pos hdriving]
      exact Shared.lock_drive bound (bound + 1) h
    · cases h

theorem Shared.lock_exclusively {s : Shared σ γ δ} {f : Machine σ γ δ → Except String α × Machine σ γ δ}
    (h : Shared.isPanic (s.exclusively bound f).1 = true) : (s.exclusively bound f).2.lock = .poisoned := by
  unfold Shared.exclusively at h ⊢
  cases hlock : s.lock with
  | held =>
    rw [hlock] at h
    cases h
  | poisoned => exact hlock
  | free =>
    have hinside := Shared.lock_locked (s := s) (f := fun m => m.exclusively bound f)
    rw [hlock] at h
    dsimp only at h ⊢
    generalize s.locked (fun m => m.exclusively bound f) = after at h hinside
    obtain ⟨result, s'⟩ := after
    cases result with
    | error halt => exact hinside h
    | ok =>
      have hdrive := Shared.lock_drive (s := s') bound (bound + 1)
      unfold Shared.processPending at h ⊢
      dsimp only at h ⊢
      generalize s'.drive bound (bound + 1) = again at h hdrive
      obtain ⟨result, s''⟩ := again
      cases result with
      | error halt => exact hdrive (by cases halt <;> exact h)
      | ok => cases h

theorem Shared.lock_serve {s : Shared σ γ δ} {q : Request σ γ δ α} {message : String}
    (h : (s.serve bound q).1 = .error (.panic message)) : (s.serve bound q).2.lock = .poisoned := by
  have hpanic : Shared.isPanic (s.serve bound q).1 = true := by
    rw [h]
    rfl
  cases q with
  | post e => exact Shared.lock_post bound (by rwa [Shared.serve, Prod.map, Shared.isPanic_map] at hpanic)
  | processPending =>
    exact Shared.lock_drive bound (bound + 1) (by rwa [Shared.serve, Prod.map, Shared.isPanic_map] at hpanic)
  | exclusively f => exact Shared.lock_exclusively bound (by rwa [Shared.serve, Prod.map, Shared.isPanic_map] at hpanic)

end Panic

/-! ## Events that pile up -/

/-- How many of some events a mailbox has room for. -/
def Mailbox.room (b : Mailbox) (events : List Event) : Nat :=
  match b.capacity with
  | none => events.length
  | some capacity => capacity - b.pending.length

/-- What becomes of events that are offered one after the other while none is taken out: those that there is room for are
queued, and all others refused. -/
def Mailbox.receipts (b : Mailbox) (events : List Event) : List (Note σ) :=
  (events.take (b.room events)).map .queued ++ (events.drop (b.room events)).map .refused

theorem Mailbox.accepted_receipts (b : Mailbox) (events : List Event) :
    accepted (b.receipts events : List (Note σ)) = events.take (b.room events) := by
  have hqueued (l : List Event) : accepted (l.map .queued : List (Note σ)) = l := by simp [accepted]
  have hrefused (l : List Event) : accepted (l.map .refused : List (Note σ)) = [] := by simp [accepted]
  rw [Mailbox.receipts, accepted_append, hqueued, hrefused, List.append_nil]

theorem Mailbox.receipts_nil (b : Mailbox) : (b.receipts [] : List (Note σ)) = [] := by simp [Mailbox.receipts]

/-- The later events find the mailbox as the earlier ones have left it. -/
theorem Mailbox.receipts_append {b b' : Mailbox} {events later : List Event} (hcapacity : b'.capacity = b.capacity)
    (hpending : b'.pending = b.pending ++ events.take (b.room events)) :
    (b.receipts (events ++ later) : List (Note σ)) = b.receipts events ++ b'.receipts later := by
  unfold Mailbox.receipts Mailbox.room at *
  rw [hcapacity, hpending]
  cases b.capacity with
  | none => simp only [List.take_length, List.drop_length, List.map_nil, List.append_nil, List.map_append]
  | some capacity =>
    dsimp only
    rw [List.take_append, List.drop_append, List.length_append, List.length_take]
    by_cases hfull : capacity - b.pending.length ≤ events.length
    · -- the earlier ones have filled it, so nothing of the later ones is queued
      have hnone : capacity - (b.pending.length + min (capacity - b.pending.length) events.length) = 0 := by omega
      simp [hnone, Nat.sub_eq_zero_of_le hfull]
    · have hleft : capacity - (b.pending.length + min (capacity - b.pending.length) events.length) =
          capacity - b.pending.length - events.length := by omega
      have hall : events.drop (capacity - b.pending.length) = [] := List.drop_eq_nil_of_le (by omega)
      simp [hleft, hall]

theorem Mailbox.receipts_singleton (b : Mailbox) (e : Event) :
    (b.receipts [e] : List (Note σ)) =
      match (b.offer e).1 with
      | .queued => [.queued e]
      | .refused _ => [.refused e] := by
  unfold Mailbox.receipts Mailbox.room Mailbox.offer
  cases b.capacity with
  | none => rfl
  | some capacity =>
    dsimp only
    by_cases hfull : capacity ≤ b.pending.length
    · rw [if_pos hfull, Nat.sub_eq_zero_of_le hfull]
      rfl
    · obtain ⟨n, hn⟩ := Nat.exists_eq_succ_of_ne_zero (Nat.sub_ne_zero_of_lt (Nat.lt_of_not_le hfull))
      rw [if_neg hfull, hn]
      simp

theorem Exchange.offer_fst (x : Exchange σ) (e : Event) : (x.offer e).1 = (x.mailbox.offer e).1 := by
  unfold Exchange.offer
  split <;> simp [*]

theorem Exchange.wrote_offer (x : Exchange σ) (e : Event) : x.Wrote [] (x.mailbox.receipts [e]) (x.offer e).2 := by
  rw [Mailbox.receipts_singleton]
  cases hoffer : (x.mailbox.offer e).1 with
  | queued => exact (Exchange.wrote_offer_of_queued hoffer).2
  | refused capacity =>
    rw [Exchange.offer_of_refused hoffer]
    exact Exchange.wrote_note rfl x

/-- What is posted to the machine itself is queued or refused. -/
theorem Machine.post_eq (m : Machine σ γ δ) (e : Event) :
    m.post e = (match (m.mailbox.offer e).1 with
      | .queued => .ok ()
      | .refused capacity => .error (.error (.queueFull capacity)),
      { m with configuration.world.exchange := (m.configuration.world.exchange.offer e).2 }) := by
  have hreceipt := m.configuration.world.exchange.offer_fst e
  unfold Machine.mailbox Machine.post Machine.run offer
  rw [← hreceipt, bind_of_ok (x := get) rfl]
  generalize m.configuration.world.exchange.offer e = offered
  obtain ⟨receipt, x⟩ := offered
  cases receipt <;> rfl

/-! ## Acts on a sharing -/

/-- What can be done to a sharing by its handles. -/
inductive Shared.Act (σ γ δ : Type) : Type 1 where
  | post (bound : Nat) (e : Event)
  | processPending (bound : Nat)
  | exclusively {α : Type} (bound : Nat) (f : Machine σ γ δ → Except String α × Machine σ γ δ)
  | clone
  | drop

/-- The event that is posted. -/
def Shared.Act.posted? : Shared.Act σ γ δ → Option Event
  | .post _ e => some e
  | _ => none

/-- From `s` to `s'` the machine stays as it is, but for the receipts of the posted events. -/
structure Shared.Freezes (s : Shared σ γ δ) (posted : List Event) (s' : Shared σ γ δ) : Prop where
  lock : s'.lock = s.lock
  driving : s'.driving = s.driving
  machine : s'.machine = { s.machine with
    configuration.world.exchange := s'.machine.configuration.world.exchange }
  wrote : s.machine.configuration.world.exchange.Wrote [] (s.machine.mailbox.receipts posted)
    s'.machine.configuration.world.exchange

theorem Shared.freezes_of_machine {s s' : Shared σ γ δ} (hlock : s'.lock = s.lock) (hdriving : s'.driving = s.driving)
    (hmachine : s'.machine = s.machine) : s.Freezes [] s' :=
  ⟨hlock, hdriving, by rw [hmachine], by rw [hmachine, Mailbox.receipts_nil]; exact .refl _⟩

theorem Shared.Freezes.trans {s s' s'' : Shared σ γ δ} {posted later : List Event} (h : s.Freezes posted s')
    (h' : s'.Freezes later s'') : s.Freezes (posted ++ later) s'' where
  lock := h'.lock.trans h.lock
  driving := h'.driving.trans h.driving
  machine := by
    rw [h'.machine, h.machine]
  wrote := by
    have hpending := h.wrote.pending
    rw [Mailbox.accepted_receipts, List.nil_append] at hpending
    have hsplit : (s.machine.mailbox.receipts (posted ++ later) : List (Note σ)) =
        s.machine.mailbox.receipts posted ++ s'.machine.mailbox.receipts later :=
      Mailbox.receipts_append h.wrote.capacity hpending
    rw [hsplit]
    exact h.wrote.trans h'.wrote

section Acts

variable [DecidableEq σ] [Named σ]

/-- What an act comes to; a value that a closure returns is not looked at. -/
def Shared.act (s : Shared σ γ δ) : Shared.Act σ γ δ → Except Halt Unit × Shared σ γ δ
  | .post bound e => s.post bound e
  | .processPending bound => s.processPending bound
  | .exclusively bound f => (s.exclusively bound f).map (·.map fun _ => ()) id
  | .clone => (.ok (), s.clone)
  | .drop => (.ok (), s.drop)

variable {s : Shared σ γ δ} (hlock : s.lock = .poisoned)

include hlock

theorem Shared.processPending_of_poisoned (bound : Nat) :
    s.processPending bound = (.error (.error .poisoned), s) := by
  unfold Shared.processPending
  rw [Shared.drive, hlock]

theorem Shared.exclusively_of_poisoned (bound : Nat) (f : Machine σ γ δ → Except String α × Machine σ γ δ) :
    s.exclusively bound f = (.error (.error .poisoned), s) := by
  unfold Shared.exclusively
  rw [hlock]

/-- The event is queued before anybody looks at the lock. -/
theorem Shared.post_of_poisoned (hdriving : s.driving = true) (bound : Nat) (e : Event) :
    s.post bound e =
      (match (s.machine.mailbox.offer e).1 with
        | .queued => .error (.error .poisoned)
        | .refused capacity => .error (.error (.queueFull capacity)),
      { s with machine.configuration.world.exchange := (s.machine.configuration.world.exchange.offer e).2 }) := by
  unfold Shared.post
  rw [Machine.post_eq]
  cases (s.machine.mailbox.offer e).1 with
  | queued =>
    dsimp only
    rw [if_pos hdriving]
    exact Shared.processPending_of_poisoned (by exact hlock) bound
  | refused capacity => rfl

theorem Shared.freezes_act (hdriving : s.driving = true) (a : Shared.Act σ γ δ) :
    s.Freezes a.posted?.toList (s.act a).2 := by
  cases a with
  | post bound e =>
    rw [Shared.act, Shared.post_of_poisoned hlock hdriving]
    exact ⟨rfl, rfl, rfl, Exchange.wrote_offer _ e⟩
  | processPending bound =>
    rw [Shared.act, Shared.processPending_of_poisoned hlock]
    exact Shared.freezes_of_machine rfl rfl rfl
  | exclusively bound f =>
    rw [Shared.act, Shared.exclusively_of_poisoned hlock]
    exact Shared.freezes_of_machine rfl rfl rfl
  | clone => exact Shared.freezes_of_machine rfl rfl rfl
  | drop => exact Shared.freezes_of_machine rfl rfl rfl

/-- By induction on the acts: every act leaves the lock poisoned and the sharing driving to the next one. -/
theorem Shared.freezes_acts (hdriving : s.driving = true) (acts : List (Shared.Act σ γ δ)) :
    s.Freezes (acts.filterMap Shared.Act.posted?) (acts.foldl (fun s a => (s.act a).2) s) := by
  induction acts generalizing s with
  | nil => exact Shared.freezes_of_machine rfl rfl rfl
  | cons a acts ih =>
    have hone := Shared.freezes_act hlock hdriving a
    have hrest := ih (hone.lock.trans hlock) (hone.driving.trans hdriving)
    have hposted : (a :: acts).filterMap Shared.Act.posted? =
        a.posted?.toList ++ acts.filterMap Shared.Act.posted? := by
      rw [List.filterMap_cons]
      cases a.posted? <;> rfl
    rw [hposted, List.foldl_cons]
    exact hone.trans hrest

end Acts

/-! ## What the panic leaves -/

section Poisoned

variable [DecidableEq σ] [Named σ]

/-- **A poisoned sharing is frozen and loses nothing.** Once a request to the first sharing of a machine has ended in a
panic, whatever is done to the sharing calls nothing: requests to dispatch and closures get `poisoned` and leave everything
as it is, and a post does too, or gets `queueFull` if the mailbox is at capacity. Chart, marking, context and history stay
as the panic left them, and what is posted is queued behind what the panic left pending, as far as there is room. The
last handle gives that machine back, and it dispatches what the panic left pending, then what was posted, and then what
is raised meanwhile, in this order and each once, until nothing is left or an error breaks off. -/
theorem poisoned_sharing_loses_nothing {m : Machine σ γ δ} (hfresh : m.mailbox.attached = false) {s : Shared σ γ δ}
    (hlife : m.Life 1 (.shared s)) {bound : Nat} {q : Request σ γ δ α} {message : String}
    (hpanic : (s.serve bound q).1 = .error (.panic message)) (acts : List (Shared.Act σ γ δ)) :
    let left := (s.serve bound q).2
    let after := acts.foldl (fun s a => (s.act a).2) left
    let posted := acts.filterMap Shared.Act.posted?
    (∀ bound, after.processPending bound = (.error (.error .poisoned), after)) ∧
    (∀ (β : Type) bound (f : Machine σ γ δ → Except String β × Machine σ γ δ),
      after.exclusively bound f = (.error (.error .poisoned), after)) ∧
    (∀ bound e, (after.post bound e).1 =
      match (after.machine.mailbox.offer e).1 with
      | .queued => .error (.error .poisoned)
      | .refused capacity => .error (.error (.queueFull capacity))) ∧
    left.Freezes posted after ∧
    after.machine.mailbox.pending = left.machine.mailbox.pending ++ posted.take (left.machine.mailbox.room posted) ∧
    (after.extraHandles = 0 → after.unwrap = some after.machine) ∧
    ∀ bound, ∃ D l, let drained := after.machine.operate bound .processPending
      after.machine.Dispatched bound [] [] D l drained.1 drained.2 ∧
      D ++ drained.2.mailbox.pending = left.machine.mailbox.pending ++
        posted.take (left.machine.mailbox.room posted) ++ accepted l := by
  intro left after posted
  have hlock : left.lock = .poisoned := Shared.lock_serve bound hpanic
  have hdriving : left.driving = true := by
    obtain ⟨_, _, hdriving⟩ : (Holder.shared left).Counts 1 := (hlife.serve bound q).counts hfresh
    exact hdriving
  have hfreezes : left.Freezes posted after := Shared.freezes_acts hlock hdriving acts
  have hafter : after.lock = .poisoned := hfreezes.lock.trans hlock
  have hpending : after.machine.mailbox.pending =
      left.machine.mailbox.pending ++ posted.take (left.machine.mailbox.room posted) := by
    rw [← Mailbox.accepted_receipts (σ := σ)]
    exact hfreezes.wrote.pending
  refine ⟨Shared.processPending_of_poisoned hafter, fun β => Shared.exclusively_of_poisoned hafter, fun bound e => ?_,
    hfreezes, hpending, fun hlast => if_pos hlast, fun bound => ?_⟩
  · rw [Shared.post_of_poisoned hafter (hfreezes.driving.trans hdriving)]
  · obtain ⟨D, l, hdispatched⟩ := after.machine.processPending_dispatched bound
    exact ⟨D, l, hdispatched, hpending ▸ hdispatched.balance⟩

end Poisoned

/-! ## A lamp with a short circuit -/

namespace Lamp

/-- Pressing the lamp raises an event and then panics. -/
def shortCircuit : Action Unit :=
  Action.new fun _ => do
    let _ ← Callback.raise turn
    Callback.panic "short circuit"

/-- The started lamp with that fault, and with room for two events. -/
def shorted : Machine Lamp Unit Unit where
  chart := ⟨[⟨⟨"lamp", [{ row off (.state 0) press with action := some shortCircuit }], 1⟩, tree.nodes⟩], {}⟩
  configuration := { started.configuration with world.exchange.mailbox.capacity := some 2 }

/-- What is done to its sharing after the panic. -/
def attempts : List (Shared.Act Lamp Unit Unit) := [.clone, .post 1 press, .processPending 1, .post 1 turn, .drop]

end Lamp

/-- What the action has raised is pending when the lamp panics. Of the two events that are posted then there is room for
the first, and the next post is refused. -/
theorem poisoned_sharing_loses_nothing_shorted :
    let sharing := Shared.wrap Lamp.shorted
    let left := (sharing.serve 1 (.post Lamp.press : Request Lamp Unit Unit Unit)).2
    let after := Lamp.attempts.foldl (fun s a => (s.act a).2) left
    Lamp.shorted.mailbox.attached = false ∧ Lamp.shorted.Life 1 (.shared sharing) ∧
      (sharing.serve 1 (.post Lamp.press : Request Lamp Unit Unit Unit)).1 = .error (.panic "short circuit") ∧
      left.machine.mailbox.pending = [Lamp.turn] ∧
      (after.post 1 Lamp.turn).1 = .error (.error (.queueFull 2)) ∧
      after.machine.mailbox.pending = [Lamp.turn, Lamp.press] ∧ after.unwrap = some after.machine ∧
      left.Freezes [Lamp.press, Lamp.turn] after := by
  intro sharing left after
  have hpanic : (sharing.serve 1 (.post Lamp.press : Request Lamp Unit Unit Unit)).1 =
      .error (.panic "short circuit") := by decide +kernel
  have hlife : Lamp.shorted.Life 1 (.shared sharing) := Machine.Life.wrap .new
  have hleft : left.machine.mailbox = ⟨[Lamp.turn], some 2, true⟩ := by decide +kernel
  obtain ⟨-, -, hpost, hfreezes, hpending, hlast, -⟩ := poisoned_sharing_loses_nothing rfl hlife hpanic Lamp.attempts
  have hafter : after.machine.mailbox.pending = [Lamp.turn, Lamp.press] := by
    rw [hpending, hleft]
    rfl
  have hcapacity : after.machine.mailbox.capacity = some 2 := by
    rw [show after.machine.mailbox.capacity = left.machine.mailbox.capacity from hfreezes.wrote.capacity, hleft]
  refine ⟨rfl, hlife, hpanic, by rw [hleft], ?_, hafter, hlast ?_, hfreezes⟩
  · rw [hpost 1 Lamp.turn, Mailbox.offer, hcapacity, hafter]
    rfl
  · decide +kernel

end Statechart
