import Statechart.Proofs.Sharing

/-!
# Sharing a machine again

A machine can be shared, taken back and shared again. Its mailbox knows the first sharing only: there an event is
dispatched by whoever posts it. In every later one it is queued and left to the next call that dispatches.

* `Holder`, `Machine.Life` : what becomes of a machine that is shared and taken back any number of times;
* `Shared.Keeps`, `Shared.keeps_serve` : no request changes who drives the mailbox;
* `Holder.Counts`, `Machine.Life.counts` : the mark on the mailbox and the driving sharing in every life;
* `only_first_sharing_dispatches`.
-/

set_option autoImplicit false

namespace Statechart

open Turn

variable {σ γ δ α β : Type}

/-- A machine, on its own or behind a lock. -/
inductive Holder (σ γ δ : Type) where
  | plain (m : Machine σ γ δ)
  | shared (s : Shared σ γ δ)

/-- The mailbox is marked once the machine was shared, and the first sharing alone drives it. -/
def Holder.Counts (n : Nat) : Holder σ γ δ → Prop
  | .plain m => m.mailbox.attached = decide (0 < n)
  | .shared s => 0 < n ∧ s.machine.mailbox.attached = true ∧ s.driving = decide (n = 1)

/-- Who does not see the mark does not change it. -/
theorem Machine.attached_of_blind {f : Machine σ γ δ → β × Machine σ γ δ}
    (hf : ∀ b m, f (m.mark b) = ((f m).1, (f m).2.mark b)) (m : Machine σ γ δ) :
    (f m).2.mailbox.attached = m.mailbox.attached := by
  have hsame := hf m.mailbox.attached m
  rw [m.mark_attached] at hsame
  exact congrArg (fun after => after.2.mailbox.attached) hsame

variable [DecidableEq σ] [Named σ]

/-- What `m` becomes, after it was shared the given number of times. Whoever has it may do with it what he wants. -/
inductive Machine.Life (m : Machine σ γ δ) : Nat → Holder σ γ δ → Prop where
  | new : m.Life 0 (.plain m)
  | work {n : Nat} {m' : Machine σ γ δ} {α : Type} (f : Procedure σ γ δ α) :
    m.Life n (.plain m') → m.Life n (.plain (f.run m').2)
  | wrap {n : Nat} {m' : Machine σ γ δ} : m.Life n (.plain m') → m.Life (n + 1) (.shared (.wrap m'))
  | serve {n : Nat} {s : Shared σ γ δ} {α : Type} (bound : Nat) (q : Request σ γ δ α) :
    m.Life n (.shared s) → m.Life n (.shared (s.serve bound q).2)
  | clone {n : Nat} {s : Shared σ γ δ} : m.Life n (.shared s) → m.Life n (.shared s.clone)
  | drop {n : Nat} {s : Shared σ γ δ} : m.Life n (.shared s) → m.Life n (.shared s.drop)
  | unwrap {n : Nat} {s : Shared σ γ δ} {m' : Machine σ γ δ} :
    m.Life n (.shared s) → s.unwrap = some m' → m.Life n (.plain m')

/-! ## Requests leave the mark alone -/

/-- The mark and who drives are the same. -/
structure Shared.Keeps (s s' : Shared σ γ δ) : Prop where
  attached : s'.machine.mailbox.attached = s.machine.mailbox.attached
  driving : s'.driving = s.driving

omit [DecidableEq σ] [Named σ] in
theorem Shared.Keeps.trans {s s' s'' : Shared σ γ δ} (h : s.Keeps s') (h' : s'.Keeps s'') : s.Keeps s'' :=
  ⟨h'.attached.trans h.attached, h'.driving.trans h.driving⟩

omit [DecidableEq σ] [Named σ] in
theorem Shared.keeps_locked {f : Machine σ γ δ → Except Halt α × Machine σ γ δ}
    (hf : ∀ b m, f (m.mark b) = ((f m).1, (f m).2.mark b)) (s : Shared σ γ δ) : s.Keeps (s.locked f).2 :=
  ⟨Machine.attached_of_blind hf s.machine, rfl⟩

section Requests

variable (bound : Nat) (s : Shared σ γ δ)

theorem Shared.keeps_drive (rounds : Nat) : s.Keeps (s.drive bound rounds).2 := by
  induction rounds generalizing s with
  | zero => exact ⟨rfl, rfl⟩
  | succ rounds ih =>
    rw [Shared.drive]
    cases s.lock with
    | held => exact ⟨rfl, rfl⟩
    | poisoned => exact ⟨rfl, rfl⟩
    | free =>
      have hround := s.keeps_locked (f := fun m => m.run (m.chart.processPending bound)) fun b m =>
        m.operate_mark b bound .processPending
      dsimp only
      generalize s.locked (fun m => m.run (m.chart.processPending bound)) = after at hround
      obtain ⟨result, s'⟩ := after
      cases result with
      | error halt => exact hround
      | ok =>
        dsimp only
        split
        · exact hround
        · exact hround.trans (ih s')

theorem Shared.keeps_post (e : Event) : s.Keeps (s.post bound e).2 := by
  have hoffer : s.Keeps { s with machine := (s.machine.post e).2 } :=
    ⟨Machine.attached_of_blind (f := fun m => m.post e) (fun b m => m.operate_mark b bound (.post e)) s.machine, rfl⟩
  unfold Shared.post
  generalize s.machine.post e = posted at hoffer
  obtain ⟨result, m⟩ := posted
  cases result with
  | error halt => exact hoffer
  | ok =>
    dsimp only
    split
    · exact hoffer.trans (Shared.keeps_drive bound _ _)
    · exact hoffer

theorem Shared.keeps_exclusively (f : Procedure σ γ δ α) : s.Keeps (s.exclusively bound f.run).2 := by
  unfold Shared.exclusively
  cases s.lock with
  | held => exact ⟨rfl, rfl⟩
  | poisoned => exact ⟨rfl, rfl⟩
  | free =>
    have hinside := s.keeps_locked (f := fun m => m.exclusively bound f.run) fun b m =>
      Machine.exclusively_mark bound b m f
    dsimp only
    generalize s.locked (fun m => m.exclusively bound f.run) = after at hinside
    obtain ⟨result, s'⟩ := after
    cases result with
    | error halt => exact hinside
    | ok =>
      have hboth := hinside.trans (s'.keeps_drive bound (bound + 1))
      unfold Shared.processPending
      dsimp only at hboth ⊢
      generalize s'.drive bound (bound + 1) = again at hboth
      obtain ⟨result, s''⟩ := again
      cases result <;> exact hboth

theorem Shared.keeps_serve (q : Request σ γ δ α) : s.Keeps (s.serve bound q).2 := by
  cases q with
  | post e => exact s.keeps_post bound e
  | processPending => exact s.keeps_drive bound (bound + 1)
  | exclusively f => exact s.keeps_exclusively bound f

end Requests

/-! ## Lives -/

variable {m : Machine σ γ δ} {n : Nat}

theorem Machine.Life.counts {holder : Holder σ γ δ} (h : m.Life n holder) (hfresh : m.mailbox.attached = false) :
    holder.Counts n := by
  induction h with
  | new => exact hfresh
  | @work n m' α f _ ih => exact (Machine.attached_of_blind f.blind m').trans ih
  | @wrap n m' _ ih =>
    have hmark : m'.mailbox.attached = decide (0 < n) := ih
    refine ⟨n.succ_pos, rfl, ?_⟩
    rw [Shared.wrap, hmark]
    cases n <;> rfl
  | @serve n s α bound q _ ih =>
    have hkeeps := s.keeps_serve bound q
    exact ⟨ih.1, hkeeps.attached.trans ih.2.1, hkeeps.driving.trans ih.2.2⟩
  | clone _ ih => exact ih
  | drop _ ih => exact ih
  | @unwrap n s m' _ hunwrap ih =>
    unfold Shared.unwrap at hunwrap
    split at hunwrap
    · obtain rfl := Option.some.inj hunwrap
      exact ih.2.1.trans (decide_eq_true ih.1).symm
    · cases hunwrap

/-- Only the first sharing of a machine dispatches what is posted to it. There a post on a free lock takes the event
unless the mailbox is full, and dispatches it and all that is pending until nothing is left or an error breaks off. In
every later sharing a post is offered to the queue and nothing else. -/
theorem only_first_sharing_dispatches {s : Shared σ γ δ} (h : m.Life n (.shared s))
    (hfresh : m.mailbox.attached = false) (hidle : s.lock = .free) (bound : Nat) (e : Event) :
    (n = 1 → match (s.machine.mailbox.offer e).1 with
      | .queued => ∃ D l, s.machine.Dispatched bound [.queued e] [] D l (s.post bound e).1 (s.post bound e).2.machine
      | .refused capacity => (s.post bound e).1 = .error (.error (.queueFull capacity)) ∧
        (s.post bound e).2.machine = { s.machine with
          configuration.world.exchange := s.machine.configuration.world.exchange.note (.refused e) }) ∧
    (n ≠ 1 → s.post bound e = ((s.machine.run (offer e)).1, { s with machine := (s.machine.run (offer e)).2 })) := by
  obtain ⟨_, _, hdriving⟩ : (Holder.shared s).Counts n := h.counts hfresh
  refine ⟨fun hfirst => ?_, fun hlater => ?_⟩
  · rw [Shared.post_of_free bound (hdriving.trans (decide_eq_true hfirst)) hidle]
    unfold Shared.locked
    dsimp only
    cases hoffer : (s.machine.mailbox.offer e).1 with
    | queued => exact s.machine.process_dispatched hoffer bound
    | refused capacity =>
      rw [s.machine.process_of_refused hoffer bound]
      exact ⟨rfl, rfl⟩
  · refine Shared.post_of_busy bound (fun hdrives => ?_) e
    rw [hdriving, decide_eq_true_iff] at hdrives
    exact absurd hdrives hlater

/-! ## A lamp that is shared twice -/

/-- The started lamp, shared for the first time. -/
def Lamp.shared : Shared Lamp Unit Unit := .wrap started

/-- The same lamp, taken back and shared again. -/
def Lamp.sharedAgain : Shared Lamp Unit Unit := .wrap shared.machine

theorem Lamp.life_shared : started.Life 1 (.shared shared) := Machine.Life.wrap .new

theorem Lamp.life_sharedAgain : started.Life 2 (.shared sharedAgain) :=
  (Machine.Life.unwrap life_shared rfl).wrap

/-- The lamp that is pressed through its first sharing is lit. -/
theorem only_first_sharing_dispatches_lamp :
    Lamp.started.Life 1 (.shared Lamp.shared) ∧ Lamp.started.mailbox.attached = false ∧ Lamp.shared.lock = .free ∧
      ∃ D l, Lamp.shared.machine.Dispatched 1 [.queued Lamp.press] [] D l (Lamp.shared.post 1 Lamp.press).1
        (Lamp.shared.post 1 Lamp.press).2.machine :=
  ⟨Lamp.life_shared, rfl, rfl, (only_first_sharing_dispatches Lamp.life_shared rfl rfl 1 Lamp.press).1 rfl⟩

/-- The lamp that is pressed through its second sharing stays as it is, though nobody works on it and the post ends
well. -/
theorem second_sharing_leaves_posts_pending :
    Lamp.started.Life 2 (.shared Lamp.sharedAgain) ∧ Lamp.sharedAgain.lock = .free ∧
      (Lamp.sharedAgain.post 1 Lamp.press).1 = .ok () ∧
      (Lamp.sharedAgain.post 1 Lamp.press).2.machine.mailbox.pending = [Lamp.press] ∧
      (Lamp.sharedAgain.post 1 Lamp.press).2.machine.activeStates = [.off] :=
  ⟨Lamp.life_sharedAgain, rfl, rfl, rfl, by decide⟩

end Statechart
