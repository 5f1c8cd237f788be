import Statechart.Proofs.Outcome

/-!
# What turns write into the journal and put into the mailbox

* `Note.Concerns e n` : `n` is neither the beginning nor the end of a dispatch, and if it is about an
  event, then about `e`; `Note.isCrossing` : a state is entered or left; `Note.isProgress` : a row is fired or
  a chain overflows; all other notes are minor;
* `accepted` : the events among some notes that the mailbox took;
* `Exchange.Wrote x D l x'` : on the way from `x` to `x'` the events `D` were taken out of the mailbox
  and the notes `l` were written, and nothing was lost;
* `Exchange.Follows N x x'` : only notes in `N` were written, and nothing was taken out;
* `Halt.IsNoted` : a failure, a panic or an overflow stands in the journal;
* `Turn.Feeds N`, `Turn.Inert N` : turns under which the exchange follows; an inert one leaves what is
  active as it is.
-/

set_option autoImplicit false

namespace Statechart

variable {σ γ δ α β κ : Type}

namespace Note

/-- Whether a dispatch begins or ends. -/
def isBoundary : Note σ → Bool
  | .began _ | .ended _ => true
  | _ => false

/-- The event that a callback was called for. -/
def event? : Note σ → Option Event
  | .guard _ _ _ e | .fired _ _ _ e | .action _ _ _ e => some e
  | .entry _ _ e | .exit _ _ e | .consulted _ _ e | .reaction _ _ e => some e
  | .hook (.preTransition m) | .hook (.postTransition m) => some m.event
  | .hook (.preProcessing e) | .hook (.postProcessing e _) | .hook (.unprocessed e) => some e
  | _ => none

/-- Whether a state is entered or left. -/
def isCrossing : Note σ → Bool
  | .entry _ _ _ | .exit _ _ _ => true
  | _ => false

/-- Whether a row is fired, or a chain of completion rows overflows. -/
def isProgress : Note σ → Bool
  | .fired _ _ _ _ | .overflowed _ _ => true
  | _ => false

/-- Whether the note is neither a crossing nor progress. -/
def isMinor (n : Note σ) : Bool := !n.isCrossing && !n.isProgress

/-- Whether the note tells what became of a raised event, or that a callback panicked. -/
def isSilent : Note σ → Bool
  | .queued _ | .refused _ | .panicked _ => true
  | _ => false

/-- The note belongs into a dispatch of `e`. -/
def Concerns (e : Event) (n : Note σ) : Prop := n.isBoundary = false ∧ ∀ e', n.event? = some e' → e' = e

theorem concerns_of_isSilent {n : Note σ} (h : n.isSilent = true) (e : Event) : n.Concerns e := by
  cases n <;> simp_all [isSilent, Concerns, isBoundary, event?]

theorem isMinor_of_isSilent {n : Note σ} (h : n.isSilent = true) : n.isMinor = true := by
  cases n <;> simp_all [isSilent, isMinor, isCrossing, isProgress]

theorem not_isCrossing_of_isMinor {n : Note σ} (h : n.isMinor = true) : n.isCrossing = false := by
  cases n <;> simp_all [isMinor, isCrossing]

theorem not_isProgress_of_isMinor {n : Note σ} (h : n.isMinor = true) : n.isProgress = false := by
  cases n <;> simp_all [isMinor, isCrossing, isProgress]

/-- `N` has every minor note about `e`. -/
def Admits (N : Note σ → Prop) (e : Event) : Prop := ∀ n : Note σ, n.Concerns e → n.isMinor = true → N n

theorem Admits.silent {N : Note σ → Prop} {e : Event} (h : Admits N e) {n : Note σ}
    (hn : n.isSilent = true) : N n :=
  h n (concerns_of_isSilent hn e) (isMinor_of_isSilent hn)

end Note

/-- The events that the mailbox took. -/
def accepted (l : List (Note σ)) : List Event :=
  l.filterMap fun n => match n with
    | .queued e => some e
    | _ => none

theorem accepted_append (l l' : List (Note σ)) : accepted (l ++ l') = accepted l ++ accepted l' :=
  List.filterMap_append

/-! ## Exchanges -/

namespace Exchange

/-- On the way from `x` to `x'` the events `D` were taken out of the mailbox and the notes `l` were
written. What was taken out and what is left is what was there, followed by what was accepted. -/
structure Wrote (x : Exchange σ) (D : List Event) (l : List (Note σ)) (x' : Exchange σ) : Prop where
  journal : x'.journal.toList = x.journal.toList ++ l
  pending : D ++ x'.mailbox.pending = x.mailbox.pending ++ accepted l
  capacity : x'.mailbox.capacity = x.mailbox.capacity
  attached : x'.mailbox.attached = x.mailbox.attached

/-- Only notes in `N` were written, and nothing was taken out of the mailbox. -/
def Follows (N : Note σ → Prop) (x x' : Exchange σ) : Prop := ∃ l, x.Wrote [] l x' ∧ ∀ n ∈ l, N n

variable {N : Note σ → Prop} {x x' x'' : Exchange σ}

theorem Wrote.refl (x : Exchange σ) : x.Wrote [] [] x :=
  ⟨by rw [List.append_nil], by simp [accepted], rfl, rfl⟩

theorem Wrote.trans {D D' : List Event} {l l' : List (Note σ)} (h : x.Wrote D l x')
    (h' : x'.Wrote D' l' x'') : x.Wrote (D ++ D') (l ++ l') x'' where
  journal := by rw [h'.journal, h.journal, List.append_assoc]
  pending := by
    rw [List.append_assoc, h'.pending, ← List.append_assoc, h.pending, accepted_append,
      List.append_assoc]
  capacity := h'.capacity.trans h.capacity
  attached := h'.attached.trans h.attached

theorem wrote_note {n : Note σ} (hq : accepted [n] = []) (x : Exchange σ) : x.Wrote [] [n] (x.note n) :=
  ⟨by simp [note], by simp [note, hq], rfl, rfl⟩

theorem Follows.refl (N : Note σ → Prop) (x : Exchange σ) : Follows N x x := ⟨[], .refl x, by simp⟩

theorem Follows.trans (h : Follows N x x') (h' : Follows N x' x'') : Follows N x x'' := by
  obtain ⟨l, hw, hl⟩ := h
  obtain ⟨l', hw', hl'⟩ := h'
  exact ⟨l ++ l', hw.trans hw', fun n hn => (List.mem_append.1 hn).elim (hl n) (hl' n)⟩

theorem Follows.mono {N' : Note σ → Prop} (h : Follows N x x') (hN : ∀ n, N n → N' n) : Follows N' x x' := by
  obtain ⟨l, hw, hl⟩ := h
  exact ⟨l, hw, fun n hn => hN n (hl n hn)⟩

theorem follows_note {n : Note σ} (hn : N n) (hq : accepted [n] = []) (x : Exchange σ) :
    Follows N x (x.note n) :=
  ⟨[n], wrote_note hq x, by simpa using hn⟩

/-- A mailbox with room puts the event behind the pending ones. -/
theorem offer_of_queued {e : Event} (h : (x.mailbox.offer e).1 = .queued) :
    x.offer e = (.queued, { x with mailbox.pending := x.mailbox.pending ++ [e] }.note (.queued e)) := by
  have htake : x.mailbox.offer e = (.queued, { x.mailbox with pending := x.mailbox.pending ++ [e] }) := by
    unfold Mailbox.offer at h ⊢
    split at h
    · split at h
      · cases h
      · rename_i hlt
        simp [hlt]
    · rfl
  unfold offer
  rw [htake]

/-- A mailbox with room takes an event. -/
theorem wrote_offer_of_queued {e : Event} (h : (x.mailbox.offer e).1 = .queued) :
    (x.offer e).1 = .queued ∧ x.Wrote [] [.queued e] (x.offer e).2 := by
  rw [offer_of_queued h]
  exact ⟨rfl, by simp [note], by simp [note, accepted], rfl, rfl⟩

/-- A full mailbox stays as it is. -/
theorem offer_of_refused {e : Event} {capacity : Nat} (h : (x.mailbox.offer e).1 = .refused capacity) :
    x.offer e = (.refused capacity, x.note (.refused e)) := by
  have hsame : x.mailbox.offer e = (.refused capacity, x.mailbox) := by
    unfold Mailbox.offer at h ⊢
    split at h
    · split at h
      · cases h
        simp [*]
      · cases h
    · cases h
  unfold offer
  rw [hsame]

theorem follows_offer (h : ∀ n : Note σ, n.isSilent = true → N n) (x : Exchange σ) (e : Event) :
    Follows N x (x.offer e).2 := by
  cases ho : (x.mailbox.offer e).1 with
  | queued => exact ⟨[.queued e], (wrote_offer_of_queued ho).2, by simpa using h (.queued e) rfl⟩
  | refused capacity =>
    rw [offer_of_refused ho]
    exact follows_note (h _ rfl) rfl x

end Exchange

/-- Whatever a callback does, the exchange follows. -/
theorem Course.play_follows {N : Note σ → Prop} (h : ∀ n : Note σ, n.isSilent = true → N n)
    (y : Course κ α) (x : Exchange σ) : Exchange.Follows N x (y.play x).2 := by
  induction y generalizing x with
  | done => exact .refl N x
  | panic => exact .refl N x
  | raise e next ih => exact (Exchange.follows_offer h x e).trans (ih _ _)

/-! ## Halts -/

/-- Whether completion transitions did not come to rest. -/
def Halt.isOverflow : Halt → Bool
  | .error (.completionOverflow _ _) => true
  | _ => false

def Halt.IsPanic : Halt → Prop
  | .panic _ => True
  | _ => False

/-- The halt is a failure, a panic or an overflow, and stands in the journal. -/
def Halt.IsNoted (j : Journal σ) : Halt → Prop
  | .error (.failure f) => .failed f ∈ j.toList
  | .error (.completionOverflow region limit) => .overflowed region limit ∈ j.toList
  | .panic message => .panicked message ∈ j.toList
  | _ => False

/-! ## Turns -/

/-- With one note more. -/
def Configuration.noting (c : Configuration σ γ δ) (n : Note σ) : Configuration σ γ δ :=
  { c with world.exchange := c.world.exchange.note n }

/-- The exchange of the second configuration follows on that of the first. -/
def Configuration.Follows (N : Note σ → Prop) (c c' : Configuration σ γ δ) : Prop :=
  Exchange.Follows N c.world.exchange c'.world.exchange

/-- The exchange follows, and of the marking only local data may differ. -/
structure Configuration.Steps (N : Note σ → Prop) (c c' : Configuration σ γ δ) : Prop where
  follows : c.Follows N c'
  active : c'.marking.active = c.marking.active
  child : ∀ k, c'.marking.child k = c.marking.child k

instance (N : Note σ → Prop) :
    IsPreorder (Configuration σ γ δ) (Configuration.Follows N) where
  refl _ := .refl N _
  trans _ _ _ h h' := Exchange.Follows.trans h h'

instance (N : Note σ → Prop) : IsPreorder (Configuration σ γ δ) (Configuration.Steps N) where
  refl _ := ⟨.refl N _, rfl, fun _ => rfl⟩
  trans _ _ _ h h' := ⟨h.follows.trans h'.follows, h'.active.trans h.active,
    fun k => (h'.child k).trans (h.child k)⟩

theorem Note.Admits.of_concerns {N : Note σ → Prop} {e : Event} (h : ∀ n : Note σ, n.Concerns e → N n) :
    Note.Admits N e :=
  fun n hn _ => h n hn

/-- `N` has every note about `e` besides progress. -/
def Note.AdmitsCrossings (N : Note σ → Prop) (e : Event) : Prop :=
  ∀ n : Note σ, n.Concerns e → n.isProgress = false → N n

theorem Note.AdmitsCrossings.admits {N : Note σ → Prop} {e : Event} (h : Note.AdmitsCrossings N e) :
    Note.Admits N e :=
  fun n hn hminor => h n hn (Note.not_isProgress_of_isMinor hminor)

theorem Note.AdmitsCrossings.of_concerns {N : Note σ → Prop} {e : Event}
    (h : ∀ n : Note σ, n.Concerns e → N n) : Note.AdmitsCrossings N e :=
  fun n hn _ => h n hn

namespace Turn

/-- The turn lets the exchange follow, and what halts it is noted. -/
def Feeds (N : Note σ → Prop) (x : Turn σ γ δ α) : Prop :=
  Keeps (Configuration.Follows N) (fun h c' => h.IsNoted c'.world.exchange.journal) x

/-- The turn changes nothing that is active; what halts it is a noted failure or panic. -/
def Inert (N : Note σ → Prop) (x : Turn σ γ δ α) : Prop :=
  Keeps (Configuration.Steps N)
    (fun h c' => h.IsNoted c'.world.exchange.journal ∧ h.isOverflow = false) x

variable {N : Note σ → Prop}

theorem Inert.feeds {x : Turn σ γ δ α} (h : Inert N x) : Feeds N x :=
  Keeps.mono h (fun _ _ h => h.follows) fun _ _ h => h.1

theorem Inert.pure (a : α) : Inert N (Pure.pure a : Turn σ γ δ α) := Keeps.pure a

theorem Inert.bind {x : Turn σ γ δ α} {f : α → Turn σ γ δ β} (hx : Inert N x)
    (hf : ∀ a, Inert N (f a)) : Inert N (x >>= f) := Keeps.bind hx hf

theorem Feeds.pure (a : α) : Feeds N (Pure.pure a : Turn σ γ δ α) := Keeps.pure a

theorem Feeds.bind {x : Turn σ γ δ α} {f : α → Turn σ γ δ β} (hx : Feeds N x)
    (hf : ∀ a, Feeds N (f a)) : Feeds N (x >>= f) := Keeps.bind hx hf

theorem Feeds.inChild (k : Nat × Nat) {x : Turn σ γ δ α} (h : Feeds N x) : Feeds N (inChild k x) := by
  intro c
  rw [ends_inChild]
  exact (h ⟨c.world, c.marking.child k⟩).mono (fun _ _ h => h) fun _ _ h => h

/-- How to go on after an inert turn. -/
theorem Inert.ends_bind {x : Turn σ γ δ α} {f : α → Turn σ γ δ β} (hx : Inert N x)
    {c : Configuration σ γ δ} {Q : β → Configuration σ γ δ → Prop}
    {E : Halt → Configuration σ γ δ → Prop} (hok : ∀ a c', c.Steps N c' → Ends (f a) c' Q E)
    (hhalt : ∀ h c', c.Steps N c' → h.isOverflow = false → E h c') : Ends (x >>= f) c Q E := by
  rw [Turn.ends_bind]
  exact (hx c).mono (fun a c' h => hok a c' h) fun h c' hc => hhalt h c' hc.1 hc.2.2

theorem note_inert {n : Note σ} (hn : N n) (hq : accepted [n] = []) :
    Inert N (note n : Turn σ γ δ Unit) := by
  intro c
  rw [ends_note]
  exact ⟨Exchange.follows_note hn hq _, rfl, fun _ => rfl⟩

end Turn

end Statechart
