import Mathlib.Order.Defs.Unbundled
import Statechart.Machine

/-!
# How a turn ends

* `Turn.Ends x c Q E` : from `c` the turn `x` ends with a value and a configuration in `Q`, or halts
  with a halt and a configuration in `E`; the `ends_…` lemmas read this off the parts of `x`;
* `Turn.Keeps R H` : every ending is related to the beginning by `R`, and every halt is in `H`;
  `Keeps.bind` and `Keeps.elim` for a preorder `R`;
* `Region.respond`, `Region.ends_process` : a region processes an event by responding to it in its active state;
* `Machine.run_of_ends` : what a turn comes to on a machine.
-/

set_option autoImplicit false

namespace Statechart

variable {σ γ δ α β : Type}

namespace Turn

/-- From `c` the turn ends normally in `Q` or halts in `E`. -/
def Ends (x : Turn σ γ δ α) (c : Configuration σ γ δ) (Q : α → Configuration σ γ δ → Prop)
    (E : Halt → Configuration σ γ δ → Prop) : Prop :=
  match x c with
  | .ok a c' => Q a c'
  | .error h c' => E h c'

section Ends

variable {x : Turn σ γ δ α} {c : Configuration σ γ δ} {Q Q' : α → Configuration σ γ δ → Prop}
  {E E' : Halt → Configuration σ γ δ → Prop}

theorem Ends.mono (h : Ends x c Q E) (hQ : ∀ a c', Q a c' → Q' a c') (hE : ∀ h c', E h c' → E' h c') :
    Ends x c Q' E' := by
  unfold Ends at h ⊢
  cases hx : x c with
  | ok a c' =>
    rw [hx] at h
    exact hQ a c' h
  | error e c' =>
    rw [hx] at h
    exact hE e c' h

theorem Ends.and (h : Ends x c Q E) (h' : Ends x c Q' E') :
    Ends x c (fun a c' => Q a c' ∧ Q' a c') (fun h c' => E h c' ∧ E' h c') := by
  unfold Ends at h h' ⊢
  cases hx : x c with
  | ok a c' =>
    rw [hx] at h h'
    exact ⟨h, h'⟩
  | error e c' =>
    rw [hx] at h h'
    exact ⟨h, h'⟩

theorem Ends.of_ok (h : Ends x c Q E) {a : α} {c' : Configuration σ γ δ} (hx : x c = .ok a c') :
    Q a c' := by
  unfold Ends at h
  rwa [hx] at h

theorem Ends.of_error (h : Ends x c Q E) {e : Halt} {c' : Configuration σ γ δ}
    (hx : x c = .error e c') : E e c' := by
  unfold Ends at h
  rwa [hx] at h

/-- A turn that ends well where it is known to. -/
theorem ends_of_ok {c' : Configuration σ γ δ} {a : α} (hx : x c = .ok a c') : Ends x c Q E ↔ Q a c' := by
  unfold Ends
  rw [hx]

theorem bind_of_ok {c' : Configuration σ γ δ} {a : α} (hx : x c = .ok a c') (f : α → Turn σ γ δ β) :
    (x >>= f) c = f a c' := by
  change EStateM.bind x f c = f a c'
  unfold EStateM.bind
  rw [hx]

/-- A call that returns without raising an event. -/
theorem performOn_of_done {κ : Type} {part : Configuration σ γ δ → κ}
    {put : κ → Configuration σ γ δ → Configuration σ γ δ} {f : Callback κ α} {s : κ} {a : α}
    (h : f (part c) = .done s a) : performOn part put f c = .ok a (put s c) := by
  unfold performOn
  rw [h]
  rfl

theorem ends_pure (a : α) : Ends (pure a) c Q E ↔ Q a c := Iff.rfl

theorem ends_bind (x : Turn σ γ δ α) (f : α → Turn σ γ δ β) {Q : β → Configuration σ γ δ → Prop} :
    Ends (x >>= f) c Q E ↔ Ends x c (fun a c' => Ends (f a) c' Q E) E := by
  unfold Ends
  change (match EStateM.bind x f c with | .ok b c' => Q b c' | .error h c' => E h c') ↔ _
  unfold EStateM.bind
  cases x c <;> rfl

/-- Where a sequence of two turns is halted. -/
theorem bind_eq_error {f : α → Turn σ γ δ β} {h : Halt} {c' : Configuration σ γ δ} :
    (x >>= f) c = .error h c' ↔ x c = .error h c' ∨ ∃ a c₁, x c = .ok a c₁ ∧ f a c₁ = .error h c' := by
  change EStateM.bind x f c = .error h c' ↔ _
  unfold EStateM.bind
  cases x c with
  | ok a c₁ =>
    constructor
    · exact fun h => .inr ⟨a, c₁, rfl, h⟩
    · rintro (⟨⟨⟩⟩ | ⟨_, _, ⟨⟩, h⟩)
      exact h
  | error => simp

/-- How a sequence of two turns ends well. -/
theorem bind_ok_iff {f : α → Turn σ γ δ β} {b : β} {c' : Configuration σ γ δ} :
    (x >>= f) c = .ok b c' ↔ ∃ a c₁, x c = .ok a c₁ ∧ f a c₁ = .ok b c' := by
  change EStateM.bind x f c = .ok b c' ↔ _
  unfold EStateM.bind
  cases x c with
  | ok a c₁ =>
    constructor
    · exact fun h => ⟨a, c₁, rfl, h⟩
    · rintro ⟨_, _, ⟨⟩, h⟩
      exact h
  | error => simp

/-- What follows on a turn of which nothing is known. -/
theorem ends_bind_of_forall {x : Turn σ γ δ α} {f : α → Turn σ γ δ β}
    {Q : β → Configuration σ γ δ → Prop} (h : ∀ a c', Ends (f a) c' Q fun _ _ => True) :
    Ends (x >>= f) c Q fun _ _ => True := by
  rw [ends_bind]
  unfold Ends
  cases x c with
  | ok a c' => exact h a c'
  | error => trivial

theorem ends_get {Q : Configuration σ γ δ → Configuration σ γ δ → Prop} :
    Ends (get : Turn σ γ δ (Configuration σ γ δ)) c Q E ↔ Q c c := Iff.rfl

theorem ends_fail (e : DispatchError) : Ends (fail e : Turn σ γ δ α) c Q E ↔ E (.error e) c := Iff.rfl

theorem ends_active {Q : Active → Configuration σ γ δ → Prop} :
    Ends active c Q E ↔ Q c.marking.active c := Iff.rfl

theorem ends_setActive (a : Active) {Q : Unit → Configuration σ γ δ → Prop} :
    Ends (setActive a) c Q E ↔ Q () { c with marking := c.marking.setActive a } := Iff.rfl

theorem ends_note (n : Note σ) {Q : Unit → Configuration σ γ δ → Prop} :
    Ends (note n) c Q E ↔ Q () { c with world.exchange := c.world.exchange.note n } := Iff.rfl

theorem ends_inChild (k : Nat × Nat) (x : Turn σ γ δ α) :
    Ends (inChild k x) c Q E ↔
      Ends x ⟨c.world, c.marking.child k⟩ (fun a c' => Q a ⟨c'.world, c.marking.setChild k c'.marking⟩)
        (fun h c' => E h ⟨c'.world, c.marking.setChild k c'.marking⟩) := by
  unfold Ends inChild
  cases x ⟨c.world, c.marking.child k⟩ <;> rfl

theorem ends_attempt (x : Turn σ γ δ α) {Q : Except DispatchError α → Configuration σ γ δ → Prop} :
    Ends x.attempt c Q E ↔
      Ends x c (fun a c' => Q (.ok a) c')
        (fun h c' => match h with
          | .error e => Q (.error e) c'
          | h => E h c') := by
  unfold Ends attempt
  cases x c with
  | ok a c' => rfl
  | error h c' => cases h <;> rfl

end Ends

/-- Every ending is related to the beginning by `R`, and every halt is in `H`. -/
def Keeps (R : Configuration σ γ δ → Configuration σ γ δ → Prop)
    (H : Halt → Configuration σ γ δ → Prop) (x : Turn σ γ δ α) : Prop :=
  ∀ c, Ends x c (fun _ c' => R c c') fun h c' => R c c' ∧ H h c'

section Keeps

variable {R : Configuration σ γ δ → Configuration σ γ δ → Prop}
  {H : Halt → Configuration σ γ δ → Prop}

theorem Keeps.mono {R' : Configuration σ γ δ → Configuration σ γ δ → Prop}
    {H' : Halt → Configuration σ γ δ → Prop} {x : Turn σ γ δ α} (h : Keeps R H x)
    (hR : ∀ c c', R c c' → R' c c') (hH : ∀ h c', H h c' → H' h c') : Keeps R' H' x :=
  fun c => (h c).mono (fun _ c' => hR c c') fun e c' h' => ⟨hR c c' h'.1, hH e c' h'.2⟩

variable [IsPreorder _ R]

theorem Keeps.pure (a : α) : Keeps R H (Pure.pure a : Turn σ γ δ α) := fun c => refl c

theorem Keeps.bind {x : Turn σ γ δ α} {f : α → Turn σ γ δ β} (hx : Keeps R H x)
    (hf : ∀ a, Keeps R H (f a)) : Keeps R H (x >>= f) := by
  intro c
  rw [ends_bind]
  refine (hx c).mono (fun a c' h => ?_) fun _ _ h => h
  exact (hf a c').mono (fun _ _ h' => trans_of R h h') fun _ _ h' => ⟨trans_of R h h'.1, h'.2⟩

/-- What holds of the turn for every state of a list holds of the turn for the one at a position. -/
theorem Keeps.elimAt {nodes : List (BuiltNode σ γ δ)} (i : Nat) (a : α) {f : BuiltNode σ γ δ → Turn σ γ δ α}
    (h : ∀ n, nodes[i]? = some n → Keeps R H (f n)) : Keeps R H ((nodes[i]?).elim (Pure.pure a) f) := by
  cases hn : nodes[i]? with
  | none => exact Keeps.pure a
  | some n => exact h n hn

theorem Keeps.elim {nodes : List (BuiltNode σ γ δ)} (i : Nat) (a : α) {f : BuiltNode σ γ δ → Turn σ γ δ α}
    (h : ∀ n ∈ nodes, Keeps R H (f n)) : Keeps R H ((nodes[i]?).elim (Pure.pure a) f) :=
  Keeps.elimAt i a fun n hn => h n (List.mem_of_getElem? hn)

end Keeps

end Turn

/-! ## Processing an event -/

section Process

variable [DecidableEq σ] [Named σ] (setup : Setup σ γ) (table : RegionTable σ γ) (nodes : List (BuiltNode σ γ δ))

/-- What a region does about an event, other than completion, while the state `n` at a position is active. -/
def Region.respond (position : Nat) (n : BuiltNode σ γ δ) (e : Event) : Turn σ γ δ Bool := do
  match ← table.resolve position n.data.id e with
  | some choice =>
    Region.fire setup table nodes choice e
    if choice.transition.target ≠ .internal then Region.settle setup table nodes
    return true
  | none =>
    let processed ← n.react setup table.path position e
    if processed && n.isComposite then Region.settle setup table nodes
    return processed

variable {setup table nodes} {e : Event} {c : Configuration σ γ δ} {Q : Bool → Configuration σ γ δ → Prop}
  {E : Halt → Configuration σ γ δ → Prop}

/-- Without an active state, nothing is processed; otherwise the region responds. -/
theorem Region.ends_process (hidle : Q false c)
    (hrespond : ∀ i n, c.marking.active = .at i → nodes[i]? = some n →
      Turn.Ends (Region.respond setup table nodes i n e) c Q E) :
    Turn.Ends (Region.process setup ⟨table, nodes⟩ e) c Q E := by
  rw [Region.process, Turn.ends_bind, Turn.ends_active]
  split
  · rename_i i hactive
    split
    · rename_i n hn
      split
      · exact hidle
      · have hthis := hrespond i n hactive hn
        unfold Region.respond at hthis
        rw [Node.reactAt_eq, hn]
        exact hthis
    · exact hidle
  · exact hidle

end Process

/-- What a turn comes to, read off the machine it was run on. -/
theorem Machine.run_of_ends (m : Machine σ γ δ) {x : Turn σ γ δ α}
    {P : Except Halt α → Machine σ γ δ → Prop}
    (h : Turn.Ends x m.configuration (fun a s => P (.ok a) { m with configuration := s })
      fun h s => P (.error h) { m with configuration := s }) :
    P (m.run x).1 (m.run x).2 := by
  unfold Turn.Ends at h
  unfold Machine.run
  split <;> simp_all

theorem Machine.eq_of_run_ok {m : Machine σ γ δ} {x : Turn σ γ δ α} {a : α} (h : (m.run x).1 = .ok a) :
    x m.configuration = .ok a (m.run x).2.configuration := by
  unfold Machine.run at h ⊢
  split at h <;> simp_all

theorem Machine.eq_of_run_error {m : Machine σ γ δ} {x : Turn σ γ δ α} {h : Halt}
    (herror : (m.run x).1 = .error h) : x m.configuration = .error h (m.run x).2.configuration := by
  unfold Machine.run at herror ⊢
  split at herror <;> simp_all

end Statechart
