import Statechart.Proofs.Untouched

/-!
# Dry runs and turns that agree

* `Callback.ReadsOnly`, `Behavior.Foretells`, `Region.Honest` : what is asked of guards and reactions;
  `Reactions.behavior_foretells`;
* `Turn.Foretold` : a turn comes to what was foretold of it;
* `Turn.Agrees` : a dry run touches nothing and foretells a turn; `Agrees.orElse`, `Agrees.followed`,
  `Agrees.inChild` read this off their parts.
-/

set_option autoImplicit false

namespace Statechart

open Turn

variable {σ γ δ κ α β : Type}

/-! ## What is asked of callbacks -/

/-- The callback leaves the state as it is and raises nothing. -/
def Callback.ReadsOnly (f : Callback κ α) : Prop :=
  ∀ s, (∃ a, f s = .done s a) ∨ ∃ message, f s = .panic s message

def Guard.ReadsOnly (g : Guard γ) : Prop := ∀ e, Callback.ReadsOnly (g.check e).run

/-- Whatever receipts it gets, the course does not end with the value `a`. -/
def Course.Avoids (a : α) : Course κ α → Prop
  | .done _ b => b ≠ a
  | .panic _ _ => True
  | .raise _ next => ∀ receipt, (next receipt).Avoids a

/-- The reaction to an event that is not accepted does nothing and says so; the reaction to one that is
accepted processes it, unless it fails. -/
structure Behavior.Foretells (b : Behavior γ δ) : Prop where
  refused : ∀ g d e, b.accepts g d e = false → (b.onEvent e).run (g, d) = .done (g, d) (.ok false)
  accepted : ∀ g d e, b.accepts g d e = true → ((b.onEvent e).run (g, d)).Avoids (.ok false)

theorem Course.Avoids.play {a : α} (x : Course κ α) (h : x.Avoids a) (exchange : Exchange σ) :
    (x.play exchange).1.result ≠ .ok a := by
  induction x generalizing exchange with
  | done s b => exact fun heq => h (Except.ok.inj heq)
  | panic s message => exact nofun
  | raise e next ih => exact ih _ (h _) _

theorem Course.Avoids.mapState {κ' : Type} {a : α} (f : κ → κ') (x : Course κ α) (h : x.Avoids a) :
    (x.mapState f).Avoids a := by
  induction x with
  | done s b => exact h
  | panic s message => trivial
  | raise e next ih => exact fun receipt => ih receipt (h receipt)

theorem Course.avoids_bind {β : Type} {a : β} (f : α → κ → Course κ β) (hf : ∀ b s, (f b s).Avoids a)
    (x : Course κ α) : (x.bind f).Avoids a := by
  induction x with
  | done s b => exact hf b s
  | panic s message => trivial
  | raise e next ih => exact fun receipt => ih receipt

/-- Reactions that are listed by kind keep what they foretell. -/
theorem Reactions.behavior_foretells [Inhabited δ] (r : Reactions γ) :
    (r.behavior : Behavior γ δ).Foretells where
  refused g d e h := by
    have hnone : r.reaction? e = none := by simpa [Reactions.behavior] using h
    simp only [Reactions.behavior, hnone]
    rfl
  accepted g d e h := by
    obtain ⟨a, ha⟩ := Option.isSome_iff_exists.1 (by simpa [Reactions.behavior] using h)
    simp only [Reactions.behavior, ha]
    refine Course.Avoids.mapState _ _ (Course.avoids_bind _ (fun outcome s => ?_) _)
    cases outcome with
    | ok => exact nofun
    | error cause => exact nofun

/-- In the region and below it, guards only read and reactions keep what they foretell. -/
def Region.Honest (r : BuiltRegion σ γ δ) : Prop :=
  ∀ q ∈ r.preorder, (∀ row ∈ q.data.rows, ∀ g, row.guard = some g → g.ReadsOnly) ∧
    ∀ n ∈ q.nodes, n.data.behavior.Foretells

theorem Region.Honest.below {r r' : BuiltRegion σ γ δ} {n : BuiltNode σ γ δ} (h : r.Honest) (hn : n ∈ r.nodes)
    (hr' : r' ∈ n.regions) : r'.Honest :=
  fun q hq => h q (Region.mem_preorder_of_mem hn hr' hq)

/-! ## Agreement -/

def Halt.IsGuardFailure : Halt → Prop
  | .error (.failure f) => f.stage = .guard
  | _ => False

theorem Halt.IsGuardFailure.exists_failure {h : Halt} (hh : h.IsGuardFailure) :
    ∃ f, h = .error (.failure f) ∧ f.stage = .guard := by
  unfold Halt.IsGuardFailure at hh
  split at hh
  · exact ⟨_, rfl, hh⟩
  · exact hh.elim

namespace Turn

variable {U V : Marking δ → Marking δ → Prop} {yes : α → Bool} {x x' : Turn σ γ δ Bool} {y : Turn σ γ δ α}
  {c : Configuration σ γ δ}

/-- What a turn comes to when it was foretold whether its result says yes: if so, it does or halts; if
not, it does not or a guard fails, and either way all is untouched. -/
def Foretold (U : Marking δ → Marking δ → Prop) (yes : α → Bool) (y : Turn σ γ δ α) (c : Configuration σ γ δ) :
    Bool → Prop
  | true => Ends y c (fun a _ => yes a = true) fun _ _ => True
  | false => Ends y c (fun a c' => yes a = false ∧ c.Untouched U c')
      fun h c' => h.IsGuardFailure ∧ c.Untouched U c'

/-- Unless it panics, the dry run `x` touches nothing, and what it says is foretold of `y`, wherever `y` starts
from the same context and the same marking. -/
def Agrees (U : Marking δ → Marking δ → Prop) (yes : α → Bool) (x : Turn σ γ δ Bool) (y : Turn σ γ δ α) :
    Prop :=
  ∀ s, Ends x s (fun b s' => s.Untouched U s' ∧ ∀ t : Configuration σ γ δ,
    t.world.context = s.world.context → U s.marking t.marking → Foretold U yes y t b) fun h _ => h.IsPanic

theorem Foretold.refused (hU : Equivalence U) {a : α} (ha : yes a = false) :
    Foretold U yes (pure a : Turn σ γ δ α) c false := ⟨ha, .refl hU c⟩

/-- What follows on a turn that was foretold to say yes. -/
theorem Foretold.bind_true {f : α → Turn σ γ δ Bool} (h : Foretold U yes y c true)
    (hf : ∀ a, yes a = true → ∀ c, Foretold U id (f a) c true) : Foretold U id (y >>= f) c true := by
  change Ends _ c _ _
  rw [ends_bind]
  exact Ends.mono h (fun a c' ha => hf a ha c') fun _ _ h => h

/-- What follows on a turn that was foretold not to say yes. -/
theorem Foretold.bind_false (hU : Equivalence U) {f : α → Turn σ γ δ Bool} {b : Bool}
    (h : Foretold U yes y c false)
    (hf : ∀ a, yes a = false → ∀ c', c.Untouched U c' → Foretold U id (f a) c' b) :
    Foretold U id (y >>= f) c b := by
  cases b with
  | true =>
    change Ends _ c _ _
    rw [ends_bind]
    exact Ends.mono h (fun a c' ha => hf a ha.1 c' ha.2) fun _ _ _ => trivial
  | false =>
    change Ends _ c _ _
    rw [ends_bind]
    refine Ends.mono h (fun a c' ha => ?_) fun _ _ h => h
    exact Ends.mono (hf a ha.1 c' ha.2) (fun _ _ h => ⟨h.1, ha.2.trans hU h.2⟩)
      fun _ _ h => ⟨h.1, ha.2.trans hU h.2⟩

theorem Agrees.refuse (hU : Equivalence U) {a : α} (ha : yes a = false) :
    Agrees U yes (pure false) (pure a : Turn σ γ δ α) :=
  fun s => ⟨.refl hU s, fun _ _ _ => .refused hU ha⟩

/-- Two dry runs, of which the second is made if the first refuses, against a turn that goes on with `f a₀`
if its first part does not say yes. -/
theorem Agrees.orElse (hU : Equivalence U) {f : α → Turn σ γ δ Bool} {a₀ : α} (h : Agrees U yes x y)
    (htrue : ∀ a, yes a = true → ∀ c, Foretold U id (f a) c true) (hfalse : ∀ a, yes a = false → a = a₀)
    (h' : Agrees U id x' (f a₀)) : Agrees U id (x >>= fun b => if b then pure true else x') (y >>= f) := by
  intro s
  rw [ends_bind]
  refine (h s).mono (fun b s₁ h₁ => ?_) fun _ _ h => h
  cases b with
  | true => exact ⟨h₁.1, fun t ht hm => (h₁.2 t ht hm).bind_true htrue⟩
  | false =>
    refine (h' s₁).mono (fun b s₂ h₂ => ⟨h₁.1.trans hU h₂.1, fun t ht hm => ?_⟩) fun _ _ h => h
    refine (h₁.2 t ht hm).bind_false hU fun a ha t' ht' => ?_
    rw [hfalse a ha]
    refine h₂.2 t' ?_ ?_
    · rw [ht'.world.context, ht, h₁.1.world.context]
    · exact hU.trans (hU.symm h₁.1.marking) (hU.trans hm ht'.marking)

/-- A turn that does more only if its first part says yes. -/
theorem Agrees.followed (hU : Equivalence U) {f : Bool → Turn σ γ δ Bool} (h : Agrees U id x x')
    (htrue : ∀ c, Foretold U id (f true) c true) (hfalse : f false = pure false) :
    Agrees U id x (x' >>= f) := by
  have hid : (fun b => if b then pure true else pure false : Bool → Turn σ γ δ Bool) = pure := by
    funext b
    cases b <;> rfl
  have hrefuse : Agrees U id (pure false) (f false) := by
    rw [hfalse]
    exact .refuse hU rfl
  have hx := h.orElse hU (fun b hb => by rw [show b = true from hb]; exact htrue) (fun _ hb => hb) hrefuse
  rwa [hid, bind_pure] at hx

/-- A dry run and a turn that depend on what is active. -/
theorem Agrees.onActive (hU : ∀ m m', U m m' → m'.active = m.active) {f : Active → Turn σ γ δ Bool}
    {g : Active → Turn σ γ δ α} (h : ∀ a, Agrees U yes (f a) (g a)) :
    Agrees U yes (active >>= f) (active >>= g) := by
  intro s
  rw [ends_bind, ends_active]
  refine (h _ s).mono (fun b s' hs' => ⟨hs'.1, fun t ht hm => ?_⟩) fun _ _ h => h
  have hfrom := hs'.2 t ht hm
  rw [← hU _ _ hm] at hfrom
  exact hfrom

theorem Agrees.inChild {k : Nat × Nat} (h : Agrees V yes x y)
    (hdown : ∀ m m', U m m' → V (m.child k) (m'.child k))
    (hup : ∀ m m', V (m.child k) m' → U m (m.setChild k m')) :
    Agrees U yes (inChild k x) (inChild k y) := by
  intro s
  rw [ends_inChild]
  refine (h _).mono (fun b s' hs' => ⟨⟨hs'.1.world, hup _ _ hs'.1.marking⟩, fun t ht hm => ?_⟩) fun _ _ h => h
  have hfrom := hs'.2 ⟨t.world, t.marking.child k⟩ ht (hdown _ _ hm)
  cases b with
  | true =>
    change Ends _ t _ _
    rw [ends_inChild]
    exact hfrom
  | false =>
    change Ends _ t _ _
    rw [ends_inChild]
    exact Ends.mono hfrom (fun _ _ h => ⟨h.1, h.2.world, hup _ _ h.2.marking⟩)
      fun _ _ h => ⟨h.1, h.2.world, hup _ _ h.2.marking⟩

end Turn

end Statechart
