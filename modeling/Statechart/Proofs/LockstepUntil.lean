import Statechart.Proofs.Lockstep

/-!
# Lockstep that may end

Two runs can part for good once something has happened in the first of them.

* `Turn.EndsIn B x c` : from `c` the turn `x` gets to configurations in `B`, halted or not;
* `Turn.LockstepUntil B R x y` : from configurations related by `R` both turns end alike, with configurations related
  by `R`, unless the first of them gets to a configuration in `B`; and these it does not leave any more;
* `LockstepUntil.pure`, `LockstepUntil.bind`, `LockstepUntil.onPart`, `LockstepUntil.inChild`,
  `LockstepUntil.attempt` : this is read off the parts of a turn;
* `LockstepUntil.of_forall` : a turn that gets into `B` in any case;
* `Turn.CarriesUntil B R` : callbacks run so; `CarriesUntil.consult`, `CarriesUntil.act`, `CarriesUntil.resolve`,
  `CarriesUntil.accepts` : then states and rows are asked so, too.
-/

set_option autoImplicit false

namespace Statechart

variable {σ γ δ κ α β : Type}

namespace Turn

/-- What the second turn comes to where the first ended well. -/
theorem EndsAlike.of_ok {x y : Turn σ γ δ α} {c d c' : Configuration σ γ δ}
    {Q : α → Configuration σ γ δ → Configuration σ γ δ → Prop}
    {E : Halt → Configuration σ γ δ → Configuration σ γ δ → Prop} (h : EndsAlike x y c d Q E) {a : α}
    (hx : x c = .ok a c') : ∃ d', y d = .ok a d' ∧ Q a c' d' := by
  obtain ⟨b, d', hy, rfl, hQ⟩ := (h.together (E := fun _ => True) fun _ _ _ _ => trivial).of_ok hx
  exact ⟨d', hy, hQ⟩

/-- Turns that go on alike from where two others ended well. -/
theorem EndsAlike.bind_of_ok {x y : Turn σ γ δ α} {f g : α → Turn σ γ δ β} {c d c' d' : Configuration σ γ δ} {a : α}
    {Q : β → Configuration σ γ δ → Configuration σ γ δ → Prop}
    {E : Halt → Configuration σ γ δ → Configuration σ γ δ → Prop} (hx : x c = .ok a c') (hy : y d = .ok a d')
    (h : EndsAlike (f a) (g a) c' d' Q E) : EndsAlike (x >>= f) (y >>= g) c d Q E := by
  unfold EndsAlike Ends at h ⊢
  rwa [Turn.bind_of_ok hx, Turn.bind_of_ok hy]

/-- The turn gets to a configuration in `B`, halted or not. -/
def EndsIn (B : Configuration σ γ δ → Prop) (x : Turn σ γ δ α) (c : Configuration σ γ δ) : Prop :=
  Ends x c (fun _ => B) fun _ => B

theorem EndsIn.bind {B : Configuration σ γ δ → Prop} {x : Turn σ γ δ α} {f : α → Turn σ γ δ β}
    {c : Configuration σ γ δ} (h : EndsIn B x c) (hf : ∀ a c', B c' → EndsIn B (f a) c') : EndsIn B (x >>= f) c := by
  unfold EndsIn
  rw [ends_bind]
  exact Ends.mono h hf fun _ _ h => h

/-- From related configurations both turns end alike, with related configurations, unless the first of them gets to a
configuration in `B`. It stays in `B` if it is there already. -/
structure LockstepUntil (B : Configuration σ γ δ → Prop) (R : Configuration σ γ δ → Configuration σ γ δ → Prop)
    (x y : Turn σ γ δ α) : Prop where
  stays : ∀ c, B c → EndsIn B x c
  alike : ∀ c d, R c d → EndsIn B x c ∨ EndsAlike x y c d (fun _ => R) fun _ => R

namespace LockstepUntil

variable {B : Configuration σ γ δ → Prop} {R : Configuration σ γ δ → Configuration σ γ δ → Prop} {x y : Turn σ γ δ α}

/-- Runs that do not part at all. -/
theorem lockstep (h : LockstepUntil (fun _ => False) R x y) : Lockstep (fun _ => True) R x y := by
  intro c d hR
  rcases h.alike c d hR with hnone | halike
  · unfold EndsIn Ends at hnone
    cases hx : x c <;> rw [hx] at hnone <;> exact hnone.elim
  · exact halike.mono (fun _ _ _ h => h) fun _ _ _ h => ⟨trivial, h⟩

theorem of_lockstep (hstays : ∀ c, B c → EndsIn B x c) (h : Lockstep (fun _ => True) R x y) :
    LockstepUntil B R x y where
  stays := hstays
  alike c d hR := .inr ((h c d hR).mono (fun _ _ _ h => h) fun _ _ _ h => h.2)

/-- A turn that gets to a configuration in `B` in any case. -/
theorem of_forall (h : ∀ c, EndsIn B x c) : LockstepUntil B R x y := ⟨fun c _ => h c, fun c _ _ => .inl (h c)⟩

theorem pure (a : α) : LockstepUntil B R (Pure.pure a : Turn σ γ δ α) (Pure.pure a) :=
  of_lockstep (fun _ h => h) (.pure a)

theorem halt (h : Halt) : LockstepUntil B R (throw h : Turn σ γ δ α) (throw h) :=
  of_lockstep (fun _ h => h) fun _ _ hR => ⟨rfl, trivial, hR⟩

theorem fail (e : DispatchError) : LockstepUntil B R (Turn.fail e : Turn σ γ δ α) (Turn.fail e) := halt (.error e)

theorem bind {f g : α → Turn σ γ δ β} (h : LockstepUntil B R x y) (hfg : ∀ a, LockstepUntil B R (f a) (g a)) :
    LockstepUntil B R (x >>= f) (y >>= g) where
  stays c hB := (h.stays c hB).bind fun a => (hfg a).stays
  alike c d hR := by
    rcases h.alike c d hR with hB | halike
    · exact .inl (hB.bind fun a => (hfg a).stays)
    · cases hx : x c with
      | ok a c' =>
        obtain ⟨d', hy, hR'⟩ := halike.of_ok hx
        refine ((hfg a).alike c' d' hR').imp (fun hB => ?_) fun h => h.bind_of_ok hx hy
        unfold EndsIn
        rwa [ends_bind, ends_of_ok hx]
      | error halt c' =>
        have hnone : Ends x c (fun _ _ => False) fun _ _ => True := by
          unfold Ends
          rw [hx]
          trivial
        exact .inr ((halike.knowing hnone).bind fun _ _ _ h => h.1.elim)

/-- Turns that go on from a part of the configuration in which related configurations agree. -/
theorem onPart (part : Configuration σ γ δ → κ) (hpart : ∀ c d, R c d → part d = part c)
    {f g : κ → Turn σ γ δ α} (h : ∀ k, LockstepUntil B R (f k) (g k)) :
    LockstepUntil B R (get >>= fun c => f (part c)) (get >>= fun c => g (part c)) where
  stays c hB := (h (part c)).stays c hB
  alike c d hR := by
    refine ((h (part c)).alike c d hR).imp (fun h => h) fun halike => EndsAlike.get ?_
    rwa [hpart c d hR]

/-- A turn of an element of a list that may be missing. -/
theorem elim {ι : Type} (o : Option ι) (a : α) {f g : ι → Turn σ γ δ α}
    (h : ∀ n, o = some n → LockstepUntil B R (f n) (g n)) :
    LockstepUntil B R (o.elim (Pure.pure a) f) (o.elim (Pure.pure a) g) := by
  cases o with
  | none => exact pure a
  | some n => exact h n rfl

theorem inChild {k : Nat × Nat} (hB : ∀ w m m', B ⟨w, m⟩ → B ⟨w, m'⟩) (hspans : Spans k R R)
    (h : LockstepUntil B R x y) : LockstepUntil B R (inChild k x) (Turn.inChild k y) := by
  have hchild (c : Configuration σ γ δ) (hx : EndsIn B x ⟨c.world, c.marking.child k⟩) :
      EndsIn B (Turn.inChild k x) c := by
    unfold EndsIn
    rw [ends_inChild]
    exact Ends.mono hx (fun _ c' h => hB _ _ _ h) fun _ c' h => hB _ _ _ h
  refine ⟨fun c hc => hchild c (h.stays _ (hB _ _ _ hc)), fun c d hR => ?_⟩
  obtain ⟨hdown, hup⟩ := hspans c d hR
  refine (h.alike _ _ hdown).imp (hchild c) fun halike => ?_
  exact (halike.mono (fun _ c' d' hS => hup c' d' hS) fun _ c' d' hS => hup c' d' hS).inChild

theorem attempt (h : LockstepUntil B R x y) : LockstepUntil B R x.attempt y.attempt := by
  have hattempt (c : Configuration σ γ δ) (hx : EndsIn B x c) : EndsIn B x.attempt c := by
    unfold EndsIn
    rw [ends_attempt]
    refine Ends.mono hx (fun _ _ h => h) fun halt _ h => ?_
    cases halt <;> exact h
  refine ⟨fun c hB => hattempt c (h.stays c hB), fun c d hR => ?_⟩
  refine (h.alike c d hR).imp (hattempt c) fun halike => ?_
  refine EndsAlike.attempt (halike.mono (fun _ _ _ h => h) fun halt _ _ h => ?_)
  cases halt <;> exact h

end LockstepUntil

/-! ## Callbacks -/

/-- Callbacks run in lockstep until the first run gets to `B`, and so does what the engine writes down of them. -/
structure CarriesUntil (B : Configuration σ γ δ → Prop) (R : Configuration σ γ δ → Configuration σ γ δ → Prop) :
    Prop where
  note : ∀ n, LockstepUntil B R (Turn.note n) (Turn.note n)
  perform : ∀ {α : Type} (f : Callback γ α), LockstepUntil B R (Turn.perform f) (Turn.perform f)
  performAt : ∀ {α : Type} (i : Nat) (d : δ) (f : Callback (γ × δ) α),
    LockstepUntil B R (Turn.performAt i d f) (Turn.performAt i d f)

namespace CarriesUntil

variable {B : Configuration σ γ δ → Prop} {R : Configuration σ γ δ → Configuration σ γ δ → Prop}
  (h : CarriesUntil B R)

include h

theorem callHook (call : HookCall σ) (hook : Option (Callback γ Unit)) :
    LockstepUntil B R (Turn.callHook call hook) (Turn.callHook call hook) := by
  cases hook with
  | none => exact .pure ()
  | some f => exact (h.note _).bind fun _ => h.perform f

theorem orFail [Named σ] (stage : Stage) (path : String) (s : σ) (e : Event) {x : Turn σ γ δ (Except Cause α)}
    (hx : LockstepUntil B R x x) :
    LockstepUntil B R (Turn.orFail stage path s e x) (Turn.orFail stage path s e x) := by
  refine hx.bind fun outcome => ?_
  cases outcome with
  | ok a => exact .pure a
  | error cause => exact (h.note _).bind fun _ => .fail _

/-- States are consulted in lockstep. -/
theorem consult [Named σ] (n : BuiltNode σ γ δ) (path : String) (i : Nat) (e : Event) :
    LockstepUntil B R (n.consult path i e) (n.consult path i e) := by
  refine (h.note _).bind fun _ => (h.orFail _ _ _ _ (h.performAt _ _ _)).bind fun processed => ?_
  split
  · exact (h.note _).bind fun _ => .pure _
  · exact .pure _

theorem act [Named σ] (path : String) (s : σ) (choice : Choice σ γ) (e : Event) :
    LockstepUntil B R (Region.act path s choice e) (Region.act path s choice e) := by
  unfold Region.act
  split
  · exact .pure ()
  · exact (h.note _).bind fun _ => h.orFail _ _ _ _ (h.perform _)

variable [DecidableEq σ]

theorem ask (path : String) (s : σ) (e : Event) (index : Nat) (row : Transition σ γ Nat) :
    LockstepUntil B R (RegionTable.ask path s e index row) (RegionTable.ask path s e index row) := by
  unfold RegionTable.ask
  split
  · exact (h.note _).bind fun _ => h.perform _
  · exact h.perform _

theorem firstEnabled (path : String) (s : σ) (e : Event) (index : Nat) (rows : List (Transition σ γ Nat)) :
    LockstepUntil B R (RegionTable.firstEnabled path s e index rows)
      (RegionTable.firstEnabled path s e index rows) := by
  induction rows generalizing index with
  | nil => exact .pure _
  | cons row rows ih =>
    refine (h.ask path s e index row).bind fun verdict => ?_
    split
    · exact .pure _
    · exact .pure _
    · exact ih (index + 1)

theorem accepts (t : RegionTable σ γ) (s : σ) (e : Event) : LockstepUntil B R (t.accepts s e) (t.accepts s e) := by
  unfold RegionTable.accepts
  generalize 0 = index
  induction t.rows generalizing index with
  | nil => exact .pure _
  | cons row rows ih =>
    refine (h.ask _ s e index row).bind fun verdict => ?_
    split
    · exact .pure _
    · exact ih (index + 1)

/-- A row is chosen in lockstep. -/
theorem resolve [Named σ] (t : RegionTable σ γ) (i : Nat) (s : σ) (e : Event) :
    LockstepUntil B R (t.resolve i s e) (t.resolve i s e) :=
  (h.orFail _ _ _ _ (h.firstEnabled _ s e 0 _)).bind fun _ => .pure _

end CarriesUntil

end Turn

end Statechart
