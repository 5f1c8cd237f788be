import Statechart.Proofs.Siblings

/-!
# Runs in lockstep

What two runs have in common is shown by carrying a relation between their configurations along.

* `Turn.EndsAlike x y c d Q E` : the turns `x` from `c` and `y` from `d` end with the same value in `Q`, or
  with the same halt in `E`;
* `Turn.EndsTogether x y c d Q E` : if `x` ends normally so does `y`, with `Q`; the values may differ;
* `Turn.Lockstep H R x y` : from configurations related by `R` both turns end alike, with configurations
  related by `R`, and only a halt in `H` breaks them off;
* `Turn.Spans k R S` : `R` relates configurations of a region, `S` those of its child `k`;
* `Lockstep.pure`, `Lockstep.bind`, `Lockstep.inChild`, `Lockstep.onEach` : lockstep is read off the parts of
  a turn.
-/

set_option autoImplicit false

namespace Statechart

variable {σ γ δ α β : Type}

theorem Option.Rel.both {ι κ : Type} {P : ι → κ → Prop} {o : Option ι} {o' : Option κ} (h : Option.Rel P o o') :
    (o = none ∧ o' = none) ∨ ∃ n n', o = some n ∧ o' = some n' ∧ P n n' := by
  cases h with
  | none => exact .inl ⟨rfl, rfl⟩
  | some h => exact .inr ⟨_, _, rfl, rfl, h⟩

namespace Turn

/-- The turns `x` from `c` and `y` from `d` come to the same: to the same value with configurations in `Q`,
or to the same halt with configurations in `E`. -/
def EndsAlike (x y : Turn σ γ δ α) (c d : Configuration σ γ δ)
    (Q : α → Configuration σ γ δ → Configuration σ γ δ → Prop)
    (E : Halt → Configuration σ γ δ → Configuration σ γ δ → Prop) : Prop :=
  Ends x c (fun a c' => Ends y d (fun b d' => b = a ∧ Q a c' d') fun _ _ => False)
    fun h c' => Ends y d (fun _ _ => False) fun h' d' => h' = h ∧ E h c' d'

section EndsAlike

variable {x y : Turn σ γ δ α} {c d : Configuration σ γ δ}
  {Q Q' : α → Configuration σ γ δ → Configuration σ γ δ → Prop}
  {E E' : Halt → Configuration σ γ δ → Configuration σ γ δ → Prop}

theorem EndsAlike.mono (h : EndsAlike x y c d Q E) (hQ : ∀ a c' d', Q a c' d' → Q' a c' d')
    (hE : ∀ h c' d', E h c' d' → E' h c' d') : EndsAlike x y c d Q' E' := by
  refine Ends.mono h (fun a c' h' => ?_) fun halt c' h' => ?_
  · exact h'.mono (fun _ d' hd => ⟨hd.1, hQ a c' d' hd.2⟩) fun _ _ h => h
  · exact h'.mono (fun _ _ h => h) fun _ d' hd => ⟨hd.1, hE halt c' d' hd.2⟩

/-- What is known of the first turn alone. -/
theorem EndsAlike.knowing {P : α → Configuration σ γ δ → Prop} (h : EndsAlike x y c d Q E)
    (hx : Ends x c P fun _ _ => True) : EndsAlike x y c d (fun a c' d' => P a c' ∧ Q a c' d') E := by
  refine (Ends.and hx h).mono (fun a c' h' => ?_) fun halt c' h' => h'.2
  exact h'.2.mono (fun _ _ hd => ⟨hd.1, h'.1, hd.2⟩) fun _ _ h => h

theorem EndsAlike.pure {a : α} (h : Q a c d) : EndsAlike (Pure.pure a) (Pure.pure a) c d Q E := ⟨rfl, h⟩

theorem EndsAlike.fail {e : DispatchError} (h : E (.error e) c d) :
    EndsAlike (fail e : Turn σ γ δ α) (Turn.fail e) c d Q E := ⟨rfl, h⟩

theorem EndsAlike.bind {f g : α → Turn σ γ δ β}
    {Q' : β → Configuration σ γ δ → Configuration σ γ δ → Prop} (h : EndsAlike x y c d Q E)
    (hfg : ∀ a c' d', Q a c' d' → EndsAlike (f a) (g a) c' d' Q' E) :
    EndsAlike (x >>= f) (y >>= g) c d Q' E := by
  unfold EndsAlike
  rw [ends_bind]
  refine Ends.mono h (fun a c' h' => ?_) fun halt c' h' => ?_
  · have hd (d' : Configuration σ γ δ) (hQ : Q a c' d') :
        Ends (f a) c' (fun b c'' => Ends (g a) d' (fun b' d'' => b' = b ∧ Q' b c'' d'') fun _ _ => False)
          fun h c'' => Ends (g a) d' (fun _ _ => False) fun h' d'' => h' = h ∧ E h c'' d'' := hfg a c' d' hQ
    simp only [ends_bind]
    -- the second run is at the same point
    unfold Ends at h' ⊢
    cases hy : y d with
    | ok b d' =>
      rw [hy] at h'
      obtain ⟨rfl, hQ⟩ := h'
      exact hd d' hQ
    | error => rw [hy] at h'; exact h'.elim
  · rw [ends_bind]
    exact h'.mono (fun _ _ h => h.elim) fun _ _ h => h

/-- A turn that goes on from the whole configuration. -/
theorem EndsAlike.get {f g : Configuration σ γ δ → Turn σ γ δ α} (h : EndsAlike (f c) (g d) c d Q E) :
    EndsAlike (get >>= f) (get >>= g) c d Q E := h

theorem EndsAlike.inChild {k : Nat × Nat}
    (h : EndsAlike x y ⟨c.world, c.marking.child k⟩ ⟨d.world, d.marking.child k⟩
      (fun a c' d' => Q a ⟨c'.world, c.marking.setChild k c'.marking⟩
        ⟨d'.world, d.marking.setChild k d'.marking⟩)
      (fun h c' d' => E h ⟨c'.world, c.marking.setChild k c'.marking⟩
        ⟨d'.world, d.marking.setChild k d'.marking⟩)) :
    EndsAlike (inChild k x) (Turn.inChild k y) c d Q E := by
  unfold EndsAlike
  simp only [ends_inChild]
  exact h

theorem EndsAlike.attempt {Q : Except DispatchError α → Configuration σ γ δ → Configuration σ γ δ → Prop}
    (h : EndsAlike x y c d (fun a => Q (.ok a)) fun halt =>
      match halt with
      | .error e => Q (.error e)
      | halt => E halt) :
    EndsAlike x.attempt y.attempt c d Q E := by
  unfold EndsAlike
  simp only [ends_attempt]
  refine Ends.mono h (fun a c' h' => ?_) fun halt c' h' => ?_
  · exact h'.mono (fun b d' hd => ⟨by rw [hd.1], hd.2⟩) fun _ _ h => h.elim
  · cases halt with
    | error e =>
      refine h'.mono (fun _ _ h => h.elim) fun halt' d' hd => ?_
      obtain ⟨rfl, hd⟩ := hd
      exact ⟨rfl, hd⟩
    | panic message =>
      refine h'.mono (fun _ _ h => h.elim) fun halt' d' hd => ?_
      obtain ⟨rfl, hd⟩ := hd
      exact ⟨rfl, hd⟩
    | unfinished =>
      refine h'.mono (fun _ _ h => h.elim) fun halt' d' hd => ?_
      obtain ⟨rfl, hd⟩ := hd
      exact ⟨rfl, hd⟩

end EndsAlike

/-! ## Endings that only share their being good -/

/-- If the turn `x` from `c` ends normally, so does `y` from `d`, and `Q` relates what they come to; if it does not, its
halt is in `E`. -/
def EndsTogether (x : Turn σ γ δ α) (y : Turn σ γ δ β) (c d : Configuration σ γ δ)
    (Q : α → β → Configuration σ γ δ → Configuration σ γ δ → Prop) (E : Halt → Prop) : Prop :=
  Ends x c (fun a c' => Ends y d (fun b d' => Q a b c' d') fun _ _ => False) fun h _ => E h

section EndsTogether

variable {α' β' : Type} {x : Turn σ γ δ α} {y : Turn σ γ δ β} {c d : Configuration σ γ δ}
  {Q Q' : α → β → Configuration σ γ δ → Configuration σ γ δ → Prop} {E E' : Halt → Prop}

theorem EndsTogether.mono (h : EndsTogether x y c d Q E) (hQ : ∀ a b c' d', Q a b c' d' → Q' a b c' d')
    (hE : ∀ h, E h → E' h) : EndsTogether x y c d Q' E' :=
  Ends.mono h (fun a c' h' => h'.mono (fun b d' => hQ a b c' d') fun _ _ h => h) fun halt _ => hE halt

/-- What is known of the first turn alone. -/
theorem EndsTogether.knowing {P : α → Configuration σ γ δ → Prop} (h : EndsTogether x y c d Q E)
    (hx : Ends x c P fun _ _ => True) :
    EndsTogether x y c d (fun a b c' d' => P a c' ∧ Q a b c' d') E :=
  (Ends.and hx h).mono (fun _ _ h' => h'.2.mono (fun _ _ hd => ⟨h'.1, hd⟩) fun _ _ h => h) fun _ _ h' => h'.2

/-- Turns that end well whatever the other one does. -/
theorem EndsTogether.of_ends {P : α → Configuration σ γ δ → Prop} {P' : β → Configuration σ γ δ → Prop}
    (hx : Ends x c P fun h _ => E h) (hy : Ends y d P' fun _ _ => False) :
    EndsTogether x y c d (fun a b c' d' => P a c' ∧ P' b d') E :=
  hx.mono (fun _ _ h => hy.mono (fun _ _ h' => ⟨h, h'⟩) fun _ _ h => h) fun _ _ h => h

theorem EndsAlike.together {y : Turn σ γ δ α} {Q : α → Configuration σ γ δ → Configuration σ γ δ → Prop}
    {E' : Halt → Configuration σ γ δ → Configuration σ γ δ → Prop} (h : EndsAlike x y c d Q E')
    (hE : ∀ h c' d', E' h c' d' → E h) :
    EndsTogether x y c d (fun a b c' d' => b = a ∧ Q a c' d') E := by
  refine Ends.mono h (fun _ _ h' => h') fun halt c' h' => ?_
  unfold Ends at h'
  cases hy : y d with
  | ok => rw [hy] at h'; exact h'.elim
  | error halt' d' =>
    rw [hy] at h'
    exact hE halt c' d' h'.2

theorem EndsTogether.bind {f : α → Turn σ γ δ α'} {g : β → Turn σ γ δ β'}
    {Q' : α' → β' → Configuration σ γ δ → Configuration σ γ δ → Prop} (h : EndsTogether x y c d Q E)
    (hfg : ∀ a b c' d', Q a b c' d' → EndsTogether (f a) (g b) c' d' Q' E) :
    EndsTogether (x >>= f) (y >>= g) c d Q' E := by
  unfold EndsTogether
  rw [ends_bind]
  refine Ends.mono h (fun a c' h' => ?_) fun _ _ h => h
  -- the second run goes on from where the first is
  unfold Ends at h'
  cases hy : y d with
  | error => rw [hy] at h'; exact h'.elim
  | ok b d' =>
    rw [hy] at h'
    refine Ends.mono (hfg a b c' d' h') (fun a' c'' h'' => ?_) fun _ _ h => h
    unfold Ends at h'' ⊢
    rwa [bind_of_ok hy]

/-- Turns that go on from what is active. -/
theorem EndsTogether.active {f : Active → Turn σ γ δ α} {g : Active → Turn σ γ δ β}
    (h : EndsTogether (f c.marking.active) (g d.marking.active) c d Q E) :
    EndsTogether (active >>= f) (active >>= g) c d Q E := h

/-- Turns that go on from the whole configuration. -/
theorem EndsTogether.get {f : Configuration σ γ δ → Turn σ γ δ α} {g : Configuration σ γ δ → Turn σ γ δ β}
    (h : EndsTogether (f c) (g d) c d Q E) : EndsTogether (get >>= f) (get >>= g) c d Q E := h

/-- What the second turn comes to where the first ended well. -/
theorem EndsTogether.of_ok (h : EndsTogether x y c d Q E) {a : α} {c' : Configuration σ γ δ} (hx : x c = .ok a c') :
    ∃ b d', y d = .ok b d' ∧ Q a b c' d' := by
  have hy := Ends.of_ok h hx
  unfold Ends at hy
  cases hyd : y d with
  | ok b d' => rw [hyd] at hy; exact ⟨b, d', rfl, hy⟩
  | error => rw [hyd] at hy; exact hy.elim

theorem EndsTogether.inChild {k k' : Nat × Nat}
    (h : EndsTogether x y ⟨c.world, c.marking.child k⟩ ⟨d.world, d.marking.child k'⟩
      (fun a b c' d' => Q a b ⟨c'.world, c.marking.setChild k c'.marking⟩
        ⟨d'.world, d.marking.setChild k' d'.marking⟩) E) :
    EndsTogether (inChild k x) (Turn.inChild k' y) c d Q E := by
  unfold EndsTogether
  simp only [ends_inChild]
  exact h

end EndsTogether

/-! ## Lockstep -/

/-- From related configurations both turns end alike, with related configurations and, if they are broken
off, with a halt in `H`. -/
def Lockstep (H : Halt → Prop) (R : Configuration σ γ δ → Configuration σ γ δ → Prop) (x y : Turn σ γ δ α) :
    Prop :=
  ∀ c d, R c d → EndsAlike x y c d (fun _ => R) fun h c' d' => H h ∧ R c' d'

/-- `S` relates the children `k` of configurations related by `R`, and what becomes of related children is put
back into related configurations. -/
def Spans (k : Nat × Nat) (R S : Configuration σ γ δ → Configuration σ γ δ → Prop) : Prop :=
  ∀ c d, R c d → S ⟨c.world, c.marking.child k⟩ ⟨d.world, d.marking.child k⟩ ∧ ∀ c' d', S c' d' →
    R ⟨c'.world, c.marking.setChild k c'.marking⟩ ⟨d'.world, d.marking.setChild k d'.marking⟩

namespace Lockstep

variable {H : Halt → Prop} {R S : Configuration σ γ δ → Configuration σ γ δ → Prop} {x y : Turn σ γ δ α}

theorem pure (a : α) : Lockstep H R (Pure.pure a : Turn σ γ δ α) (Pure.pure a) := fun _ _ h => EndsAlike.pure h

theorem bind {f g : α → Turn σ γ δ β} (h : Lockstep H R x y) (hfg : ∀ a, Lockstep H R (f a) (g a)) :
    Lockstep H R (x >>= f) (y >>= g) :=
  fun c d hR => (h c d hR).bind fun a c' d' => hfg a c' d'

/-- A turn that depends on what is active. -/
theorem onActive {f g : Active → Turn σ γ δ α} (hactive : ∀ c d, R c d → d.marking.active = c.marking.active)
    (h : ∀ c d, R c d → EndsAlike (f c.marking.active) (g c.marking.active) c d (fun _ => R)
      fun h c' d' => H h ∧ R c' d') :
    Lockstep H R (active >>= f) (active >>= g) := by
  intro c d hR
  have hstep : EndsAlike (active : Turn σ γ δ Active) active c d
      (fun a c' d' => a = c.marking.active ∧ c' = c ∧ d' = d) fun h c' d' => H h ∧ R c' d' :=
    ⟨hactive c d hR, rfl, rfl, rfl⟩
  refine hstep.bind fun a c' d' h' => ?_
  obtain ⟨rfl, rfl, rfl⟩ := h'
  exact h _ _ hR

theorem inChild {k : Nat × Nat} (hspans : Spans k R S) (h : Lockstep H S x y) :
    Lockstep H R (inChild k x) (Turn.inChild k y) := by
  intro c d hR
  obtain ⟨hdown, hup⟩ := hspans c d hR
  exact ((h _ _ hdown).mono (fun _ c' d' hS => hup c' d' hS) fun _ c' d' hS => ⟨hS.1, hup c' d' hS.2⟩).inChild

/-- A turn of an element of a list that is there in both runs or in neither. -/
theorem elim {ι : Type} {P : ι → ι → Prop} {o o' : Option ι} (ho : Option.Rel P o o') (a : α)
    {f g : ι → Turn σ γ δ α}
    (h : ∀ n n', o = some n → o' = some n' → P n n' → Lockstep H R (f n) (g n')) :
    Lockstep H R (o.elim (Pure.pure a) f) (o'.elim (Pure.pure a) g) := by
  cases ho with
  | none => exact pure a
  | some hn => exact h _ _ rfl rfl hn

theorem onEach {x : BuiltRegion σ γ δ → Turn σ γ δ α} {position index : Nat} {rs rs' : List (BuiltRegion σ γ δ)}
    (hlength : rs'.length = rs.length)
    (h : ∀ j r r', rs[j]? = some r → rs'[j]? = some r' →
      Lockstep H R (Turn.inChild (position, index + j) (x r)) (Turn.inChild (position, index + j) (x r'))) :
    Lockstep H R (onEach x position index rs) (Turn.onEach x position index rs') := by
  induction rs generalizing index rs' with
  | nil =>
    obtain rfl := List.eq_nil_of_length_eq_zero hlength
    exact pure []
  | cons r rs ih =>
    obtain ⟨r', rs', rfl⟩ := List.exists_cons_of_length_eq_add_one hlength
    refine (h 0 r r' rfl rfl).bind fun first => ?_
    refine Lockstep.bind (ih (by simpa using hlength) fun j s s' hs hs' => ?_) fun _ => pure _
    have hj := h (j + 1) s s' hs hs'
    rwa [show index + (j + 1) = index + 1 + j by omega] at hj

end Lockstep

end Turn

end Statechart
