import Statechart.Proofs.CoupledCharts

/-!
# Machines that nothing can tell apart

Two configurations with the same world and the same markings may be written down differently. No operation on a
machine shows it, so where a turn leaves a configuration intact, it has done nothing.

* `Configuration.Intact` : the world is equal and the marking is the same;
* `Turn.carries_intact`, `Chart.intact_coupling` : turns do the same from both; `Machine.operate_intact`;
* `EndsAlike.self`, `EndsAlike.ends_right`, `EndsAlike.trans` : what is known of one of two turns that end alike;
* `Turn.Stays` : the turn leaves the configuration intact; `Turn.onEach_stays` : the loop over sibling regions.
-/

set_option autoImplicit false

namespace Statechart

open Turn

variable {σ γ δ κ α β : Type}

/-- The world is equal, and the marking is the same at every depth. -/
structure Configuration.Intact (c c' : Configuration σ γ δ) : Prop where
  world : c'.world = c.world
  marking : c.marking.Same c'.marking

instance : IsPreorder (Configuration σ γ δ) Configuration.Intact where
  refl _ := ⟨rfl, .refl _⟩
  trans _ _ _ h h' := ⟨h'.world.trans h.world, h.marking.trans h'.marking⟩

/-! ## Turns from either configuration -/

namespace Marking.Same

variable {m m' n n' : Marking δ}

theorem setActive (h : m.Same m') (a : Active) : (m.setActive a).Same (m'.setActive a) :=
  .step rfl h.data h.child

theorem setData (h : m.Same m') (i : Nat) (d : δ) : (m.setData i d).Same (m'.setData i d) := by
  refine .step h.active (fun j d' => ?_) h.child
  by_cases hj : j = i
  · subst hj
    rw [data_setData_self, data_setData_self]
  · rw [data_setData_of_ne hj, data_setData_of_ne hj]
    exact h.data j d'

theorem setChild_congr (h : m.Same m') {k : Nat × Nat} (hn : n.Same n') : (m.setChild k n).Same (m'.setChild k n') := by
  refine .step h.active h.data fun k' => ?_
  by_cases hk : k' = k
  · subst hk
    rwa [child_setChild_self, child_setChild_self]
  · rw [child_setChild_of_ne hk, child_setChild_of_ne hk]
    exact h.child k'

end Marking.Same

/-- The turn does the same from a configuration that is intact. -/
abbrev Turn.Unaware (x : Turn σ γ δ α) : Prop := Lockstep (fun _ => True) Configuration.Intact x x

theorem Turn.performOn_unaware {part : Configuration σ γ δ → κ} {put : κ → Configuration σ γ δ → Configuration σ γ δ}
    (hpart : ∀ c c', Configuration.Intact c c' → part c' = part c)
    (hput : ∀ s c c', Configuration.Intact c c' → (put s c).Intact (put s c')) (f : Callback κ α) :
    Unaware (performOn part put f) := by
  rintro ⟨w, m⟩ ⟨w', m'⟩ hc
  obtain rfl : w' = w := hc.world
  unfold EndsAlike Ends performOn
  dsimp only
  rw [hpart _ _ hc]
  generalize (f (part ⟨w', m⟩)).play w'.exchange = played
  obtain ⟨⟨result, state⟩, x⟩ := played
  cases result with
  | ok a => exact ⟨rfl, hput state _ _ ⟨rfl, hc.marking⟩⟩
  | error message => exact ⟨rfl, trivial, hput state _ _ ⟨rfl, hc.marking⟩⟩

theorem Turn.carries_intact : Turn.Carries (σ := σ) (γ := γ) (δ := δ) Configuration.Intact where
  note n := by
    rintro ⟨w, m⟩ ⟨w', m'⟩ ⟨hw, hm⟩
    obtain rfl : w' = w := hw
    exact ⟨rfl, rfl, hm⟩
  perform f := by
    unfold Turn.perform
    refine performOn_unaware ?_ ?_ f
    · exact fun c c' h => by rw [h.world]
    · exact fun s c c' h => ⟨by rw [h.world], h.marking⟩
  performAt i d f := by
    unfold Turn.performAt
    refine performOn_unaware ?_ ?_ f
    · exact fun c c' h => by rw [h.world, h.marking.data i d]
    · exact fun s c c' h => ⟨by rw [h.world], h.marking.setData i s.2⟩
  remember setup path source target e := by
    unfold Region.remember
    split
    · rintro ⟨w, m⟩ ⟨w', m'⟩ ⟨hw, hm⟩
      obtain rfl : w' = w := hw
      exact ⟨rfl, rfl, hm⟩
    · exact .pure ()

theorem Turn.offer_unaware (e : Event) : Unaware (offer e : Turn σ γ δ Unit) := by
  rintro ⟨w, m⟩ ⟨w', m'⟩ ⟨hw, hm⟩
  obtain rfl : w' = w := hw
  unfold offer
  refine EndsAlike.get ?_
  generalize (w'.exchange.offer e) = offered
  obtain ⟨receipt, x⟩ := offered
  cases receipt with
  | queued => exact ⟨rfl, rfl, hm⟩
  | refused capacity => exact ⟨rfl, trivial, rfl, hm⟩

theorem Chart.take_unaware : Unaware (Chart.take : Turn σ γ δ (Option Event)) := by
  rintro ⟨w, m⟩ ⟨w', m'⟩ ⟨hw, hm⟩
  obtain rfl : w' = w := hw
  obtain ⟨context, ⟨⟨pending, capacity, attached⟩, journal⟩, history, clock⟩ := w'
  cases pending with
  | nil => exact ⟨rfl, rfl, hm⟩
  | cons e rest => exact ⟨rfl, rfl, hm⟩

theorem Configuration.spans_intact (k : Nat × Nat) :
    Spans k (Configuration.Intact (σ := σ) (γ := γ) (δ := δ)) Configuration.Intact :=
  fun _ _ h => ⟨⟨h.world, h.marking.child k⟩, fun _ _ h' => ⟨h'.world, h.marking.setChild_congr h'.marking⟩⟩

section Charts

variable [DecidableEq σ] [Named σ]

theorem Region.intact_coupling (setup : Setup σ γ) :
    Region.Coupling (δ := δ) setup (fun _ => True) Eq fun _ => Configuration.Intact where
  overflow _ _ := trivial
  table h := by rw [h]
  child {r r' s s' k} h hs hs' := by
    obtain rfl := h
    exact ⟨Option.some.inj (hs.symm.trans hs'), Configuration.spans_intact k⟩
  active h := h.marking.active
  state {r r' c d i} h _ _ := by
    obtain rfl := h
    cases r.nodes[i]? with
    | none => exact .none
    | some n => exact .some ⟨rfl, rfl⟩
  move _ h _ := ⟨h.world, h.marking.setActive _⟩
  own _ hx := carries_intact.own hx

theorem Chart.intact_coupling (c : Chart σ γ δ) :
    Chart.Coupling c c Eq (fun _ => Configuration.Intact) Configuration.Intact where
  regions := Region.intact_coupling c.setup
  consult {_ _ i n} _ _ path e := carries_intact.consult n path i e
  accepts _ s e := carries_intact.accepts _ s e
  foretell {_ _ i n} _ _ e := by
    intro s t h
    unfold Node.foretell
    refine EndsAlike.get ?_
    rw [h.world, h.marking.data]
    exact .pure h
  setup := rfl
  length := rfl
  child {j _ _} hr hr' := ⟨Option.some.inj (hr.symm.trans hr'), Configuration.spans_intact (0, j)⟩
  carries := carries_intact
  offer e := offer_unaware e
  take := take_unaware
  setContext _ h := ⟨by dsimp only; rw [h.world], h.marking⟩
  setClock _ h := ⟨by dsimp only; rw [h.world], h.marking⟩
  pending h := by rw [h.world]

/-- The machines are the same but for how their markings are written. -/
structure Machine.Intact (m m' : Machine σ γ δ) : Prop where
  chart : m'.chart = m.chart
  configuration : m.configuration.Intact m'.configuration

/-- No operation tells such machines apart, and it leaves them so. -/
theorem Machine.operate_intact {m m' : Machine σ γ δ} (h : m.Intact m') (bound : Nat) (op : Operation γ) :
    (m'.operate bound op).1 = (m.operate bound op).1 ∧ (m.operate bound op).2.Intact (m'.operate bound op).2 := by
  have hrun := Machine.run_of_lockstep (m.chart.intact_coupling.operation bound op) m m' h.configuration
  unfold Machine.operate
  rw [h.chart]
  exact ⟨hrun.1, by rw [Machine.chart_run, Machine.chart_run, h.chart], hrun.2⟩

end Charts

/-! ## Turns that end alike -/

namespace Turn

variable {x y : Turn σ γ δ α} {c d : Configuration σ γ δ} {P : α → Configuration σ γ δ → Prop}
  {F : Halt → Configuration σ γ δ → Prop} {Q : α → Configuration σ γ δ → Configuration σ γ δ → Prop}
  {E : Halt → Configuration σ γ δ → Configuration σ γ δ → Prop}

/-- A turn and itself. -/
theorem EndsAlike.self (h : Ends x c P F) :
    EndsAlike x x c c (fun a c' d' => d' = c' ∧ P a c') fun halt c' d' => d' = c' ∧ F halt c' := by
  unfold EndsAlike Ends
  cases hx : x c with
  | ok a c' => exact ⟨rfl, rfl, h.of_ok hx⟩
  | error halt c' => exact ⟨rfl, rfl, h.of_error hx⟩

/-- What is known of the first turn, carried over to the second. -/
theorem EndsAlike.ends_right (h : EndsAlike x y c d Q E) (hx : Ends x c P F) :
    Ends y d (fun a d' => ∃ c', P a c' ∧ Q a c' d') fun halt d' => ∃ c', F halt c' ∧ E halt c' d' := by
  cases hxc : x c with
  | ok a c' =>
    refine (Ends.of_ok h hxc).mono (fun b d' hd => ?_) fun _ _ h => h.elim
    obtain ⟨rfl, hQ⟩ := hd
    exact ⟨c', hx.of_ok hxc, hQ⟩
  | error halt c' =>
    refine (Ends.of_error h hxc).mono (fun _ _ h => h.elim) fun halt' d' hd => ?_
    obtain ⟨rfl, hE⟩ := hd
    exact ⟨c', hx.of_error hxc, hE⟩

/-- Two turns that each end like a third one. -/
theorem EndsAlike.trans {R : Configuration σ γ δ → Configuration σ γ δ → Prop} [IsTrans (Configuration σ γ δ) R]
    {z : Turn σ γ δ α} {e : Configuration σ γ δ} (h : EndsAlike x y c d (fun _ => R) fun _ => R)
    (h' : EndsAlike y z d e (fun _ => R) fun _ => R) : EndsAlike x z c e (fun _ => R) fun _ => R := by
  refine Ends.mono h (fun a c' hc => ?_) fun halt c' hc => ?_
  · cases hy : y d with
    | ok b d' =>
      obtain ⟨rfl, hR⟩ := hc.of_ok hy
      exact (Ends.of_ok h' hy).mono (fun _ _ h => ⟨h.1, trans_of R hR h.2⟩) fun _ _ h => h
    | error halt d' => exact (hc.of_error hy).elim
  · cases hy : y d with
    | ok b d' => exact (hc.of_ok hy).elim
    | error halt' d' =>
      obtain ⟨rfl, hR⟩ := hc.of_error hy
      exact (Ends.of_error h' hy).mono (fun _ _ h => h) fun _ _ h => ⟨h.1, trans_of R hR h.2⟩

end Turn

/-! ## Turns that do nothing -/

/-- From `c` the turn answers `a`, and leaves the configuration intact. -/
def Turn.Stays (x : Turn σ γ δ α) (a : α) (c : Configuration σ γ δ) : Prop := ∃ c', x c = .ok a c' ∧ c.Intact c'

namespace Turn

variable {x : Turn σ γ δ α} {a : α} {c : Configuration σ γ δ}

theorem stays_iff_ends : Stays x a c ↔ Ends x c (fun a' c' => a' = a ∧ c.Intact c') fun _ _ => False := by
  constructor
  · rintro ⟨c', hx, hc⟩
    exact (ends_of_ok hx).2 ⟨rfl, hc⟩
  · intro h
    cases hx : x c with
    | ok a' c' =>
      obtain ⟨rfl, hc⟩ := h.of_ok hx
      exact ⟨c', hx, hc⟩
    | error halt c' => exact (h.of_error hx).elim

theorem stays_inChild {k : Nat × Nat} (h : Stays x a ⟨c.world, c.marking.child k⟩) : Stays (inChild k x) a c := by
  rw [stays_iff_ends] at h ⊢
  rw [ends_inChild]
  exact h.mono (fun _ _ h => ⟨h.1, h.2.world, h.2.marking.setChild⟩) fun _ _ h => h

/-- The loop does nothing where no turn does anything. What the turns before left of a region is the same as it
was. -/
theorem onEach_stays {x : BuiltRegion σ γ δ → Turn σ γ δ α} {position index : Nat} {rs : List (BuiltRegion σ γ δ)}
    (h : ∀ j r, rs[j]? = some r → ∀ m, (c.marking.child (position, index + j)).Same m → Stays (x r) a ⟨c.world, m⟩) :
    Stays (onEach x position index rs) (List.replicate rs.length a) c := by
  induction rs generalizing index c with
  | nil => exact ⟨c, rfl, refl c⟩
  | cons r rs ih =>
    obtain ⟨c₁, hfirst, h₁⟩ := stays_inChild (k := (position, index)) (h 0 r rfl _ (.refl _))
    obtain ⟨c₂, hrest, h₂⟩ : Stays (onEach x position (index + 1) rs) (List.replicate rs.length a) c₁ :=
      ih fun j r' hr' m hm => by
        rw [show index + 1 + j = index + (j + 1) by omega] at hm
        rw [h₁.world]
        exact h (j + 1) r' hr' m ((h₁.marking.child _).trans hm)
    refine ⟨c₂, ?_, trans_of Configuration.Intact h₁ h₂⟩
    rw [onEach, bind_of_ok hfirst, bind_of_ok hrest]
    rfl

end Turn

end Statechart
