import Statechart.Proofs.Depth

/-!
# What is left untouched

* `Region.Alike` : the same is active in two markings of a region, with the same local data, at every depth;
* `Note.isProbe` : a guard was called, or a reaction was asked whether it processes the event;
* `World.Untouched`, `Configuration.Untouched U` : nothing has changed, markings being compared by `U`, and
  only such notes were written.
-/

set_option autoImplicit false

namespace Statechart

variable {σ γ δ : Type}

/-- The same is active in both markings, with the same local data, at every depth. -/
inductive Region.Alike : BuiltRegion σ γ δ → Marking δ → Marking δ → Prop where
  | intro {r : BuiltRegion σ γ δ} {m m' : Marking δ} (active : m'.active = m.active)
      (data : ∀ i n, r.nodes[i]? = some n →
        m'.data i n.data.behavior.initial = m.data i n.data.behavior.initial)
      (child : ∀ k r', r.child? k = some r' → Alike r' (m.child k) (m'.child k)) : Alike r m m'

/-- The same for the regions of the state at a position. -/
def Region.AllAlike (position : Nat) (rs : List (BuiltRegion σ γ δ)) (m m' : Marking δ) : Prop :=
  ∀ (j : Nat) (r : BuiltRegion σ γ δ), rs[j]? = some r →
    r.Alike (m.child (position, j)) (m'.child (position, j))

theorem Region.alike_equivalence (r : BuiltRegion σ γ δ) : Equivalence r.Alike where
  refl m := by
    induction r using Region.induct_child generalizing m with
    | step r ih => exact .intro rfl (fun _ _ _ => rfl) fun k r' hr' => ih k r' hr' _
  symm h := by
    induction h with
    | intro hactive hdata _ ih => exact .intro hactive.symm (fun i n hn => (hdata i n hn).symm) ih
  trans {_ _ m''} h h' := by
    induction h generalizing m'' with
    | intro hactive hdata _ ih =>
      cases h' with
      | intro hactive' hdata' hchild' =>
        refine .intro (hactive'.trans hactive) (fun i n hn => (hdata' i n hn).trans (hdata i n hn)) ?_
        exact fun k r' hr' => ih k r' hr' (hchild' k r' hr')

theorem Region.allAlike_equivalence (position : Nat) (rs : List (BuiltRegion σ γ δ)) :
    Equivalence (Region.AllAlike position rs) where
  refl _ := fun _ r _ => r.alike_equivalence.refl _
  symm h := fun j r hr => r.alike_equivalence.symm (h j r hr)
  trans h h' := fun j r hr => r.alike_equivalence.trans (h j r hr) (h' j r hr)

theorem Region.Alike.active_eq {r : BuiltRegion σ γ δ} {m m' : Marking δ} (h : r.Alike m m') :
    m'.active = m.active := by
  cases h
  assumption

theorem Region.Alike.data_eq {r : BuiltRegion σ γ δ} {m m' : Marking δ} (h : r.Alike m m') {i : Nat}
    {n : BuiltNode σ γ δ} (hn : r.nodes[i]? = some n) :
    m'.data i n.data.behavior.initial = m.data i n.data.behavior.initial := by
  cases h with
  | intro _ hdata _ => exact hdata i n hn

theorem Region.Alike.child_alike {r r' : BuiltRegion σ γ δ} {m m' : Marking δ} (h : r.Alike m m')
    {k : Nat × Nat} (hr' : r.child? k = some r') : r'.Alike (m.child k) (m'.child k) := by
  cases h with
  | intro _ _ hchild => exact hchild k r' hr'

theorem Region.Alike.setChild {r r' : BuiltRegion σ γ δ} {m m' : Marking δ} {k : Nat × Nat}
    (hr' : r.child? k = some r') (h : r'.Alike (m.child k) m') : r.Alike m (m.setChild k m') := by
  refine .intro rfl (fun _ _ _ => rfl) fun k' r'' hr'' => ?_
  by_cases hk : k' = k
  · subst hk
    obtain rfl : r' = r'' := Option.some.inj (hr'.symm.trans hr'')
    rwa [Marking.child_setChild_self]
  · rw [Marking.child_setChild_of_ne hk]
    exact r''.alike_equivalence.refl _

theorem Region.AllAlike.setChild {position j : Nat} {rs : List (BuiltRegion σ γ δ)} {r : BuiltRegion σ γ δ}
    {m m' : Marking δ} (hr : rs[j]? = some r) (h : r.Alike (m.child (position, j)) m') :
    Region.AllAlike position rs m (m.setChild (position, j) m') := by
  intro j' r' hr'
  by_cases hj : j' = j
  · subst hj
    obtain rfl : r = r' := Option.some.inj (hr.symm.trans hr')
    rwa [Marking.child_setChild_self]
  · rw [Marking.child_setChild_of_ne (by simpa using hj)]
    exact r'.alike_equivalence.refl _

/-- Local data that are written back as they were. -/
theorem Region.Alike.setData {r : BuiltRegion σ γ δ} (m : Marking δ) {i : Nat} {n : BuiltNode σ γ δ}
    (hn : r.nodes[i]? = some n) : r.Alike m (m.setData i (m.data i n.data.behavior.initial)) := by
  refine .intro rfl (fun i' n' hn' => ?_) fun k r' _ => r'.alike_equivalence.refl _
  by_cases hi : i' = i
  · subst hi
    obtain rfl : n = n' := Option.some.inj (hn.symm.trans hn')
    rw [Marking.data_setData_self]
  · rw [Marking.data_setData_of_ne hi]

/-! ## Worlds and configurations -/

/-- Whether the note tells that a guard was called or failed, or that a reaction was asked. -/
def Note.isProbe : Note σ → Bool
  | .guard _ _ _ _ | .consulted _ _ _ => true
  | .failed f => f.stage = .guard
  | _ => false

/-- Nothing but the journal has changed, and that by probes. -/
structure World.Untouched (w w' : World σ γ) : Prop where
  context : w'.context = w.context
  history : w'.history = w.history
  clock : w'.clock = w.clock
  mailbox : w'.exchange.mailbox = w.exchange.mailbox
  notes : ∃ l, w'.exchange.journal.toList = w.exchange.journal.toList ++ l ∧ ∀ n ∈ l, n.isProbe = true

/-- The world is untouched, and the markings are related by `U`. -/
structure Configuration.Untouched (U : Marking δ → Marking δ → Prop) (c c' : Configuration σ γ δ) : Prop where
  world : c.world.Untouched c'.world
  marking : U c.marking c'.marking

theorem World.Untouched.refl (w : World σ γ) : w.Untouched w :=
  ⟨rfl, rfl, rfl, rfl, [], (List.append_nil _).symm, by simp⟩

theorem World.Untouched.trans {w w' w'' : World σ γ} (h : w.Untouched w') (h' : w'.Untouched w'') :
    w.Untouched w'' := by
  obtain ⟨l, hj, hl⟩ := h.notes
  obtain ⟨l', hj', hl'⟩ := h'.notes
  refine ⟨h'.context.trans h.context, h'.history.trans h.history, h'.clock.trans h.clock,
    h'.mailbox.trans h.mailbox, l ++ l', ?_, fun n hn => ?_⟩
  · rw [hj', hj, List.append_assoc]
  · exact (List.mem_append.1 hn).elim (hl n) (hl' n)

theorem World.untouched_note {n : Note σ} (hn : n.isProbe = true) (w : World σ γ) :
    w.Untouched { w with exchange := w.exchange.note n } :=
  ⟨rfl, rfl, rfl, rfl, [n], by simp [Exchange.note], by simpa using hn⟩

section Untouched

variable {U : Marking δ → Marking δ → Prop} {c c' c'' : Configuration σ γ δ}

theorem Configuration.Untouched.refl (hU : Equivalence U) (c : Configuration σ γ δ) : c.Untouched U c :=
  ⟨.refl _, hU.refl _⟩

theorem Configuration.Untouched.trans (hU : Equivalence U) (h : c.Untouched U c') (h' : c'.Untouched U c'') :
    c.Untouched U c'' :=
  ⟨h.world.trans h'.world, hU.trans h.marking h'.marking⟩

end Untouched

end Statechart
