import Statechart.Proofs.Inert

/-!
# Turns of sibling regions

The regions of a state start, stop and process events one after the other. All three are one loop, which
has one rule.

* `Turn.onEach x position index rs` : the turn `x` of every region of a list, each in its own marking;
* `Region.ends_stopAll`, `Region.ends_startAll`, `Region.ends_processAll` : the three loops;
  `Node.ends_react` : what follows on the third;
* `onEach_ends` : the loop with an invariant; `onEach_places`, `onEach_children` : the loop where each place, or
  each region, has a specification of its own; `onEach_results` : the loop where each answer tells what became of
  its region; `Region.members`, `onEach_members` : the loop as a whole, put together from what each region does to the
  world; `keeps_onEach` : the loop with a relation that every region keeps;
* `Configuration.SameBut position` : all that is outside the state at a position is as it was;
  `onEach_confined`.
-/

set_option autoImplicit false

namespace Statechart

variable {σ γ δ α : Type}

namespace Turn

/-- The turn `x` of every region of a list, the first of them being region `index` of the state at a
position, with the results in order. -/
def onEach (x : BuiltRegion σ γ δ → Turn σ γ δ α) (position : Nat) :
    Nat → List (BuiltRegion σ γ δ) → Turn σ γ δ (List α)
  | _, [] => return []
  | index, r :: rs => do
    let first ← inChild (position, index) (x r)
    return first :: (← onEach x position (index + 1) rs)

variable {x : BuiltRegion σ γ δ → Turn σ γ δ α} {position : Nat} {c : Configuration σ γ δ}

theorem ends_onEach_cons {index : Nat} {r : BuiltRegion σ γ δ} {rs : List (BuiltRegion σ γ δ)}
    {Q : List α → Configuration σ γ δ → Prop} {E : Halt → Configuration σ γ δ → Prop} :
    Ends (onEach x position index (r :: rs)) c Q E ↔
      Ends (inChild (position, index) (x r)) c
        (fun a c' => Ends (onEach x position (index + 1) rs) c' (fun as => Q (a :: as)) E) E := by
  rw [onEach, ends_bind]
  simp only [ends_bind, ends_pure]

end Turn

open Turn

section Loops

variable [Named σ] {setup : Setup σ γ} {position : Nat} {e : Event} {E : Halt → Configuration σ γ δ → Prop}

theorem Region.ends_stopAll {Q : Unit → Configuration σ γ δ → Prop} (index : Nat)
    (rs : List (BuiltRegion σ γ δ)) (c : Configuration σ γ δ) :
    Ends (Region.stopAll setup position index rs e) c Q E ↔
      Ends (onEach (fun r => r.stop setup e) position index rs) c (fun _ => Q ()) E := by
  induction rs generalizing index c with
  | nil => rw [Region.stopAll]; rfl
  | cons r rs ih =>
    rw [Region.stopAll, ends_bind, ends_onEach_cons]
    simp only [ih]

variable [DecidableEq σ]

theorem Region.ends_startAll {Q : Unit → Configuration σ γ δ → Prop} (index : Nat)
    (rs : List (BuiltRegion σ γ δ)) (c : Configuration σ γ δ) :
    Ends (Region.startAll setup position index rs e) c Q E ↔
      Ends (onEach (fun r => r.start setup e) position index rs) c (fun _ => Q ()) E := by
  induction rs generalizing index c with
  | nil => rw [Region.startAll]; rfl
  | cons r rs ih =>
    rw [Region.startAll, ends_bind, ends_onEach_cons]
    simp only [ih]

theorem Region.ends_processAll {Q : Bool → Configuration σ γ δ → Prop} (index : Nat)
    (rs : List (BuiltRegion σ γ δ)) (c : Configuration σ γ δ) :
    Ends (Region.processAll setup position index rs e) c Q E ↔
      Ends (onEach (fun r => r.process setup e) position index rs) c (fun processed => Q (processed.any id))
        E := by
  induction rs generalizing index c Q with
  | nil => rw [Region.processAll]; rfl
  | cons r rs ih =>
    rw [Region.processAll, ends_bind, ends_onEach_cons]
    simp only [ends_bind, ends_pure, ih, List.any_cons, id_eq]

theorem Node.ends_react {Q : Bool → Configuration σ γ δ → Prop} (path : String) (n : BuiltNode σ γ δ)
    (c : Configuration σ γ δ) :
    Ends (n.react setup path position e) c Q E ↔
      Ends (onEach (fun r => r.process setup e) position 0 n.regions) c
        (fun processed c' => if processed.any id then Q true c' else Ends (n.consult path position e) c' Q E) E := by
  have hsplit (processed : List Bool) (c' : Configuration σ γ δ) :
      (if processed.any id then Q true c' else Ends (n.consult path position e) c' Q E) ↔
        Ends (if processed.any id then pure true else n.consult path position e) c' Q E := by
    split <;> rfl
  rw [Node.react_eq, ends_bind, Region.ends_processAll]
  simp only [hsplit]

end Loops

/-! ## Rules for the loop -/

section Rules

variable {x : BuiltRegion σ γ δ → Turn σ γ δ α} {position : Nat} {E : Halt → Configuration σ γ δ → Prop}

/-- The loop with an invariant `I j`, which holds when the first `j` regions had their turn. -/
theorem Turn.onEach_ends {I : Nat → Configuration σ γ δ → Prop} {index : Nat}
    {rs : List (BuiltRegion σ γ δ)} {c : Configuration σ γ δ} (hc : I index c)
    (step : ∀ j r, rs[j]? = some r → ∀ c, I (index + j) c →
      Ends (inChild (position, index + j) (x r)) c (fun _ c' => I (index + j + 1) c') E) :
    Ends (onEach x position index rs) c (fun _ c' => I (index + rs.length) c') E := by
  induction rs generalizing index c with
  | nil => exact hc
  | cons r rs ih =>
    rw [ends_onEach_cons]
    refine (step 0 r rfl c hc).mono (fun _ c' hc' => ?_) fun _ _ h => h
    have hrest : Ends (onEach x position (index + 1) rs) c' (fun _ c' => I (index + 1 + rs.length) c') E :=
      ih hc' fun j r' hr' c hj => by
        have hj' := step (j + 1) r' hr' c (by rwa [show index + (j + 1) = index + 1 + j by omega])
        rwa [show index + (j + 1) = index + 1 + j by omega] at hj'
    rwa [show index + 1 + rs.length = index + (r :: rs).length by simp; omega] at hrest

/-- The loop where the region at each place goes from `P` to `Q` or halts in `R`, while the world stays in `W`: when
it halts, the regions before are in `Q` and those behind in `P`. -/
theorem Turn.onEach_places {W : World σ γ → Prop} {V : Halt → World σ γ → Prop} {P Q R : Nat → Marking δ → Prop}
    {rs : List (BuiltRegion σ γ δ)} (hpre : ∀ j m, P j m → R j m) (hpost : ∀ j m, Q j m → R j m)
    (step : ∀ (j : Nat) r, rs[j]? = some r → ∀ c, W c.world → P j c.marking →
      Ends (x r) c (fun _ c' => W c'.world ∧ Q j c'.marking) fun h c' => V h c'.world ∧ R j c'.marking)
    {c : Configuration σ γ δ} (hw : W c.world) (hc : ∀ j < rs.length, P j (c.marking.child (position, j))) :
    Ends (onEach x position 0 rs) c
      (fun _ c' => W c'.world ∧ ∀ j < rs.length, Q j (c'.marking.child (position, j)))
      (fun h c' => V h c'.world ∧ ∀ j < rs.length, R j (c'.marking.child (position, j))) := by
  -- the regions before `k` had their turn
  let I (k : Nat) (c : Configuration σ γ δ) : Prop := W c.world ∧ ∀ j < rs.length,
    if j < k then Q j (c.marking.child (position, j)) else P j (c.marking.child (position, j))
  have hloop : Ends (onEach x position 0 rs) c (fun _ c' => I (0 + rs.length) c')
      fun h c' => V h c'.world ∧ ∀ j < rs.length, R j (c'.marking.child (position, j)) :=
    Turn.onEach_ends ⟨hw, fun j hj => by simpa using hc j hj⟩ ?_
  · exact hloop.mono (fun _ c' h => ⟨h.1, fun j hj => by simpa [hj] using h.2 j hj⟩) fun _ _ h => h
  · intro k r hr c hk
    rw [Nat.zero_add] at hk ⊢
    have hlt : k < rs.length := (List.getElem?_eq_some_iff.1 hr).1
    have hchild {j : Nat} (h : j ≠ k) (m' : Marking δ) :
        (c.marking.setChild (position, k) m').child (position, j) = c.marking.child (position, j) :=
      Marking.child_setChild_of_ne (by simpa using h) _ _
    rw [ends_inChild]
    have hstep := step k r hr ⟨c.world, c.marking.child (position, k)⟩ hk.1 (by simpa using hk.2 k hlt)
    refine hstep.mono (fun _ c' h => ⟨h.1, fun j hj => ?_⟩) fun _ c' h => ⟨h.1, fun j hj => ?_⟩
    · rcases Nat.lt_trichotomy j k with hjk | rfl | hjk
      · simpa [hjk, Nat.lt_succ_of_lt hjk, hchild (Nat.ne_of_lt hjk)] using hk.2 j hj
      · simpa using h.2
      · simpa [Nat.not_lt.2 (Nat.le_of_lt hjk), Nat.not_lt.2 (Nat.succ_le_of_lt hjk), hchild (Nat.ne_of_gt hjk)]
          using hk.2 j hj
    · rcases Nat.lt_trichotomy j k with hjk | rfl | hjk
      · rw [hchild (Nat.ne_of_lt hjk)]
        exact hpost _ _ (by simpa [hjk] using hk.2 j hj)
      · simpa using h.2
      · rw [hchild (Nat.ne_of_gt hjk)]
        exact hpre _ _ (by simpa [Nat.not_lt.2 (Nat.le_of_lt hjk)] using hk.2 j hj)

/-- The loop where each region goes from `P` to `Q` or halts in `R`, wherever it is. -/
theorem Turn.onEach_children {P Q R : BuiltRegion σ γ δ → Marking δ → Prop}
    {rs : List (BuiltRegion σ γ δ)} (hpre : ∀ r m, P r m → R r m) (hpost : ∀ r m, Q r m → R r m)
    (step : ∀ r ∈ rs, ∀ c, P r c.marking →
      Ends (x r) c (fun _ c' => Q r c'.marking) fun _ c' => R r c'.marking)
    {c : Configuration σ γ δ} (hc : ∀ j r, rs[j]? = some r → P r (c.marking.child (position, j))) :
    Ends (onEach x position 0 rs) c
      (fun _ c' => ∀ j r, rs[j]? = some r → Q r (c'.marking.child (position, j)))
      (fun _ c' => ∀ j r, rs[j]? = some r → R r (c'.marking.child (position, j))) := by
  have hlt {j : Nat} {r : BuiltRegion σ γ δ} (hr : rs[j]? = some r) : j < rs.length :=
    (List.getElem?_eq_some_iff.1 hr).1
  refine (Turn.onEach_places (W := fun _ => True) (V := fun _ _ => True)
    (P := fun j m => ∀ r, rs[j]? = some r → P r m) (Q := fun j m => ∀ r, rs[j]? = some r → Q r m)
    (R := fun j m => ∀ r, rs[j]? = some r → R r m) (fun _ _ h r hr => hpre r _ (h r hr))
    (fun _ _ h r hr => hpost r _ (h r hr)) (fun j r hr c _ hP => ?_) trivial fun j _ => hc j).mono
    (fun _ _ h j r hr => h.2 j (hlt hr) r hr) fun _ _ h j r hr => h.2 j (hlt hr) r hr
  have hsame {r' : BuiltRegion σ γ δ} (hr' : rs[j]? = some r') : r = r' := Option.some.inj (hr.symm.trans hr')
  exact (step r (List.mem_of_getElem? hr) c (hP r hr)).mono
    (fun _ _ h => ⟨trivial, fun r' hr' => hsame hr' ▸ h⟩) fun _ _ h => ⟨trivial, fun r' hr' => hsame hr' ▸ h⟩

/-- The loop where `R` relates what every region answers to what becomes of it. -/
theorem Turn.onEach_results {R : α → Marking δ → Marking δ → Prop} {index : Nat}
    {rs : List (BuiltRegion σ γ δ)} (c : Configuration σ γ δ)
    (step : ∀ r ∈ rs, ∀ c, Ends (x r) c (fun a c' => R a c.marking c'.marking) fun _ _ => True) :
    Ends (onEach x position index rs) c
      (fun as c' => (∀ j < index, c'.marking.child (position, j) = c.marking.child (position, j)) ∧
        ∀ j < rs.length, ∃ a ∈ as,
          R a (c.marking.child (position, index + j)) (c'.marking.child (position, index + j)))
      fun _ _ => True := by
  induction rs generalizing index c with
  | nil => exact ⟨fun _ _ => rfl, nofun⟩
  | cons r rs ih =>
    rw [ends_onEach_cons, ends_inChild]
    refine (step r List.mem_cons_self _).mono (fun a c₁ h₁ => ?_) fun _ _ h => h
    have hchild {j : Nat} (h : j ≠ index) :
        (c.marking.setChild (position, index) c₁.marking).child (position, j) =
          c.marking.child (position, j) := Marking.child_setChild_of_ne (by simpa using h) _ _
    refine (ih ⟨c₁.world, c.marking.setChild (position, index) c₁.marking⟩ fun r' hr' =>
      step r' (List.mem_cons_of_mem r hr')).mono (fun as c₂ h₂ => ?_) fun _ _ h => h
    obtain ⟨hbefore, hbehind⟩ := h₂
    refine ⟨fun j hj => (hbefore j (by omega)).trans (hchild (by omega)), fun j hj => ?_⟩
    cases j with
    | zero =>
      refine ⟨a, List.mem_cons_self, ?_⟩
      rw [Nat.add_zero, hbefore index (by omega), Marking.child_setChild_self]
      exact h₁
    | succ j =>
      obtain ⟨b, hb, hR⟩ := hbehind j (by simpa using hj)
      rw [hchild (by omega), show index + 1 + j = index + (j + 1) by omega] at hR
      exact ⟨b, List.mem_cons_of_mem a hb, hR⟩

/-- Regions of the state at a position with their markings, the first of them being its region `index`. -/
def Region.members (position : Nat) :
    Nat → List (BuiltRegion σ γ δ) → Marking δ → List (BuiltRegion σ γ δ × Marking δ)
  | _, [], _ => []
  | index, r :: rs, m => (r, m.child (position, index)) :: Region.members position (index + 1) rs m

theorem Region.members_congr {index : Nat} {rs : List (BuiltRegion σ γ δ)} {m m' : Marking δ}
    (h : ∀ j, index ≤ j → m'.child (position, j) = m.child (position, j)) :
    Region.members position index rs m' = Region.members position index rs m := by
  induction rs generalizing index with
  | nil => rfl
  | cons r rs ih =>
    rw [Region.members, Region.members, h index (Nat.le_refl index), ih fun j hj => h j (by omega)]

theorem Region.mem_members {index : Nat} {rs : List (BuiltRegion σ γ δ)} {m : Marking δ}
    {p : BuiltRegion σ γ δ × Marking δ} (hp : p ∈ Region.members position index rs m) : p.1 ∈ rs := by
  induction rs generalizing index with
  | nil => cases hp
  | cons r rs ih =>
    rw [Region.members] at hp
    rcases List.mem_cons.1 hp with rfl | hp
    · exact List.mem_cons_self
    · exact List.mem_cons_of_mem r (ih hp)

/-- The loop where each region goes from `P` to `Q`, and `K` tells what its turn does to the world, given the answer and
the marking that the region had before the loop. `T` puts this together. -/
theorem Turn.onEach_members {K : BuiltRegion σ γ δ → Marking δ → α → World σ γ → World σ γ → Prop}
    {T : List (BuiltRegion σ γ δ × Marking δ) → List α → World σ γ → World σ γ → Prop}
    {P Q : BuiltRegion σ γ δ → Marking δ → Prop} {V : Halt → Prop} {rs : List (BuiltRegion σ γ δ)}
    (hnil : ∀ w, T [] [] w w)
    (hcons : ∀ r m a w w₁ l as w', K r m a w w₁ → T l as w₁ w' → T ((r, m) :: l) (a :: as) w w')
    (step : ∀ r ∈ rs, ∀ c, P r c.marking →
      Ends (x r) c (fun a c' => K r c.marking a c.world c'.world ∧ Q r c'.marking) fun h _ => V h)
    (index : Nat) (c : Configuration σ γ δ)
    (hc : ∀ (j : Nat) r, rs[j]? = some r → P r (c.marking.child (position, index + j))) :
    Ends (onEach x position index rs) c
      (fun as c' => T (Region.members position index rs c.marking) as c.world c'.world ∧
        (∀ (j : Nat) r, rs[j]? = some r → Q r (c'.marking.child (position, index + j))) ∧
        ∀ j < index, c'.marking.child (position, j) = c.marking.child (position, j))
      fun h _ => V h := by
  induction rs generalizing index c with
  | nil => exact ⟨hnil c.world, by simp, fun _ _ => rfl⟩
  | cons r rs ih =>
    rw [ends_onEach_cons, ends_inChild]
    refine (step r List.mem_cons_self _ (hc 0 r rfl)).mono (fun a c₁ h₁ => ?_) fun _ _ h => h
    obtain ⟨hK, hQ⟩ := h₁
    have hchild {j : Nat} (hj : j ≠ index) :
        (c.marking.setChild (position, index) c₁.marking).child (position, j) = c.marking.child (position, j) :=
      Marking.child_setChild_of_ne (by simpa using hj) _ _
    refine (ih (fun r' hr' => step r' (List.mem_cons_of_mem r hr')) (index + 1)
      ⟨c₁.world, c.marking.setChild (position, index) c₁.marking⟩ fun j r' hr' => ?_).mono
      (fun as c₂ h₂ => ?_) fun _ _ h => h
    · have hj := hc (j + 1) r' hr'
      rw [show index + (j + 1) = index + 1 + j by omega] at hj
      rwa [hchild (by omega)]
    · obtain ⟨hT, hQs, hbefore⟩ := h₂
      refine ⟨?_, fun j r' hr' => ?_, fun j hj => (hbefore j (by omega)).trans (hchild (by omega))⟩
      · rw [Region.members_congr fun j hj => hchild (by omega)] at hT
        exact hcons r _ a _ c₁.world _ as _ hK hT
      · cases j with
        | zero =>
          obtain rfl : r = r' := Option.some.inj hr'
          rw [Nat.add_zero, hbefore index (by omega), Marking.child_setChild_self]
          exact hQ
        | succ j =>
          rw [show index + (j + 1) = index + 1 + j by omega]
          exact hQs j r' hr'

/-- What every region keeps within the configuration, the loop keeps. -/
theorem Turn.keeps_onEach {R : Configuration σ γ δ → Configuration σ γ δ → Prop} [IsPreorder _ R]
    {H : Halt → Configuration σ γ δ → Prop} {rs : List (BuiltRegion σ γ δ)}
    (h : ∀ r ∈ rs, ∀ j, Keeps R H (inChild (position, j) (x r))) (index : Nat) :
    Keeps R H (onEach x position index rs) := by
  induction rs generalizing index with
  | nil => exact Keeps.pure []
  | cons r rs ih =>
    rw [List.forall_mem_cons] at h
    exact (h.1 index).bind fun _ => (ih h.2 _).bind fun _ => Keeps.pure _

theorem Turn.onEach_feeds {N : Note σ → Prop} {rs : List (BuiltRegion σ γ δ)}
    (h : ∀ r ∈ rs, Feeds N (x r)) (index : Nat) : Feeds N (onEach x position index rs) :=
  keeps_onEach (fun r hr _ => (h r hr).inChild _) index

/-- What is active in the region, and all regions of its states but those of the state at a position, are
as they were. -/
structure Configuration.SameBut (position : Nat) (c c' : Configuration σ γ δ) : Prop where
  active : c'.marking.active = c.marking.active
  child : ∀ k : Nat × Nat, k.1 ≠ position → c'.marking.child k = c.marking.child k

instance (position : Nat) : IsPreorder (Configuration σ γ δ) (Configuration.SameBut position) where
  refl _ := ⟨rfl, fun _ _ => rfl⟩
  trans _ _ _ h h' := ⟨h'.active.trans h.active, fun k hk => (h'.child k hk).trans (h.child k hk)⟩

/-- The turn leaves alone what is outside the state at a position. -/
abbrev Turn.Confined (position : Nat) (x : Turn σ γ δ α) : Prop :=
  Keeps (Configuration.SameBut position) (fun _ _ => True) x

theorem Turn.Inert.confined {N : Note σ → Prop} {x : Turn σ γ δ α} (h : Inert N x) (position : Nat) :
    Confined position x :=
  Keeps.mono h (fun _ _ h => ⟨h.active, fun k _ => h.child k⟩) fun _ _ _ => trivial

theorem Turn.note_confined (position : Nat) (n : Note σ) : Confined position (note n : Turn σ γ δ Unit) :=
  fun _ => ⟨rfl, fun _ _ => rfl⟩

theorem Turn.inChild_confined (index : Nat) (x : Turn σ γ δ α) :
    Confined position (inChild (position, index) x) := by
  have hsame (c : Configuration σ γ δ) (w : World σ γ) (m : Marking δ) :
      c.SameBut position ⟨w, c.marking.setChild (position, index) m⟩ :=
    ⟨rfl, fun k hk => Marking.child_setChild_of_ne (fun h => hk (by rw [h])) _ _⟩
  intro c
  unfold Ends inChild
  cases x ⟨c.world, c.marking.child (position, index)⟩ with
  | ok => exact hsame c _ _
  | error => exact ⟨hsame c _ _, trivial⟩

theorem Turn.onEach_confined (index : Nat) (rs : List (BuiltRegion σ γ δ)) :
    Confined position (onEach x position index rs) :=
  keeps_onEach (fun r _ j => inChild_confined j (x r)) index

end Rules

end Statechart
