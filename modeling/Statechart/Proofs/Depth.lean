import Statechart.Proofs.Invariant

/-!
# Regions at every depth

* `Region.child? k` : region `k.2` of the state at position `k.1`;
* `Region.Throughout P` : `P` holds of a region and of every region below it, each with its marking;
* `Region.IsShallow P` : `P` depends on what is active in a region and in those of its states;
* `Marking.Same` : markings that nothing can tell apart;
* `Region.check_keeps` : a dry run keeps to whatever the asking of rows keeps to;
* `Configuration.Unmoved N`, `Turn.Looks N` : turns that leave such markings; `Region.checkAny_looks` : dry
  runs are of that kind.
-/

set_option autoImplicit false

namespace Statechart

open Turn

variable {σ γ δ α β : Type}

/-- Region `k.2` of the state at position `k.1`. -/
def Region.child? (r : BuiltRegion σ γ δ) (k : Nat × Nat) : Option (BuiltRegion σ γ δ) :=
  (r.nodes[k.1]?).bind fun n => n.regions[k.2]?

theorem Region.child?_eq_some {r r' : BuiltRegion σ γ δ} {k : Nat × Nat} :
    r.child? k = some r' ↔ ∃ n, r.nodes[k.1]? = some n ∧ n.regions[k.2]? = some r' := by
  unfold Region.child?
  rw [Option.bind_eq_some_iff]

/-- The regions of the state at a position. -/
theorem Region.child?_of_nodes {r : BuiltRegion σ γ δ} {i : Nat} {n : BuiltNode σ γ δ}
    (hn : r.nodes[i]? = some n) (j : Nat) : r.child? (i, j) = n.regions[j]? := by
  unfold Region.child?
  rw [hn]
  rfl

/-- What holds of a region when it holds of the regions of its states, holds of all. -/
@[elab_as_elim]
theorem Region.induct_child {P : BuiltRegion σ γ δ → Prop}
    (step : ∀ r, (∀ k r', r.child? k = some r' → P r') → P r) (r : BuiltRegion σ γ δ) : P r := by
  induction r using Region.induct with
  | step table nodes ih =>
    refine step _ fun k r' hr' => ?_
    obtain ⟨n, hn, hr'⟩ := Region.child?_eq_some.1 hr'
    exact ih n (List.mem_of_getElem? hn) r' (List.mem_of_getElem? hr')

/-- `P` holds of the region and of every region below it. -/
inductive Region.Throughout (P : BuiltRegion σ γ δ → Marking δ → Prop) :
    BuiltRegion σ γ δ → Marking δ → Prop where
  | intro {r : BuiltRegion σ γ δ} {m : Marking δ} (here : P r m)
      (below : ∀ k r', r.child? k = some r' → Throughout P r' (m.child k)) : Throughout P r m

/-- Whether `P` holds of a region shows in what is active in it and in the regions of its states. -/
def Region.IsShallow (P : BuiltRegion σ γ δ → Marking δ → Prop) : Prop :=
  ∀ r m m', m'.active = m.active → (∀ k, (m'.child k).active = (m.child k).active) → P r m → P r m'

namespace Region.Throughout

variable {P Q : BuiltRegion σ γ δ → Marking δ → Prop} {r r' : BuiltRegion σ γ δ} {m m' : Marking δ}

theorem here (h : r.Throughout P m) : P r m := by
  cases h
  assumption

theorem child (h : r.Throughout P m) {k : Nat × Nat} (hr' : r.child? k = some r') :
    r'.Throughout P (m.child k) := by
  cases h with
  | intro _ hbelow => exact hbelow k r' hr'

theorem mono (h : r.Throughout P m) (hPQ : ∀ r m, P r m → Q r m) : r.Throughout Q m := by
  induction h with
  | intro hhere _ ih => exact .intro (hPQ _ _ hhere) ih

/-- Local data do not matter. -/
theorem congr (hP : Region.IsShallow P) (h : r.Throughout P m) (hactive : m'.active = m.active)
    (hchild : ∀ k, m'.child k = m.child k) : r.Throughout P m' := by
  refine .intro (hP r m m' hactive (fun k => by rw [hchild k]) h.here) fun k r' hr' => ?_
  rw [hchild k]
  exact h.child hr'

/-- What becomes of the region when a region below it changes. -/
theorem setChild {k : Nat × Nat} (h : r.Throughout P m) (hr' : r.child? k = some r') (h' : r'.Throughout P m')
    (hhere : P r (m.setChild k m')) : r.Throughout P (m.setChild k m') := by
  refine .intro hhere fun k' r'' hr'' => ?_
  by_cases hk : k' = k
  · subst hk
    obtain rfl : r' = r'' := Option.some.inj (hr'.symm.trans hr'')
    rwa [Marking.child_setChild_self]
  · rw [Marking.child_setChild_of_ne hk]
    exact h.child hr''

end Region.Throughout

/-- What holds of every region that was never started holds below it, too. -/
theorem Region.throughout_fresh {P : BuiltRegion σ γ δ → Marking δ → Prop} (h : ∀ r, P r .fresh)
    (r : BuiltRegion σ γ δ) : r.Throughout P .fresh := by
  induction r using Region.induct_child with
  | step r ih => exact .intro (h r) ih

/-! ## Markings that are the same -/

/-- What is active and all local data are the same, at every depth. -/
inductive Marking.Same : Marking δ → Marking δ → Prop where
  | refl (m : Marking δ) : Same m m
  | step {m m' : Marking δ} (active : m'.active = m.active) (data : ∀ i d, m'.data i d = m.data i d)
      (child : ∀ k, Same (m.child k) (m'.child k)) : Same m m'

namespace Marking.Same

variable {m m' m'' : Marking δ}

theorem active (h : m.Same m') : m'.active = m.active := by
  cases h with
  | refl => rfl
  | step hactive _ _ => exact hactive

theorem data (h : m.Same m') (i : Nat) (d : δ) : m'.data i d = m.data i d := by
  cases h with
  | refl => rfl
  | step _ hdata _ => exact hdata i d

theorem child (h : m.Same m') (k : Nat × Nat) : (m.child k).Same (m'.child k) := by
  cases h with
  | refl => exact .refl _
  | step _ _ hchild => exact hchild k

theorem trans (h : m.Same m') (h' : m'.Same m'') : m.Same m'' := by
  induction h generalizing m'' with
  | refl => exact h'
  | step hactive hdata _ ih =>
    exact .step (h'.active.trans hactive) (fun i d => (h'.data i d).trans (hdata i d))
      fun k => ih k (h'.child k)

theorem setChild {k : Nat × Nat} (h : (m.child k).Same m') : m.Same (m.setChild k m') := by
  refine .step rfl (fun _ _ => rfl) fun k' => ?_
  by_cases hk : k' = k
  · subst hk
    rwa [child_setChild_self]
  · rw [child_setChild_of_ne hk]
    exact .refl _

end Marking.Same

theorem Region.Throughout.of_same {P : BuiltRegion σ γ δ → Marking δ → Prop} (hP : Region.IsShallow P)
    {r : BuiltRegion σ γ δ} {m m' : Marking δ} (h : r.Throughout P m) (hm : m.Same m') :
    r.Throughout P m' := by
  induction h generalizing m' with
  | intro hhere _ ih =>
    refine .intro (hP _ _ _ hm.active (fun k => (hm.child k).active) hhere) fun k r' hr' => ?_
    exact ih k r' hr' (hm.child k)

/-! ## Dry runs -/

section Checks

variable [DecidableEq σ] {R : Configuration σ γ δ → Configuration σ γ δ → Prop} [IsPreorder _ R]
  {H : Halt → Configuration σ γ δ → Prop} {e : Event}

theorem RegionTable.anyEnabled_keeps {rows : List (Transition σ γ Nat)} {path : String} {s : σ}
    (h : ∀ row ∈ rows, ∀ index, Keeps R H (ask path s e index row)) (index : Nat) :
    Keeps R H (anyEnabled path s e index rows) := by
  induction rows generalizing index with
  | nil => exact Keeps.pure _
  | cons row rows ih =>
    rw [List.forall_mem_cons] at h
    refine (h.1 index).bind fun verdict => ?_
    split
    · exact Keeps.pure _
    · exact ih h.2 (index + 1)

variable (hchild : ∀ (k : Nat × Nat) (x : Turn σ γ δ Bool), Keeps R H x → Keeps R H (inChild k x))

include hchild

theorem Region.checkAny_keeps {rs : List (BuiltRegion σ γ δ)} (h : ∀ r ∈ rs, Keeps R H (r.check e))
    (position index : Nat) : Keeps R H (Region.checkAny position index rs e) := by
  induction rs generalizing index with
  | nil => exact Keeps.pure _
  | cons r rs ih =>
    rw [List.forall_mem_cons] at h
    rw [Region.checkAny]
    refine (hchild (position, index) _ h.1).bind fun accepted => ?_
    split
    · exact Keeps.pure _
    · exact ih h.2 (index + 1)

/-- A dry run only asks rows, here and below. -/
theorem Region.check_keeps (r : BuiltRegion σ γ δ)
    (h : ∀ q ∈ r.preorder, ∀ row ∈ q.data.rows, ∀ path s index,
      Keeps R H (RegionTable.ask path s e index row : Turn σ γ δ (Except Cause Bool))) :
    Keeps R H (r.check e) := by
  induction r using Region.induct with
  | step table nodes ih =>
    have haccepts (s : σ) : Keeps R H (table.accepts s e) :=
      RegionTable.anyEnabled_keeps (fun row hrow => h _ (Region.mem_preorder_self _) row hrow table.path s) 0
    intro c
    rw [Region.check, ends_bind, ends_active]
    split
    · split
      · rename_i n hn
        have hmem := List.mem_of_getElem? hn
        have hbelow (i : Nat) := Region.checkAny_keeps hchild (fun s hs => ih n hmem s hs fun q hq =>
          h q (Region.mem_preorder_of_mem hmem hs hq)) i 0
        obtain ⟨unit, regions⟩ := n
        refine (haccepts _).bind (fun accepted => ?_) c
        rw [Node.acceptsAt_eq, hn, Option.elim, Node.accepts]
        split
        · exact Keeps.pure _
        · refine (hbelow _).bind fun accepted => ?_
          split
          · exact Keeps.pure _
          · exact fun c => refl c
      · exact Keeps.pure _ c
    · exact Keeps.pure _ c

end Checks

/-- The marking stays the same, and only notes in `N` are written. -/
structure Configuration.Unmoved (N : Note σ → Prop) (c c' : Configuration σ γ δ) : Prop where
  marking : c.marking.Same c'.marking
  history : c'.world.history = c.world.history
  follows : c.Follows N c'

instance (N : Note σ → Prop) : IsPreorder (Configuration σ γ δ) (Configuration.Unmoved N) where
  refl _ := ⟨.refl _, rfl, .refl N _⟩
  trans _ _ _ h h' := ⟨h.marking.trans h'.marking, h'.history.trans h.history, h.follows.trans h'.follows⟩

/-- The turn moves nothing, and only a panic may halt it. -/
abbrev Turn.Looks (N : Note σ → Prop) (x : Turn σ γ δ α) : Prop :=
  Keeps (Configuration.Unmoved N)
    (fun h c' => h.IsNoted c'.world.exchange.journal ∧ h.isOverflow = false) x

section Looks

variable {N : Note σ → Prop} {e : Event}

namespace Turn

theorem note_looks {n : Note σ} (hn : N n) (hq : accepted [n] = []) :
    Looks N (note n : Turn σ γ δ Unit) :=
  fun _ => ⟨.refl _, rfl, Exchange.follows_note hn hq _⟩

theorem perform_looks (hN : ∀ n : Note σ, n.isSilent = true → N n) (f : Callback γ α) :
    Looks N (perform f : Turn σ γ δ α) := by
  intro c
  refine ((perform_inert hN f c).and (perform_isQuiet f c)).mono (fun _ c' h => ?_) fun halt c' h => ?_
  · exact ⟨by rw [h.2.marking]; exact .refl _, h.2.history, h.1.follows⟩
  · exact ⟨⟨by rw [h.2.1.marking]; exact .refl _, h.2.1.history, h.1.1.follows⟩, h.1.2⟩

theorem inChild_looks (k : Nat × Nat) {x : Turn σ γ δ α} (hx : Looks N x) : Looks N (inChild k x) := by
  intro c
  rw [ends_inChild]
  refine (hx ⟨c.world, c.marking.child k⟩).mono (fun _ c' h => ?_) fun _ c' h => ?_
  · exact ⟨h.marking.setChild, h.history, h.follows⟩
  · exact ⟨⟨h.1.marking.setChild, h.1.history, h.1.follows⟩, h.2⟩

end Turn

variable [DecidableEq σ]

theorem RegionTable.ask_looks (hN : Note.Admits N e) (path : String) (active : σ) (index : Nat)
    (row : Transition σ γ Nat) :
    Looks N (ask path active e index row : Turn σ γ δ (Except Cause Bool)) := by
  have hcheck : Looks N (perform (row.canFire active e).run : Turn σ γ δ (Except Cause Bool)) :=
    perform_looks (fun _ => hN.silent) _
  unfold ask
  split
  · exact (note_looks (hN _ ⟨rfl, by simp [Note.event?]⟩ rfl) rfl).bind fun _ => hcheck
  · exact hcheck

theorem Region.checkAny_looks (hN : Note.Admits N e) (position index : Nat) (rs : List (BuiltRegion σ γ δ)) :
    Looks N (Region.checkAny position index rs e) := by
  have hchild (k : Nat × Nat) (x : Turn σ γ δ Bool) : Looks N x → Looks N (inChild k x) := inChild_looks k
  exact Region.checkAny_keeps hchild (fun r _ => r.check_keeps hchild fun _ _ row _ path s index =>
    RegionTable.ask_looks hN path s index row) position index

end Looks

end Statechart
