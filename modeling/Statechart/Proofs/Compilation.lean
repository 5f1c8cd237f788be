import Mathlib.Data.List.Forall2
import Statechart.Proofs.Completions
import Statechart.Proofs.Construction

/-!
# Compiled regions

A region that is constructed keeps the states and the rows of its plan in their places; only the targets of
its rows have become positions. So the first completion row that accepts a state is the same in both.

* `Target.Located`, `Transition.Located` : a target and a row of a plan, and what they are compiled to;
* `Plan.Compiles p r` : `r` is compiled from `p`; `Plan.construct_compiles`;
* `Plan.Indexes p r` : the positions in `r` stand for the states that `p` names; `Plan.table_of_complete` : a
  region that is complete and has no fault is compiled;
* `Plan.Compiles.completionRow`, `Plan.Compiles.planned`, `Plan.Compiles.built` : rows and states that
  correspond.
-/

set_option autoImplicit false

namespace Statechart

open Turn

variable {σ γ δ : Type}

/-! ## Lists in step -/

section Lists

variable {ε α β : Type} {R : α → β → Prop} {l : List α} {l' : List β}

theorem forall₂_of_mapM {f : α → Except ε β} (h : l.mapM f = .ok l') :
    List.Forall₂ (fun a b => f a = .ok b) l l' := by
  induction l generalizing l' with
  | nil =>
    cases h
    exact .nil
  | cons a l ih =>
    rw [List.mapM_cons] at h
    obtain ⟨b, hb, h⟩ := bind_eq_ok.1 h
    obtain ⟨bs, hbs, h⟩ := bind_eq_ok.1 h
    cases h
    exact .cons hb (ih hbs)

theorem mapError_eq_ok {ε' : Type} {x : Except ε α} {f : ε → ε'} {a : α} (h : x.mapError f = .ok a) :
    x = .ok a := by
  cases x <;> cases h
  rfl

theorem getElem?_of_forall₂ (h : List.Forall₂ R l l') (i : Nat) : Option.Rel R l[i]? l'[i]? := by
  induction h generalizing i with
  | nil => exact .none
  | cons hab _ ih =>
    cases i with
    | zero => exact .some hab
    | succ i => exact ih i

theorem exists_mem_of_forall₂ (h : List.Forall₂ R l l') {b : β} (hb : b ∈ l') : ∃ a ∈ l, R a b := by
  obtain ⟨i, hi⟩ := List.getElem?_of_mem hb
  have hrel := getElem?_of_forall₂ h i
  rw [hi] at hrel
  cases ha : l[i]? with
  | none => rw [ha] at hrel; cases hrel
  | some a =>
    rw [ha] at hrel
    cases hrel with
    | some hab => exact ⟨a, List.mem_of_getElem? ha, hab⟩

theorem find?_of_forall₂ (h : List.Forall₂ R l l') {f : α → Bool} {g : β → Bool}
    (hfg : ∀ a b, R a b → g b = f a) : Option.Rel R (l.find? f) (l'.find? g) := by
  induction h with
  | nil => exact .none
  | @cons a b l l' hab _ ih =>
    rw [List.find?_cons, List.find?_cons, hfg a b hab]
    cases f a with
    | true => exact .some hab
    | false => exact ih

end Lists

/-! ## Rows and states -/

section Compiles

variable [DecidableEq σ]

/-- The target of a row, and the position that it is compiled to. -/
inductive Target.Located (nodes : List (PlanNode σ γ δ)) : Target σ → Target Nat → Prop where
  | state {s : σ} {i : Nat} : position? nodes s = some i → Target.Located nodes (.state s) (.state i)
  | internal : Target.Located nodes .internal .internal
  | final : Target.Located nodes .final .final

/-- A row of a plan, and what it is compiled to. -/
structure Transition.Located (nodes : List (PlanNode σ γ δ)) (row : Transition σ γ σ)
    (row' : Transition σ γ Nat) : Prop where
  source : row'.source = row.source
  trigger : row'.trigger = row.trigger
  guard : row'.guard = row.guard
  target : Target.Located nodes row.target row'.target

theorem Transition.located_of_locate {nodes : List (PlanNode σ γ δ)} {row : Transition σ γ σ}
    {row' : Transition σ γ Nat} (h : row.locate nodes = .ok row') : row.Located nodes row' := by
  unfold Transition.locate at h
  dsimp only at h
  split at h
  · rename_i s htarget
    split at h
    · rename_i i hposition
      cases h
      exact ⟨rfl, rfl, rfl, htarget ▸ .state hposition⟩
    · cases h
  · rename_i htarget
    cases h
    exact ⟨rfl, rfl, rfl, htarget ▸ .internal⟩
  · rename_i htarget
    cases h
    exact ⟨rfl, rfl, rfl, htarget ▸ .final⟩

/-- The region has the rows of the plan, and its states with their regions. -/
structure Plan.Compiles (p : Plan σ γ δ) (r : BuiltRegion σ γ δ) : Prop where
  path : r.data.path = p.data.path
  rows : List.Forall₂ (Transition.Located p.nodes) p.data.rows r.data.rows
  nodes : List.Forall₂ (fun (s : PlanNode σ γ δ) (n : BuiltNode σ γ δ) =>
    n.data.id = s.data.id ∧ n.regions.length = s.regions.length) p.nodes r.nodes

section Construct

variable [Named σ]

theorem Plan.table_rows {p : Plan σ γ δ} {table : RegionTable σ γ} (h : p.table = .ok table) :
    table.path = p.data.path ∧ List.Forall₂ (Transition.Located p.nodes) p.data.rows table.rows := by
  unfold Plan.table at h
  dsimp only at h
  split at h
  · obtain ⟨rows, hrows, h⟩ := bind_eq_ok.1 h
    cases h
    exact ⟨rfl, (forall₂_of_mapM (mapError_eq_ok hrows)).imp fun _ _ => Transition.located_of_locate⟩
  · cases h

theorem Plan.Compiled.compiles {p : Plan σ γ δ} {r : BuiltRegion σ γ δ} (h : p.Compiled r) : p.Compiles r :=
  ⟨(Plan.table_rows h.table).1, (Plan.table_rows h.table).2, h.nodes⟩

/-- The region that is constructed is compiled from the plan. -/
theorem Plan.construct_compiles (p : Plan σ γ δ) : Constructs p.construct p.Compiles := by
  refine (Plan.construct_compiled p fun _ _ _ _ => trivial).mono fun r h => ?_
  rw [Region.preorder_eq, Region.preorder_eq] at h
  cases h with
  | cons hhere _ => exact hhere.compiles

theorem Plan.compiles_of_construct {p : Plan σ γ δ} {r : BuiltRegion σ γ δ} {c c' : Configuration σ γ δ}
    (h : p.construct.run c = .ok (.ok r) c') : p.Compiles r :=
  ((p.construct_compiles c).of_ok h).2.1 r rfl

omit [Named σ] in
/-- A row is located if its target is declared. -/
theorem Transition.locate_of_declares {nodes : List (PlanNode σ γ δ)} {row : Transition σ γ σ}
    (h : ∀ s ∈ row.named, declares nodes s = true) : ∃ row', row.locate nodes = .ok row' := by
  unfold Transition.locate
  dsimp only
  split
  · rename_i s htarget
    have hs : s ∈ row.named := List.mem_append_right _ (by simp [htarget, Target.state?])
    obtain ⟨i, hi⟩ := position?_of_declares (h s hs)
    rw [hi]
    exact ⟨_, rfl⟩
  · exact ⟨_, rfl⟩
  · exact ⟨_, rfl⟩

theorem mapM_ok {ε α β : Type} {f : α → Except ε β} {l : List α} (h : ∀ a ∈ l, ∃ b, f a = .ok b) :
    ∃ l', l.mapM f = .ok l' := by
  induction l with
  | nil => exact ⟨[], rfl⟩
  | cons a l ih =>
    obtain ⟨b, hb⟩ := h a List.mem_cons_self
    obtain ⟨l', hl'⟩ := ih fun a' ha' => h a' (List.mem_cons_of_mem a ha')
    refine ⟨b :: l', ?_⟩
    rw [List.mapM_cons, hb, hl']
    rfl

/-- A region that is complete and has no fault of its own has a table. -/
theorem Plan.table_of_complete {p : Plan σ γ δ} (hp : p.Complete) (hfaults : p.ownViolations = []) :
    ∃ table, p.table = .ok table := by
  obtain ⟨initial, hinitial⟩ := Plan.initialPosition_of_violations hfaults
  obtain ⟨rows, hrows⟩ : ∃ rows, p.data.rows.mapM (Transition.locate p.nodes) = .ok rows :=
    mapM_ok fun row hrow => Transition.locate_of_declares (hp.named row hrow)
  unfold Plan.table
  rw [hinitial, hrows]
  exact ⟨_, rfl⟩

end Construct

/-- The position of the initial state and those of the targets stand for the states that the plan names: the
initial state is the one that was designated, or else the first. -/
structure Plan.Indexes (p : Plan σ γ δ) (r : BuiltRegion σ γ δ) : Prop where
  compiles : p.Compiles r
  initial : ∃ n, r.nodes[r.data.initial]? = some n ∧
    p.data.initial.head?.or (p.nodes.head?.map fun s => s.data.id) = some n.data.id
  target : ∀ (k : Nat) (row : Transition σ γ σ) (row' : Transition σ γ Nat) (i : Nat),
    p.data.rows[k]? = some row → r.data.rows[k]? = some row' → row'.target = .state i →
      ∃ n, r.nodes[i]? = some n ∧ row.target = .state n.data.id

variable {p : Plan σ γ δ} {r : BuiltRegion σ γ δ} {i : Nat}

/-- The completion row that a state takes is the first that accepts it in the region, too. -/
theorem Plan.Compiles.completionRow (h : p.Compiles r) (s : σ) :
    Option.Rel (Transition.Located p.nodes) (p.completionRow? s)
      (r.data.rows.find? (·.concerns s .completion)) := by
  refine find?_of_forall₂ h.rows fun row row' hrow => ?_
  rw [Transition.concerns_completion, hrow.source, hrow.trigger]

theorem Plan.Compiles.planned (h : p.Compiles r) {n : BuiltNode σ γ δ} (hn : r.nodes[i]? = some n) :
    ∃ s, p.nodes[i]? = some s ∧ n.data.id = s.data.id ∧ n.regions.length = s.regions.length := by
  have hrel := getElem?_of_forall₂ h.nodes i
  rw [hn] at hrel
  cases hs : p.nodes[i]? with
  | none => rw [hs] at hrel; cases hrel
  | some s =>
    rw [hs] at hrel
    cases hrel with
    | some hkept => exact ⟨s, rfl, hkept⟩

theorem Plan.Compiles.built (h : p.Compiles r) {s : PlanNode σ γ δ} (hs : p.nodes[i]? = some s) :
    ∃ n, r.nodes[i]? = some n ∧ n.data.id = s.data.id ∧ n.regions.length = s.regions.length := by
  have hrel := getElem?_of_forall₂ h.nodes i
  rw [hs] at hrel
  cases hn : r.nodes[i]? with
  | none => rw [hn] at hrel; cases hrel
  | some n =>
    rw [hn] at hrel
    cases hrel with
    | some hkept => exact ⟨n, rfl, hkept⟩

/-- A simple state is compiled to a simple state. -/
theorem Plan.Compiles.builtSimple (h : p.Compiles r) {s : PlanNode σ γ δ} (hs : p.nodes[i]? = some s)
    (hsimple : s.regions = []) : ∃ n, r.nodes[i]? = some n ∧ n.data.id = s.data.id ∧ n.regions = [] := by
  obtain ⟨n, hn, hid, hlength⟩ := h.built hs
  exact ⟨n, hn, hid, List.eq_nil_of_length_eq_zero (by rw [hlength, hsimple, List.length_nil])⟩

/-- A region whose plan has simple states only has simple states only. -/
theorem Plan.Compiles.flat (h : p.Compiles r) (hflat : ∀ s ∈ p.nodes, s.regions = []) {n : BuiltNode σ γ δ}
    (hn : r.nodes[i]? = some n) : n.regions = [] := by
  obtain ⟨s, hs, -, hlength⟩ := h.planned hn
  exact List.eq_nil_of_length_eq_zero
    (by rw [hlength, hflat s (List.mem_of_getElem? hs), List.length_nil])

/-- The position of a state is that of its first declaration. -/
theorem Plan.node?_of_position {s : σ} (h : position? p.nodes s = some i) :
    ∃ n, p.nodes[i]? = some n ∧ p.node? s = some n ∧ n.data.id = s := by
  have hlt : i < p.nodes.length := (List.findIdx?_eq_some_iff_getElem.1 h).1
  have hid := (List.findIdx?_eq_some_iff_getElem.1 h).2.1
  refine ⟨p.nodes[i], List.getElem?_eq_getElem hlt, ?_, by simpa using hid⟩
  unfold Plan.node?
  rw [List.find?_eq_bind_findIdx?_getElem?, show List.findIdx? _ _ = some i from h]
  exact List.getElem?_eq_getElem hlt

/-- The target of a row stands at its position. -/
theorem Plan.Compiles.located (h : p.Compiles r) {row : Transition σ γ σ} {row' : Transition σ γ Nat} {k : Nat}
    (hrow : p.data.rows[k]? = some row) (hrow' : r.data.rows[k]? = some row') (htarget : row'.target = .state i) :
    ∃ n, r.nodes[i]? = some n ∧ row.target = .state n.data.id := by
  have hrel := getElem?_of_forall₂ h.rows k
  rw [hrow, hrow'] at hrel
  obtain ⟨hlocated⟩ := hrel
  have hposition := hlocated.target
  rw [htarget] at hposition
  generalize row.target = target at hposition
  cases hposition with
  | state hposition =>
    obtain ⟨s, hs, -, hid⟩ := Plan.node?_of_position hposition
    obtain ⟨n, hn, hkept, -⟩ := h.built hs
    exact ⟨n, hn, by rw [hkept, hid]⟩

/-- A row of the region leads to a state of the region. -/
theorem Plan.Compiles.target (h : p.Compiles r) {row : Transition σ γ Nat} {k : Nat}
    (hrow : r.data.rows[k]? = some row) (htarget : row.target = .state i) : ∃ n, r.nodes[i]? = some n := by
  have hrel := getElem?_of_forall₂ h.rows k
  rw [hrow] at hrel
  cases hplanned : p.data.rows[k]? with
  | none => rw [hplanned] at hrel; cases hrel
  | some planned =>
    obtain ⟨n, hn, -⟩ := h.located hplanned hrow htarget
    exact ⟨n, hn⟩

/-- What is compiled from a complete region indexes its states. -/
theorem Plan.Compiled.indexes [Named σ] (h : p.Compiled r) (hp : p.Complete) : p.Indexes r := by
  refine ⟨h.compiles, ?_, fun k row row' i hrow hrow' htarget => h.compiles.located hrow hrow' htarget⟩
  have hinitial := Plan.table_ok h.table
  unfold Plan.initialPosition at hinitial
  split at hinitial
  · rename_i hnone
    obtain ⟨s, hs⟩ : ∃ s, p.nodes[0]? = some s :=
      ⟨_, List.getElem?_eq_getElem (List.length_pos_iff.2 hp.nonempty)⟩
    obtain ⟨n, hn, hid, -⟩ := h.compiles.built hs
    rw [← Option.some.inj hinitial]
    refine ⟨n, hn, ?_⟩
    rw [hnone, List.head?_eq_getElem?, List.head?_eq_getElem?, hs, hid]
    rfl
  · rename_i s _ hsome
    obtain ⟨node, hnode, -, hs⟩ := Plan.node?_of_position hinitial
    obtain ⟨n, hn, hid, -⟩ := h.compiles.built hnode
    refine ⟨n, hn, ?_⟩
    rw [hsome, hid, hs]
    rfl

end Compiles

end Statechart
