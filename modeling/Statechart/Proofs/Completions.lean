import Statechart.Proofs.Passes

/-!
# The row that is taken

Only a row that concerns the active state and the event is asked, and one without a guard fires. So where
the first such row has no guard, it is taken, and nothing else happens; no row at all is as quiet.

* `RegionTable.resolve_of_none`, `RegionTable.resolve_of_unguarded` : the choice of a row;
* `Region.due_of_complete` : the completion row that is due is chosen so;
* `Choice.Fits` : a choice belongs to the table and to the active state; `RegionTable.resolve_fits`,
  `Region.due_fits`;
* `RegionTable.LeadsTo` : the positions that the table of a region can make active.
-/

set_option autoImplicit false

namespace Statechart

open Turn

variable {σ γ δ α : Type}

section Rows

variable [DecidableEq σ] {path : String} {active : σ} {e : Event} {c : Configuration σ γ δ}

theorem Transition.concerns_completion {τ : Type} (row : Transition σ γ τ) (s : σ) :
    row.concerns s .completion = (row.trigger.isCompletion && row.source.accepts s) := by
  unfold Transition.concerns Trigger.accepts
  rw [Bool.and_comm]
  rfl

namespace RegionTable

theorem ask_of_not_concerns {row : Transition σ γ Nat} (h : row.concerns active e = false) (index : Nat) :
    ask path active e index row c = .ok (.ok false) c := by
  unfold ask Transition.canFire
  rw [h]
  rfl

theorem ask_of_unguarded {row : Transition σ γ Nat} (h : row.concerns active e = true)
    (hguard : row.guard = none) (index : Nat) : ask path active e index row c = .ok (.ok true) c := by
  unfold ask Transition.canFire
  rw [h, hguard]
  rfl

theorem firstEnabled_of_none {rows : List (Transition σ γ Nat)}
    (h : rows.find? (·.concerns active e) = none) (index : Nat) :
    firstEnabled path active e index rows c = .ok (.ok none) c := by
  induction rows generalizing index with
  | nil => rfl
  | cons row rows ih =>
    rw [List.find?_cons] at h
    split at h
    · cases h
    · rename_i hrow
      rw [firstEnabled, bind_of_ok (ask_of_not_concerns hrow index)]
      exact ih h (index + 1)

theorem firstEnabled_of_unguarded {rows : List (Transition σ γ Nat)} {row : Transition σ γ Nat}
    (h : rows.find? (·.concerns active e) = some row) (hguard : row.guard = none) (index : Nat) :
    ∃ k, rows[k]? = some row ∧
      firstEnabled path active e index rows c = .ok (.ok (some (index + k, row))) c := by
  induction rows generalizing index with
  | nil => cases h
  | cons first rows ih =>
    rw [List.find?_cons] at h
    split at h
    · rename_i hfirst
      cases h
      refine ⟨0, rfl, ?_⟩
      rw [firstEnabled, bind_of_ok (ask_of_unguarded hfirst hguard index)]
      rfl
    · rename_i hfirst
      obtain ⟨k, hk, hfound⟩ := ih h (index + 1)
      refine ⟨k + 1, hk, ?_⟩
      rw [firstEnabled, bind_of_ok (ask_of_not_concerns hfirst index),
        show index + (k + 1) = index + 1 + k by omega]
      exact hfound

variable [Named σ] (t : RegionTable σ γ) (position : Nat)

theorem resolve_of_none (h : t.rows.find? (·.concerns active e) = none) :
    t.resolve position active e c = .ok none c := by
  have hfound : orFail .guard t.path active e (firstEnabled t.path active e 0 t.rows) c = .ok none c := by
    unfold orFail
    rw [bind_of_ok (firstEnabled_of_none h 0)]
    rfl
  unfold resolve
  rw [bind_of_ok hfound]
  rfl

theorem resolve_of_unguarded {row : Transition σ γ Nat}
    (h : t.rows.find? (·.concerns active e) = some row) (hguard : row.guard = none) :
    ∃ k, t.rows[k]? = some row ∧ t.resolve position active e c = .ok (some ⟨position, active, k, row⟩) c := by
  obtain ⟨k, hk, hsearch⟩ : ∃ k, t.rows[k]? = some row ∧
      firstEnabled t.path active e 0 t.rows c = .ok (.ok (some (0 + k, row))) c :=
    firstEnabled_of_unguarded h hguard 0
  have hfound : orFail .guard t.path active e (firstEnabled t.path active e 0 t.rows) c =
      .ok (some (k, row)) c := by
    unfold orFail
    rw [bind_of_ok hsearch, Nat.zero_add]
    rfl
  refine ⟨k, hk, ?_⟩
  unfold resolve
  rw [bind_of_ok hfound]
  rfl

end RegionTable

namespace Region

variable [Named σ] {table : RegionTable σ γ} {nodes : List (BuiltNode σ γ δ)} {i : Nat} {n : BuiltNode σ γ δ}

/-- If the active state is complete, what is due is the row that is chosen for it. -/
theorem due_of_complete (hactive : c.marking.active = .at i) (hn : nodes[i]? = some n)
    (hcomplete : n.isComplete i c.marking = true) :
    due table nodes c = table.resolve i n.data.id .completion c := by
  have hthis : (Turn.active : Turn σ γ δ Active) c = .ok (.at i) c := by
    rw [← hactive]
    rfl
  unfold due
  rw [bind_of_ok hthis]
  dsimp only
  rw [hn]
  dsimp only
  rw [bind_of_ok (show (get : Turn σ γ δ _) c = .ok c c from rfl), hcomplete]
  rfl

end Region

end Rows

/-- The positions that become active when a region starts or a row fires. -/
def RegionTable.LeadsTo (t : RegionTable σ γ) (i : Nat) : Prop :=
  i = t.initial ∨ ∃ row ∈ t.rows, row.target = .state i

/-! ## Choices -/

/-- The choice is a row of the table, made for the active state. -/
structure Choice.Fits (choice : Choice σ γ) (table : RegionTable σ γ) (nodes : List (BuiltNode σ γ δ))
    (c : Configuration σ γ δ) : Prop where
  active : c.marking.active = .at choice.position
  node : ∃ n, nodes[choice.position]? = some n ∧ n.data.id = choice.state
  row : table.rows[choice.row]? = some choice.transition

section Choices

variable [DecidableEq σ] {c : Configuration σ γ δ} {e : Event}

/-- The row that the search finds stands in the list. -/
theorem RegionTable.firstEnabled_mem (path : String) (active : σ) (index : Nat)
    (rows : List (Transition σ γ Nat)) :
    Ends (firstEnabled path active e index rows) c
      (fun found _ => ∀ k row, found = .ok (some (k, row)) → ∃ j, k = index + j ∧ rows[j]? = some row)
      fun _ _ => True := by
  induction rows generalizing index c with
  | nil => exact nofun
  | cons row rows ih =>
    rw [firstEnabled]
    refine ends_bind_of_forall fun verdict c' => ?_
    split
    · exact nofun
    · intro k row' hfound
      cases hfound
      exact ⟨0, rfl, rfl⟩
    · refine (ih (index + 1)).mono (fun found _ h k row' hfound => ?_) fun _ _ h => h
      obtain ⟨j, hk, hj⟩ := h k row' hfound
      exact ⟨j + 1, by omega, hj⟩

variable [Named σ] {table : RegionTable σ γ} {nodes : List (BuiltNode σ γ δ)} {i : Nat} {n : BuiltNode σ γ δ}

/-- A row that is chosen stands in the table at its index. -/
theorem RegionTable.resolve_row (table : RegionTable σ γ) (position : Nat) (s : σ) (e : Event)
    (c : Configuration σ γ δ) : Ends (table.resolve position s e) c
      (fun found _ => ∀ choice, found = some choice → table.rows[choice.row]? = some choice.transition)
      fun _ _ => True := by
  unfold resolve orFail
  rw [ends_bind, ends_bind]
  refine (firstEnabled_mem table.path s 0 table.rows).mono (fun outcome _ h => ?_) fun _ _ h => h
  cases outcome with
  | error cause => trivial
  | ok found =>
    intro choice hchoice
    obtain ⟨⟨k, row⟩, rfl, rfl⟩ := Option.map_eq_some_iff.1 hchoice
    obtain ⟨j, rfl, hj⟩ := h k row rfl
    rwa [Nat.zero_add]

/-- A row that is chosen for the active state fits. -/
theorem RegionTable.resolve_fits (hactive : c.marking.active = .at i) (hn : nodes[i]? = some n) :
    Ends (table.resolve i n.data.id e) c
      (fun found c' => ∀ choice, found = some choice → choice.Fits table nodes c') fun _ _ => True := by
  have hmem := RegionTable.resolve_row table i n.data.id e c
  refine (((RegionTable.resolve_inert (Note.admits_uncrossed e) table i n.data.id c).and
    (RegionTable.resolve_ends table i n.data.id e c)).and hmem).mono (fun found c' h choice hchoice => ?_)
    fun _ _ _ => trivial
  obtain ⟨⟨hsteps, hends⟩, hrow⟩ := h
  obtain ⟨hposition, hstate⟩ := hends choice hchoice
  refine ⟨by rw [hsteps.active, hactive, hposition], ⟨n, ?_, hstate.symm⟩, hrow choice hchoice⟩
  rw [hposition, hn]

/-- A completion row that is due fits. -/
theorem Region.due_fits : Ends (Region.due table nodes) c
    (fun found c' => ∀ choice, found = some choice → choice.Fits table nodes c') fun _ _ => True := by
  unfold Region.due
  simp only [ends_bind, ends_active]
  split
  · rename_i i hactive
    split
    · rename_i n hn
      rw [ends_bind, ends_get]
      split
      · exact RegionTable.resolve_fits hactive hn
      · exact nofun
    · exact nofun
  · exact nofun

end Choices

end Statechart
