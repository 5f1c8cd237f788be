import Statechart.Proofs.Blame
import Statechart.Proofs.Completions
import Statechart.Run

/-!
# Dry runs of a table

The search for a row and its dry run ask the same rows in the same order. They part where a guard fails: the
search ends with the failure, and the dry run goes on with the rows behind, so it may accept an event for which no
row is chosen.

* `RegionTable.FailsAt` : the guard of a row fails, and no row before fires;
* `RegionTable.firstEnabled_error_iff`, `RegionTable.anyEnabled_iff` : the search and the dry run of a list of rows;
* `RegionTable.resolve_ok_iff`, `RegionTable.resolve_fails_iff` : the choice of a row;
* `table_dry_run`; `dry_run_passes_failing_guard` : a table whose dry run accepts where the choice of a row fails.
-/

set_option autoImplicit false

namespace Statechart

open Turn

variable {σ γ δ : Type}

namespace RegionTable

variable [DecidableEq σ]

/-- From `c` no row before row `k` fires, and there the guard fails with a cause and leaves `c'`. The first row has
the given index. -/
def FailsAt (path : String) (active : σ) (e : Event) (index : Nat) (rows : List (Transition σ γ Nat)) (k : Nat)
    (cause : Cause) (c c' : Configuration σ γ δ) : Prop :=
  ∃ row c₁, rows[k]? = some row ∧ firstEnabled path active e index (rows.take k) c = .ok (.ok none) c₁ ∧
    ask path active e (index + k) row c₁ = .ok (.error cause) c'

section Rows

variable {path : String} {active : σ} {e : Event} {index : Nat} {row : Transition σ γ Nat}
  {rows : List (Transition σ γ Nat)} {k : Nat} {cause : Cause} {c c' : Configuration σ γ δ}

/-! ## The search and its dry run -/

theorem not_failsAt_nil : ¬FailsAt path active e index [] k cause c c' := by
  rintro ⟨_, _, ⟨⟩, -⟩

theorem failsAt_zero :
    FailsAt path active e index (row :: rows) 0 cause c c' ↔
      ask path active e index row c = .ok (.error cause) c' := by
  constructor
  · rintro ⟨_, _, ⟨⟩, ⟨⟩, hask⟩
    exact hask
  · exact fun hask => ⟨row, c, rfl, rfl, hask⟩

/-- A row behind is asked only if the first one refuses. -/
theorem failsAt_succ : FailsAt path active e index (row :: rows) (k + 1) cause c c' ↔
    ∃ c₁, ask path active e index row c = .ok (.ok false) c₁ ∧
      FailsAt path active e (index + 1) rows k cause c₁ c' := by
  unfold FailsAt
  rw [List.take_succ_cons, firstEnabled, show index + (k + 1) = index + 1 + k by omega]
  simp only [bind_ok_iff, List.getElem?_cons_succ]
  constructor
  · rintro ⟨row', c₂, hrow, ⟨verdict, c₁, hask, hsearch⟩, hfails⟩
    split at hsearch
    · cases hsearch
    · cases hsearch
    · exact ⟨c₁, hask, row', c₂, hrow, hsearch, hfails⟩
  · rintro ⟨c₁, hask, row', c₂, hrow, hsearch, hfails⟩
    exact ⟨row', c₂, hrow, ⟨.ok false, c₁, hask, hsearch⟩, hfails⟩

/-- The search ends with a cause where a guard fails. -/
theorem firstEnabled_error_iff : firstEnabled path active e index rows c = .ok (.error cause) c' ↔
    ∃ k, FailsAt path active e index rows k cause c c' := by
  induction rows generalizing index c with
  | nil => simpa only [not_failsAt_nil, exists_false, iff_false] using nofun
  | cons row rows ih =>
    rw [← Nat.or_exists_add_one]
    simp only [failsAt_zero, failsAt_succ]
    cases hask : ask path active e index row c with
    | error h c₁ => simp [firstEnabled, bind_ok_iff, hask]
    | ok verdict c₁ =>
      rw [firstEnabled, bind_of_ok hask]
      rcases verdict with cause' | _ | _
      · simp [pure, EStateM.pure]
      · simp [ih]
      · simp [pure, EStateM.pure]

/-- The dry run answers as the search does, unless a guard fails. Then the rows behind answer. -/
theorem anyEnabled_iff {b : Bool} : anyEnabled path active e index rows c = .ok b c' ↔
    (∃ found, firstEnabled path active e index rows c = .ok (.ok found) c' ∧ found.isSome = b) ∨
      ∃ k cause c₁, FailsAt path active e index rows k cause c c₁ ∧
        anyEnabled path active e (index + k + 1) (rows.drop (k + 1)) c₁ = .ok b c' := by
  induction rows generalizing index c with
  | nil =>
    constructor
    · rintro ⟨⟩
      exact .inl ⟨none, rfl, rfl⟩
    · rintro (⟨_, ⟨⟩, rfl⟩ | ⟨_, _, _, ⟨_, _, ⟨⟩, -⟩, -⟩)
      rfl
  | cons row rows ih =>
    rw [← Nat.or_exists_add_one]
    simp only [failsAt_zero, failsAt_succ]
    cases hask : ask path active e index row c with
    | error h c₁ => simp [firstEnabled, anyEnabled, bind_ok_iff, hask]
    | ok verdict c₁ =>
      simp only [firstEnabled, anyEnabled, bind_of_ok hask]
      rcases verdict with cause | _ | _
      · -- the guard of the first row fails: only the dry run goes on
        simp only [pure, EStateM.pure, EStateM.Result.ok.injEq, reduceCtorEq, false_and, exists_false, false_or,
          Nat.add_zero, List.drop_succ_cons, List.drop_zero, or_false]
        constructor
        · exact fun h => ⟨cause, c₁, ⟨rfl, rfl⟩, h⟩
        · rintro ⟨_, _, ⟨⟨⟩, rfl⟩, h⟩
          exact h
      · -- the first row refuses: both go on
        simp [ih, Nat.add_assoc, Nat.add_comm 1]
      · -- the first row fires: both end
        simp only [pure, EStateM.pure, EStateM.Result.ok.injEq, Except.ok.injEq, Bool.true_eq_false, reduceCtorEq,
          false_and, exists_false, or_false]
        constructor
        · rintro ⟨hb, hc⟩
          exact ⟨some (index, row), ⟨rfl, hc⟩, hb⟩
        · rintro ⟨_, ⟨⟨⟩, hc⟩, hb⟩
          exact ⟨hb, hc⟩

end Rows

/-! ## The choice of a row -/

section Choices

variable [Named σ] {t : RegionTable σ γ} {position : Nat} {active : σ} {e : Event} {c c' : Configuration σ γ δ}

theorem resolve_ok_iff {found : Option (Choice σ γ)} : t.resolve position active e c = .ok found c' ↔
    ∃ first, firstEnabled t.path active e 0 t.rows c = .ok (.ok first) c' ∧
      found = first.map fun (index, row) => ⟨position, active, index, row⟩ := by
  unfold resolve orFail
  simp only [bind_ok_iff]
  constructor
  · rintro ⟨first, c₁, ⟨outcome, c₂, hsearch, houtcome⟩, ⟨⟩⟩
    cases outcome with
    | ok first' =>
      cases houtcome
      exact ⟨first, hsearch, rfl⟩
    | error cause => cases houtcome
  · rintro ⟨first, hsearch, rfl⟩
    exact ⟨first, c', ⟨.ok first, c', hsearch, rfl⟩, rfl⟩

/-- The failure of a guard. -/
def guardFailure (t : RegionTable σ γ) (active : σ) (e : Event) (cause : Cause) : Failure :=
  ⟨.guard, t.path, Named.name active, e.kind, cause⟩

theorem resolve_fails_iff {f : Failure} : t.resolve position active e c = .error (.error (.failure f)) c' ↔
    ∃ k cause c₁, FailsAt t.path active e 0 t.rows k cause c c₁ ∧ f = t.guardFailure active e cause ∧
      c' = { c₁ with world.exchange := c₁.world.exchange.note (.failed f) } := by
  have hsearch (c₁) : firstEnabled t.path active e 0 t.rows c ≠ .error (.error (.failure f)) c₁ :=
    (firstEnabled_faultless t.path active 0 t.rows).ne c c₁ f
  unfold resolve orFail
  simp only [bind_eq_error, hsearch, false_or]
  constructor
  · rintro (⟨outcome, c₁, hfound, hf⟩ | ⟨_, _, _, ⟨⟩⟩)
    cases outcome with
    | ok first => cases hf
    | error cause =>
      obtain ⟨k, hfails⟩ := firstEnabled_error_iff.1 hfound
      cases hf
      exact ⟨k, cause, c₁, hfails, rfl, rfl⟩
  · rintro ⟨k, cause, c₁, hfails, rfl, rfl⟩
    exact .inl ⟨.error cause, c₁, firstEnabled_error_iff.2 ⟨k, hfails⟩, rfl⟩

end Choices

end RegionTable

/-- **The dry run of a table.** It answers whether a row is chosen, unless the guard of a row fails. Then no row is
chosen, the choice ends with the failure, and the dry run answers for the rows behind the failing one. -/
theorem table_dry_run [DecidableEq σ] [Named σ] (t : RegionTable σ γ) (position : Nat) (active : σ) (e : Event)
    (c c' : Configuration σ γ δ) :
    (∀ b, t.accepts active e c = .ok b c' ↔
      (∃ found, t.resolve position active e c = .ok found c' ∧ found.isSome = b) ∨
        ∃ k cause c₁, RegionTable.FailsAt t.path active e 0 t.rows k cause c c₁ ∧
          RegionTable.anyEnabled t.path active e (k + 1) (t.rows.drop (k + 1)) c₁ = .ok b c') ∧
    ∀ f, t.resolve position active e c = .error (.error (.failure f)) c' ↔
      ∃ k cause c₁, RegionTable.FailsAt t.path active e 0 t.rows k cause c c₁ ∧
        f = t.guardFailure active e cause ∧
        c' = { c₁ with world.exchange := c₁.world.exchange.note (.failed f) } := by
  refine ⟨fun b => ?_, fun f => RegionTable.resolve_fails_iff⟩
  unfold RegionTable.accepts
  rw [RegionTable.anyEnabled_iff]
  simp only [Nat.zero_add]
  refine or_congr_left ⟨?_, ?_⟩
  · rintro ⟨first, hsearch, rfl⟩
    exact ⟨_, RegionTable.resolve_ok_iff.2 ⟨first, hsearch, rfl⟩, Option.isSome_map⟩
  · rintro ⟨found, hfound, rfl⟩
    obtain ⟨first, hsearch, rfl⟩ := RegionTable.resolve_ok_iff.1 hfound
    exact ⟨first, hsearch, Option.isSome_map.symm⟩

/-- The table of a light whose switch is worn: two rows brighten it when it is turned, and the guard of the first
fails. -/
def Lamp.wornTable : RegionTable Lamp Unit :=
  let worn : Transition Lamp Unit Nat :=
    { row dim (.state 1) turn with guard := some (.test fun _ => throw "worn") }
  ⟨"light", [worn, row dim (.state 1) turn], 0⟩

/-- The dry run accepts by the second row, and the choice of a row fails at the first. -/
theorem dry_run_passes_failing_guard :
    ¬((∃ c', Lamp.wornTable.accepts .dim Lamp.turn (Lamp.untold (.at 0)) = .ok true c') ↔
      ∃ choice c', Lamp.wornTable.resolve 0 .dim Lamp.turn (Lamp.untold (.at 0)) = .ok (some choice) c') ∧
    ∃ c', Lamp.wornTable.resolve 0 .dim Lamp.turn (Lamp.untold (.at 0)) =
      .error (.error (.failure ⟨.guard, "light", "dim", Lamp.turn.kind, "worn"⟩)) c' := by
  have hfails : ∃ c', Lamp.wornTable.resolve 0 .dim Lamp.turn (Lamp.untold (.at 0)) =
      .error (.error (.failure ⟨.guard, "light", "dim", Lamp.turn.kind, "worn"⟩)) c' := ⟨_, rfl⟩
  refine ⟨fun hsame => ?_, hfails⟩
  obtain ⟨choice, c', hchosen⟩ := hsame.1 ⟨_, rfl⟩
  obtain ⟨c'', hfails⟩ := hfails
  rw [hfails] at hchosen
  cases hchosen

end Statechart
