import Statechart.Region.Table

/-!
# What is active

* `Region.isRunning`, `Region.isActive` : whether a region runs, and whether a state is active in it or
  below it;
* `Region.activeStates` : the active states of a region, outer ones first.
-/

set_option autoImplicit false

namespace Statechart

variable {σ γ δ : Type}

/-- Whether a region with this marking was started and not stopped since. -/
def Marking.isRunning (m : Marking δ) : Bool := m.active ≠ .stopped

mutual

/-- Whether a state is active in a region or below it. -/
def Region.isActive [DecidableEq σ] (s : σ) : BuiltRegion σ γ δ → Marking δ → Bool
  | ⟨_, nodes⟩, m =>
    match m.active with
    | .at i => Node.isActiveAt s i nodes i m
    | _ => false

/-- Whether `s` is the state that is `n` places on in a list, or active below it. -/
def Node.isActiveAt [DecidableEq σ] (s : σ) (position : Nat) :
    List (BuiltNode σ γ δ) → Nat → Marking δ → Bool
  | [], _, _ => false
  | node :: _, 0, m => node.hasActive s position m
  | _ :: nodes, n + 1, m => Node.isActiveAt s position nodes n m

/-- Whether `s` is the given active state or active below it. -/
def Node.hasActive [DecidableEq σ] (s : σ) (position : Nat) : BuiltNode σ γ δ → Marking δ → Bool
  | ⟨unit, regions⟩, m => unit.id = s || Region.anyActive s position 0 regions m

/-- Whether `s` is active in one of the regions of the state at a position. -/
def Region.anyActive [DecidableEq σ] (s : σ) (position index : Nat) :
    List (BuiltRegion σ γ δ) → Marking δ → Bool
  | [], _ => false
  | r :: rs, m => r.isActive s (m.child (position, index)) || Region.anyActive s position (index + 1) rs m

end

theorem Node.isActiveAt_eq [DecidableEq σ] (s : σ) (position : Nat) :
    ∀ (nodes : List (BuiltNode σ γ δ)) (n : Nat) (m : Marking δ),
      Node.isActiveAt s position nodes n m =
        (nodes[n]?).elim false fun node => node.hasActive s position m
  | [], _, _ => rfl
  | _ :: _, 0, _ => rfl
  | _ :: nodes, n + 1, m => Node.isActiveAt_eq s position nodes n m

mutual

/-- The active states of a region, each composite before those inside it. -/
def Region.activeStates : BuiltRegion σ γ δ → Marking δ → List σ
  | ⟨_, nodes⟩, m =>
    match m.active with
    | .at i => Node.activeStatesAt i nodes i m
    | _ => []

/-- The active states at and below the state that is `n` places on in a list. -/
def Node.activeStatesAt (position : Nat) : List (BuiltNode σ γ δ) → Nat → Marking δ → List σ
  | [], _, _ => []
  | node :: _, 0, m => node.activeStates position m
  | _ :: nodes, n + 1, m => Node.activeStatesAt position nodes n m

/-- The given active state and those below it. -/
def Node.activeStates (position : Nat) : BuiltNode σ γ δ → Marking δ → List σ
  | ⟨unit, regions⟩, m => unit.id :: Region.allActiveStates position 0 regions m

/-- The active states of the regions of the state at a position, in the order of the regions. -/
def Region.allActiveStates (position index : Nat) : List (BuiltRegion σ γ δ) → Marking δ → List σ
  | [], _ => []
  | r :: rs, m =>
    r.activeStates (m.child (position, index)) ++ Region.allActiveStates position (index + 1) rs m

end

theorem Node.activeStatesAt_eq (position : Nat) :
    ∀ (nodes : List (BuiltNode σ γ δ)) (n : Nat) (m : Marking δ),
      Node.activeStatesAt position nodes n m =
        (nodes[n]?).elim [] fun node => node.activeStates position m
  | [], _, _ => rfl
  | _ :: _, 0, _ => rfl
  | _ :: nodes, n + 1, m => Node.activeStatesAt_eq position nodes n m

theorem Node.activeStates_eq (position : Nat) (n : BuiltNode σ γ δ) (m : Marking δ) :
    n.activeStates position m = n.data.id :: Region.allActiveStates position 0 n.regions m := by
  obtain ⟨unit, regions⟩ := n
  rfl

theorem Region.mem_allActiveStates {position : Nat} {m : Marking δ} {s : σ} :
    ∀ {index : Nat} {rs : List (BuiltRegion σ γ δ)}, s ∈ Region.allActiveStates position index rs m ↔
      ∃ (j : Nat) (r : BuiltRegion σ γ δ), rs[j]? = some r ∧
        s ∈ r.activeStates (m.child (position, index + j))
  | _, [] => by simp [Region.allActiveStates]
  | index, r :: rs => by
    rw [Region.allActiveStates, List.mem_append, Region.mem_allActiveStates]
    constructor
    · rintro (h | ⟨j, r', hr', h⟩)
      · exact ⟨0, r, rfl, h⟩
      · exact ⟨j + 1, r', hr', by rwa [show index + (j + 1) = index + 1 + j by omega]⟩
    · rintro ⟨j, r', hr', h⟩
      cases j with
      | zero =>
        obtain rfl : r = r' := Option.some.inj hr'
        exact .inl h
      | succ j => exact .inr ⟨j, r', hr', by rwa [show index + 1 + j = index + (j + 1) by omega]⟩

end Statechart
