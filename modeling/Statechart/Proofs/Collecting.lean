import Statechart.Proofs.Siblings

/-!
# Lists along the active states

Many lists about a configuration are put together along its active states: what the regions of a state come to is
concatenated and handed on to the state.

* `Region.collect f` : `f` makes a list of an active state, given what it makes of the regions below that state;
* `Region.collect_at`, `Region.collect_of_at`, `Region.collect_of_resting` : the list of a region by what is active in
  it.
-/

set_option autoImplicit false

namespace Statechart

variable {σ γ δ α : Type}

section Collecting

variable (f : RegionTable σ γ → Nat → StateUnit σ γ δ → Marking δ → List α → List α)

mutual

/-- What `f` makes of the active state of a region; nothing where no state is active. -/
def Region.collect : BuiltRegion σ γ δ → Marking δ → List α
  | ⟨table, nodes⟩, m =>
    match m.active with
    | .at i => Node.collectAt table i nodes i m
    | _ => []

/-- What `f` makes of the state that is `n` places on in a list. -/
def Node.collectAt (table : RegionTable σ γ) (position : Nat) : List (BuiltNode σ γ δ) → Nat → Marking δ → List α
  | [], _, _ => []
  | node :: _, 0, m => node.collect table position m
  | _ :: nodes, n + 1, m => Node.collectAt table position nodes n m

/-- What `f` makes of a state, given what it makes of the regions of that state. -/
def Node.collect (table : RegionTable σ γ) (position : Nat) : BuiltNode σ γ δ → Marking δ → List α
  | ⟨unit, regions⟩, m => f table position unit m (Region.collectAll position 0 regions m)

/-- What `f` makes of regions of the state at a position, in the order of the regions. -/
def Region.collectAll (position index : Nat) : List (BuiltRegion σ γ δ) → Marking δ → List α
  | [], _ => []
  | r :: rs, m => r.collect (m.child (position, index)) ++ Region.collectAll position (index + 1) rs m

end

/-- What `f` makes of the regions of the state at a position. -/
def Node.inside (position : Nat) (n : BuiltNode σ γ δ) (m : Marking δ) : List α :=
  (Region.members position 0 n.regions m).flatMap fun p => p.1.collect f p.2

theorem Region.collectAll_eq (position : Nat) :
    ∀ (index : Nat) (rs : List (BuiltRegion σ γ δ)) (m : Marking δ),
      Region.collectAll f position index rs m =
        (Region.members position index rs m).flatMap fun p => p.1.collect f p.2
  | _, [], _ => rfl
  | index, r :: rs, m => by
    rw [Region.collectAll, Region.collectAll_eq position (index + 1) rs m, Region.members, List.flatMap_cons]

theorem Node.collectAt_eq (table : RegionTable σ γ) (position : Nat) :
    ∀ (nodes : List (BuiltNode σ γ δ)) (n : Nat) (m : Marking δ),
      Node.collectAt f table position nodes n m =
        (nodes[n]?).elim [] fun node => f table position node.data m (node.inside f position m)
  | [], _, _ => rfl
  | ⟨unit, regions⟩ :: _, 0, m => by
    rw [Node.collectAt, Node.collect, Region.collectAll_eq]
    rfl
  | _ :: nodes, n + 1, m => Node.collectAt_eq table position nodes n m

variable {f} {r : BuiltRegion σ γ δ} {m : Marking δ} {i : Nat}

theorem Region.collect_at (hactive : m.active = .at i) :
    r.collect f m = (r.nodes[i]?).elim [] fun n => f r.data i n.data m (n.inside f i m) := by
  obtain ⟨table, nodes⟩ := r
  rw [Region.collect, hactive]
  exact Node.collectAt_eq f table i nodes i m

theorem Region.collect_of_at {n : BuiltNode σ γ δ} (hn : r.nodes[i]? = some n) (hactive : m.active = .at i) :
    r.collect f m = f r.data i n.data m (n.inside f i m) := by
  rw [Region.collect_at hactive, hn, Option.elim_some]

theorem Region.collect_of_resting (h : ∀ i n, m.active = .at i → r.nodes[i]? ≠ some n) : r.collect f m = [] := by
  cases hactive : m.active with
  | «at» i =>
    rw [Region.collect_at hactive, Option.eq_none_iff_forall_ne_some.2 fun n => h i n hactive, Option.elim_none]
  | stopped =>
    obtain ⟨table, nodes⟩ := r
    rw [Region.collect, hactive]
  | final =>
    obtain ⟨table, nodes⟩ := r
    rw [Region.collect, hactive]

/-- What is inside a state depends on the markings of its regions alone. -/
theorem Node.inside_congr {position : Nat} {n : BuiltNode σ γ δ} {m m' : Marking δ}
    (h : ∀ k, m'.child k = m.child k) : n.inside f position m' = n.inside f position m := by
  unfold Node.inside
  rw [Region.members_congr fun j _ => h (position, j)]

end Collecting

end Statechart
