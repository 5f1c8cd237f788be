import Statechart.Assign

/-!
# Markings

The changing part of a region: which of its states is active, the local data of its states, and the
markings of the regions that its states own. What was never assigned is as in a region that was never
started.

* `Active`, `Marking`, `Marking.fresh`;
* `Marking.child`, `Marking.setChild` : the marking of region `k.2` of state `k.1`;
* `Marking.data`, `Marking.setData` : the local data of a state.
-/

set_option autoImplicit false

namespace Statechart

/-- What is active in a region. -/
inductive Active where
  | stopped
  /-- The state at a position of the region's list of states. -/
  | at (position : Nat)
  | final
deriving DecidableEq, Repr

/-- The changing part of a region whose states keep local data in `δ`. -/
inductive Marking (δ : Type) where
  | mk (active : Active) (locals : List (Nat × δ)) (children : List ((Nat × Nat) × Marking δ))

namespace Marking

variable {δ : Type}

/-- The marking of a region that was never started. -/
def fresh : Marking δ := ⟨.stopped, [], []⟩

def active : Marking δ → Active
  | ⟨a, _, _⟩ => a

def locals : Marking δ → List (Nat × δ)
  | ⟨_, l, _⟩ => l

def children : Marking δ → List ((Nat × Nat) × Marking δ)
  | ⟨_, _, c⟩ => c

def setActive (a : Active) (m : Marking δ) : Marking δ := ⟨a, m.locals, m.children⟩

/-- The local data of the state at a position, `initial` if it was never changed. -/
def data (m : Marking δ) (position : Nat) (initial : δ) : δ :=
  (m.locals.lookup position).getD initial

def setData (m : Marking δ) (position : Nat) (d : δ) : Marking δ :=
  ⟨m.active, assign position d m.locals, m.children⟩

/-- The marking of region `k.2` of the state at position `k.1`. -/
def child (m : Marking δ) (k : Nat × Nat) : Marking δ := (m.children.lookup k).getD fresh

def setChild (m : Marking δ) (k : Nat × Nat) (c : Marking δ) : Marking δ :=
  ⟨m.active, m.locals, assign k c m.children⟩

@[simp] theorem active_fresh : (fresh : Marking δ).active = .stopped := rfl

@[simp] theorem child_fresh (k : Nat × Nat) : (fresh : Marking δ).child k = fresh := rfl

@[simp] theorem active_setActive (a : Active) (m : Marking δ) : (m.setActive a).active = a := rfl

@[simp] theorem child_setActive (a : Active) (m : Marking δ) (k : Nat × Nat) :
    (m.setActive a).child k = m.child k := rfl

@[simp] theorem data_setActive (a : Active) (m : Marking δ) (i : Nat) (d : δ) :
    (m.setActive a).data i d = m.data i d := rfl

@[simp] theorem active_setChild (m : Marking δ) (k : Nat × Nat) (c : Marking δ) :
    (m.setChild k c).active = m.active := rfl

@[simp] theorem data_setChild (m : Marking δ) (k : Nat × Nat) (c : Marking δ) (i : Nat) (d : δ) :
    (m.setChild k c).data i d = m.data i d := rfl

@[simp] theorem child_setChild_self (m : Marking δ) (k : Nat × Nat) (c : Marking δ) :
    (m.setChild k c).child k = c := by
  simp only [child, show (m.setChild k c).children = assign k c m.children from rfl, lookup_assign_self,
    Option.getD_some]

theorem child_setChild_of_ne {k k' : Nat × Nat} (h : k' ≠ k) (m : Marking δ) (c : Marking δ) :
    (m.setChild k c).child k' = m.child k' := by
  simp only [child, show (m.setChild k c).children = assign k c m.children from rfl,
    lookup_assign_of_ne h]

@[simp] theorem active_setData (m : Marking δ) (i : Nat) (d : δ) :
    (m.setData i d).active = m.active := rfl

@[simp] theorem child_setData (m : Marking δ) (i : Nat) (d : δ) (k : Nat × Nat) :
    (m.setData i d).child k = m.child k := rfl

@[simp] theorem data_setData_self (m : Marking δ) (i : Nat) (d d' : δ) :
    (m.setData i d).data i d' = d := by
  simp only [data, show (m.setData i d).locals = assign i d m.locals from rfl, lookup_assign_self,
    Option.getD_some]

theorem data_setData_of_ne {i j : Nat} (h : j ≠ i) (m : Marking δ) (d d' : δ) :
    (m.setData i d).data j d' = m.data j d' := by
  simp only [data, show (m.setData i d).locals = assign i d m.locals from rfl, lookup_assign_of_ne h]

end Marking

end Statechart
