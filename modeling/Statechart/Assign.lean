/-!
# Assignments to keys

Finite maps as lists of pairs without double keys, read with `List.lookup`.

* `assign` : gives a key a value, in place if the key is there;
* `lookup_assign_self`, `lookup_assign_of_ne`.
-/

set_option autoImplicit false

namespace Statechart

variable {κ ν : Type} [BEq κ]

/-- Gives `k` the value `v`. -/
def assign (k : κ) (v : ν) : List (κ × ν) → List (κ × ν)
  | [] => [(k, v)]
  | (k', v') :: rest => if k == k' then (k', v) :: rest else (k', v') :: assign k v rest

@[simp] theorem lookup_assign_self [LawfulBEq κ] (k : κ) (v : ν) :
    ∀ l : List (κ × ν), (assign k v l).lookup k = some v
  | [] => by simp [assign]
  | (k', v') :: rest => by
    cases h : k == k' <;> simp [assign, List.lookup_cons, h, lookup_assign_self k v rest]

theorem lookup_assign_of_ne [LawfulBEq κ] {k k' : κ} (h : k' ≠ k) (v : ν) :
    ∀ l : List (κ × ν), (assign k v l).lookup k' = l.lookup k'
  | [] => by simp [assign, List.lookup_cons, beq_eq_false_iff_ne.2 h]
  | (k'', v'') :: rest => by
    cases h' : k == k''
    · simp [assign, List.lookup_cons, h', lookup_assign_of_ne h v rest]
    · have := beq_iff_eq.1 h'
      subst this
      simp [assign, List.lookup_cons, beq_eq_false_iff_ne.2 h]

end Statechart
