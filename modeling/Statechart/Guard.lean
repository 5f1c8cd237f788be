import Statechart.Callback

/-!
# Guards

A guard is a boolean formula over tests of the context and the event. Conjunction and disjunction
stop at the first operand that decides them; a test that fails ends the evaluation with its cause.

* `Guard` : the formulas; `Guard.check` evaluates one;
* `Guard.when`, `Guard.on` : tests that cannot fail, and tests of one kind of event.
-/

set_option autoImplicit false

namespace Statechart

/-- A formula over tests. -/
inductive Guard (γ : Type) where
  | test (p : Event → Fallible γ Bool)
  | and (a b : Guard γ)
  | or (a b : Guard γ)
  | xor (a b : Guard γ)
  | not (a : Guard γ)

namespace Guard

variable {γ : Type}

/-- A test that cannot fail. -/
def when (p : Event → Callback γ Bool) : Guard γ := test fun e => ExceptT.lift (p e)

/-- A test of the events of one kind; it is false for the others. -/
def on (k : EventKind) (p : Event → Callback γ Bool) : Guard γ :=
  when fun e => if e.kind = k then p e else pure false

/-- Evaluates a guard from left to right. -/
def check : Guard γ → Event → Fallible γ Bool
  | test p, e => p e
  | and a b, e => do if ← a.check e then b.check e else return false
  | or a b, e => do if ← a.check e then return true else b.check e
  | xor a b, e => do
    let x ← a.check e
    let y ← b.check e
    return x != y
  | not a, e => do return !(← a.check e)

end Guard

end Statechart
