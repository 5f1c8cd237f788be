import Statechart.Event

/-!
# Callbacks

A user's callback is a finite program over a state `κ` of its own. It may read and change that
state, raise events and see whether they were taken, and it may panic; it can touch nothing else.

* `Course` : what a callback does from one state on, as a tree that branches on receipts;
* `Callback` : a course for each state it may be called in, with its monad
  (`get`, `set`, `raise`, `panic`) and the monad laws;
* `Fallible` : callbacks that may report a cause instead of a value;
* `Callback.within` : a callback on a part of a larger state.
-/

set_option autoImplicit false

namespace Statechart

/-- The answer to an event that was offered to a queue. -/
inductive Receipt where
  | queued
  | refused (capacity : Nat)
deriving DecidableEq, Repr

/-- The course of a call: it ends with a state and a value, or in a panic, or it raises an event
and goes on according to the receipt. -/
inductive Course (κ α : Type) where
  | done (state : κ) (value : α)
  | panic (state : κ) (message : String)
  | raise (event : Event) (next : Receipt → Course κ α)

namespace Course

variable {κ κ' α β : Type}

/-- Goes on with `f` where the course ends normally. -/
def bind (f : α → κ → Course κ β) : Course κ α → Course κ β
  | done s a => f a s
  | panic s m => panic s m
  | raise e next => raise e fun r => (next r).bind f

/-- The same course on another state. -/
def mapState (f : κ → κ') : Course κ α → Course κ' α
  | done s a => done (f s) a
  | panic s m => panic (f s) m
  | raise e next => raise e fun r => (next r).mapState f

theorem bind_done (x : Course κ α) : x.bind (fun a s => done s a) = x := by
  induction x with
  | done => rfl
  | panic => rfl
  | raise e next ih => simp only [bind, ih]

theorem bind_bind {β' : Type} (f : α → κ → Course κ β) (g : β → κ → Course κ β') (x : Course κ α) :
    (x.bind f).bind g = x.bind fun a s => (f a s).bind g := by
  induction x with
  | done => rfl
  | panic => rfl
  | raise e next ih => simp only [bind, ih]

end Course

/-- A callback over a state `κ` with a result in `α`. -/
def Callback (κ α : Type) : Type := κ → Course κ α

namespace Callback

variable {κ ι α β : Type}

instance : Monad (Callback κ) where
  pure a := fun s => .done s a
  bind x f := fun s => (x s).bind fun a => f a

theorem pure_apply (a : α) (s : κ) : (pure a : Callback κ α) s = .done s a := rfl

theorem bind_apply (x : Callback κ α) (f : α → Callback κ β) (s : κ) :
    (x >>= f) s = (x s).bind fun a => f a := rfl

instance : LawfulMonad (Callback κ) :=
  LawfulMonad.mk' _
    (fun x => funext fun s => Course.bind_done (x s))
    (fun _ _ => rfl)
    (fun x f g => funext fun s => Course.bind_bind (fun a => f a) (fun b => g b) (x s))

/-- Reads the state. -/
def get : Callback κ κ := fun s => .done s s

/-- Replaces the state. -/
def set (s : κ) : Callback κ Unit := fun _ => .done s ()

def modify (f : κ → κ) : Callback κ Unit := fun s => .done (f s) ()

/-- Offers an event to the machine's queue. -/
def raise (e : Event) : Callback κ Receipt := fun s => .raise e fun r => .done s r

def panic (message : String) : Callback κ α := fun s => .panic s message

/-- A callback on a part of a larger state: `part` reads it, `put` writes it back. -/
def within (part : ι → κ) (put : κ → ι → ι) (x : Callback κ α) : Callback ι α :=
  fun s => (x (part s)).mapState fun k => put k s

end Callback

/-- A callback that may report a cause of failure. -/
abbrev Fallible (κ α : Type) := ExceptT Cause (Callback κ) α

end Statechart
