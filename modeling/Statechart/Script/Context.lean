import Statechart.Assign
import Statechart.Document
import Statechart.Transition

/-!
# States and contexts of scripts

* `StateId` : states with a name and a tag;
* `Context` : variables with 64-bit values and a log of lines, and whether the callbacks have a handle
  to raise events through.
-/

set_option autoImplicit false

namespace Statechart.Script

/-- A state of a scripted machine. Messages show the name alone. -/
structure StateId where
  name : String
  tag : Int := 0
deriving DecidableEq, Repr

instance : Named StateId := ⟨StateId.name⟩

namespace StateId

/-- How log lines show a state. -/
def shown (s : StateId) : String := if s.tag = 0 then s.name else s.name ++ "#" ++ toString s.tag

def toDocument (s : StateId) : Document := .record [("name", .text s.name), ("tag", .integer s.tag)]

def read? (d : Document) : Option StateId := do
  let [name, tag] ← d.allParts? ["name", "tag"] | none
  return ⟨← name.text?, ← tag.integer?⟩

end StateId

/-- Values stay within the signed 64-bit range; sums outside it are cut off at its ends. -/
def saturate (n : Int) : Int :=
  if n < -Document.signedBound then -Document.signedBound
  else if Document.signedBound ≤ n then Document.signedBound - 1
  else n

/-- The context of a scripted machine. -/
structure Context where
  vars : List (String × Int) := []
  log : Array String := #[]
  hasHandle : Bool := false
  /-- How often the failure hook was called. -/
  failures : Nat := 0

namespace Context

/-- The value of a variable, 0 if it was never set. -/
def var (c : Context) (v : String) : Int := (c.vars.lookup v).getD 0

def setVar (c : Context) (v : String) (k : Int) : Context := { c with vars := assign v k c.vars }

def addVar (c : Context) (v : String) (k : Int) : Context := c.setVar v (saturate (c.var v + k))

def append (c : Context) (line : String) : Context := { c with log := c.log.push line }

def clearLog (c : Context) : Context := { c with log := #[] }

end Context

end Statechart.Script
