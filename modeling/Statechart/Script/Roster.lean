import Statechart.Document

/-!
# Rosters

A roster declares a fixed set of states, each by an identifier and, if it differs, a display name.

* `Roster`, `Roster.all`, `Roster.read?`;
* `washing` : the phases of a wash cycle.
-/

set_option autoImplicit false

namespace Statechart.Script

/-- A state of a roster. It is serialized as its identifier. -/
structure Roster.Member where
  identifier : String
  display : String := identifier
deriving DecidableEq, Repr

/-- Fixed states in the order of their declaration. -/
abbrev Roster := List Roster.Member

namespace Roster

def Member.toDocument (m : Member) : Document := .text m.identifier

/-- A member is written as its identifier, or as a record of the identifier alone with nothing in it. -/
def read? (r : Roster) : Document → Option Member
  | .text s => r.find? (·.identifier = s)
  | .record [(s, .null)] => r.find? (·.identifier = s)
  | _ => none

end Roster

def washing : Roster :=
  [{ identifier := "Fill" }, { identifier := "Agitate", display := "agitating" },
    { identifier := "Drain" }, { identifier := "Spin", display := "spin cycle 🌀" }]

end Statechart.Script
