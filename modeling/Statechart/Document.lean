/-!
# Documents

Values as they are exchanged with the outside: null, truth values, numbers, text, lists and records.

* `Document` and the readers `bool?`, `text?`, `natural?`, `integer?`, `list?`;
* `Document.parts?` : a structure is written as a record, whose unknown fields are passed over, or as
  the list of its fields in order.
-/

set_option autoImplicit false

namespace Statechart

/-- A structured value. Numbers with a fractional part are told apart but not kept. -/
inductive Document where
  | null
  | bool (b : Bool)
  | integer (n : Int)
  | fraction
  | text (s : String)
  | list (items : List Document)
  | record (fields : List (String × Document))
deriving Inhabited

namespace Document

/-- The least number past the unsigned 64-bit range. -/
def wordBound : Nat := 18446744073709551616

/-- The least number past the signed 64-bit range. -/
def signedBound : Int := 9223372036854775808

def bool? : Document → Option Bool
  | bool b => some b
  | _ => none

def text? : Document → Option String
  | text s => some s
  | _ => none

/-- An unsigned 64-bit number. -/
def natural? : Document → Option Nat
  | integer (.ofNat n) => if n < wordBound then some n else none
  | _ => none

/-- A signed 64-bit number. -/
def integer? : Document → Option Int
  | integer n => if -signedBound ≤ n ∧ n < signedBound then some n else none
  | _ => none

def list? : Document → Option (List Document)
  | list items => some items
  | _ => none

/-- Null reads as absence, all else as `read?` has it. -/
def nullable? {α : Type} (read? : Document → Option α) : Document → Option (Option α)
  | null => some none
  | d => (read? d).map some

/-- The parts of a structure with the given field names, `none` for a part that is not given. A list
may not be longer than the structure. -/
def parts? (names : List String) : Document → Option (List (Option Document))
  | record fields => some (names.map fun name => fields.lookup name)
  | list items =>
    if items.length ≤ names.length then some ((List.range names.length).map (items[·]?)) else none
  | _ => none

/-- The parts of a structure all of whose fields are required. -/
def allParts? (names : List String) (d : Document) : Option (List Document) := do
  (← d.parts? names).mapM id

end Document

end Statechart
