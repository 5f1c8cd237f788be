import Statechart.Event
import Statechart.Text.Quoted

/-!
# The vocabulary of scripts

Scripts exchange a fixed set of events, each written by a label.

* `Word`, `vocabulary`, `word?` : labels, their kinds and the form of their argument;
* `Word.event` : the event that a word and an argument stand for;
* `number`, `shown`, `diagnostic?` : an event's number, and how scripts and diagnostics print it.
-/

set_option autoImplicit false

namespace Statechart.Script

/-- What an event of a word carries, which also fixes how it is printed. -/
inductive Form where
  /-- Nothing. -/
  | bare
  /-- A number in a field. -/
  | counted
  /-- A number alone. -/
  | number
  | text
  | failure
deriving DecidableEq, Repr

/-- A label for the events of one kind. -/
structure Word where
  label : String
  kind : EventKind
  form : Form
deriving DecidableEq, Repr

def vocabulary : List Word :=
  [⟨"Go", .signal "oracle::Go", .counted⟩, ⟨"Halt", .signal "oracle::Halt", .counted⟩,
    ⟨"Tick", .signal "oracle::Tick", .counted⟩, ⟨"Ping", .signal "oracle::Ping", .counted⟩,
    ⟨"Pong", .signal "oracle::Pong", .counted⟩, ⟨"Reset", .signal "oracle::Reset", .counted⟩,
    ⟨"Add", .signal "oracle::Add", .counted⟩, ⟨"Done", .signal "oracle::Done", .counted⟩,
    ⟨"Start", .start, .bare⟩, ⟨"Stop", .stop, .bare⟩,
    ⟨"U32", .signal "u32", .number⟩, ⟨"I64", .signal "i64", .number⟩,
    ⟨"Text", .signal "alloc::string::String", .text⟩, ⟨"Failure", .failure, .failure⟩]

/-- The word with the given label. -/
def word? (label : String) : Option Word := vocabulary.find? (·.label = label)

/-- The word for events of the given kind. -/
def wordOf? (k : EventKind) : Option Word := vocabulary.find? (·.kind = k)

/-- The labels whose kind a test accepts, in the order of the vocabulary. -/
def labelsWhere (p : EventKind → Bool) : List String :=
  (vocabulary.filter (p ·.kind)).map (·.label)

/-- What may be written next to a label. -/
structure Operand where
  number : Int := 0
  text : String := ""
  failure : Failure := ⟨.guard, "", "", .start, ""⟩

/-- The event of a word with an operand, of which it takes the part that fits its form. -/
def Word.event (w : Word) (operand : Operand) : Event :=
  match w.kind with
  | .start => .start
  | .stop => .stop
  | .completion => .completion
  | .failure => .failure operand.failure
  | .signal name =>
    match w.form with
    | .text => .signal name (.text operand.text)
    | .bare => .signal name .none
    | _ => .signal name (.number operand.number)

/-- The number that an event carries; other events count as 0. -/
def number : Event → Int
  | .signal _ (.number n) => n
  | _ => 0

/-- The label of an event's kind. -/
def label (e : Event) : String :=
  match wordOf? e.kind with
  | some w => w.label
  | none => if e.isCompletion then "Completion" else e.typeName

/-- How log lines show an event. -/
def shown (e : Event) : String :=
  match e with
  | .signal _ (.number n) => label e ++ "(" ++ toString n ++ ")"
  | .signal _ (.text s) => label e ++ "(" ++ s ++ ")"
  | .failure f => label e ++ "(" ++ f.message ++ ")"
  | _ => label e

/-- How diagnostics show an event; failures have no such form. -/
def diagnostic? (e : Event) : Option String :=
  match e with
  | .failure _ => none
  | .signal _ (.number n) =>
    match (wordOf? e.kind).map Word.form with
    | some .counted => some (label e ++ " \x7b n: " ++ toString n ++ " \x7d")
    | _ => some (toString n)
  | .signal _ (.text s) => some (Text.quote s)
  | _ => some (label e)

end Statechart.Script
