import Statechart.Document
import Statechart.Instant.Text

/-!
# Histories

The state-to-state transitions of all regions of a machine, oldest first.

* `History.Record`, `History.record`;
* `History.inRegion`, `History.path` : the records of one region and the states they lead through;
* `History.duration` : the time from the first record to the last;
* `History.toDocument`, `History.read?`.
-/

set_option autoImplicit false

namespace Statechart

/-- One completed transition between two states. -/
structure History.Record (σ : Type) where
  region : String
  source : σ
  target : σ
  event : String
  time : Instant
deriving DecidableEq, Repr

/-- The records of a machine in the order in which the transitions completed. -/
structure History (σ : Type) where
  records : Array (History.Record σ) := #[]

namespace History

variable {σ : Type}

def empty : History σ := {}

def record (h : History σ) (r : Record σ) : History σ := { h with records := h.records.push r }

def toList (h : History σ) : List (Record σ) := h.records.toList

@[simp] theorem toList_empty : (empty : History σ).toList = [] := rfl

@[simp] theorem toList_record (h : History σ) (r : Record σ) :
    (h.record r).toList = h.toList ++ [r] := by simp [record, toList]

/-- The records of one region. -/
def inRegion (h : History σ) (region : String) : List (Record σ) :=
  h.toList.filter (·.region = region)

/-- The states a list of records leads through: where the first one starts, then every target. -/
def statesOf : List (Record σ) → List σ
  | [] => []
  | r :: rs => r.source :: r.target :: rs.map (·.target)

/-- The states that one region went through. -/
def path (h : History σ) (region : String) : List σ := statesOf (h.inRegion region)

/-- The nanoseconds from the first record to the last, if time did not run backwards. -/
def duration (h : History σ) : Option Nat := do
  let first ← h.toList.head?
  let last ← h.toList.getLast?
  match last.time.since first.time with
  | .ofNat n => some n
  | .negSucc _ => none

/-! ## Documents -/

def recordFields : List String := ["region", "from", "to", "event", "timestamp"]

def Record.toDocument (state : σ → Document) (r : Record σ) : Document :=
  .record [("region", .text r.region), ("from", state r.source), ("to", state r.target),
    ("event", .text r.event), ("timestamp", .text r.time.render)]

def Record.read? (state? : Document → Option σ) (d : Document) : Option (Record σ) := do
  let [region, source, target, event, time] ← d.allParts? recordFields | none
  return {
    region := ← region.text?
    source := ← state? source
    target := ← state? target
    event := ← event.text?
    time := ← Instant.read? (← time.text?) }

def toDocument (state : σ → Document) (h : History σ) : Document :=
  .record [("transitions", .list (h.toList.map (Record.toDocument state)))]

def read? (state? : Document → Option σ) (d : Document) : Option (History σ) := do
  let [transitions] ← d.allParts? ["transitions"] | none
  let records ← (← transitions.list?).mapM (Record.read? state?)
  return ⟨records.toArray⟩

end History

end Statechart
