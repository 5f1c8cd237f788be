import Statechart.Instant
import Statechart.Instant.Calendar
import Statechart.Text.Blank

/-!
# Written instants

Instants are written as date, `T`, time of day and `Z` (RFC 3339). Reading is lenient: blanks may
stand before numbers and separators, a space may replace the `T`, years may have a sign and more than
four digits, a fraction may be longer than nanoseconds, and any offset from UTC below a day is taken.

* `Instant.render`;
* `Instant.read?`.
-/

set_option autoImplicit false

namespace Statechart.Instant

open Text (isBlank dropBlanks)

/-! ## Writing -/

/-- A number with at least `width` digits. -/
def padded (width n : Nat) : String :=
  let digits := toString n
  String.ofList (List.replicate (width - digits.length) '0') ++ digits

def renderYear (y : Int) : String :=
  if 0 ≤ y && y ≤ 9999 then padded 4 y.toNat
  else (if y < 0 then "-" else "+") ++ padded 4 y.natAbs

/-- A fraction of a second with none, three, six or nine digits, as few as are exact. -/
def renderFraction (nanos : Nat) : String :=
  if nanos = 0 then ""
  else if nanos % 1000000 = 0 then "." ++ padded 3 (nanos / 1000000)
  else if nanos % 1000 = 0 then "." ++ padded 6 (nanos / 1000)
  else "." ++ padded 9 nanos

def render (t : Instant) : String :=
  let date := Date.ofDayNumber (t.seconds / secondsPerDay)
  let second := t.secondOfDay.toNat
  renderYear date.year ++ "-" ++ padded 2 date.month ++ "-" ++ padded 2 date.day ++ "T"
    ++ padded 2 (second / 3600) ++ ":" ++ padded 2 (second / 60 % 60) ++ ":"
    ++ padded 2 (second % 60 + t.nanos / nanosPerSecond)
    ++ renderFraction (t.nanos % nanosPerSecond) ++ "Z"

/-! ## Reading -/

namespace Reading

/-- A reader takes a value off the front of a text. -/
abbrev Reader (α : Type) := StateT (List Char) Option α

/-- The years that can be represented. -/
def yearInRange (y : Int) : Bool := -262143 ≤ y && y ≤ 262142

def digit? (c : Char) : Option Nat :=
  if '0' ≤ c && c ≤ '9' then some (c.toNat - '0'.toNat) else none

def blanks : Reader Unit := modify dropBlanks

/-- The given character, exactly. -/
def literal (c : Char) : Reader Unit := do
  let d :: rest ← get | failure
  if d = c then set rest else failure

/-- The leading digits, at most `most` of them. -/
def digits (most : Nat) : Reader (List Nat) := do
  let found := ((← get).take most |>.takeWhile fun c => (digit? c).isSome).filterMap digit?
  modify (·.drop found.length)
  return found

def ofDigits (ds : List Nat) : Nat := ds.foldl (fun n d => 10 * n + d) 0

/-- A number of at least one and at most `most` digits. -/
def number (most : Nat) : Reader Nat := do
  let ds ← digits most
  if ds.isEmpty then failure
  return ofDigits ds

/-- A number of up to two digits, after blanks. -/
def field : Reader Nat := do
  blanks
  number 2

/-- A year has at most four digits, or a sign and any number of them. -/
def year : Reader Int := do
  blanks
  match ← get with
  | '-' :: rest =>
    set rest
    return -(← number rest.length : Nat)
  | '+' :: rest =>
    set rest
    return (← number rest.length : Nat)
  | _ => return (← number 4 : Nat)

def date : Reader Date := do
  let y ← year
  blanks
  literal '-'
  let m ← field
  blanks
  literal '-'
  let d ← field
  return ⟨y, m, d⟩

/-- The fraction of a second in nanoseconds; further digits are passed over. -/
def fraction : Reader Nat := do
  match ← get with
  | '.' :: rest =>
    set rest
    let ds ← digits 9
    if ds.isEmpty then failure
    modify (·.dropWhile fun c => (digit? c).isSome)
    return ofDigits ds * Nat.pow 10 (9 - ds.length)
  | _ => return 0

/-- The second of the day with its nanoseconds. The second 60 is a leap second. -/
def timeOfDay : Reader (Nat × Nat) := do
  let hour ← field
  blanks
  literal ':'
  let minute ← field
  blanks
  literal ':'
  let second ← field
  let nanos ← fraction
  if 24 ≤ hour || 60 ≤ minute || 60 < second then failure
  if second = 60 then return (hour * 3600 + minute * 60 + 59, nanosPerSecond + nanos)
  return (hour * 3600 + minute * 60 + second, nanos)

/-- Two digits, exactly. -/
def twoDigits : Reader Nat := do
  let ds ← digits 2
  if ds.length < 2 then failure
  return ofDigits ds

/-- The seconds by which a local time is ahead of UTC. -/
def offset : Reader Int := do
  match ← get with
  | 'Z' :: rest | 'z' :: rest =>
    set rest
    return 0
  | c :: rest =>
    if (rest.take 2).map Char.toUpper = ['T', 'C'] && c.toUpper = 'U' then
      set (rest.drop 2)
      return 0
    let sign : Int ← if c = '+' then pure 1 else if c = '-' || c = '−' then pure (-1) else failure
    set rest
    let hours ← twoDigits
    modify (·.dropWhile fun c => c = ':' || isBlank c)
    let minutes ← twoDigits
    if 60 ≤ minutes || 24 * 60 ≤ hours * 60 + minutes then failure
    return sign * (hours * 3600 + minutes * 60 : Nat)
  | [] => failure

/-- A date, a time of day and an offset from UTC. -/
def instant : Reader Instant := do
  let d ← date
  let separator :: rest ← get | failure
  if separator != 'T' && separator != 't' && separator != ' ' then failure
  set rest
  let (second, nanos) ← timeOfDay
  blanks
  let ahead ← offset
  blanks
  if !d.isValid || !yearInRange d.year then failure
  let seconds := d.dayNumber * secondsPerDay + second - ahead
  if !yearInRange (Date.ofDayNumber (seconds / secondsPerDay)).year then failure
  return ⟨seconds, nanos⟩

end Reading

/-- Reads a whole text. -/
def read? (s : String) : Option Instant := do
  let (t, rest) ← Reading.instant s.toList
  if rest.isEmpty then some t else none

end Statechart.Instant
