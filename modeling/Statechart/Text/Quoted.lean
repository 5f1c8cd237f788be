import Statechart.Text.Extending
import Statechart.Text.Unprinted

/-!
# Quoted text

* `quote` : a text between double quotes, in which quotes, backslashes and characters that do not
  print on their own are escaped.
-/

set_option autoImplicit false

namespace Statechart.Text

/-- The number of a character in the least number of hexadecimal digits. -/
def hex (c : Char) : String := String.ofList (Nat.toDigits 16 c.toNat)

/-- One character inside quotes. -/
def escape (c : Char) : String :=
  if c = '"' then "\\\""
  else if c = '\\' then "\\\\"
  else if c = '\n' then "\\n"
  else if c = '\r' then "\\r"
  else if c = '\t' then "\\t"
  else if c.toNat = 0 then "\\0"
  else if isUnprinted c || isExtending c then "\\u\x7b" ++ hex c ++ "\x7d"
  else String.singleton c

def quote (s : String) : String := "\"" ++ String.join (s.toList.map escape) ++ "\""

end Statechart.Text
