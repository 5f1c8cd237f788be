import Statechart.Text.Ranges

/-!
# Blank characters

* `isBlank` : the characters with the Unicode property `White_Space`;
* `dropBlanks` : a text without its leading blanks.
-/

set_option autoImplicit false

namespace Statechart.Text

/-- The ranges of code points with the property `White_Space`. -/
def blankRanges : List (Nat × Nat) :=
  [(0x9, 0xD), (0x20, 0x20), (0x85, 0x85), (0xA0, 0xA0), (0x1680, 0x1680), (0x2000, 0x200A),
    (0x2028, 0x2029), (0x202F, 0x202F), (0x205F, 0x205F), (0x3000, 0x3000)]

def isBlank (c : Char) : Bool := inRanges blankRanges c

def dropBlanks (cs : List Char) : List Char := cs.dropWhile isBlank

end Statechart.Text
