import FaustLens.Unicode.RangeTable

/-!
# Separators and other characters

The general categories of separators, controls, format and private-use characters, as range tables
of Unicode 17. What no table of a general category holds is unassigned.
-/

namespace FaustLens.Unicode

/-- Space separators. -/
def spaceSeparator : RangeTable := .ofText
  "20 A0 1680 2000-200A 202F 205F 3000"

/-- The line separator. -/
def lineSeparator : RangeTable := .ofText
  "2028"

/-- The paragraph separator. -/
def paragraphSeparator : RangeTable := .ofText
  "2029"

/-- Control characters. -/
def control : RangeTable := .ofText
  "0-1F 7F-9F"

/-- Format characters. -/
def format : RangeTable := .ofText
  "AD 600-605 61C 6DD 70F 890-891 8E2 180E 200B-200F 202A-202E 2060-2064 2066-206F FEFF
  FFF9-FFFB 110BD 110CD 13430-1343F 1BCA0-1BCA3 1D173-1D17A E0001 E0020-E007F"

/-- Private-use characters. -/
def privateUse : RangeTable := .ofText
  "E000-F8FF F0000-FFFFD 100000-10FFFD"

end FaustLens.Unicode
