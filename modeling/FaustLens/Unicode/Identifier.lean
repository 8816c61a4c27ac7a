import FaustLens.Unicode.RangeTable

/-!
# Identifiers

What identifiers and the syntax around them consist of besides general categories, as range tables
of Unicode 17.
-/

namespace FaustLens.Unicode

/-- Characters that may begin an identifier and are neither letters nor letter numbers. -/
def otherIdStart : RangeTable := .ofText
  "1885-1886 2118 212E 309B-309C"

/-- Further characters that may continue an identifier. -/
def otherIdContinue : RangeTable := .ofText
  "B7 387 1369-1371 19DA 200C-200D 30FB FF65"

/-- Characters that may begin an identifier but not after compatibility normalisation. -/
def unstableIdStart : RangeTable := .ofText
  "37A E33 EB3 309B-309C FC5E-FC63 FDFA-FDFB FE70-FE7E/2 FF9E-FF9F"

/-- Characters that may continue an identifier but not after compatibility normalisation. -/
def unstableIdContinue : RangeTable := .ofText
  "37A 309B-309C FC5E-FC63 FDFA-FDFB FE70-FE7E/2"

/-- Characters reserved for syntax. -/
def patternSyntax : RangeTable := .ofText
  "21-2F 3A-40 5B-5E 60 7B-7E A1-A7 A9 AB-AC AE B0-B1 B6 BB BF D7 F7 2010-2027 2030-203E
  2041-2053 2055-205E 2190-245F 2500-2775 2794-2BFF 2E00-2E7F 3001-3003 3008-3020 3030
  FD3E-FD3F FE45-FE46"

/-- White space between parts of syntax. -/
def patternWhiteSpace : RangeTable := .ofText
  "9-D 20 85 200E-200F 2028-2029"

end FaustLens.Unicode
