import FaustLens.Pattern.Match
import FaustLens.Pattern.Reader

/-!
# Compiling patterns

Stands for `Regex::new` of the library `regex`, which refuses a pattern if its automaton takes more
than 10 MiB.

A pattern is accepted only if the automaton that it describes stays within a limit of memory.
`Pattern.weight` estimates the bytes of that automaton: a state takes 32 bytes, a character takes
one state for each of its UTF-8 bytes, a set of ASCII characters takes two states and 8 bytes for
each run of them, a large class takes tens of kilobytes, and a counted repetition takes its body as
often as it counts. `Pattern.ofText?` reads a pattern and applies the limit.
-/

namespace FaustLens

/-- The bytes that one automaton state takes. -/
def stateBytes : Nat := 32

/-- The bytes that one way out of an automaton state with several takes. -/
def edgeBytes : Nat := 8

/-- The estimated bytes of the automaton for one character of a general category. -/
def Unicode.GeneralCategory.weight : GeneralCategory → Nat
  | uppercaseLetter | lowercaseLetter => 27000
  | otherLetter => 34500
  | nonspacingMark => 19700
  | spacingMark => 10400
  | otherPunctuation => 11300
  | otherSymbol => 13300
  | unassigned => 42500
  | modifierLetter | decimalNumber | otherNumber => 5200
  | openPunctuation | closePunctuation => 3600
  | mathSymbol => 4200
  | currencySymbol | modifierSymbol | format => 1900
  | letterNumber | dashPunctuation => 1300
  | _ => 500

namespace CharSet

/-- Whether the set's shape shows that it holds ASCII characters only. The long s and the Kelvin
sign differ from ASCII letters in case only. -/
def isAscii : CharSet → Bool
  | empty => true
  | range _ hi => Unicode.isAscii hi
  | union a b => isAscii a && isAscii b
  | inter a b => isAscii a || isAscii b
  | folded a => isAscii a && !(a.contains 'k' || a.contains 'K' || a.contains 's' || a.contains 'S')
  | asciiFolded a => isAscii a
  | _ => false

/-- The number of runs of ASCII characters in the set. -/
def asciiRuns (s : CharSet) : Nat :=
  (List.range 128).countP fun n =>
    s.contains (Char.ofNat n) && (n == 0 || !s.contains (Char.ofNat (n - 1)))

/-- The estimated bytes of the automaton for one character of a set. -/
def weight : CharSet → Nat
  | empty => stateBytes
  | range lo hi =>
    if lo = hi then stateBytes * lo.utf8Size
    else if Unicode.isAscii hi then 2 * stateBytes + edgeBytes
    else 300
  | word => 50300
  | digit => 5200
  | space => 700
  | alphabetic => 47500
  | categories gs => min 50000 (gs.map Unicode.GeneralCategory.weight).sum
  | table t => 2 * stateBytes * (t.runs.size + 1)
  | union a b =>
    if a.isAscii && b.isAscii then 2 * stateBytes + edgeBytes * asciiRuns (union a b)
    else weight a + weight b
  | inter a b =>
    if a.isAscii || b.isAscii then 2 * stateBytes + edgeBytes * asciiRuns (inter a b)
    else weight a + weight b
  | compl a => if a.isAscii then 1000 else weight a + 1000
  | folded a =>
    if isAscii (folded a) then 2 * stateBytes + edgeBytes * asciiRuns (folded a)
    else weight a + 200
  | asciiFolded a =>
    if a.isAscii then 2 * stateBytes + edgeBytes * asciiRuns (asciiFolded a) else weight a

end CharSet

namespace Pattern

/-- The bytes of a state with two ways out. -/
def forkBytes : Nat := stateBytes + edgeBytes

/-- The estimated bytes of the automaton for a pattern. -/
def weight : Pattern → Nat
  | empty => stateBytes
  | one s => s.weight
  | assert _ => stateBytes
  | capture _ p => weight p + 2 * stateBytes
  | cat a b => weight a + weight b
  | alt a b => weight a + weight b + stateBytes
  | repeated p least none _ => max least 1 * weight p + forkBytes
  | repeated p least (some m) _ =>
    if least = m then least * weight p
    else least * weight p + (m - least) * (weight p + forkBytes) + stateBytes

/-- The greatest weight of an accepted pattern: ten mebibytes. -/
def maxWeight : Nat := 10 * 1024 * 1024

/-- The pattern that a text describes; none if the text is malformed or the pattern too large. -/
def ofText? (text : String) : Option Pattern := do
  let e ← Expr.read? text.toList
  let p ← e.toPattern?
  if p.weight ≤ maxWeight then some p else none

end Pattern

end FaustLens
