import FaustLens.Unicode.CaseFolding
import FaustLens.Unicode.Property

/-!
# Character sets

Stands for the character classes of the library `regex`.

A `CharSet` describes a set of characters symbolically. `CharSet.contains` decides membership;
difference and symmetric difference are built from union, intersection and complement.

Results:
* `contains_single`, `contains_diff`, `contains_symmDiff`: membership in the derived sets.
-/

namespace FaustLens

/-- A set of characters. -/
inductive CharSet
  /-- No character. -/
  | empty
  /-- The characters from `lo` to `hi`. -/
  | range (lo hi : Char)
  /-- Word characters. -/
  | word
  /-- Decimal digits. -/
  | digit
  /-- White space. -/
  | space
  /-- Alphabetic characters. -/
  | alphabetic
  /-- The characters of some general categories. -/
  | categories (gs : List Unicode.GeneralCategory)
  /-- The characters of a table. -/
  | table (t : Unicode.RangeTable)
  | union (a b : CharSet)
  | inter (a b : CharSet)
  | compl (a : CharSet)
  /-- The characters that differ at most in case from one of `a`. -/
  | folded (a : CharSet)
  /-- The same among ASCII letters only. -/
  | asciiFolded (a : CharSet)
deriving Repr, Inhabited, DecidableEq

namespace CharSet

/-- The other case of an ASCII letter; any other character stays. -/
def otherAsciiCase (c : Char) : Char :=
  if c.isUpper then c.toLower else if c.isLower then c.toUpper else c

/-- Whether a character is in the set. -/
def contains : CharSet → Char → Bool
  | empty, _ => false
  | range lo hi, c => lo ≤ c && c ≤ hi
  | word, c => Unicode.isWord c
  | digit, c => Unicode.isDigit c
  | space, c => Unicode.isSpace c
  | alphabetic, c => Unicode.isAlphabetic c
  | categories gs, c => Unicode.inCategories gs c
  | table t, c => t.contains c.toNat
  | union a b, c => a.contains c || b.contains c
  | inter a b, c => a.contains c && b.contains c
  | compl a, c => !a.contains c
  | folded a, c => (Unicode.caseClass c).any a.contains
  | asciiFolded a, c => a.contains c || a.contains (otherAsciiCase c)

/-- The set of one character. -/
def single (c : Char) : CharSet := range c c

/-- The characters of `a` that are not in `b`. -/
def diff (a b : CharSet) : CharSet := inter a (compl b)

/-- The characters in exactly one of `a` and `b`. -/
def symmDiff (a b : CharSet) : CharSet := union (diff a b) (diff b a)

/-- Every character. -/
def all : CharSet := compl empty

/-- ASCII digits. -/
def asciiDigit : CharSet := range '0' '9'

/-- ASCII word characters. -/
def asciiWord : CharSet :=
  union (range '0' '9') (union (range 'A' 'Z') (union (single '_') (range 'a' 'z')))

/-- ASCII white space. -/
def asciiSpace : CharSet := union (range '\t' '\r') (single ' ')

/-- ASCII characters. -/
def ascii : CharSet := range '\x00' '\x7f'

@[simp] theorem contains_single (a c : Char) : (single a).contains c = (a == c) := by
  by_cases h : a = c
  · subst h
    simp [single, contains]
  · have hne : ¬ (a ≤ c ∧ c ≤ a) := fun hle => h (Char.le_antisymm hle.1 hle.2)
    simp only [single, contains, beq_eq_false_iff_ne.mpr h]
    simpa using hne

theorem contains_diff (a b : CharSet) (c : Char) :
    (diff a b).contains c = (a.contains c && !b.contains c) := rfl

theorem contains_symmDiff (a b : CharSet) (c : Char) :
    (symmDiff a b).contains c = (a.contains c != b.contains c) := by
  simp only [symmDiff, diff, contains]
  cases a.contains c <;> cases b.contains c <;> rfl

end CharSet

end FaustLens
