import FaustLens.Category
import FaustLens.Text.Utf16

/-!
# Spans

Model of `Span` (`syntax::span`): `contains`, `len`, `is_empty`, `range`, `text`, `utf16_range`.
Where the last two panic there is no value.

A span is a byte range of a text together with a category. Its text exists exactly when its two
offsets are in order and fall between characters (`Text.slice?`), and then its UTF-16 range does too.
-/

namespace FaustLens

/-- A byte range with a category. -/
structure Span where
  start : Nat
  stop : Nat
  category : Category
deriving DecidableEq, Repr, Inhabited

namespace Span

/-- The bytes of the span. -/
def range (s : Span) : ByteRange := ⟨s.start, s.stop⟩

/-- Whether the span holds the byte at offset `pos`. -/
def contains (s : Span) (pos : Nat) : Bool := s.range.contains pos

/-- The number of bytes in the span. -/
def length (s : Span) : Nat := s.range.length

/-- Whether the span has no byte. -/
def isEmpty (s : Span) : Bool := s.range.isEmpty

/-- The part of the text that the span covers. -/
def text? (s : Span) (text : Text) : Option Text := text.slice? s.start s.stop

/-- The span's range in UTF-16 code units. -/
def utf16Range? (s : Span) (text : Text) : Option (Nat × Nat) := do
  let before ← text.slice? 0 s.start
  let part ← s.text? text
  return (Text.unitLength before, Text.unitLength before + Text.unitLength part)

end Span

end FaustLens
