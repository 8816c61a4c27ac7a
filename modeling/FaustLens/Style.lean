import FaustLens.Color

/-!
# Styles

Model of `Style` (`syntax::style`): `fg`, `rgb`, `with_fg`, `with_bold`, `with_italic`,
`is_default`.

A style is a foreground colour with two attributes. The default style leaves text as it is.
-/

namespace FaustLens

/-- How a piece of text is displayed. -/
structure Style where
  foreground : Color := .automatic
  bold : Bool := false
  italic : Bool := false
deriving DecidableEq, Repr, Inhabited

namespace Style

/-- The style that leaves text as it is. -/
def default : Style := {}

/-- A foreground colour without attributes. -/
def ofColor (c : Color) : Style := { foreground := c }

/-- A 24-bit foreground colour without attributes. -/
def ofRgb (red green blue : UInt8) : Style := ofColor (.rgb ⟨red, green, blue⟩)

/-- The style with another foreground. -/
def withForeground (s : Style) (c : Color) : Style := { s with foreground := c }

/-- The style in bold. -/
def withBold (s : Style) : Style := { s with bold := true }

/-- The style in italics. -/
def withItalic (s : Style) : Style := { s with italic := true }

/-- Whether the style leaves text as it is. -/
def isDefault (s : Style) : Bool := s == default

theorem isDefault_iff (s : Style) : s.isDefault = true ↔ s = default := by
  simp [isDefault]

end Style

end FaustLens
