/-!
# Colours

Model of `Color` (`syntax::style`): `parse`, `to_rgb`. Two hexadecimal digits are read as
`u8::from_str_radix` of the standard library reads them, which takes a plus sign too, and a name is
lowered as by `str::to_lowercase`.

A foreground colour is the terminal's default, one of the sixteen ANSI colours or a 24-bit colour.
`Color.parse?` reads a colour name (`bright-blue`, with either sign between the words and letters of
either case) or `#` and three pairs of hexadecimal digits. `Color.rgb?` gives the 24-bit value.

Results:
* `hexValue?_digitChar`: a hexadecimal digit has its value.
* `rgb?_eq_none_iff`: only the default colour has no fixed value.
-/

namespace FaustLens

/-- The hue of an ANSI colour. -/
inductive Hue
  | black | red | green | yellow | blue | magenta | cyan | white
deriving DecidableEq, Repr, Inhabited

/-- A 24-bit colour. -/
structure Rgb where
  red : UInt8
  green : UInt8
  blue : UInt8
deriving DecidableEq, Repr, Inhabited

/-- A foreground colour. -/
inductive Color
  /-- The terminal's own foreground. -/
  | automatic
  /-- An ANSI colour. -/
  | ansi (hue : Hue) (bright : Bool)
  /-- A 24-bit colour. -/
  | rgb (value : Rgb)
deriving DecidableEq, Repr, Inhabited

namespace Hue

/-- The eight hues in ANSI order. -/
def all : List Hue := [black, red, green, yellow, blue, magenta, cyan, white]

/-- The number of the hue in ANSI order. -/
def index : Hue → Nat
  | black => 0
  | red => 1
  | green => 2
  | yellow => 3
  | blue => 4
  | magenta => 5
  | cyan => 6
  | white => 7

/-- The name of the hue. -/
def name : Hue → String
  | black => "black"
  | red => "red"
  | green => "green"
  | yellow => "yellow"
  | blue => "blue"
  | magenta => "magenta"
  | cyan => "cyan"
  | white => "white"

theorem getElem?_index (h : Hue) : all[h.index]? = some h := by
  cases h <;> rfl

end Hue

namespace Color

/-! ## Names -/

/-- The colour names with their colours. -/
def names : List (String × Color) :=
  ("default", automatic) :: Hue.all.map (fun h => (h.name, ansi h false)) ++
    Hue.all.map (fun h => ("bright-" ++ h.name, ansi h true)) ++
    [("gray", ansi .black true), ("grey", ansi .black true)]

/-- The lower case of a character, for the characters whose lower case is ASCII: the capital
letters and the Kelvin sign. -/
def lowerChar (c : Char) : Char := if c = '\u212a' then 'k' else c.toLower

/-- A colour name in lower case with hyphens. -/
def plainName (s : String) : String :=
  String.ofList (s.toList.map fun c => if c = '_' then '-' else lowerChar c)

/-! ## Hexadecimal notation -/

/-- The value of a hexadecimal digit. -/
def hexValue? (c : Char) : Option Nat :=
  if c.isDigit then some (c.toNat - '0'.toNat)
  else if 'a' ≤ c ∧ c ≤ 'f' then some (c.toNat - 'a'.toNat + 10)
  else if 'A' ≤ c ∧ c ≤ 'F' then some (c.toNat - 'A'.toNat + 10)
  else none

theorem hexValue?_digitChar {n : Nat} (h : n < 16) : hexValue? n.digitChar = some n := by
  have hall : ∀ n < 16, hexValue? (Nat.digitChar n) = some n := by decide
  exact hall n h

/-- The channel that two characters give: two hexadecimal digits, or a plus sign and one. -/
def channel? (a b : Char) : Option UInt8 :=
  match hexValue? b with
  | none => none
  | some low =>
    if a = '+' then some (UInt8.ofNat low)
    else (hexValue? a).map fun high => UInt8.ofNat (16 * high + low)

/-- Read three channels of two characters each. -/
def parseChannels? : List Char → Option Rgb
  | [r₁, r₂, g₁, g₂, b₁, b₂] => do
    return ⟨← channel? r₁ r₂, ← channel? g₁ g₂, ← channel? b₁ b₂⟩
  | _ => none

/-- Read a colour. -/
def parse? (s : String) : Option Color :=
  match s.toList with
  | '#' :: digits => (parseChannels? digits).map rgb
  | _ => names.lookup (plainName s)

/-! ## Values -/

/-- The value of an ANSI colour in the usual terminal palette. -/
def ansiRgb : Hue → Bool → Rgb
  | .black, false => ⟨0, 0, 0⟩
  | .red, false => ⟨205, 0, 0⟩
  | .green, false => ⟨0, 205, 0⟩
  | .yellow, false => ⟨205, 205, 0⟩
  | .blue, false => ⟨0, 0, 238⟩
  | .magenta, false => ⟨205, 0, 205⟩
  | .cyan, false => ⟨0, 205, 205⟩
  | .white, false => ⟨229, 229, 229⟩
  | .black, true => ⟨127, 127, 127⟩
  | .red, true => ⟨255, 0, 0⟩
  | .green, true => ⟨0, 255, 0⟩
  | .yellow, true => ⟨255, 255, 0⟩
  | .blue, true => ⟨92, 92, 255⟩
  | .magenta, true => ⟨255, 0, 255⟩
  | .cyan, true => ⟨0, 255, 255⟩
  | .white, true => ⟨255, 255, 255⟩

/-- The 24-bit value of a colour; the default colour has none. -/
def rgb? : Color → Option Rgb
  | automatic => none
  | ansi h bright => some (ansiRgb h bright)
  | rgb v => some v

theorem rgb?_eq_none_iff (c : Color) : c.rgb? = none ↔ c = automatic := by
  cases c <;> simp [rgb?]

end Color

end FaustLens
