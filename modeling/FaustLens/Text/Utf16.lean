import FaustLens.Text.Basic

/-!
# UTF-16 code units

Model of `utf16_len` (`syntax::span`), with `encode_utf16` of the standard library.

Some consumers of a text address it in UTF-16. A character up to U+FFFF is one code unit, any other
is a surrogate pair.

Results:
* `length_units`: the number of code units is the sum over the characters.
* `units_append`: encoding goes character by character.
-/

namespace FaustLens.Text

/-- The UTF-16 code units of a character. -/
def charUnits (c : Char) : List Nat :=
  if c.toNat < 0x10000 then [c.toNat]
  else [0xD800 + (c.toNat - 0x10000) / 0x400, 0xDC00 + (c.toNat - 0x10000) % 0x400]

/-- The UTF-16 encoding of a text. -/
def units (text : Text) : List Nat := text.flatMap charUnits

/-- The number of UTF-16 code units of a text. -/
def unitLength (text : Text) : Nat := text.foldr (fun c n => (charUnits c).length + n) 0

theorem units_append (a b : Text) : units (a ++ b) = units a ++ units b := by
  simp [units]

theorem length_units (text : Text) : (units text).length = unitLength text := by
  induction text with
  | nil => rfl
  | cons c text ih =>
    rw [units, List.flatMap_cons, List.length_append]
    exact congrArg _ ih

end FaustLens.Text
