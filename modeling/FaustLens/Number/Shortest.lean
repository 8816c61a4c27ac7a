import FaustLens.Number.Double

/-!
# The shortest decimal text of a number

Stands for the text that the library `toml` writes for a number of type `f64`.

The text of a number is the decimal number with the fewest digits that rounds back to it, and of
those the nearest one. Digits are written in positions, never with an exponent, and an integral
number has the fraction `.0`.

For one digit, two digits and so on, the two multiples of the power of ten around the number are
tested against the interval of reals that round to it; the first number of digits with a hit wins.
-/

namespace FaustLens.Double

/-- A decimal number `digits * 10 ^ exponent`. -/
structure Decimal where
  digits : Nat
  exponent : Int
deriving DecidableEq, Repr, Inhabited

/-- Whether `a * 10 ^ x` is at most `b * 2 ^ y`; strictly less if `strict`. -/
def decimalLe (strict : Bool) (a : Nat) (x : Int) (b : Nat) (y : Int) : Bool :=
  let left := a * Nat.pow 10 x.toNat * Nat.pow 2 (-y).toNat
  let right := b * Nat.pow 2 y.toNat * Nat.pow 10 (-x).toNat
  if strict then left < right else left ≤ right

/-- Whether `b * 2 ^ y` is at most `a * 10 ^ x`; strictly less if `strict`. -/
def binaryLe (strict : Bool) (b : Nat) (y : Int) (a : Nat) (x : Int) : Bool :=
  let left := b * Nat.pow 2 y.toNat * Nat.pow 10 (-x).toNat
  let right := a * Nat.pow 10 x.toNat * Nat.pow 2 (-y).toNat
  if strict then left < right else left ≤ right

/-- Whether a decimal number rounds to `mantissa * 2 ^ exponent`. The interval reaches half way to
the neighbours; its ends belong to it if the mantissa is even. Below a power of two the neighbour is
half as far. -/
def roundsTo (mantissa : Nat) (exponent : Int) (d : Decimal) : Bool :=
  let strict := mantissa % 2 == 1
  let low :=
    if mantissa = mantissaBound / 2 ∧ minExponent < exponent then 4 * mantissa - 1
    else 4 * mantissa - 2
  binaryLe strict low (exponent - 2) d.digits d.exponent &&
    decimalLe strict d.digits d.exponent (4 * mantissa + 2) (exponent - 2)

/-- The number of digits before the decimal point of `num / den`; zero or negative if the quotient
starts with zeros behind the point. The first argument bounds the number of those zeros. -/
def magnitude : Nat → Nat → Nat → Int
  | 0, _, _ => 0
  | fuel + 1, num, den =>
    if den ≤ num then (Nat.toDigits 10 (num / den)).length
    else magnitude fuel (num * 10) den - 1

/-- The decimal number with `n` digits nearest to `mantissa * 2 ^ exponent` that rounds to it. -/
def withDigits? (mantissa : Nat) (exponent : Int) (size : Int) (n : Nat) : Option Decimal :=
  let e := size - n
  let (num, den) := shift 2 mantissa 1 (-exponent)
  let (num, den) := shift 10 num den e
  let below : Decimal := ⟨num / den, e⟩
  let above : Decimal := ⟨num / den + 1, e⟩
  let nearer := if 2 * (num % den) ≤ den then [below, above] else [above, below]
  nearer.find? (roundsTo mantissa exponent)

/-- A decimal number without trailing zeros; the first argument bounds their number. -/
def stripZeros : Nat → Decimal → Decimal
  | 0, d => d
  | fuel + 1, d =>
    if d.digits % 10 = 0 then stripZeros fuel ⟨d.digits / 10, d.exponent + 1⟩ else d

/-- The shortest decimal number that rounds to `mantissa * 2 ^ exponent`, for a positive mantissa.
Seventeen digits always suffice. -/
def shortest (mantissa : Nat) (exponent : Int) : Decimal :=
  let (num, den) := shift 2 mantissa 1 (-exponent)
  let size := magnitude 400 num den
  match (List.range 17).findSome? fun n => withDigits? mantissa exponent size (n + 1) with
  | some d => stripZeros 20 d
  | none => ⟨num / den, 0⟩

/-- A decimal number in positions, with at least one digit on each side of the point. -/
def positional (d : Decimal) : List Char :=
  let digits := Nat.toDigits 10 d.digits
  if 0 ≤ d.exponent then digits ++ List.replicate d.exponent.toNat '0' ++ ['.', '0']
  else
    let places := (-d.exponent).toNat
    let padded := List.replicate (places + 1 - digits.length) '0' ++ digits
    padded.take (padded.length - places) ++ '.' :: padded.drop (padded.length - places)

/-- The text of a number. -/
def toText : Double → List Char
  | nan => "nan".toList
  | infinite negative => (if negative then "-inf" else "inf").toList
  | finite negative mantissa exponent =>
    let digits :=
      if mantissa = 0 then ['0', '.', '0'] else positional (shortest mantissa exponent)
    if negative then '-' :: digits else digits

end FaustLens.Double
