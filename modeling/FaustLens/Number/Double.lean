/-!
# Binary floating-point numbers

Stands for the numbers of type `f64` that the library `toml` reads.

A `Double` is a number of the 64-bit binary format: a mantissa below 2⁵³ times a power of two from
2⁻¹⁰⁷⁴ to 2⁹⁷¹, an infinity or not a number. `Double.ofDecimal` rounds a decimal number to the
nearest one, a tie going to the even mantissa; all arithmetic is exact.

Results:
* `roundDiv_le`, `le_roundDiv`: rounding a quotient moves it by at most a half.
-/

namespace FaustLens

/-- A number of the 64-bit binary format; `finite` stands for `± mantissa * 2 ^ exponent`. -/
inductive Double
  | finite (negative : Bool) (mantissa : Nat) (exponent : Int)
  | infinite (negative : Bool)
  | nan
deriving DecidableEq, Repr, Inhabited

namespace Double

/-- The quotient `num / den`, rounded to the nearest integer, a tie to the even one. -/
def roundDiv (num den : Nat) : Nat :=
  let q := num / den
  let r := num % den
  if 2 * r < den ∨ (2 * r = den ∧ q % 2 = 0) then q else q + 1

theorem roundDiv_le (num den : Nat) : 2 * den * roundDiv num den ≤ 2 * num + den := by
  have hdiv := Nat.div_add_mod num den
  have hexp : 2 * den * (num / den) = 2 * (den * (num / den)) := by rw [Nat.mul_assoc]
  unfold roundDiv
  dsimp only
  split
  · omega
  · rename_i h
    have hr : den ≤ 2 * (num % den) := by omega
    rw [Nat.mul_add, Nat.mul_one]
    omega

theorem le_roundDiv (num den : Nat) (h : 0 < den) :
    2 * num ≤ 2 * den * roundDiv num den + den := by
  have hdiv := Nat.div_add_mod num den
  have hmod := Nat.mod_lt num h
  have hexp : 2 * den * (num / den) = 2 * (den * (num / den)) := by rw [Nat.mul_assoc]
  unfold roundDiv
  dsimp only
  split
  · omega
  · rw [Nat.mul_add, Nat.mul_one]
    omega

/-- The least exponent of the format. -/
def minExponent : Int := -1074

/-- The greatest exponent of the format. -/
def maxExponent : Int := 971

/-- The bound of the mantissa. -/
def mantissaBound : Nat := 0x20000000000000

/-- The quotient `num / den` divided by `base ^ e`, as a quotient. -/
def shift (base num den : Nat) (e : Int) : Nat × Nat :=
  if 0 ≤ e then (num, den * base.pow e.toNat) else (num * base.pow (-e).toNat, den)

/-- The exponent of the greatest power of two that is at most `num / den`. -/
def log2Quotient (num den : Nat) : Int :=
  let e : Int := (num.log2 : Int) - den.log2
  let (n, d) := shift 2 num den e
  if d ≤ n then e else e - 1

/-- The number nearest to `± num / den`. -/
def ofQuotient (negative : Bool) (num den : Nat) : Double :=
  let e := max minExponent (log2Quotient num den - 52)
  let (n, d) := shift 2 num den e
  let m := roundDiv n d
  let (m, e) := if m = mantissaBound then (m / 2, e + 1) else (m, e)
  if maxExponent < e then infinite negative else finite negative m e

/-- The number nearest to `± digits * 10 ^ exponent`. Exponents far out of the range of the format
are settled without computing the power. -/
def ofDecimal (negative : Bool) (digits : Nat) (exponent : Int) : Double :=
  let size : Int := (Nat.toDigits 10 digits).length + exponent
  if digits = 0 ∨ size < -400 then finite negative 0 minExponent
  else if 400 < size then infinite negative
  else
    let (num, den) := shift 10 digits 1 (-exponent)
    ofQuotient negative num den

end Double

end FaustLens
