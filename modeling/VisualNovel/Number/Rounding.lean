/-
  Rounding fractions to a floating-point format: to the nearest number, a tie to
  the even code, and to infinity past the largest number.

  * `roundDiv` is the nearest natural number to a fraction;
  * `Format.nearest` is the code nearest to a fraction, `Format.nearestDecimal`
    the one nearest to a decimal number.
-/
import VisualNovel.Number.Format

namespace VisualNovel

-- A power is that of the numbers, also where monoids are in scope.
attribute [local instance (high)] instPowNat

/-- The natural number nearest to `num / den`; a half goes to the even one. -/
def roundDiv (num den : Nat) : Nat :=
  let q := num / den
  let r := num % den
  if 2 * r < den then q else if den < 2 * r then q + 1 else q + q % 2

/-- The fraction `m * 2 ^ e / d`, as its numerator and denominator. -/
def scaled (m d : Nat) (e : Int) : Nat × Nat :=
  if 0 ≤ e then (m * 2 ^ e.toNat, d) else (m, d * 2 ^ (-e).toNat)

namespace Format

/-- The power of two that is the last place of the numbers around a fraction. -/
def lastPlace (f : Format) (num den : Nat) : Int :=
  let low := max f.unit ((num.log2 : Int) - den.log2 - 1 - f.mantissaBits)
  let (n, d) := scaled num den (-low)
  if 2 ^ (f.mantissaBits + 1) ≤ n / d then low + 1 else low

/-- The code nearest to a fraction. -/
def nearest (f : Format) (num den : Nat) : Nat :=
  if num = 0 then 0
  else
    let e := f.lastPlace num den
    let (n, d) := scaled num den (-e)
    min ((e - f.unit).toNat * 2 ^ f.mantissaBits + roundDiv n d) f.infinity

/-- The code nearest to `digits * 10 ^ exponent`.  Exponents far out of the range
    of every format are decided without computing the power. -/
def nearestDecimal (f : Format) (digits : Nat) (exponent : Int) : Nat :=
  if digits = 0 then 0
  else if 400 < exponent then f.infinity
  else if exponent + digits.log2 + 1 < -400 then 0
  else if 0 ≤ exponent then f.nearest (digits * 10 ^ exponent.toNat) 1
  else f.nearest digits (10 ^ (-exponent).toNat)

end Format

namespace Binary

variable {f : Format}

/-- The number nearest to a fraction, with a given sign. -/
def ofFraction (negative : Bool) (num den : Nat) : Binary f :=
  ofCode negative (f.nearest num den)

/-- The number nearest to `m * 2 ^ e / d`. -/
def ofScaled (negative : Bool) (m d : Nat) (e : Int) : Binary f :=
  ofFraction negative (scaled m d e).1 (scaled m d e).2

/-- The number nearest to a natural number. -/
def ofNat (n : Nat) : Binary f := ofFraction false n 1

/-- The number nearest to `digits * 10 ^ exponent`. -/
def ofDecimal (negative : Bool) (digits : Nat) (exponent : Int) : Binary f :=
  ofCode negative (f.nearestDecimal digits exponent)

end Binary

end VisualNovel
