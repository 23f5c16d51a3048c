/-
  Reading authored number literals: an optional sign, then `inf`, `infinity` or
  `nan` in any case, or digits with an optional point and exponent of which the
  mantissa has at least one digit.
-/
import VisualNovel.Number.Rounding
import VisualNovel.Text.Blank

namespace VisualNovel

/-- Whether a character is a decimal digit of ASCII. -/
def isDigit (c : Char) : Bool := '0' ≤ c && c ≤ '9'

/-- The number that a list of decimal digits denotes. -/
def ofDigits (cs : List Char) : Nat := cs.foldl (fun n c => 10 * n + (c.toNat - 48)) 0

namespace Literal

/-- Splits a sign off; without one the number is positive. -/
def sign : List Char → Bool × List Char
  | '-' :: cs => (true, cs)
  | '+' :: cs => (false, cs)
  | cs => (false, cs)

/-- The exponent that a text ends with: nothing at all, or `e` and digits. -/
def exponent? : List Char → Option Int
  | [] => some 0
  | c :: cs =>
    if c = 'e' ∨ c = 'E' then
      let (negative, ds) := sign cs
      if ds.isEmpty || !ds.all isDigit then none
      else some (if negative then -(ofDigits ds : Int) else ofDigits ds)
    else none

/-- The digits before the point, those after it, and what follows. -/
def mantissa (cs : List Char) : List Char × List Char × List Char :=
  let whole := cs.takeWhile isDigit
  match cs.dropWhile isDigit with
  | '.' :: rest => (whole, rest.takeWhile isDigit, rest.dropWhile isDigit)
  | rest => (whole, [], rest)

/-- The finite number that a text without a sign denotes. -/
def finite? {f : Format} (negative : Bool) (cs : List Char) : Option (Binary f) :=
  let (whole, fraction, rest) := mantissa cs
  if whole.isEmpty && fraction.isEmpty then none
  else (exponent? rest).map fun e =>
    Binary.ofDecimal negative (ofDigits (whole ++ fraction)) (e - fraction.length)

/-- The number that a literal denotes. -/
def read? {f : Format} (cs : List Char) : Option (Binary f) :=
  let (negative, rest) := sign cs
  match finite? negative rest with
  | some x => some x
  | none =>
    let word := Text.lower rest
    if word = "inf".toList ∨ word = "infinity".toList then some (Binary.infinity negative)
    else if word = "nan".toList then some .nan
    else none

/-- The natural number below `bound` that a text denotes: digits, after an
    optional plus sign. -/
def nat? (bound : Nat) (cs : List Char) : Option Nat :=
  let ds := match cs with
    | '+' :: rest => rest
    | _ => cs
  if ds.isEmpty || !ds.all isDigit then none
  else if ofDigits ds < bound then some (ofDigits ds) else none

end Literal

end VisualNovel
