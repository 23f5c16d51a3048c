/-
  Decimal texts of floating-point numbers: the fewest digits that read back, laid
  out in one of two styles.

  * `shortest` finds the digits, `Numeral.text` lays them out;
  * `Numeral.spoken` is the style of messages, `Numeral.storedDouble` and
    `Numeral.storedSingle` are those of files.
-/
import VisualNovel.Number.Rounding

namespace VisualNovel

-- A power is that of the numbers, also where monoids are in scope.
attribute [local instance (high)] instPowNat

/-- Which of two decimals at the same distance from a number stands for it. -/
inductive Tie where
  | larger
  | even
  deriving DecidableEq

/-- The value `m * 2 ^ e` as an integer times a power of ten. -/
def exactDecimal (m : Nat) (e : Int) : Nat × Int :=
  if 0 ≤ e then (m * 2 ^ e.toNat, 0) else (m * 5 ^ (-e).toNat, e)

namespace Format

variable (f : Format) (tie : Tie) (code : Nat)

/-- Of the two neighbours of `n * 10 ^ x` with `drop` digits fewer, the one that
    reads back as `code`; the nearer one if both do. -/
def neighbour (n : Nat) (x : Int) (drop : Nat) : Option Nat :=
  let below := n / 10 ^ drop
  let readsBack (d : Nat) := f.nearestDecimal d (x + drop) == code
  let rest := n % 10 ^ drop
  let upper :=
    if 2 * rest < 10 ^ drop then false
    else if 10 ^ drop < 2 * rest then true
    else match tie with
      | .larger => true
      | .even => below % 2 == 1
  match readsBack below, readsBack (below + 1) with
  | true, true => some (if upper then below + 1 else below)
  | true, false => some below
  | false, true => some (below + 1)
  | false, false => none

/-- The first number of digits that has a neighbour, dropping fewer and fewer. -/
def search (n : Nat) (x : Int) : (drop : Nat) → Nat × Int
  | 0 => (n, x)
  | drop + 1 =>
    match f.neighbour tie code n x (drop + 1) with
    | some d => (d, x + (drop + 1 : Nat))
    | none => search n x drop

/-- The fewest decimal digits that read back as a finite code, as an integer and
    the power of ten that it counts. -/
def shortest : Nat × Int :=
  if code = 0 then (0, 0)
  else
    let (m, e) := f.split code
    let (n, x) := exactDecimal m e
    let (d, k) := f.search tie code n x ((Nat.toDigits 10 n).length - 1)
    if d = 10 then (1, k + 1) else (d, k)

end Format

/-- How a number is laid out. -/
structure Numeral where
  /-- Which decimal stands for a number halfway between two. -/
  tie : Tie
  /-- The exponents of the leading digit that are written without an exponent;
      all of them, if not given. -/
  positional : Option (Int × Int)
  /-- What follows the digits of a whole number. -/
  whole : String

namespace Numeral

/-- Messages never use an exponent and write whole numbers without a point. -/
def spoken : Numeral := ⟨.larger, none, ""⟩

/-- Files always mark a fraction, and write numbers of sixty-four bits out if their
    exponents are from -5 to 15. -/
def storedDouble : Numeral := ⟨.even, some (-5, 15), ".0"⟩

/-- In files, numbers of thirty-two bits are written out if their exponents are from
    -6 to 12. -/
def storedSingle : Numeral := ⟨.even, some (-6, 12), ".0"⟩

/-- The digits with the point after `point` of them, zeros filling the gaps. -/
def positionalText (whole : String) (digits : List Char) (point : Int) : List Char :=
  if point ≤ 0 then
    ['0', '.'] ++ List.replicate (-point).toNat '0' ++ digits
  else if (digits.length : Int) ≤ point then
    digits ++ List.replicate (point.toNat - digits.length) '0' ++ whole.toList
  else digits.take point.toNat ++ ['.'] ++ digits.drop point.toNat

/-- The digits with the point after the first one, and the exponent. -/
def scientificText (digits : List Char) (exponent : Int) : List Char :=
  let mantissa := match digits with
    | [] => []
    | [d] => [d]
    | d :: ds => d :: '.' :: ds
  mantissa ++ ['e', if exponent < 0 then '-' else '+'] ++ Nat.toDigits 10 exponent.natAbs

/-- The text of a finite magnitude. -/
def magnitudeText (style : Numeral) (f : Format) (code : Nat) : List Char :=
  let (d, k) := f.shortest style.tie code
  let digits := Nat.toDigits 10 d
  let point := digits.length + k
  match style.positional with
  | none => positionalText style.whole digits point
  | some (low, high) =>
    if low ≤ point - 1 ∧ point - 1 ≤ high then positionalText style.whole digits point
    else scientificText digits (point - 1)

/-- The text of a number. -/
def text (style : Numeral) {f : Format} : Binary f → String
  | .nan => "NaN"
  | .number negative code =>
    let sign := if negative then ['-'] else []
    String.ofList (sign ++
      if code.val = f.infinity then "inf".toList else style.magnitudeText f code)

end Numeral

end VisualNovel
