/-
  The values of JSON number literals.  The digits are gathered in an integer
  below 2^64; further digits before the point only raise the exponent and further
  ones after it are dropped.  What is no integer is that integer, as a number of
  sixty-four bits, multiplied or divided once by a power of ten.

  * `Number.ofLiteral?` is the value of a literal, if it is in range.
-/
import VisualNovel.Json.Basic
import VisualNovel.Number.Arithmetic
import VisualNovel.Number.Literal

namespace VisualNovel.Json

/-- The parts of a number literal. -/
structure NumberLiteral where
  negative : Bool
  whole : List Char
  fraction : Option (List Char)
  /-- The sign and the digits of the exponent. -/
  exponent : Option (Bool × List Char)

namespace Number

-- A power is that of the numbers, also where monoids are in scope.
attribute [local instance (high)] instPowNat

/-- The largest integer that digits are gathered in. -/
def capacity : Nat := UInt64.size - 1

/-- Gathers digits in an integer, while they fit; the rest is left. -/
def gather : (n : Nat) → List Char → Nat × List Char
  | n, [] => (n, [])
  | n, c :: cs =>
    if 10 * n + (c.toNat - 48) ≤ capacity then gather (10 * n + (c.toNat - 48)) cs
    else (n, c :: cs)

/-- The power of ten as a number of sixty-four bits. -/
def tenTo (k : Nat) : Binary64 := .ofNat (10 ^ k)

/-- The number `n` scaled by a power of ten, with a given sign; none if it is too
    large. -/
def scale? (negative : Bool) (n : Nat) (exponent : Int) : Option Binary64 :=
  let x : Binary64 := .ofNat n
  let size := exponent.natAbs
  let magnitude? :=
    if 0 ≤ exponent then
      if n = 0 then some x
      else if size ≤ 308 then
        let y := x.mul (tenTo size)
        if y.isFinite then some y else none
      else none
    else if size ≤ 308 then some (x.div (tenTo size))
    else if size ≤ 616 then some ((x.div (tenTo 308)).div (tenTo (size - 308)))
    else some (.ofNat 0)
  magnitude?.map fun y => if negative then y.neg else y

/-- The largest exponent that is added up; a larger one decides the value. -/
def exponentLimit : Nat := 0x7FFFFFFF

/-- The value of a literal; none if it is out of range. -/
def ofLiteral? (l : NumberLiteral) : Option Number :=
  let (n, extra) := gather 0 l.whole
  match l.fraction, l.exponent with
  | none, none =>
    if !extra.isEmpty then (scale? l.negative n extra.length).map .double
    else if !l.negative then some (.natural n)
    else if n = 0 ∨ 0x8000000000000000 < n then some (.double (Binary.neg (.ofNat n)))
    else some (.negative n)
  | fraction, exponent =>
    let digits := fraction.getD []
    let (m, dropped) := gather n digits
    let base : Int := extra.length - (digits.length - dropped.length : Nat)
    match exponent with
    | none => (scale? l.negative m base).map .double
    | some (down, ds) =>
      let e := ofDigits ds
      if exponentLimit < e then
        if m ≠ 0 ∧ !down then none
        else some (.double (.ofCode l.negative 0))
      else (scale? l.negative m (if down then base - e else base + e)).map .double

end Number

end VisualNovel.Json
