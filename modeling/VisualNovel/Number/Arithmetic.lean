/-
  Arithmetic of floating-point numbers: each operation is the exact one on the
  values, rounded once.

  * `add`, `sub`, `mul`, `div` on one format, `convert` between two formats.
-/
import VisualNovel.Number.Rounding

namespace VisualNovel.Binary

-- A power is that of the numbers, also where monoids are in scope.
attribute [local instance (high)] instPowNat

variable {f : Format}

/-- A finite number as a signed integer and a power of two. -/
def signed (f : Format) (negative : Bool) (code : Nat) : Int × Int :=
  let (m, e) := f.split code
  (if negative then -(m : Int) else m, e)

/-- The sum.  An exact zero is negative only if both terms are. -/
def add : Binary f → Binary f → Binary f
  | nan, _ | _, nan => nan
  | number s a, number t b =>
    if a.val = f.infinity then
      if b.val = f.infinity ∧ s ≠ t then nan else number s a
    else if b.val = f.infinity then number t b
    else
      let (m, e) := signed f s a
      let (n, k) := signed f t b
      let low := min e k
      let sum := m * 2 ^ (e - low).toNat + n * 2 ^ (k - low).toNat
      if sum = 0 then ofCode (s && t) 0
      else ofScaled (decide (sum < 0)) sum.natAbs 1 low

/-- The difference. -/
def sub (x y : Binary f) : Binary f := add x (neg y)

/-- The product.  Infinity times zero is not a number. -/
def mul : Binary f → Binary f → Binary f
  | nan, _ | _, nan => nan
  | number s a, number t b =>
    if a.val = f.infinity ∨ b.val = f.infinity then
      if a.val = 0 ∨ b.val = 0 then nan else infinity (s != t)
    else
      let (m, e) := f.split a
      let (n, k) := f.split b
      ofScaled (s != t) (m * n) 1 (e + k)

/-- The quotient.  A number by zero is infinity; zero by zero and infinity by
    infinity are not numbers. -/
def div : Binary f → Binary f → Binary f
  | nan, _ | _, nan => nan
  | number s a, number t b =>
    if a.val = f.infinity then
      if b.val = f.infinity then nan else infinity (s != t)
    else if b.val = f.infinity then ofCode (s != t) 0
    else if b.val = 0 then
      if a.val = 0 then nan else infinity (s != t)
    else
      let (m, e) := f.split a
      let (n, k) := f.split b
      ofScaled (s != t) m n (e - k)

/-- The same number in another format. -/
def convert (g : Format) : Binary f → Binary g
  | nan => nan
  | number s a =>
    if a.val = f.infinity then infinity s
    else
      let (m, e) := f.split a
      ofScaled s m 1 e

end VisualNovel.Binary
