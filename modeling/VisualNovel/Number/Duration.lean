/-
  Lengths of time in nanoseconds, and the reading of authored seconds.
-/
import VisualNovel.Number.Arithmetic

namespace VisualNovel

/-- A length of time. -/
structure Duration where
  nanos : Nat
  deriving DecidableEq, Repr

namespace Duration

def zero : Duration := ⟨0⟩

def ofMillis (n : Nat) : Duration := ⟨n * 1000000⟩

/-- The duration nearest to a number of seconds.  Negative numbers, `nan` and
    whatever has 2^64 seconds or more take no time. -/
def ofSeconds : Binary64 → Duration
  | .nan => zero
  | .number negative code =>
    let (m, e) := Format.double.split code
    let (num, den) := scaled m 1 e
    if negative ∨ code.val = Format.double.infinity ∨ den * UInt64.size ≤ num then zero
    else ⟨roundDiv (num * 1000000000) den⟩

end Duration

end VisualNovel
