/-
  Binary floating-point numbers, exactly.  A format has `mantissaBits` stored
  mantissa bits and `exponentBits` exponent bits.  The magnitude of a number is
  the natural number that its bits spell without the sign, its *code*: codes are
  ordered as the magnitudes they stand for, and the largest code is infinity.

  * `Binary f` is a number of the format `f`: not a number, or a sign and a code;
  * `Binary.same`, `Binary.less`: the comparisons, which never hold for `nan` and
    do not tell the two zeros apart.
-/
namespace VisualNovel

-- A power is that of the numbers, also where monoids are in scope.
attribute [local instance (high)] instPowNat

/-- The sizes of the two stored fields of a floating-point format. -/
structure Format where
  mantissaBits : Nat
  exponentBits : Nat
  deriving DecidableEq, Repr

namespace Format

/-- Thirty-two bits in all. -/
def single : Format := ⟨23, 8⟩

/-- Sixty-four bits in all. -/
def double : Format := ⟨52, 11⟩

/-- The code of infinity: all exponent bits set. -/
def infinity (f : Format) : Nat := (2 ^ f.exponentBits - 1) * 2 ^ f.mantissaBits

/-- The power of two that the smallest positive number is. -/
def unit (f : Format) : Int := 2 - 2 ^ (f.exponentBits - 1) - f.mantissaBits

/-- The integer and the power of two whose product a finite code stands for. -/
def split (f : Format) (code : Nat) : Nat × Int :=
  if code / 2 ^ f.mantissaBits = 0 then (code, f.unit)
  else (2 ^ f.mantissaBits + code % 2 ^ f.mantissaBits,
    f.unit + (code / 2 ^ f.mantissaBits - 1 : Nat))

end Format

/-- A floating-point number: not a number, or a sign and the code of a
    magnitude. -/
inductive Binary (f : Format) where
  | nan
  | number (negative : Bool) (code : Fin (f.infinity + 1))
  deriving DecidableEq

/-- A number of thirty-two bits. -/
abbrev Binary32 := Binary .single

/-- A number of sixty-four bits. -/
abbrev Binary64 := Binary .double

namespace Binary

variable {f : Format}

/-- The number with a sign and a code; codes past infinity are infinity. -/
def ofCode (negative : Bool) (code : Nat) : Binary f :=
  .number negative ⟨min code f.infinity, Nat.lt_succ_of_le (Nat.min_le_right _ _)⟩

instance : Inhabited (Binary f) := ⟨ofCode false 0⟩

/-- The infinity of a sign. -/
def infinity (negative : Bool) : Binary f := ofCode negative f.infinity

/-- Whether a number has a value: not infinite, and a number at all. -/
def isFinite : Binary f → Bool
  | nan => false
  | number _ code => code.val ≠ f.infinity

/-- The bits of a number, the sign first; `nan` has the bits of the quiet one. -/
def toBits : Binary f → Nat
  | nan => f.infinity + 2 ^ (f.mantissaBits - 1)
  | number negative code =>
    (if negative then 2 ^ (f.mantissaBits + f.exponentBits) else 0) + code.val

/-- The number with the other sign. -/
def neg : Binary f → Binary f
  | nan => nan
  | number negative code => number (!negative) code

/-- The position of a number in the order of all numbers; both zeros are at
    zero. -/
def rank? : Binary f → Option Int
  | nan => none
  | number negative code => some (if negative then -(code.val : Int) else code.val)

/-- Equality of numbers: `nan` equals nothing, the two zeros are equal. -/
def same (x y : Binary f) : Bool :=
  match x.rank?, y.rank? with
  | some a, some b => decide (a = b)
  | _, _ => false

/-- The strict order of numbers: `nan` is below and above nothing. -/
def less (x y : Binary f) : Bool :=
  match x.rank?, y.rank? with
  | some a, some b => decide (a < b)
  | _, _ => false

theorem same_comm (x y : Binary f) : x.same y = y.same x := by
  unfold same
  cases x.rank? <;> cases y.rank? <;> simp [eq_comm]

theorem same_self {x : Binary f} (h : x ≠ nan) : x.same x = true := by
  cases x with
  | nan => exact absurd rfl h
  | number => simp [same, rank?]

theorem same_trans {x y z : Binary f} (h : x.same y = true) (h' : y.same z = true) :
    x.same z = true := by
  unfold same at *
  cases hx : x.rank? <;> cases hy : y.rank? <;> cases hz : z.rank? <;> simp_all

end Binary

end VisualNovel
