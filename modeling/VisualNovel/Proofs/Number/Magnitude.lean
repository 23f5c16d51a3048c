/-
  The values of floating-point numbers, as fractions.

  * `Format.Canonical`: the integers and powers of two that codes are split into, one pair for
    each code (`Format.code_split`, `Format.split_code`);
  * `Format.magnitude` is the fraction that a code stands for, `Binary.value` the one that a
    number does;
  * `Format.magnitude_strictMono`, `Binary.less_iff`: codes, and numbers, are ordered as their
    values are.
-/
import Mathlib.Algebra.Order.Field.Power
import Mathlib.Data.Rat.Cast.Order
import Mathlib.Order.Monotone.Basic
import Mathlib.Tactic.Linarith
import Mathlib.Tactic.Positivity
import Mathlib.Tactic.Ring
import VisualNovel.Number.Rounding

namespace VisualNovel

-- A power is that of the numbers, also where monoids are in scope.
attribute [local instance (high)] instPowNat

/-- Powers of two among the natural numbers and among the fractions. -/
theorem cast_two_pow (n : Nat) : ((2 ^ n : Nat) : ℚ) = (2 : ℚ) ^ (n : ℤ) := by
  rw [zpow_natCast]
  exact Nat.cast_pow 2 n

theorem two_zpow_pos (e : ℤ) : (0 : ℚ) < 2 ^ e := zpow_pos two_pos e

theorem two_zpow_add (e k : ℤ) : (2 : ℚ) ^ (e + k) = 2 ^ e * 2 ^ k := zpow_add₀ two_ne_zero e k

namespace Format
variable {f : Format} {m n : Nat} {e k : Int}

/-! ## Codes -/

/-- An integer and a power of two in the form that codes are split into: the integer has one
    bit more than are stored, or fewer where the power is the least. -/
structure Canonical (f : Format) (m : Nat) (e : Int) : Prop where
  unit_le : f.unit ≤ e
  lt : m < 2 ^ (f.mantissaBits + 1)
  normal : e = f.unit ∨ 2 ^ f.mantissaBits ≤ m

/-- The code of an integer and a power of two. -/
def code (f : Format) (m : Nat) (e : Int) : Nat := (e - f.unit).toNat * 2 ^ f.mantissaBits + m

theorem canonical_split (f : Format) (c : Nat) : f.Canonical (f.split c).1 (f.split c).2 := by
  have hpos : 0 < 2 ^ f.mantissaBits := Nat.two_pow_pos _
  have hmod : c % 2 ^ f.mantissaBits < 2 ^ f.mantissaBits := Nat.mod_lt _ hpos
  unfold split
  split
  · rename_i hdiv
    have hlt := (Nat.div_eq_zero_iff_lt hpos).1 hdiv
    refine ⟨le_refl _, ?_, .inl rfl⟩
    show c < 2 ^ (f.mantissaBits + 1)
    rw [Nat.pow_succ]
    omega
  · refine ⟨?_, ?_, .inr ?_⟩
    · show f.unit ≤ f.unit + ((_ : Nat) : Int)
      omega
    · show 2 ^ f.mantissaBits + c % 2 ^ f.mantissaBits < 2 ^ (f.mantissaBits + 1)
      rw [Nat.pow_succ]
      omega
    · exact Nat.le_add_right _ _

theorem code_split (f : Format) (c : Nat) : f.code (f.split c).1 (f.split c).2 = c := by
  have hdiv := Nat.div_add_mod c (2 ^ f.mantissaBits)
  unfold split
  split
  · simp [code]
  · rename_i hne
    obtain ⟨q, hq⟩ := Nat.exists_eq_succ_of_ne_zero hne
    have hexp : (f.unit + ((c / 2 ^ f.mantissaBits - 1 : Nat) : Int) - f.unit).toNat = q := by
      omega
    rw [hq, Nat.mul_succ] at hdiv
    show (f.unit + ((c / 2 ^ f.mantissaBits - 1 : Nat) : Int) - f.unit).toNat *
      2 ^ f.mantissaBits + (2 ^ f.mantissaBits + c % 2 ^ f.mantissaBits) = c
    rw [hexp, Nat.mul_comm]
    omega

theorem split_code (h : f.Canonical m e) : f.split (f.code m e) = (m, e) := by
  obtain ⟨hunit, hlt, hnormal⟩ := h
  have hpos : 0 < 2 ^ f.mantissaBits := Nat.two_pow_pos _
  by_cases hm : m < 2 ^ f.mantissaBits
  · have he : e = f.unit := by omega
    subst he
    have hcode : f.code m f.unit = m := by simp [code]
    rw [hcode, split, if_pos (Nat.div_eq_of_lt hm)]
  · -- The stored bits are those of the integer without its first one.
    obtain ⟨r, rfl⟩ := Nat.exists_eq_add_of_le (Nat.le_of_not_lt hm)
    rw [Nat.pow_succ] at hlt
    have hr : r < 2 ^ f.mantissaBits := by omega
    have hcode : f.code (2 ^ f.mantissaBits + r) e =
        r + 2 ^ f.mantissaBits * ((e - f.unit).toNat + 1) := by
      rw [code, Nat.mul_succ, Nat.mul_comm]
      omega
    have hdiv : f.code (2 ^ f.mantissaBits + r) e / 2 ^ f.mantissaBits =
        (e - f.unit).toNat + 1 := by
      rw [hcode, Nat.add_mul_div_left _ _ hpos, Nat.div_eq_of_lt hr, Nat.zero_add]
    have hmod : f.code (2 ^ f.mantissaBits + r) e % 2 ^ f.mantissaBits = r := by
      rw [hcode, Nat.add_mul_mod_self_left, Nat.mod_eq_of_lt hr]
    rw [split, hdiv, hmod, if_neg (Nat.succ_ne_zero _)]
    refine Prod.ext rfl ?_
    show f.unit + ((e - f.unit).toNat + 1 - 1 : Nat) = e
    omega

/-! ## Magnitudes -/

/-- The fraction that a code stands for; where a code is infinity, the one that it would stand
    for if the format went on. -/
def magnitude (f : Format) (c : Nat) : ℚ := (f.split c).1 * 2 ^ (f.split c).2

theorem magnitude_code (h : f.Canonical m e) : f.magnitude (f.code m e) = m * 2 ^ e := by
  rw [magnitude, split_code h]

theorem magnitude_zero (f : Format) : f.magnitude 0 = 0 := by simp [magnitude, split]

theorem magnitude_nonneg (f : Format) (c : Nat) : 0 ≤ f.magnitude c :=
  mul_nonneg (Nat.cast_nonneg _) (two_zpow_pos _).le

/-- Of two pairs the one with the smaller code has the smaller value. -/
theorem Canonical.lt_of_code_lt (h : f.Canonical m e) (h' : f.Canonical n k)
    (hlt : f.code m e < f.code n k) : (m : ℚ) * 2 ^ e < n * 2 ^ k := by
  obtain ⟨hunit, hm, hnormal⟩ := h
  obtain ⟨hunit', hn, hnormal'⟩ := h'
  rw [Nat.pow_succ] at hm hn
  unfold code at hlt
  rcases lt_trichotomy e k with hek | rfl | hek
  · have hmn : m < 2 * n := by omega
    calc (m : ℚ) * 2 ^ e < ((2 * n : Nat) : ℚ) * 2 ^ e :=
          mul_lt_mul_of_pos_right (Nat.cast_lt.2 hmn) (two_zpow_pos e)
      _ = n * 2 ^ (e + 1) := by
          rw [two_zpow_add, zpow_one, Nat.cast_mul, Nat.cast_ofNat]
          ring
      _ ≤ n * 2 ^ k :=
          mul_le_mul_of_nonneg_left (zpow_le_zpow_right₀ one_le_two hek) (Nat.cast_nonneg n)
  · have hmn : m < n := by omega
    exact mul_lt_mul_of_pos_right (Nat.cast_lt.2 hmn) (two_zpow_pos e)
  · -- A larger power has the larger code, whatever the integers are.
    exfalso
    have hstep : (k - f.unit).toNat * 2 ^ f.mantissaBits + 2 ^ f.mantissaBits ≤
        (e - f.unit).toNat * 2 ^ f.mantissaBits := by
      rw [← Nat.succ_mul]
      exact Nat.mul_le_mul_right _ (by omega)
    omega

/-- Codes are ordered as what they stand for. -/
theorem magnitude_strictMono (f : Format) : StrictMono f.magnitude := by
  intro c d hcd
  have hlt : f.code (f.split c).1 (f.split c).2 < f.code (f.split d).1 (f.split d).2 := by
    rwa [code_split, code_split]
  exact (f.canonical_split c).lt_of_code_lt (f.canonical_split d) hlt

theorem magnitude_pos_iff (f : Format) (c : Nat) : 0 < f.magnitude c ↔ 0 < c := by
  rw [← f.magnitude_strictMono.lt_iff_lt, magnitude_zero]

end Format

/-! ## Numbers -/

namespace Binary
variable {f : Format} {x y : Binary f}

/-- The fraction that a number stands for. -/
def value : Binary f → ℚ
  | nan => 0
  | number negative c => if negative then -f.magnitude c else f.magnitude c

theorem ne_nan_of_isFinite (h : x.isFinite = true) : x ≠ nan := by
  rintro rfl
  cases h

/-- Numbers are ordered as their values. -/
theorem less_iff (hx : x ≠ nan) (hy : y ≠ nan) : x.less y = true ↔ x.value < y.value := by
  cases x with
  | nan => exact absurd rfl hx
  | number s a =>
    cases y with
    | nan => exact absurd rfl hy
    | number t b =>
      have hmono (c d : Nat) : f.magnitude c < f.magnitude d ↔ c < d :=
        f.magnitude_strictMono.lt_iff_lt
      have ha := f.magnitude_nonneg a
      have hb := f.magnitude_nonneg b
      simp only [less, rank?, value, decide_eq_true_eq]
      cases s <;> cases t <;> simp only [Bool.false_eq_true, if_false, if_true]
      · rw [hmono, Int.ofNat_lt]
      · -- No positive number is below a negative one.
        constructor
        · intro h
          omega
        · intro h
          linarith
      · -- A negative number is below a positive one, unless both are zeros.
        have hcodes : -(a.val : Int) < b.val ↔ 0 < a.val ∨ 0 < b.val := by omega
        rw [hcodes, ← f.magnitude_pos_iff, ← f.magnitude_pos_iff]
        constructor
        · rintro (h | h) <;> linarith
        · intro h
          by_contra hzero
          rw [not_or, not_lt, not_lt] at hzero
          linarith [hzero.1, hzero.2]
      · rw [neg_lt_neg_iff, neg_lt_neg_iff, hmono, Int.ofNat_lt]

end Binary

end VisualNovel
