/-
  Rounding, told by the values of fractions.

  * `Rounds`: a natural number is the one nearest to a fraction, of which there is one
    (`Rounds.unique`) and which keeps the order (`Rounds.le`);
  * `Format.IsLastPlace`: the last place of a fraction in a format, of which there is one as
    well; so what a code stands for is rounded to that code (`Format.nearest_magnitude`);
  * `Format.Within`: a format has all the numbers of another one, and `Binary.convert_convert`:
    a number that is converted to the former and back is the same.
-/
import Mathlib.Algebra.Order.Field.Basic
import VisualNovel.Number.Arithmetic
import VisualNovel.Proofs.Number.Magnitude

namespace VisualNovel

-- A power is that of the numbers, also where monoids are in scope.
attribute [local instance (high)] instPowNat

/-! ## Natural numbers -/

/-- A number is at most the rounded fraction if it is less than a half above the fraction, or
    even and a half above it. -/
theorem le_roundDiv_iff {den : Nat} (hden : 0 < den) (num k : Nat) :
    k ≤ roundDiv num den ↔
      2 * (k * den) < 2 * num + den ∨ 2 * (k * den) = 2 * num + den ∧ k % 2 = 0 := by
  have hdiv := Nat.div_add_mod num den
  have hmod := Nat.mod_lt num hden
  unfold roundDiv
  generalize num / den = q at *
  generalize num % den = r at *
  subst hdiv
  rw [Nat.mul_comm den q]
  dsimp only
  -- Only of the number after the quotient it matters how much is left over.
  rcases Nat.lt_trichotomy k (q + 1) with hk | rfl | hk
  · have hle : k * den ≤ q * den := Nat.mul_le_mul_right den (by omega)
    split
    · omega
    split <;> omega
  · rw [Nat.add_mul, Nat.one_mul]
    split
    · omega
    split <;> omega
  · have hle : (q + 2) * den ≤ k * den := Nat.mul_le_mul_right den (by omega)
    rw [Nat.add_mul] at hle
    split
    · omega
    split <;> omega

/-- A natural number is the one nearest to a fraction, a half going to the even one: told by
    what is at most that number. -/
def Rounds (v : ℚ) (n : Nat) : Prop :=
  ∀ k : Nat, k ≤ n ↔ (k : ℚ) < v + 1 / 2 ∨ (k : ℚ) = v + 1 / 2 ∧ k % 2 = 0

/-- Rounding keeps the order. -/
theorem Rounds.le {v w : ℚ} {m n : Nat} (h : Rounds v m) (h' : Rounds w n) (hvw : v ≤ w) :
    m ≤ n := by
  refine (h' m).2 ?_
  rcases (h m).1 (le_refl m) with hlt | ⟨heq, heven⟩
  · exact .inl (by linarith)
  · rcases hvw.lt_or_eq with hvw | hvw
    · exact .inl (by linarith)
    · exact .inr ⟨by rw [heq, hvw], heven⟩

theorem Rounds.unique {v : ℚ} {m n : Nat} (h : Rounds v m) (h' : Rounds v n) : m = n :=
  le_antisymm (h.le h' (le_refl v)) (h'.le h (le_refl v))

/-- A natural number is the one nearest to itself. -/
theorem rounds_natCast (n : Nat) : Rounds n n := by
  intro k
  constructor
  · intro hk
    have : (k : ℚ) ≤ n := Nat.cast_le.2 hk
    exact .inl (by linarith)
  · intro hk
    by_contra hlt
    have : ((n + 1 : Nat) : ℚ) ≤ k := Nat.cast_le.2 (not_le.1 hlt)
    rw [Nat.cast_add, Nat.cast_one] at this
    rcases hk with hk | ⟨hk, -⟩ <;> linarith

theorem rounds_roundDiv {den : Nat} (hden : 0 < den) (num : Nat) :
    Rounds (num / den) (roundDiv num den) := by
  intro k
  have hpos : (0 : ℚ) < den := Nat.cast_pos.2 hden
  have hlt : (k : ℚ) < num / den + 1 / 2 ↔ 2 * (k * den) < 2 * num + den := by
    rw [← @Nat.cast_lt ℚ]
    push_cast
    rw [← sub_lt_iff_lt_add, lt_div_iff₀ hpos]
    constructor <;> intro h <;> linarith
  have heq : (k : ℚ) = num / den + 1 / 2 ↔ 2 * (k * den) = 2 * num + den := by
    rw [← @Nat.cast_inj ℚ]
    push_cast
    rw [← sub_eq_iff_eq_add, eq_div_iff hpos.ne']
    constructor <;> intro h <;> linarith
  rw [hlt, heq]
  exact le_roundDiv_iff hden num k

/-! ## Fractions times a power of two -/

theorem scaled_pos {d : Nat} (hd : 0 < d) (m : Nat) (e : Int) : 0 < (scaled m d e).2 := by
  unfold scaled
  split
  · exact hd
  · exact Nat.mul_pos hd (Nat.two_pow_pos _)

theorem scaled_div (m d : Nat) (e : Int) :
    ((scaled m d e).1 : ℚ) / (scaled m d e).2 = m / d * 2 ^ e := by
  unfold scaled
  split
  · rename_i he
    have hpow : ((2 ^ e.toNat : Nat) : ℚ) = 2 ^ e := by
      rw [cast_two_pow, Int.toNat_of_nonneg he]
    rw [Nat.cast_mul, hpow, mul_div_right_comm]
  · rename_i he
    have hpow : ((2 ^ (-e).toNat : Nat) : ℚ) = (2 ^ e)⁻¹ := by
      rw [cast_two_pow, Int.toNat_of_nonneg (by omega), zpow_neg]
    rw [Nat.cast_mul, hpow, ← div_div, div_inv_eq_mul]

/-- The length of a number says between which powers of two it lies. -/
theorem log2_bounds {n : Nat} (hn : n ≠ 0) :
    (2 : ℚ) ^ (n.log2 : ℤ) ≤ n ∧ (n : ℚ) < 2 ^ ((n.log2 : ℤ) + 1) := by
  have hle := Nat.cast_le (α := ℚ) |>.2 (Nat.log2_self_le hn)
  have hlt := Nat.cast_lt (α := ℚ) |>.2 (@Nat.lt_log2_self n)
  rw [cast_two_pow] at hle hlt
  exact ⟨hle, hlt⟩

/-- The lengths of numerator and denominator say where a fraction lies, up to a factor of two on
    either side. -/
theorem div_log2_bounds {num den : Nat} (hnum : num ≠ 0) (hden : den ≠ 0) :
    (2 : ℚ) ^ ((num.log2 : ℤ) - den.log2 - 1) < num / den ∧
      (num : ℚ) / den < 2 ^ ((num.log2 : ℤ) - den.log2 + 1) := by
  obtain ⟨hnum, hnum'⟩ := log2_bounds hnum
  obtain ⟨hden₁, hden₂⟩ := log2_bounds hden
  have hpos : (0 : ℚ) < den := Nat.cast_pos.2 (Nat.pos_of_ne_zero hden)
  constructor
  · rw [lt_div_iff₀ hpos]
    calc (2 : ℚ) ^ ((num.log2 : ℤ) - den.log2 - 1) * den
        < 2 ^ ((num.log2 : ℤ) - den.log2 - 1) * 2 ^ ((den.log2 : ℤ) + 1) :=
          mul_lt_mul_of_pos_left hden₂ (two_zpow_pos _)
      _ = 2 ^ (num.log2 : ℤ) := by
          rw [← two_zpow_add]
          exact congrArg _ (by omega)
      _ ≤ num := hnum
  · rw [div_lt_iff₀ hpos]
    calc (num : ℚ) < 2 ^ ((num.log2 : ℤ) + 1) := hnum'
      _ = 2 ^ ((num.log2 : ℤ) - den.log2 + 1) * 2 ^ (den.log2 : ℤ) := by
          rw [← two_zpow_add]
          exact congrArg _ (by omega)
      _ ≤ 2 ^ ((num.log2 : ℤ) - den.log2 + 1) * den :=
          mul_le_mul_of_nonneg_left hden₁ (two_zpow_pos _).le

/-! ## The last place -/

namespace Format
variable {f g : Format} {num den m : Nat} {e k : Int} {v : ℚ}

/-- The power of two that is the last place of the numbers around a fraction: before it the
    fraction has one bit more than are stored, or fewer where the power is the least. -/
structure IsLastPlace (f : Format) (v : ℚ) (e : Int) : Prop where
  unit_le : f.unit ≤ e
  lt : v < 2 ^ (f.mantissaBits + 1 + e)
  normal : e = f.unit ∨ (2 : ℚ) ^ (f.mantissaBits + e) ≤ v

theorem IsLastPlace.le (h : f.IsLastPlace v e) (h' : f.IsLastPlace v k) : e ≤ k := by
  have hunit := h'.unit_le
  rcases h.normal with he | hle
  · omega
  · have := (zpow_lt_zpow_iff_right₀ one_lt_two).1 (hle.trans_lt h'.lt)
    omega

/-- A fraction has one last place only. -/
theorem IsLastPlace.unique (h : f.IsLastPlace v e) (h' : f.IsLastPlace v k) : e = k :=
  le_antisymm (h.le h') (h'.le h)

/-- What a pair stands for has its power of two as its last place. -/
theorem Canonical.isLastPlace (h : f.Canonical m e) : f.IsLastPlace (m * 2 ^ e) e where
  unit_le := h.unit_le
  lt := by
    have hlt := Nat.cast_lt (α := ℚ) |>.2 h.lt
    rw [cast_two_pow] at hlt
    rw [two_zpow_add]
    exact mul_lt_mul_of_pos_right hlt (two_zpow_pos e)
  normal := by
    refine h.normal.imp_right fun hle => ?_
    have hle := Nat.cast_le (α := ℚ) |>.2 hle
    rw [cast_two_pow] at hle
    rw [two_zpow_add]
    exact mul_le_mul_of_nonneg_right hle (two_zpow_pos e).le

/-- The last place is found: the one that the lengths of numerator and denominator suggest is
    right or one too low. -/
theorem isLastPlace_lastPlace (f : Format) (hnum : num ≠ 0) (hden : den ≠ 0) :
    f.IsLastPlace (num / den) (f.lastPlace num den) := by
  obtain ⟨hlow, hhigh⟩ := div_log2_bounds hnum hden
  have hmono {i j : ℤ} (h : i ≤ j) : (2 : ℚ) ^ i ≤ 2 ^ j := zpow_le_zpow_right₀ one_le_two h
  rw [lastPlace]
  generalize hl : max f.unit ((num.log2 : Int) - den.log2 - 1 - f.mantissaBits) = low
  have hlong : 2 ^ (f.mantissaBits + 1) ≤ (scaled num den (-low)).1 / (scaled num den (-low)).2 ↔
      (2 : ℚ) ^ (f.mantissaBits + 1 + low) ≤ num / den := by
    have hpos := scaled_pos (Nat.pos_of_ne_zero hden) num (-low)
    rw [Nat.le_div_iff_mul_le hpos, ← @Nat.cast_le ℚ, Nat.cast_mul, cast_two_pow,
      ← le_div_iff₀ (Nat.cast_pos.2 hpos), scaled_div, zpow_neg, ← div_eq_mul_inv,
      le_div_iff₀ (two_zpow_pos low), ← two_zpow_add]
    rfl
  dsimp only
  split
  · rename_i h
    have hge := hlong.1 h
    -- A fraction that is that long is not among the numbers of the least place.
    have hunit : low = (num.log2 : Int) - den.log2 - 1 - f.mantissaBits := by
      by_contra hne
      exact absurd (hge.trans_lt hhigh) (not_lt.2 (hmono (by omega)))
    refine ⟨by omega, lt_of_lt_of_le hhigh (hmono (by omega)), .inr ?_⟩
    exact le_of_eq_of_le (congrArg _ (by omega)) hge
  · rename_i h
    refine ⟨by omega, not_le.1 (mt hlong.2 h), ?_⟩
    by_cases hunit : low = f.unit
    · exact .inl hunit
    · exact .inr (le_trans (hmono (by omega)) hlow.le)

/-! ## Codes -/

/-- What a pair stands for is rounded to its code. -/
theorem Canonical.nearest_eq (h : f.Canonical m e) (hden : 0 < den)
    (hvalue : (num : ℚ) / den = m * 2 ^ e) (hcode : f.code m e ≤ f.infinity) :
    f.nearest num den = f.code m e := by
  have hzero : num = 0 ↔ m = 0 := by
    have hnum : (num : ℚ) / den = 0 ↔ num = 0 := by simp [hden.ne']
    rw [← hnum, hvalue]
    simp [(two_zpow_pos e).ne']
  by_cases hm : m = 0
  · have he : e = f.unit := by
      have := Nat.two_pow_pos f.mantissaBits
      rcases h.normal with he | hle
      · exact he
      · omega
    simp [nearest, hzero.2 hm, code, he, hm]
  · have hnum := mt hzero.1 hm
    have hplace : f.lastPlace num den = e := by
      refine (f.isLastPlace_lastPlace hnum hden.ne').unique ?_
      rw [hvalue]
      exact h.isLastPlace
    have hround : roundDiv (scaled num den (-e)).1 (scaled num den (-e)).2 = m := by
      have hrounds := rounds_roundDiv (scaled_pos hden num (-e)) (scaled num den (-e)).1
      rw [scaled_div, hvalue, mul_assoc, ← two_zpow_add, add_neg_cancel, zpow_zero,
        mul_one] at hrounds
      exact hrounds.unique (rounds_natCast m)
    rw [nearest, if_neg hnum, hplace]
    dsimp only
    rw [hround]
    exact Nat.min_eq_left hcode

/-- What a code stands for is rounded to the code. -/
theorem nearest_magnitude {c : Nat} (hden : 0 < den) (hvalue : (num : ℚ) / den = f.magnitude c)
    (hc : c ≤ f.infinity) : f.nearest num den = c := by
  rw [(f.canonical_split c).nearest_eq hden hvalue (by rwa [code_split]), code_split]

/-! ## One format within another -/

/-- An integer that is short enough times a power of two that is high enough is what a pair
    stands for: the integer is shifted to the left, as far as there are bits and lower powers. -/
theorem exists_canonical (hm : m < 2 ^ (f.mantissaBits + 1)) (he : f.unit ≤ e) :
    ∃ n k, f.Canonical n k ∧ (n : ℚ) * 2 ^ k = m * 2 ^ e := by
  by_cases hzero : m = 0
  · refine ⟨0, f.unit, ⟨le_refl _, Nat.two_pow_pos _, .inl rfl⟩, ?_⟩
    rw [hzero, Nat.cast_zero, zero_mul, zero_mul]
  have hlog : m.log2 ≤ f.mantissaBits := by
    have := (Nat.log2_lt hzero).2 hm
    omega
  obtain ⟨shift, hshift⟩ : ∃ shift : Nat,
      shift = min (f.mantissaBits - m.log2) (e - f.unit).toNat := ⟨_, rfl⟩
  refine ⟨m * 2 ^ shift, e - shift, ⟨by omega, ?_, ?_⟩, ?_⟩
  · calc m * 2 ^ shift < 2 ^ (m.log2 + 1) * 2 ^ shift :=
          Nat.mul_lt_mul_of_pos_right Nat.lt_log2_self (Nat.two_pow_pos _)
      _ = 2 ^ (m.log2 + 1 + shift) := (Nat.pow_add ..).symm
      _ ≤ 2 ^ (f.mantissaBits + 1) := Nat.pow_le_pow_right Nat.two_pos (by omega)
  · by_cases hfew : f.mantissaBits - m.log2 ≤ (e - f.unit).toNat
    · refine .inr ?_
      calc 2 ^ f.mantissaBits = 2 ^ m.log2 * 2 ^ shift := by
            rw [← Nat.pow_add]
            exact congrArg _ (by omega)
        _ ≤ m * 2 ^ shift := Nat.mul_le_mul_right _ (Nat.log2_self_le hzero)
    · exact .inl (by omega)
  · rw [Nat.cast_mul, cast_two_pow, mul_assoc, ← two_zpow_add]
    exact congrArg _ (congrArg _ (by omega))

/-- A format has at least the bits and the range of another one. -/
structure Within (f g : Format) : Prop where
  mantissa : f.mantissaBits ≤ g.mantissaBits
  unit : g.unit ≤ f.unit
  infinity : f.magnitude f.infinity ≤ g.magnitude g.infinity

/-- What a code of a format stands for, a code of one that the format is within does. -/
theorem Within.exists_code (h : f.Within g) {c : Nat} (hc : c < f.infinity) :
    ∃ d < g.infinity, g.magnitude d = f.magnitude c := by
  obtain ⟨hunit, hlt, -⟩ := f.canonical_split c
  have hlonger : 2 ^ (f.mantissaBits + 1) ≤ 2 ^ (g.mantissaBits + 1) :=
    Nat.pow_le_pow_right Nat.two_pos (Nat.succ_le_succ h.mantissa)
  obtain ⟨n, k, hcanonical, hvalue⟩ :=
    exists_canonical (hlt.trans_le hlonger) (h.unit.trans hunit)
  have hd : g.magnitude (g.code n k) = f.magnitude c := (magnitude_code hcanonical).trans hvalue
  refine ⟨g.code n k, g.magnitude_strictMono.lt_iff_lt.1 ?_, hd⟩
  rw [hd]
  exact (f.magnitude_strictMono hc).trans_le h.infinity

theorem single_within_double : single.Within double := by
  refine ⟨by decide, by decide, ?_⟩
  have hsingle : single.split single.infinity = (2 ^ 23, 105) := by decide
  have hdouble : double.split double.infinity = (2 ^ 52, 972) := by decide
  rw [magnitude, magnitude, hsingle, hdouble, cast_two_pow, cast_two_pow, ← two_zpow_add,
    ← two_zpow_add]
  exact zpow_le_zpow_right₀ one_le_two (by decide)

end Format

/-! ## Conversions -/

namespace Binary
variable {f g : Format} {x : Binary f}

/-- A finite number is converted to one that stands for the same. -/
theorem convert_number {c : Fin (f.infinity + 1)} {d : Fin (g.infinity + 1)}
    (hc : c.val ≠ f.infinity) (h : g.magnitude d = f.magnitude c) (s : Bool) :
    (number s c : Binary f).convert g = number s d := by
  have hvalue : ((scaled (f.split c).1 1 (f.split c).2).1 : ℚ) /
      (scaled (f.split c).1 1 (f.split c).2).2 = g.magnitude d := by
    rw [scaled_div, Nat.cast_one, div_one, h, Format.magnitude]
  have hd : d.val ≤ g.infinity := Nat.le_of_lt_succ d.isLt
  have hnearest := Format.nearest_magnitude (scaled_pos Nat.one_pos _ _) hvalue hd
  simp only [convert, if_neg hc, ofScaled, ofFraction, ofCode, hnearest, Nat.min_eq_left hd]

theorem convert_self (hx : x.isFinite = true) : x.convert f = x := by
  cases x with
  | nan => cases hx
  | number s c => exact convert_number (by simpa [isFinite] using hx) rfl s

/-- A number that is converted to a format with all numbers of its own is still finite, and it
    is the same when it is converted back. -/
theorem convert_convert (h : f.Within g) (hx : x.isFinite = true) :
    (x.convert g).isFinite = true ∧ (x.convert g).convert f = x := by
  cases x with
  | nan => cases hx
  | number s c =>
    have hc : c.val ≠ f.infinity := by simpa [isFinite] using hx
    obtain ⟨d, hd, hvalue⟩ := h.exists_code (c := c.val) (by omega)
    rw [convert_number (d := ⟨d, by omega⟩) hc hvalue]
    exact ⟨by simpa [isFinite] using hd.ne, convert_number hd.ne hvalue.symm s⟩

end Binary

end VisualNovel
