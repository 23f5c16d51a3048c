/-
  How long authored seconds take.

  * `Duration.rounds_ofSeconds`: the nanoseconds of a number of seconds, by its value;
  * `Duration.ofSeconds_le_ofSeconds`: below 2^64 seconds more of them never take less time;
  * `Duration.ofSeconds_eq_zero_iff`: no time is taken by what is at most half a nanosecond, and
    by what is too long to be told.
-/
import VisualNovel.Number.Duration
import VisualNovel.Proofs.Number.Nearest

namespace VisualNovel.Duration

-- A power is that of the numbers, also where monoids are in scope.
attribute [local instance (high)] instPowNat

variable {x a b : Binary64}

/-- The seconds of a finite number as a fraction, and what is made of it. -/
theorem ofSeconds_number {c : Fin (Format.double.infinity + 1)}
    (hc : c.val ≠ Format.double.infinity) (s : Bool) :
    ∃ num den : Nat, 0 < den ∧ (num : ℚ) / den = Format.double.magnitude c ∧
      ofSeconds (.number s c) =
        if s = true ∨ (UInt64.size : ℚ) ≤ Format.double.magnitude c then zero
        else ⟨roundDiv (num * 1000000000) den⟩ := by
  obtain ⟨m, e, hsplit⟩ : ∃ m e, Format.double.split c = (m, e) := ⟨_, _, rfl⟩
  obtain ⟨num, den, hscaled⟩ : ∃ num den, scaled m 1 e = (num, den) := ⟨_, _, rfl⟩
  have hden : 0 < den := by
    have := scaled_pos Nat.one_pos m e
    rwa [hscaled] at this
  have hvalue : (num : ℚ) / den = Format.double.magnitude c := by
    have := scaled_div m 1 e
    rw [hscaled, Nat.cast_one, div_one] at this
    rw [this, Format.magnitude, hsplit]
  have hlong : den * UInt64.size ≤ num ↔ (UInt64.size : ℚ) ≤ Format.double.magnitude c := by
    rw [← hvalue, le_div_iff₀ (Nat.cast_pos.2 hden), ← Nat.cast_mul, Nat.cast_le, Nat.mul_comm]
  refine ⟨num, den, hden, hvalue, ?_⟩
  rw [ofSeconds, hsplit]
  dsimp only
  rw [hscaled]
  simp only [hlong, hc, false_or]

theorem ofSeconds_of_long (hx : x.isFinite = true) (h : (UInt64.size : ℚ) ≤ x.value) :
    ofSeconds x = zero := by
  cases x with
  | nan => rfl
  | number s c =>
    obtain ⟨num, den, -, -, hof⟩ := ofSeconds_number (by simpa [Binary.isFinite] using hx) s
    rw [hof, if_pos]
    cases s with
    | false => exact .inr h
    | true => exact .inl rfl

/-- The nanoseconds of a number of seconds that are few enough are rounded; negative numbers
    count as zero. -/
theorem rounds_ofSeconds (hx : x.isFinite = true) (hlt : x.value < UInt64.size) :
    Rounds (max x.value 0 * 1000000000) (ofSeconds x).nanos := by
  cases x with
  | nan => cases hx
  | number s c =>
    obtain ⟨num, den, hden, hvalue, hof⟩ :=
      ofSeconds_number (by simpa [Binary.isFinite] using hx) s
    have hnonneg := Format.double.magnitude_nonneg c
    cases s with
    | true =>
      have hneg : (Binary.number true c : Binary64).value = -Format.double.magnitude c := rfl
      have hzero := rounds_natCast 0
      rw [Nat.cast_zero] at hzero
      rw [hof, if_pos (.inl rfl), hneg, max_eq_right (neg_nonpos.2 hnonneg), zero_mul]
      exact hzero
    | false =>
      have hpos : (Binary.number false c : Binary64).value = Format.double.magnitude c := rfl
      rw [hpos] at hlt ⊢
      have hrounds := rounds_roundDiv hden (num * 1000000000)
      rw [Nat.cast_mul, mul_div_right_comm, hvalue, Nat.cast_ofNat] at hrounds
      rw [hof, if_neg (by simpa using hlt), max_eq_left hnonneg]
      exact hrounds

/-- Of fewer than 2^64 seconds, more do not take less time. -/
theorem ofSeconds_le_ofSeconds (ha : a.isFinite = true) (hb : b.isFinite = true)
    (h : a.value ≤ b.value) (hlt : b.value < UInt64.size) :
    (ofSeconds a).nanos ≤ (ofSeconds b).nanos := by
  refine (rounds_ofSeconds ha (h.trans_lt hlt)).le (rounds_ofSeconds hb hlt) ?_
  exact mul_le_mul_of_nonneg_right (max_le_max_right 0 h) (by norm_num)

/-- No time is taken by half a nanosecond or less, and by 2^64 seconds or more. -/
theorem ofSeconds_eq_zero_iff (hx : x.isFinite = true) :
    ofSeconds x = zero ↔ x.value ≤ 1 / 2000000000 ∨ (UInt64.size : ℚ) ≤ x.value := by
  by_cases hlong : (UInt64.size : ℚ) ≤ x.value
  · exact iff_of_true (ofSeconds_of_long hx hlong) (.inr hlong)
  have hone := rounds_ofSeconds hx (not_le.1 hlong) 1
  have hzero : ofSeconds x = zero ↔ ¬1 ≤ (ofSeconds x).nanos := by
    obtain ⟨n⟩ := ofSeconds x
    simp [zero]
  rw [hzero, hone, or_iff_left hlong, Nat.cast_one]
  constructor
  · intro h
    by_contra hmore
    have hle := le_max_left x.value 0
    exact h (.inl (by linarith))
  · intro h hk
    have hle : max x.value 0 ≤ 1 / 2000000000 := max_le h (by norm_num)
    rcases hk with hk | ⟨-, hk⟩
    · linarith
    · omega

end VisualNovel.Duration
