/-
  Hexadecimal digits: `digits w n` writes the last `w` digits of `n`, lower
  case and padded with zeros, and `read?` reads digits of either case.

  * `read?_digits`: what `digits w n` writes is read back as `n % 16 ^ w`.
-/
namespace VisualNovel.Hex

-- A power is that of the numbers, also where monoids are in scope.
attribute [local instance (high)] instPowNat

/-- The digit of a number below sixteen. -/
def digit (n : Nat) : Char :=
  if n < 10 then Char.ofNat (48 + n) else Char.ofNat (87 + n)

/-- The value of a digit of either case. -/
def value? (c : Char) : Option Nat :=
  if '0' ≤ c ∧ c ≤ '9' then some (c.toNat - 48)
  else if 'a' ≤ c ∧ c ≤ 'f' then some (c.toNat - 87)
  else if 'A' ≤ c ∧ c ≤ 'F' then some (c.toNat - 55)
  else none

/-- The last `w` digits of a number, most significant first. -/
def digits : (w : Nat) → Nat → List Char
  | 0, _ => []
  | w + 1, n => digits w (n / 16) ++ [digit (n % 16)]

/-- The number that a list of digits denotes. -/
def read? (cs : List Char) : Option Nat :=
  cs.foldlM (fun n c => (value? c).map (16 * n + ·)) 0

theorem length_digits (w n : Nat) : (digits w n).length = w := by
  induction w generalizing n with
  | zero => rfl
  | succ w ih => simp [digits, ih]

theorem value?_digit {n : Nat} (h : n < 16) : value? (digit n) = some n := by
  have : ∀ m : Fin 16, value? (digit m) = some m.val := by decide
  exact this ⟨n, h⟩

theorem read?_digits (w n : Nat) : read? (digits w n) = some (n % 16 ^ w) := by
  induction w generalizing n with
  | zero => simp [digits, read?, Nat.mod_one]
  | succ w ih =>
    have hr : read? (digits w (n / 16)) = some (n / 16 % 16 ^ w) := ih _
    unfold read? at hr ⊢
    have hm : n % 16 ^ (w + 1) = 16 * (n / 16 % 16 ^ w) + n % 16 := by
      rw [Nat.pow_succ, Nat.mul_comm, Nat.mod_mul]
      omega
    simp [digits, List.foldlM_append, hr, value?_digit (Nat.mod_lt n (by decide)), hm]

end VisualNovel.Hex
