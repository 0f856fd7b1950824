/-
  Rounding a quotient of natural numbers to a natural number.

  * `roundHalfEven a b` is the natural number nearest to `a / b`, the even one of two equally near;
  * `roundHalfUp a b` is the nearest one, the larger of two equally near;
  * `roundHalfEven_le`, `le_roundHalfEven`: the result is the integral part or one more;
  * `roundHalfEven_mul`: a natural number is not moved.
-/
namespace Spellout

/-- The natural number nearest to `a / b`; of two equally near the even one. -/
def roundHalfEven (a b : Nat) : Nat :=
  let q := a / b
  let r := a % b
  if 2 * r < b then q else if b < 2 * r then q + 1 else q + q % 2

/-- The natural number nearest to `a / b`; of two equally near the larger one. -/
def roundHalfUp (a b : Nat) : Nat := (2 * a + b) / (2 * b)

theorem le_roundHalfEven (a b : Nat) : a / b ≤ roundHalfEven a b := by
  simp only [roundHalfEven]
  split
  · exact Nat.le_refl _
  · split <;> omega

theorem roundHalfEven_le (a b : Nat) : roundHalfEven a b ≤ a / b + 1 := by
  simp only [roundHalfEven]
  split
  · omega
  · split <;> omega

theorem roundHalfEven_mul (n : Nat) {b : Nat} (h : 0 < b) : roundHalfEven (n * b) b = n := by
  simp [roundHalfEven, Nat.mul_div_cancel _ h, h]

theorem roundHalfUp_mul (n : Nat) {b : Nat} (h : 0 < b) : roundHalfUp (n * b) b = n := by
  have : 2 * (n * b) + b = b + n * (2 * b) := by
    rw [Nat.mul_left_comm]; omega
  rw [roundHalfUp, this, Nat.add_mul_div_right _ _ (by omega), Nat.div_eq_of_lt (by omega)]
  omega

end Spellout
