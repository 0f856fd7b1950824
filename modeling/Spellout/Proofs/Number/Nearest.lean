/-
  The value nearest to a number.

  Values stand on a grid of counts, which an infinity continues by the first count that is too large.
  Of these counts the one nearest to a quotient is taken, and of two equally near the one whose last
  digit is even.

  * `nearest_roundHalfEven`: so a quotient is rounded to a natural number;
  * `Binary64.HasSteps`: the count that a value stands for;
  * `Binary64.IsNearest`, `Decimal.IsNearest`: no value is nearer to a number;
  * `Binary64.isNearest_nearest`, `Decimal.isNearest_nearest`: numbers are rounded to the nearest value.
-/
import Mathlib.Data.Nat.Dist
import Spellout.Number.Decimal
import Spellout.Proofs.Number.Sign

namespace Spellout

/-! ## Natural numbers -/

/-- At `a / b` the number `n` is chosen before `k`: it is nearer, or equally near and `even`. -/
def Chosen (a b n : Nat) (even : Prop) (k : Nat) : Prop :=
  Nat.dist (n * b) a < Nat.dist (k * b) a ∨
    Nat.dist (n * b) a = Nat.dist (k * b) a ∧ (k = n ∨ even)

/-- A quotient is rounded to the nearest natural number, and to the even one of two. -/
theorem nearest_roundHalfEven (a : Nat) {b : Nat} (pos : 0 < b) (k : Nat) :
    Chosen a b (roundHalfEven a b) (roundHalfEven a b % 2 = 0) k := by
  have split := Nat.div_add_mod' a b
  have rest := Nat.mod_lt a pos
  -- the numbers below and above the quotient are a whole `b` away from each other
  have next : (a / b + 1) * b = a / b * b + b := Nat.succ_mul ..
  have below : k < a / b → k * b + b ≤ a / b * b := fun lt => by
    rw [← Nat.succ_mul]
    exact Nat.mul_le_mul_right b lt
  have above : a / b + 1 < k → a / b * b + b + b ≤ k * b := fun lt => by
    rw [← next, ← Nat.succ_mul]
    exact Nat.mul_le_mul_right b lt
  have cases : k < a / b ∨ k = a / b ∨ k = a / b + 1 ∨ a / b + 1 < k := by omega
  have rounded : 2 * (a % b) < b ∧ roundHalfEven a b = a / b ∨
      b < 2 * (a % b) ∧ roundHalfEven a b = a / b + 1 ∨
      2 * (a % b) = b ∧ (roundHalfEven a b = a / b ∨ roundHalfEven a b = a / b + 1) ∧
        roundHalfEven a b % 2 = 0 := by
    simp only [roundHalfEven]
    split
    · omega
    · split <;> omega
  generalize roundHalfEven a b = n at rounded
  unfold Chosen Nat.dist
  rcases rounded with ⟨near, rfl⟩ | ⟨near, rfl⟩ | ⟨near, rfl | rfl, even⟩ <;>
    rcases cases with lt | rfl | rfl | lt <;> omega

namespace Binary64

/-! ## The nearest value -/

/-- The count of steps that a value stands for, with its sign; an infinity stands for the first count
    that is too large. -/
inductive HasSteps : Binary64 → Bool → Nat → Prop
  | finite (s m) : HasSteps (.finite s m) s m.steps
  | infinite (s) : HasSteps (.infinite s) s overflow

/-- No value is nearer to `± a / b` steps, and of two equally near this is the one with an even last
    digit. -/
def IsNearest (negative : Bool) (a b : Nat) (v : Binary64) : Prop :=
  ∃ n, HasSteps v negative n ∧
    ∀ w s k, HasSteps w s k → Chosen a b n (n / spacing n % 2 = 0) k

variable {v : Binary64} {s : Bool} {a b k : Nat}

theorem HasSteps.le (h : HasSteps v s k) : k ≤ overflow := by
  cases h with
  | finite s m => exact Nat.le_of_lt m.onGrid.1
  | infinite s => exact Nat.le_refl _

theorem HasSteps.dvd (h : HasSteps v s k) : spacing k ∣ k := by
  cases h with
  | finite s m => exact m.onGrid.2
  | infinite s =>
    obtain ⟨-, o, -, -, -, top⟩ := exists_two_pow
    rw [top]
    exact spacing_dvd_two_pow o

/-! ## Rounding -/

/-- The last digit of a power of two with more than 53 digits is even. -/
theorem two_pow_div_spacing (e : Nat) : 2 ^ (53 + e) / spacing (2 ^ (53 + e)) % 2 = 0 := by
  have exponent : 53 + e = 52 + (1 + e) := by omega
  have digits : 53 + e - 52 = 1 + e := by omega
  rw [spacing, Nat.log2_two_pow, digits, exponent, Nat.pow_add,
    Nat.mul_div_cancel _ (Nat.two_pow_pos _)]

/-- The last digit that is kept is the last digit of the result, unless the result is a power of
    two. -/
theorem even_roundToGrid (even : roundHalfEven a (b * spacing (a / b)) % 2 = 0) :
    roundToGrid a b / spacing (roundToGrid a b) % 2 = 0 := by
  by_cases none : roundToGrid a b = 0
  · rw [none, Nat.zero_div]
  · have low : 2 ^ (a / b).log2 ≤ roundToGrid a b := by
      by_cases small : a / b = 0
      · rw [small]
        exact Nat.pos_of_ne_zero none
      · exact le_roundToGrid_of_spacing_dvd (Nat.log2_self_le small)
          (Nat.pow_dvd_pow 2 (Nat.sub_le ..))
    have high : roundToGrid a b ≤ 2 ^ (53 + ((a / b).log2 - 52)) := by
      rw [Nat.pow_add]
      refine Nat.mul_le_mul_right _ (Nat.le_trans (roundHalfEven_le ..) ?_)
      rw [← Nat.div_div_eq_div_mul]
      exact Nat.div_lt_of_lt_mul (lt_spacing_mul _)
    rcases Nat.lt_or_eq_of_le high with lt | eq
    · have same : spacing (roundToGrid a b) = spacing (a / b) := by
        have above := (Nat.le_log2 none).2 low
        have below := (Nat.log2_lt none).2 lt
        have exponent : (roundToGrid a b).log2 - 52 = (a / b).log2 - 52 := by omega
        rw [spacing, spacing, exponent]
      rw [same, roundToGrid, Nat.mul_div_cancel _ (spacing_pos _)]
      exact even
    · rw [eq]
      exact two_pow_div_spacing _

/-- A count on the grid is a multiple of the spacing at the quotient, or below the power of two where
    that spacing begins. -/
theorem spacing_dvd_or_lt (n : Nat) (grid : spacing k ∣ k) :
    spacing n ∣ k ∨ k < 2 ^ n.log2 ∧ 2 ^ n.log2 ≤ n := by
  by_cases small : n = 0
  · rw [small]
    exact .inl (Nat.one_dvd k)
  · rcases Nat.lt_or_ge k (2 ^ n.log2) with lt | ge
    · exact .inr ⟨lt, Nat.log2_self_le small⟩
    · refine .inl (Nat.dvd_trans (Nat.pow_dvd_pow 2 (Nat.sub_le_sub_right ?_ 52)) grid)
      exact (Nat.le_log2 (Nat.ne_of_gt (Nat.lt_of_lt_of_le (Nat.two_pow_pos _) ge))).2 ge

/-- No count on the grid is nearer to a quotient than the one it is rounded to. -/
theorem chosen_roundToGrid (pos : 0 < b) (grid : spacing k ∣ k) :
    Chosen a b (roundToGrid a b) (roundToGrid a b / spacing (roundToGrid a b) % 2 = 0) k := by
  -- among the multiples of the spacing it is the nearest one
  have multiples (j : Nat) : Chosen a b (roundToGrid a b)
      (roundToGrid a b / spacing (roundToGrid a b) % 2 = 0) (j * spacing (a / b)) := by
    have scaled (i : Nat) : i * (b * spacing (a / b)) = i * spacing (a / b) * b := by
      rw [Nat.mul_comm b, Nat.mul_assoc]
    have nearest := nearest_roundHalfEven a (Nat.mul_pos pos (spacing_pos (a / b))) j
    unfold Chosen at nearest ⊢
    rw [scaled, scaled] at nearest
    refine nearest.imp id (And.imp id (Or.imp ?_ even_roundToGrid))
    rintro rfl
    rfl
  rcases spacing_dvd_or_lt (a / b) grid with ⟨j, hj⟩ | ⟨lt, le⟩
  · rw [hj, Nat.mul_comm]
    exact multiples j
  · -- the power of two is nearer than what is below it
    obtain ⟨j, hj⟩ : spacing (a / b) ∣ 2 ^ (a / b).log2 := Nat.pow_dvd_pow 2 (Nat.sub_le ..)
    have nearer := multiples j
    rw [Nat.mul_comm, ← hj] at nearer
    have reached : 2 ^ (a / b).log2 * b ≤ a :=
      Nat.le_trans (Nat.mul_le_mul_right b le) (Nat.div_mul_le_self a b)
    have farther : k * b < 2 ^ (a / b).log2 * b := Nat.mul_lt_mul_of_pos_right lt pos
    unfold Chosen Nat.dist at *
    omega

/-- **A quotient is rounded to the nearest value,** and to an infinity where a count that is too large
    is nearest. -/
theorem isNearest_nearest (s : Bool) (a : Nat) (pos : 0 < b) :
    IsNearest s a b (nearest s a b) := by
  by_cases fits : roundToGrid a b < overflow
  · have eq : nearest s a b = .finite s ⟨_, fits, spacing_dvd_roundToGrid a b⟩ := dif_pos fits
    rw [eq]
    exact ⟨_, .finite .., fun _ _ _ h => chosen_roundToGrid pos h.dvd⟩
  · have eq : nearest s a b = .infinite s := dif_neg fits
    rw [eq]
    refine ⟨overflow, .infinite s, fun w t k h => ?_⟩
    have even : overflow / spacing overflow % 2 = 0 := by
      obtain ⟨-, o, -, ho, -, top⟩ := exists_two_pow
      have split : o = 53 + (o - 53) := by omega
      rw [top, split]
      exact two_pow_div_spacing _
    have above : overflow * b ≤ roundToGrid a b * b := Nat.mul_le_mul_right b (Nat.not_lt.1 fits)
    have below : k * b ≤ overflow * b := Nat.mul_le_mul_right b h.le
    have nearer := chosen_roundToGrid (a := a) pos h.dvd
    have le : Nat.dist (overflow * b) a ≤ Nat.dist (k * b) a := by
      unfold Chosen Nat.dist at *
      omega
    exact (Nat.lt_or_eq_of_le le).imp id fun eq => ⟨eq, .inr even⟩

end Binary64

namespace Decimal

/-- No value is nearer to a decimal fraction. -/
def IsNearest (negative : Bool) (d : Decimal) (v : Binary64) : Prop :=
  Binary64.IsNearest negative (d.units * Binary64.stepsPerUnit) (10 ^ d.places) v

/-- **A decimal fraction is rounded to the nearest value.** -/
theorem isNearest_nearest (negative : Bool) (d : Decimal) :
    d.IsNearest negative (nearest negative d) :=
  Binary64.isNearest_nearest negative _ (Nat.pow_pos (by decide))

end Decimal
end Spellout
