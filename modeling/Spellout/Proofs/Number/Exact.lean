/-
  Rounding keeps the order, and integers of up to 53 binary digits are exact.

  * `Binary64.roundToGrid_mono`: a larger count of steps is not rounded to a smaller one;
  * `Binary64.lt_of_ofNat_lt`: so the order of natural numbers is not turned round;
  * `Binary64.ofNat_of_le`: up to `2 ^ 53` a natural number is its own value;
  * `Binary64.mul_ofNat`, `Binary64.add_ofNat`: there sums and products are exact;
  * `Binary64.ofInt` is the value nearest to an integer.
-/
import Spellout.Number.Binary64

namespace Spellout

theorem roundHalfEven_mono {a a' : Nat} (b : Nat) (h : a ≤ a') :
    roundHalfEven a b ≤ roundHalfEven a' b := by
  rcases Nat.lt_or_eq_of_le (Nat.div_le_div_right (c := b) h) with lt | eq
  · exact Nat.le_trans (roundHalfEven_le a b) (Nat.le_trans lt (le_roundHalfEven a' b))
  · have rest : a % b ≤ a' % b := by
      have := Nat.div_add_mod a b
      have := Nat.div_add_mod a' b
      rw [eq] at *
      omega
    simp only [roundHalfEven, eq]
    repeat' split
    all_goals omega

namespace Binary64

/-! ## Order -/

theorem roundToGrid_one (n : Nat) : roundToGrid n 1 = roundHalfEven n (spacing n) * spacing n := by
  simp [roundToGrid]

theorem two_pow_le_roundToGrid {n e : Nat} (h : 2 ^ e ≤ n) : 2 ^ e ≤ roundToGrid n 1 := by
  have low : 2 ^ e ≤ 2 ^ n.log2 := two_pow_le_two_pow_log2 h
  have ne : n ≠ 0 := Nat.ne_of_gt (Nat.lt_of_lt_of_le (Nat.two_pow_pos e) h)
  have dvd : spacing n ∣ 2 ^ n.log2 := Nat.pow_dvd_pow 2 (Nat.sub_le ..)
  rw [roundToGrid_one]
  calc 2 ^ e ≤ 2 ^ n.log2 := low
    _ = 2 ^ n.log2 / spacing n * spacing n := (Nat.div_mul_cancel dvd).symm
    _ ≤ n / spacing n * spacing n :=
      Nat.mul_le_mul_right _ (Nat.div_le_div_right (Nat.log2_self_le ne))
    _ ≤ _ := Nat.mul_le_mul_right _ (le_roundHalfEven ..)

theorem roundToGrid_le_two_pow {n e : Nat} (h : n < 2 ^ e) : roundToGrid n 1 ≤ 2 ^ e := by
  by_cases ne : n = 0
  · subst ne
    simp [roundToGrid, roundHalfEven, spacing]
  · have top : n.log2 + 1 ≤ e := (Nat.log2_lt ne).2 h
    have dvd : spacing n ∣ 2 ^ e := Nat.pow_dvd_pow 2 (by omega)
    have quotient : n / spacing n < 2 ^ e / spacing n := by
      rw [Nat.div_lt_iff_lt_mul (spacing_pos n), Nat.div_mul_cancel dvd]
      exact h
    rw [roundToGrid_one]
    calc roundHalfEven n (spacing n) * spacing n ≤ (n / spacing n + 1) * spacing n :=
          Nat.mul_le_mul_right _ (roundHalfEven_le ..)
      _ ≤ 2 ^ e / spacing n * spacing n := Nat.mul_le_mul_right _ quotient
      _ = 2 ^ e := Nat.div_mul_cancel dvd

/-- **Rounding keeps the order.**  Between two powers of two the grid is even, and the powers are on
    it. -/
theorem roundToGrid_mono {n n' : Nat} (h : n ≤ n') : roundToGrid n 1 ≤ roundToGrid n' 1 := by
  by_cases ne : n = 0
  · subst ne
    simp [roundToGrid, roundHalfEven, spacing]
  · have ne' : n' ≠ 0 := by omega
    have mono : n.log2 ≤ n'.log2 :=
      (Nat.le_log2 ne').2 (Nat.le_trans (Nat.log2_self_le ne) h)
    rcases Nat.lt_or_eq_of_le mono with lt | eq
    · have below : roundToGrid n 1 ≤ 2 ^ (n.log2 + 1) := roundToGrid_le_two_pow Nat.lt_log2_self
      have above : 2 ^ n'.log2 ≤ roundToGrid n' 1 := two_pow_le_roundToGrid (Nat.log2_self_le ne')
      exact Nat.le_trans below (Nat.le_trans (Nat.pow_le_pow_right (by decide) lt) above)
    · have same : spacing n = spacing n' := by
        rw [spacing, spacing, eq]
      rw [roundToGrid_one, roundToGrid_one, same]
      exact Nat.mul_le_mul_right _ (roundHalfEven_mono _ h)

theorem place_nearest (n : Nat) :
    (nearest false n 1).place = some ((min (roundToGrid n 1) overflow : Nat) : Int) := by
  unfold nearest
  split
  · rename_i lt
    rw [Nat.min_eq_left (Nat.le_of_lt lt)]
    rfl
  · rename_i ge
    rw [Nat.min_eq_right (Nat.not_lt.1 ge)]
    rfl

theorem lt_iff {x y : Binary64} {a b : Int} (hx : x.place = some a) (hy : y.place = some b) :
    x.lt y ↔ a < b := by
  simp [lt, hx, hy]

/-- The order of natural numbers is not turned round. -/
theorem lt_of_ofNat_lt {m n : Nat} (h : (ofNat m).lt (ofNat n)) : m < n := by
  rcases Nat.lt_or_ge m n with lt | ge
  · exact lt
  · have steps : roundToGrid (n * stepsPerUnit) 1 ≤ roundToGrid (m * stepsPerUnit) 1 :=
      roundToGrid_mono (Nat.mul_le_mul_right _ ge)
    have h := (lt_iff (place_nearest _) (place_nearest _)).1 h
    generalize roundToGrid (n * stepsPerUnit) 1 = a, roundToGrid (m * stepsPerUnit) 1 = b,
      overflow = c at h steps
    omega

/-! ## Integers -/

theorem onGrid_of_le {n : Nat} (h : n ≤ 2 ^ 53) : OnGrid (n * stepsPerUnit) := by
  obtain ⟨e, o, he, ho, hs, top⟩ := exists_two_pow
  rw [OnGrid, hs, top]
  refine ⟨?_, spacing_dvd_mul e h⟩
  calc n * 2 ^ e ≤ 2 ^ 53 * 2 ^ e := Nat.mul_le_mul_right _ h
    _ = 2 ^ (53 + e) := (Nat.pow_add ..).symm
    _ < 2 ^ o := Nat.pow_lt_pow_right (by decide) (by omega)

/-- **A natural number of up to 53 binary digits is its own value.** -/
theorem ofNat_of_le {n : Nat} (h : n ≤ 2 ^ 53) :
    ofNat n = .finite false ⟨n * stepsPerUnit, onGrid_of_le h⟩ :=
  nearest_steps false ⟨n * stepsPerUnit, onGrid_of_le h⟩

theorem place_ofNat {n : Nat} (h : n ≤ 2 ^ 53) :
    (ofNat n).place = some ((n * stepsPerUnit : Nat) : Int) := by
  rw [ofNat_of_le h]
  rfl

theorem lt_ofNat {m n : Nat} (hm : m ≤ 2 ^ 53) (hn : n ≤ 2 ^ 53) :
    (ofNat m).lt (ofNat n) ↔ m < n := by
  rw [lt_iff (place_ofNat hm) (place_ofNat hn), Int.ofNat_lt]
  exact Nat.mul_lt_mul_right stepsPerUnit_pos

/-! ## Arithmetic on integers -/

/-- A quotient that is a magnitude is not moved. -/
theorem nearest_mul (negative : Bool) (m : Magnitude) {b : Nat} (hb : 0 < b) :
    nearest negative (m.steps * b) b = .finite negative m := by
  obtain ⟨k, hk⟩ := m.onGrid.2
  have round : roundToGrid (m.steps * b) b = m.steps := by
    have scaled : m.steps * b = k * (b * spacing m.steps) := by
      rw [Nat.mul_left_comm, Nat.mul_comm k, ← hk, Nat.mul_comm]
    have pos : 0 < b * spacing m.steps := Nat.mul_pos hb (spacing_pos _)
    rw [roundToGrid, Nat.mul_div_cancel _ hb, scaled, roundHalfEven_mul k pos, Nat.mul_comm, ← hk]
  simp [nearest, round, m.onGrid.1]

theorem mul_finite {a b c : Magnitude} (h : a.steps * b.steps = c.steps * stepsPerUnit) :
    (finite false a).mul (finite false b) = .finite false c := by
  rw [mul, h, bne_self_eq_false]
  exact nearest_mul false c stepsPerUnit_pos

theorem mul_ofNat {m n : Nat} (hm : m ≤ 2 ^ 53) (hn : n ≤ 2 ^ 53) (h : m * n ≤ 2 ^ 53) :
    (ofNat m).mul (ofNat n) = ofNat (m * n) := by
  rw [ofNat_of_le hm, ofNat_of_le hn, ofNat_of_le h]
  exact mul_finite ((Nat.mul_mul_mul_comm ..).trans (Nat.mul_assoc ..).symm)

theorem ofSteps_natCast (n : Nat) : ofSteps false n = nearest false n 1 := by
  have sign : (if (n : Int) = 0 then false else decide ((n : Int) < 0)) = false := by
    split
    · rfl
    · exact decide_eq_false (by omega)
  rw [ofSteps, sign, Int.natAbs_natCast]

theorem add_finite {a b c : Magnitude} (h : a.steps + b.steps = c.steps) :
    (finite false a).add (finite false b) = .finite false c := by
  have steps : signed false a.steps + signed false b.steps = (c.steps : Nat) := by
    rw [← h]
    rfl
  simp only [add, steps, Bool.and_false, ofSteps_natCast, nearest_steps]

theorem add_ofNat {m n : Nat} (h : m + n ≤ 2 ^ 53) :
    (ofNat m).add (ofNat n) = ofNat (m + n) := by
  have hm : m ≤ 2 ^ 53 := by omega
  have hn : n ≤ 2 ^ 53 := by omega
  rw [ofNat_of_le hm, ofNat_of_le hn, ofNat_of_le h]
  exact add_finite (Nat.add_mul m n stepsPerUnit).symm

theorem zero_eq : zero = ofNat 0 := by
  rw [ofNat_of_le (Nat.zero_le _)]
  simp only [zero, Magnitude.zero, Nat.zero_mul]

theorem floor_ofNat {n : Nat} (h : n ≤ 2 ^ 53) :
    (⟨n * stepsPerUnit, onGrid_of_le h⟩ : Magnitude).floor = n :=
  Nat.mul_div_cancel _ stepsPerUnit_pos

theorem trunc_ofNat {n : Nat} (h : n ≤ 2 ^ 53) : (ofNat n).trunc = ofNat n := by
  rw [ofNat_of_le h, trunc, floor_ofNat h, ofRatio]
  exact nearest_steps false ⟨n * stepsPerUnit, onGrid_of_le h⟩

theorem isZero_sub_self (m : Magnitude) : ((finite false m).sub (finite false m)).isZero := by
  have gone : signed false m.steps + signed true m.steps = 0 := Int.add_right_neg _
  have zero : nearest false 0 1 = .finite false .zero := nearest_of_two_mul_lt false (by decide)
  simp only [sub, neg, add, Bool.not_false, gone, ofSteps, Bool.and_true, if_true, Int.natAbs_zero,
    zero]
  rfl

theorem isIntegral_ofNat {n : Nat} (h : n ≤ 2 ^ 53) : (ofNat n).isIntegral := by
  rw [isIntegral, fract, trunc_ofNat h, ofNat_of_le h]
  exact isZero_sub_self _

theorem isNegative_iff {v : Binary64} {i : Int} (h : v.place = some i) : v.isNegative ↔ i < 0 :=
  lt_iff h (y := zero) rfl

theorem isNegative_eq_false_iff {v : Binary64} {i : Int} (h : v.place = some i) :
    v.isNegative = false ↔ 0 ≤ i := by
  rw [Bool.eq_false_iff, ne_eq, isNegative_iff h, Int.not_lt]

/-- Zero is not negative, of either sign. -/
theorem isNegative_finite {s : Bool} {m : Magnitude} :
    (finite s m).isNegative ↔ s ∧ m.steps ≠ 0 := by
  rw [isNegative_iff rfl]
  cases s with
  | false => simp [signed]
  | true =>
    simp only [signed, if_true, true_and]
    omega

theorem isNegative_ofNat {n : Nat} (h : n ≤ 2 ^ 53) : (ofNat n).isNegative = false := by
  rw [isNegative, zero_eq, Bool.eq_false_iff]
  intro lt
  exact Nat.not_lt_zero n ((lt_ofNat h (Nat.zero_le _)).1 lt)

theorem isNegative_of_steps_pos {m : Magnitude} (pos : 0 < m.steps) :
    (finite true m).isNegative :=
  isNegative_finite.2 ⟨rfl, Nat.ne_of_gt pos⟩

theorem isNegative_neg_ofNat {n : Nat} (h : n ≤ 2 ^ 53) (pos : 0 < n) :
    (ofNat n).neg.isNegative := by
  rw [ofNat_of_le h]
  exact isNegative_of_steps_pos (Nat.mul_pos pos stepsPerUnit_pos)

theorem neg_neg (x : Binary64) : x.neg.neg = x := by
  cases x <;> simp [neg]

theorem isFinite_neg (x : Binary64) : x.neg.isFinite = x.isFinite := by
  cases x <;> rfl

theorem isFinite_ofNat {n : Nat} (h : n ≤ 2 ^ 53) : (ofNat n).isFinite := by
  rw [ofNat_of_le h]
  rfl

/-- The value nearest to an integer. -/
def ofInt (n : Int) : Binary64 := if n < 0 then (ofNat n.natAbs).neg else ofNat n.natAbs

end Binary64
end Spellout
