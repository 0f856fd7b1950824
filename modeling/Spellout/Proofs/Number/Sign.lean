/-
  Values that are not above zero.

  * `Binary64.not_zero_lt_nearest`, `Binary64.not_zero_lt_ofSteps`: values are not rounded across zero;
  * `Binary64.le_roundToGrid`: nor is a magnitude rounded below a count on the grid;
  * `Binary64.not_zero_lt_mul_add`: the multiple of a value that is not above zero, with less than the
    factor added to it, is not above zero, if the value is not less than one in size.
-/
import Spellout.Proofs.Number.Exact

namespace Spellout.Binary64

theorem zero_lt_iff {v : Binary64} : zero.lt v ↔ ∃ n : Int, v.place = some n ∧ 0 < n := by
  unfold lt
  cases v.place with
  | none => simp [show zero.place = some 0 from rfl]
  | some n => simp [show zero.place = some 0 from rfl]

theorem not_zero_lt_of_place {v : Binary64} {n : Int} (h : v.place = some n) (le : n ≤ 0) :
    ¬ zero.lt v := by
  rw [zero_lt_iff, h]
  rintro ⟨_, hn, pos⟩
  obtain rfl := Option.some.inj hn
  omega

theorem zero_lt_abs {v : Binary64} (below : v.isNegative) : zero.lt v.abs := by
  cases v with
  | nan => cases below
  | infinite => exact (by decide +kernel : zero.lt (infinite false))
  | finite s m =>
    have less : signed s m.steps < 0 := (lt_iff rfl (rfl : zero.place = some 0)).1 below
    have pos : 0 < (m.steps : Int) := by
      cases s <;> simp only [signed, if_true, Bool.false_eq_true, if_false] at less <;> omega
    exact zero_lt_iff.2 ⟨m.steps, rfl, pos⟩

theorem not_zero_lt_nan : ¬ zero.lt nan := by decide

theorem not_zero_lt_infinite : ¬ zero.lt (infinite true) := by decide +kernel

theorem not_zero_lt_finite (m : Magnitude) : ¬ zero.lt (finite true m) :=
  not_zero_lt_of_place rfl (by simp [signed])

theorem not_zero_lt_nearest (a b : Nat) : ¬ zero.lt (nearest true a b) := by
  unfold nearest
  split
  · exact not_zero_lt_finite _
  · exact not_zero_lt_infinite

theorem not_zero_lt_ofSteps (zeroSign : Bool) {steps : Int} (le : steps ≤ 0) :
    ¬ zero.lt (ofSteps zeroSign steps) := by
  by_cases none : steps = 0
  · subst none
    refine not_zero_lt_of_place (n := 0) ?_ (Int.le_refl 0)
    cases zeroSign <;> decide +kernel
  · have below : steps < 0 := by omega
    rw [ofSteps, if_neg none, decide_eq_true below]
    exact not_zero_lt_nearest _ _

/-- Rounding does not go below a multiple of the spacing. -/
theorem le_roundToGrid_of_spacing_dvd {a b n : Nat} (h : n ≤ a / b) (dvd : spacing (a / b) ∣ n) :
    n ≤ roundToGrid a b := by
  have fits : n / spacing (a / b) ≤ roundHalfEven a (b * spacing (a / b)) := by
    refine Nat.le_trans (Nat.div_le_div_right h) ?_
    rw [Nat.div_div_eq_div_mul]
    exact le_roundHalfEven ..
  calc n = n / spacing (a / b) * spacing (a / b) := (Nat.div_mul_cancel dvd).symm
    _ ≤ roundToGrid a b := Nat.mul_le_mul_right _ fits

/-- Rounding does not go below a count on the grid. -/
theorem le_roundToGrid {a b n : Nat} (h : n ≤ a / b) (grid : spacing n ∣ n) :
    n ≤ roundToGrid a b := by
  by_cases none : n = 0
  · omega
  · have some : a / b ≠ 0 := by omega
    rcases Nat.lt_or_ge n.log2 (a / b).log2 with fewer | as_many
    · -- a power of two lies between the count and the quotient
      have below : n < 2 ^ (a / b).log2 :=
        Nat.lt_of_lt_of_le Nat.lt_log2_self (Nat.pow_le_pow_right (by omega) fewer)
      exact Nat.le_trans (Nat.le_of_lt below) (le_roundToGrid_of_spacing_dvd
        (Nat.log2_self_le some) (Nat.pow_dvd_pow 2 (Nat.sub_le ..)))
    · have same : spacing (a / b) = spacing n := by
        have le : n.log2 ≤ (a / b).log2 := (Nat.le_log2 some).2 (Nat.le_trans (Nat.log2_self_le none) h)
        rw [spacing, spacing, Nat.le_antisymm le as_many]
      exact le_roundToGrid_of_spacing_dvd h (same ▸ grid)

theorem steps_le_of_not_abs_lt {s : Bool} {m : Magnitude} (h : ¬ (finite s m).abs.lt (ofNat 1)) :
    stepsPerUnit ≤ m.steps := by
  rw [lt_iff (a := m.steps) rfl (place_ofNat (by decide))] at h
  omega

theorem ofNat_eq (d : Nat) : ofNat d = infinite false ∨ ∃ m, ofNat d = finite false m := by
  unfold ofNat nearest
  split
  · exact .inr ⟨_, rfl⟩
  · exact .inl rfl

/-- The multiple of a value that is not above zero, and not less than one in size: it is as far below
    zero as the factor is above it, or farther. -/
theorem mul_ofNat_of_not_zero_lt {q : Binary64} (below : ¬ zero.lt q) (size : ¬ q.abs.lt (ofNat 1))
    (d : Nat) : q.mul (ofNat d) = nan ∨ q.mul (ofNat d) = infinite true ∨
      ∃ m k, ofNat d = finite false m ∧ q.mul (ofNat d) = finite true k ∧ m.steps ≤ k.steps := by
  cases q with
  | nan => exact .inl rfl
  | infinite s =>
    obtain rfl : s = true := by
      cases s with
      | true => rfl
      | false => exact absurd (by decide +kernel) below
    rcases ofNat_eq d with hd | ⟨m, hd⟩
    · rw [hd]
      exact .inr (.inl rfl)
    · rw [hd, mul]
      split
      · exact .inl rfl
      · exact .inr (.inl rfl)
  | finite s a =>
    have large : stepsPerUnit ≤ a.steps := steps_le_of_not_abs_lt size
    have some : a.steps ≠ 0 := Nat.ne_of_gt (Nat.lt_of_lt_of_le stepsPerUnit_pos large)
    obtain rfl : s = true := by
      cases s with
      | true => rfl
      | false => exact absurd (zero_lt_iff.2 ⟨a.steps, rfl, by omega⟩) below
    rcases ofNat_eq d with hd | ⟨m, hd⟩
    · rw [hd, mul, if_neg some]
      exact .inr (.inl rfl)
    · rw [hd, mul, nearest]
      split
      · have fits : m.steps ≤ a.steps * m.steps / stepsPerUnit := by
          rw [Nat.le_div_iff_mul_le stepsPerUnit_pos, Nat.mul_comm]
          exact Nat.mul_le_mul_right m.steps large
        exact .inr (.inr ⟨m, _, rfl, rfl, le_roundToGrid fits m.onGrid.2⟩)
      · exact .inr (.inl rfl)

/-- The sum of such a multiple and what is less than the factor is not above zero. -/
theorem not_zero_lt_mul_add {q r : Binary64} {d : Nat} (below : ¬ zero.lt q)
    (size : ¬ q.abs.lt (ofNat 1)) (rest : r = zero ∨ r.lt (ofNat d)) :
    ¬ zero.lt ((q.mul (ofNat d)).add r) := by
  have negative {s : Bool} (infinite : r = infinite s) : s = true := by
    rw [← Bool.not_eq_false]
    rintro rfl
    rw [infinite] at rest
    rcases rest with none | less
    · cases none
    · rcases ofNat_eq d with hd | ⟨m, hd⟩
      · rw [hd] at less
        exact absurd less (by decide +kernel)
      · rw [hd, lt_iff rfl rfl] at less
        have := m.onGrid.1
        simp only [signed, Bool.false_eq_true, if_false] at less
        omega
  rcases mul_ofNat_of_not_zero_lt below size d with h | h | ⟨m, k, hd, h, le⟩
  · rw [h]
    exact not_zero_lt_nan
  · rw [h]
    cases r with
    | nan => exact not_zero_lt_nan
    | infinite s =>
      obtain rfl := negative rfl
      exact not_zero_lt_infinite
    | finite => exact not_zero_lt_infinite
  · rw [h]
    cases r with
    | nan => exact not_zero_lt_nan
    | infinite s =>
      obtain rfl := negative rfl
      exact not_zero_lt_infinite
    | finite s b =>
      refine not_zero_lt_ofSteps _ ?_
      have part : signed s b.steps ≤ m.steps := by
        rcases rest with none | less
        · cases none
          exact Int.natCast_nonneg _
        · rw [hd, lt_iff rfl rfl] at less
          exact Int.le_of_lt less
      simp only [signed, if_true] at part ⊢
      omega

end Spellout.Binary64
