/-
  Numerals of natural numbers.

  A numeral system is handed the binary number nearest to a natural number.  Without places behind the
  point, the decimal system writes all digits of that; so it writes those of the natural number itself
  if this is a binary number, and other ones if it is not.

  * `Binary64.exists_whole_ofNat`: a natural number is rounded to a natural number;
  * `NumeralSystem.bare`: a numeral without commas, and without zeros that fill it up;
  * `NumeralSystem.bare_renderFinite`: what is left of the numeral of a natural number are its digits;
  * `NumeralSystem.exists_render_ofNat`: so exactly the numbers on the grid are rendered with
    their own digits.
-/
import Spellout.Proofs.Number.Whole
import Spellout.Proofs.Numeral.Reading

namespace Spellout

/-! ## Natural numbers as binary numbers -/

namespace Binary64

theorem steps_of_nearest {s s' : Bool} {a b : Nat} {m : Magnitude}
    (h : nearest s a b = .finite s' m) : m.steps = roundToGrid a b := by
  unfold nearest at h
  split at h
  · cases h
    rfl
  · cases h

/-- **A natural number is rounded to a natural number,** and to itself if it is on the grid, and only
    then. -/
theorem exists_whole_ofNat {n : Nat} (h : n ≤ wholeLimit) :
    ∃ k m, ofNat n = .finite false m ∧ m.steps = k * stepsPerUnit ∧
      (k = n ↔ OnGrid (n * stepsPerUnit)) := by
  obtain ⟨m, hm, -⟩ := exists_ofNat h
  have steps : m.steps = roundToGrid (n * stepsPerUnit) 1 := steps_of_nearest hm
  have whole : stepsPerUnit ∣ m.steps := by
    rw [steps]
    rcases spacing_dvd_or_dvd (n * stepsPerUnit) with fine | coarse
    · rw [roundToGrid_of_dvd (Nat.dvd_trans fine (Nat.dvd_mul_left ..))]
      exact Nat.dvd_mul_left ..
    · rw [roundToGrid_one]
      exact Nat.dvd_trans coarse (Nat.dvd_mul_left ..)
  refine ⟨m.steps / stepsPerUnit, m, hm, (Nat.div_mul_cancel whole).symm, ?_, fun grid => ?_⟩
  · rintro rfl
    rw [Nat.div_mul_cancel whole]
    exact m.onGrid
  · rw [steps, roundToGrid_of_dvd grid.2, Nat.mul_div_cancel _ stepsPerUnit_pos]

end Binary64

/-! ## Digits -/

namespace NumeralSystem

theorem toDigits_injective {m n : Nat} (h : Nat.toDigits 10 m = Nat.toDigits 10 n) : m = n := by
  rw [← Nat.ofDigitChars_ten_toDigits (n := m), h, Nat.ofDigitChars_ten_toDigits]

/-- Only the digits of zero start with a zero. -/
theorem head?_toDigits {n : Nat} (h : 0 < n) : ∀ c ∈ (Nat.toDigits 10 n).head?, c ≠ '0' := by
  induction n using Nat.strongRecOn with
  | ind n ih =>
    rcases Nat.lt_or_ge n 10 with lt | ge
    · rw [Nat.toDigits_of_lt_base lt]
      have digits : ∀ d < 10, 0 < d → Nat.digitChar d ≠ '0' := by decide
      simpa using digits n lt h
    · rw [Nat.toDigits_of_base_le (by decide) ge, List.head?_append_of_ne_nil _ Nat.toDigits_ne_nil]
      exact ih (n / 10) (by omega) (by omega)

theorem all_isDigit_toDigits (n : Nat) : (Nat.toDigits 10 n).all Char.isDigit :=
  List.all_eq_true.2 fun _ hc => Nat.isDigit_of_mem_toDigits (by decide) (by decide) hc

theorem all_isDigit_replicate (k : Nat) : (List.replicate k '0').all Char.isDigit :=
  List.all_eq_true.2 fun c hc => by
    rw [List.eq_of_mem_replicate hc]
    rfl

theorem all_isDigit_paddedDigits (width n : Nat) :
    (Decimal.paddedDigits width n).all Char.isDigit := by
  rw [Decimal.paddedDigits, List.all_append, all_isDigit_replicate, all_isDigit_toDigits]
  rfl

/-- There is no comma among digits. -/
theorem filter_digits {digits : Text} (h : digits.all Char.isDigit) :
    digits.filter (· ≠ ',') = digits := by
  refine List.filter_eq_self.2 fun c hc => decide_eq_true ?_
  rintro rfl
  exact absurd (List.all_eq_true.1 h _ hc) (by decide)

/-! ## Bare numerals -/

/-- A numeral without commas, and without zeros before its digits. -/
def bare (t : Text) : Text :=
  let digits := t.filter (· ≠ ',')
  dropZeros (digits.length - 1) digits

theorem filter_groupDigits (size : Nat) (t : Text) :
    (groupDigits size t).filter (· ≠ ',') = t.filter (· ≠ ',') := by
  induction t with
  | nil => rfl
  | cons c t ih =>
    unfold groupDigits
    split <;> simp only [List.filter_cons, ih]
    simp

theorem filter_grouped (p : NumeralPattern) (digits : Text) :
    (grouped p digits).filter (· ≠ ',') = digits.filter (· ≠ ',') := by
  unfold grouped
  split
  · split
    · exact filter_groupDigits ..
    · rfl
  · rfl

theorem dropZeros_replicate (k n : Nat) (t : Text) :
    dropZeros (k + n) (List.replicate k '0' ++ t) = dropZeros n t := by
  induction k with
  | zero => simp
  | succ k ih =>
    rw [Nat.succ_add, List.replicate_succ, List.cons_append, dropZeros, ih]

/-- The digits of a number have no zeros to drop but the last. -/
theorem dropZeros_toDigits (n : Nat) :
    dropZeros ((Nat.toDigits 10 n).length - 1) (Nat.toDigits 10 n) = Nat.toDigits 10 n := by
  rcases Nat.eq_zero_or_pos n with rfl | pos
  · rfl
  · have head := head?_toDigits pos
    cases hd : Nat.toDigits 10 n with
    | nil => exact absurd hd Nat.toDigits_ne_nil
    | cons c digits =>
      rw [hd] at head
      have ne : c ≠ '0' := head c rfl
      unfold dropZeros
      split
      · rename_i eq
        exact absurd (List.cons.inj eq).1 ne
      · rfl

/-- A pattern without places writes all digits of a whole number, and fills them up. -/
theorem renderFinite_whole {p : NumeralPattern} (plain : p.keepsFraction = false) (s : Bool)
    {m : Binary64.Magnitude} {k : Nat} (h : m.steps = k * Binary64.stepsPerUnit) :
    renderFinite s m p =
      (if s ∧ k ≠ 0 then ['-'] else []) ++ grouped p (Decimal.paddedDigits p.minWhole k) := by
  have places : p.maxFraction = 0 := by simpa [NumeralPattern.keepsFraction] using plain
  have units : m.toPlaces 0 = ⟨k, 0⟩ := by
    rw [Binary64.Magnitude.toPlaces, Nat.pow_zero, Nat.mul_one, h,
      roundHalfEven_mul k Binary64.stepsPerUnit_pos]
  have fraction : shownFraction p [] = [] := by simp [shownFraction, dropZeros]
  simp [renderFinite, places, units, Decimal.fractionDigits, Decimal.wholeDigits, fraction,
    shownWhole, Decimal.paddedDigits]

/-- **What is left of the numeral of a natural number are its digits.** -/
theorem bare_renderFinite {p : NumeralPattern} (plain : p.keepsFraction = false)
    {m : Binary64.Magnitude} {k : Nat} (h : m.steps = k * Binary64.stepsPerUnit) :
    bare (renderFinite false m p) = Nat.toDigits 10 k := by
  have pos : 0 < (Nat.toDigits 10 k).length := Nat.length_toDigits_pos
  rw [renderFinite_whole plain false h, if_neg (by simp), List.nil_append, bare, filter_grouped,
    filter_digits (all_isDigit_paddedDigits ..), Decimal.paddedDigits, List.length_append,
    List.length_replicate, Nat.add_sub_assoc pos, dropZeros_replicate, dropZeros_toDigits]

/-- **A natural number is rendered with its own digits if it is on the grid,** and only then. -/
theorem exists_render_ofNat {p : NumeralPattern} (plain : p.keepsFraction = false) {n : Nat}
    (h : n ≤ wholeLimit) :
    ∃ t, decimal.render (.ofNat n) p = .ok t ∧
      (bare t = Nat.toDigits 10 n ↔ Binary64.OnGrid (n * Binary64.stepsPerUnit)) := by
  obtain ⟨k, m, hm, steps, exact⟩ := Binary64.exists_whole_ofNat h
  refine ⟨renderFinite false m p, by rw [hm]; rfl, ?_⟩
  rw [bare_renderFinite plain steps, ← exact]
  exact ⟨toDigits_injective, fun eq => eq ▸ rfl⟩

end NumeralSystem
end Spellout
