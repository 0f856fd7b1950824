/-
  The whole part of a value.

  Rules divide natural numbers below `2 ^ 63` only.  A value in that range keeps to it on the way to
  such a number: its whole part, its nearest whole value, and its fraction times a base are exact or
  rounded to no more than the greatest value of the range.

  * `Binary64.exists_nearest`: a number is not rounded beyond a value that is not below it;
  * `Binary64.trunc_finite`, `Binary64.exists_fract`: whole part and fraction of a value are exact;
  * `Binary64.InRange`: the whole part is a number that rules can divide;
  * `Binary64.inRange_round`, `Binary64.inRange_scaled`: nearest whole values are in range;
  * `Binary64.isIntegral_of_not_inRange`: values out of range have no fraction.
-/
import Spellout.Proofs.Number.Exact
import Spellout.Spelling.Operand

namespace Spellout

theorem roundHalfUp_le {a b n : Nat} (hb : 0 < b) (h : a ≤ n * b) : roundHalfUp a b ≤ n := by
  have half : 2 * a + b < (n + 1) * (2 * b) := by
    have double : n * (2 * b) = 2 * (n * b) := Nat.mul_left_comm ..
    rw [Nat.add_one_mul n]
    omega
  exact Nat.lt_succ_iff.1 ((Nat.div_lt_iff_lt_mul (by omega)).2 half)

namespace Binary64

/-! ## Steps with a sign -/

theorem natAbs_signed (s : Bool) (n : Nat) : (signed s n).natAbs = n := by
  cases s <;> simp [signed]

/-- Steps to one side and back. -/
theorem signed_add_signed (s : Bool) (a b : Nat) :
    signed s (a + b) + signed (!s) a = signed s b := by
  cases s <;> simp only [signed, Bool.not_true, Bool.not_false, Bool.false_eq_true, if_true, if_false] <;>
    omega

/-! ## The grid -/

theorem spacing_dvd_spacing {m n : Nat} (h : m ≤ n) : spacing m ∣ spacing n := by
  refine Nat.pow_dvd_pow 2 (Nat.sub_le_sub_right ?_ 52)
  by_cases hm : m = 0
  · simp [hm]
  · exact (Nat.le_log2 (by omega)).2 (Nat.le_trans (Nat.log2_self_le hm) h)

/-- A number that is not above a place on the grid is not rounded beyond it. -/
theorem roundToGrid_le {a b n : Nat} (hb : 0 < b) (h : a ≤ n * b) (dvd : spacing n ∣ n) :
    roundToGrid a b ≤ n := by
  have below : a / b ≤ n := Nat.div_le_of_le_mul (by rwa [Nat.mul_comm])
  obtain ⟨k, hk⟩ := Nat.dvd_trans (spacing_dvd_spacing below) dvd
  have pos : 0 < b * spacing (a / b) := Nat.mul_pos hb (spacing_pos _)
  have scaled : n * b = k * (b * spacing (a / b)) := by
    rw [Nat.mul_left_comm, Nat.mul_comm k, ← hk, Nat.mul_comm]
  have rounded : roundHalfEven a (b * spacing (a / b)) ≤ k := by
    have := roundHalfEven_mono (b * spacing (a / b)) h
    rwa [scaled, roundHalfEven_mul k pos] at this
  calc roundToGrid a b ≤ k * spacing (a / b) := Nat.mul_le_mul_right _ rounded
    _ = n := by rw [Nat.mul_comm, ← hk]

/-- **A number is not rounded beyond a magnitude that is not below it.** -/
theorem exists_nearest (s : Bool) {a b n : Nat} (hb : 0 < b) (h : a ≤ n * b) (grid : OnGrid n) :
    ∃ m : Magnitude, nearest s a b = .finite s m ∧ m.steps ≤ n := by
  have le := roundToGrid_le hb h grid.2
  have lt : roundToGrid a b < overflow := Nat.lt_of_le_of_lt le grid.1
  exact ⟨⟨_, lt, spacing_dvd_roundToGrid a b⟩, by rw [nearest, dif_pos lt], le⟩

/-- Counts below a magnitude that are multiples of its spacing are on the grid. -/
theorem Magnitude.onGrid_of_dvd (m : Magnitude) {n : Nat} (le : n ≤ m.steps)
    (dvd : spacing m.steps ∣ n) : OnGrid n :=
  ⟨Nat.lt_of_le_of_lt le m.onGrid.1, Nat.dvd_trans (spacing_dvd_spacing le) dvd⟩

/-- One divides the other: both are powers of two. -/
theorem spacing_dvd_or_dvd (n : Nat) : spacing n ∣ stepsPerUnit ∨ stepsPerUnit ∣ spacing n := by
  obtain ⟨e, -, -, -, unit, -⟩ := exists_two_pow
  rw [unit]
  rcases Nat.le_total (n.log2 - 52) e with le | le
  · exact .inl (Nat.pow_dvd_pow 2 le)
  · exact .inr (Nat.pow_dvd_pow 2 le)

/-! ## Whole part and fraction -/

namespace Magnitude

variable (m : Magnitude)

theorem floor_mul_add_mod : m.floor * stepsPerUnit + m.steps % stepsPerUnit = m.steps := by
  rw [floor, Nat.mul_comm]
  exact Nat.div_add_mod ..

theorem spacing_dvd_floor : spacing m.steps ∣ m.floor * stepsPerUnit := by
  rcases spacing_dvd_or_dvd m.steps with h | h
  · exact Nat.dvd_trans h (Nat.dvd_mul_left ..)
  · rw [floor, Nat.div_mul_cancel (Nat.dvd_trans h m.onGrid.2)]
    exact m.onGrid.2

theorem spacing_dvd_mod : spacing m.steps ∣ m.steps % stepsPerUnit := by
  have dvd : spacing m.steps ∣ m.floor * stepsPerUnit + m.steps % stepsPerUnit := by
    rw [m.floor_mul_add_mod]
    exact m.onGrid.2
  exact (Nat.dvd_add_right m.spacing_dvd_floor).1 dvd

/-- The magnitude without its fraction. -/
def whole : Magnitude :=
  ⟨m.floor * stepsPerUnit, m.onGrid_of_dvd (Nat.div_mul_le_self ..) m.spacing_dvd_floor⟩

/-- The fraction of the magnitude. -/
def rest : Magnitude :=
  ⟨m.steps % stepsPerUnit, m.onGrid_of_dvd (Nat.mod_le ..) m.spacing_dvd_mod⟩

theorem whole_add_rest : m.whole.steps + m.rest.steps = m.steps := m.floor_mul_add_mod

end Magnitude

/-- The whole part of a value is exact. -/
theorem trunc_finite (s : Bool) (m : Magnitude) : (finite s m).trunc = .finite s m.whole :=
  nearest_steps s m.whole

theorem fract_finite (s : Bool) (m : Magnitude) :
    (finite s m).fract = .finite
      (if signed s m.rest.steps = 0 then false else signed s m.rest.steps < 0) m.rest := by
  have steps : signed s m.steps + signed (!s) m.whole.steps = signed s m.rest.steps := by
    rw [← m.whole_add_rest]
    exact signed_add_signed ..
  rw [fract, trunc_finite, sub, neg, add, steps, ofSteps, natAbs_signed, Bool.and_not_self]
  exact nearest_steps _ m.rest

/-- **The fraction of a value is exact.** -/
theorem exists_fract (s : Bool) (m : Magnitude) :
    ∃ t, (finite s m).fract = .finite t m.rest := ⟨_, fract_finite s m⟩

/-- A fraction lies on the side of zero where its value lies. -/
theorem place_fract (s : Bool) (m : Magnitude) :
    (finite s m).fract.place = some (signed s m.rest.steps) := by
  rw [fract_finite, place]
  congr 1
  by_cases gone : m.rest.steps = 0
  · rw [gone]
    cases s <;> rfl
  · cases s with
    | false =>
      have above : ¬ signed false m.rest.steps < 0 := by simp [signed]
      simp [above]
    | true =>
      have below : signed true m.rest.steps < 0 := by
        simp only [signed, if_true]
        omega
      rw [if_neg (Int.ne_of_lt below), decide_eq_true below]

theorem isZero_finite (s : Bool) (m : Magnitude) : (finite s m).isZero ↔ m.steps = 0 := by
  cases s <;> simp [isZero, place, signed]

theorem isIntegral_finite (s : Bool) (m : Magnitude) :
    (finite s m).isIntegral ↔ m.steps % stepsPerUnit = 0 := by
  obtain ⟨t, ht⟩ := exists_fract s m
  rw [isIntegral, ht, isZero_finite]
  rfl

theorem steps_of_isIntegral {s : Bool} {m : Magnitude} (h : (finite s m).isIntegral) :
    m.steps = m.floor * stepsPerUnit :=
  (Nat.div_mul_cancel (Nat.dvd_of_mod_eq_zero ((isIntegral_finite s m).1 h))).symm

theorem isIntegral_neg {v : Binary64} (h : v.isFinite) : v.neg.isIntegral ↔ v.isIntegral := by
  cases v with
  | finite s m => rw [neg, isIntegral_finite, isIntegral_finite]
  | nan | infinite => cases h

theorem isFinite_of_isIntegral {v : Binary64} (h : v.isIntegral) : v.isFinite := by
  cases v with
  | finite => rfl
  | nan => cases h
  | infinite s => cases s <;> cases h

/-- A value with a fraction has few digits before the point. -/
theorem Magnitude.floor_lt_of_mod {m : Magnitude} (h : m.steps % stepsPerUnit ≠ 0) :
    m.floor < 2 ^ 53 := by
  have fine : spacing m.steps ∣ stepsPerUnit :=
    (spacing_dvd_or_dvd m.steps).resolve_right fun dvd =>
      h (Nat.mod_eq_zero_of_dvd (Nat.dvd_trans dvd m.onGrid.2))
  refine (Nat.div_lt_iff_lt_mul stepsPerUnit_pos).2 ?_
  calc m.steps < spacing m.steps * 2 ^ 53 := lt_spacing_mul m.steps
    _ ≤ stepsPerUnit * 2 ^ 53 :=
      Nat.mul_le_mul_right _ (Nat.le_of_dvd stepsPerUnit_pos fine)
    _ = 2 ^ 53 * stepsPerUnit := Nat.mul_comm ..

/-! ## Values in range -/

/-- The whole part of the value is a number that rules can divide. -/
def InRange (v : Binary64) : Prop := ∃ s m, v = .finite s m ∧ m.floor < wholeLimit

theorem inRange_finite {s : Bool} {m : Magnitude} :
    (finite s m).InRange ↔ m.floor < wholeLimit := by
  constructor
  · rintro ⟨_, _, h, lt⟩
    cases h
    exact lt
  · exact fun lt => ⟨s, m, rfl, lt⟩

/-- The greatest value that is a number below the limit. -/
def topWhole : Nat := (2 ^ 53 - 1) * 2 ^ 10

theorem topWhole_lt : topWhole < wholeLimit := by decide

/-- Numbers with at most 53 binary digits, and zeros behind them, are on the grid. -/
theorem onGrid_scaled {k e : Nat} (hk : k ≤ 2 ^ 53) (he : e ≤ 10) :
    OnGrid (k * 2 ^ e * stepsPerUnit) := by
  obtain ⟨u, o, hu, ho, unit, top⟩ := exists_two_pow
  rw [OnGrid, unit, top, Nat.mul_assoc, ← Nat.pow_add]
  refine ⟨?_, spacing_dvd_mul _ hk⟩
  calc k * 2 ^ (e + u) ≤ 2 ^ 53 * 2 ^ (e + u) := Nat.mul_le_mul_right _ hk
    _ = 2 ^ (53 + (e + u)) := (Nat.pow_add ..).symm
    _ < 2 ^ o := Nat.pow_lt_pow_right (by decide) (by omega)

theorem onGrid_wholeLimit : OnGrid (wholeLimit * stepsPerUnit) := by
  have scaled : wholeLimit = 2 ^ 53 * 2 ^ 10 := by decide
  rw [scaled]
  exact onGrid_scaled (Nat.le_refl _) (Nat.le_refl _)

theorem onGrid_topWhole : OnGrid (topWhole * stepsPerUnit) := by
  rw [topWhole]
  exact onGrid_scaled (Nat.sub_le ..) (Nat.le_refl _)

theorem floor_lt_iff {m : Magnitude} : m.floor < wholeLimit ↔ m.steps < wholeLimit * stepsPerUnit :=
  Nat.div_lt_iff_lt_mul stepsPerUnit_pos

theorem ofNat_wholeLimit : ofNat wholeLimit = .finite false ⟨_, onGrid_wholeLimit⟩ :=
  nearest_steps false ⟨_, onGrid_wholeLimit⟩

/-- A value is in range if its magnitude is below the limit. -/
theorem inRange_iff_lt {v : Binary64} (h : v.isFinite) :
    v.InRange ↔ v.abs.lt (.ofNat wholeLimit) := by
  cases v with
  | nan | infinite => cases h
  | finite s m =>
    rw [inRange_finite, floor_lt_iff, ofNat_wholeLimit, abs,
      lt_iff (a := (m.steps : Int)) (b := ((wholeLimit * stepsPerUnit : Nat) : Int)) rfl rfl,
      Int.ofNat_lt]

theorem inRange_neg {v : Binary64} : v.neg.InRange ↔ v.InRange := by
  cases v with
  | nan | infinite => simp [neg, InRange]
  | finite s m => rw [neg, inRange_finite, inRange_finite]

theorem InRange.isFinite {v : Binary64} (h : v.InRange) : v.isFinite := by
  obtain ⟨s, m, rfl, -⟩ := h
  rfl

theorem InRange.exists_wholeOf {v : Binary64} (h : v.InRange) :
    ∃ n < wholeLimit, wholeOf v = .ok n := by
  obtain ⟨s, m, rfl, lt⟩ := h
  exact ⟨m.floor, lt, if_pos lt⟩

/-- **A whole value that is neither below zero nor too large** is a number that rules can divide. -/
theorem exists_whole {v : Binary64} (integral : v.isIntegral) (sign : v.isNegative = false)
    (lt : v.lt (.ofNat wholeLimit)) :
    ∃ n < wholeLimit, v.place = some ((n * stepsPerUnit : Nat) : Int) ∧ wholeOf v = .ok n := by
  have finite := isFinite_of_isIntegral integral
  cases v with
  | nan | infinite => cases finite
  | finite s m =>
    have steps := steps_of_isIntegral integral
    have place : (Binary64.finite s m).place = some (m.steps : Int) := by
      cases s with
      | false => rfl
      | true =>
        have zero : m.steps = 0 := Decidable.byContradiction fun some =>
          absurd (isNegative_finite.2 ⟨rfl, some⟩) (by simp [sign])
        simp [Binary64.place, signed, zero]
    have below : m.floor < wholeLimit := by
      rw [ofNat_wholeLimit, lt_iff place rfl] at lt
      exact floor_lt_iff.2 (Int.ofNat_lt.1 lt)
    exact ⟨m.floor, below, steps ▸ place, if_pos below⟩

theorem wholeOf_of_not_inRange {v : Binary64} (h : ¬ v.InRange) :
    wholeOf v = .error (.outOfRange v) := by
  cases v with
  | finite s m => exact if_neg fun lt => h ⟨s, m, rfl, lt⟩
  | nan | infinite => rfl

/-- Values out of range have no fraction. -/
theorem isIntegral_of_not_inRange {v : Binary64} (finite : v.isFinite) (h : ¬ v.InRange) :
    v.isIntegral := by
  cases v with
  | nan | infinite => cases finite
  | finite s m =>
    refine (isIntegral_finite s m).2 (Decidable.byContradiction fun ne => h ⟨s, m, rfl, ?_⟩)
    exact Nat.lt_trans (Magnitude.floor_lt_of_mod ne) (by decide)

theorem inRange_trunc {v : Binary64} : v.trunc.InRange ↔ v.InRange := by
  cases v with
  | nan | infinite => exact Iff.rfl
  | finite s m =>
    have floor : m.whole.floor = m.floor := Nat.mul_div_cancel _ stepsPerUnit_pos
    rw [trunc_finite, inRange_finite, inRange_finite, floor]

/-- A value whose magnitude is at most that of the greatest one in range has its nearest whole value
    in range. -/
theorem inRange_round_of_le {s : Bool} {m : Magnitude} (h : m.steps ≤ topWhole * stepsPerUnit) :
    (finite s m).round.InRange := by
  have le : roundHalfUp m.steps stepsPerUnit ≤ topWhole := roundHalfUp_le stepsPerUnit_pos h
  obtain ⟨m', hm, le'⟩ := exists_nearest s (a := roundHalfUp m.steps stepsPerUnit * stepsPerUnit)
    Nat.one_pos (by rw [Nat.mul_one]; exact Nat.mul_le_mul_right _ le) onGrid_topWhole
  refine ⟨s, m', hm, floor_lt_iff.2 ?_⟩
  exact Nat.lt_of_le_of_lt le' (Nat.mul_lt_mul_of_pos_right topWhole_lt stepsPerUnit_pos)

/-- The nearest whole value of a value with a fraction is in range. -/
theorem inRange_round {v : Binary64} (finite : v.isFinite) (h : ¬ v.isIntegral) :
    v.round.InRange := by
  cases v with
  | nan | infinite => cases finite
  | finite s m =>
    rw [isIntegral_finite] at h
    have lt := (Nat.div_lt_iff_lt_mul stepsPerUnit_pos).1 (Magnitude.floor_lt_of_mod h)
    refine inRange_round_of_le (Nat.le_trans (Nat.le_of_lt lt) (Nat.mul_le_mul_right _ ?_))
    decide

/-! ## Fractions -/

/-- The magnitude of the value is below one. -/
def IsProper (v : Binary64) : Prop := ∃ s m, v = .finite s m ∧ m.steps < stepsPerUnit

theorem isProper_fract {v : Binary64} (h : v.isFinite) : v.fract.IsProper := by
  cases v with
  | nan | infinite => cases h
  | finite s m =>
    obtain ⟨t, ht⟩ := exists_fract s m
    exact ⟨t, m.rest, ht, Nat.mod_lt _ stepsPerUnit_pos⟩

/-- Below a power of two there is a greatest magnitude. -/
theorem Magnitude.steps_le_of_lt {m : Magnitude} {e : Nat} (h : m.steps < 2 ^ 53 * 2 ^ e) :
    m.steps ≤ (2 ^ 53 - 1) * 2 ^ e := by
  rcases Nat.lt_or_ge m.steps (2 ^ (52 + e)) with lt | ge
  · rw [Nat.pow_add] at lt
    exact Nat.le_trans (Nat.le_of_lt lt) (Nat.mul_le_mul_right _ (by decide))
  · have ne : m.steps ≠ 0 := Nat.ne_of_gt (Nat.lt_of_lt_of_le (Nat.two_pow_pos _) ge)
    have coarse : 2 ^ e ∣ spacing m.steps := by
      have := (Nat.le_log2 ne).2 ge
      exact Nat.pow_dvd_pow 2 (by omega)
    obtain ⟨k, hk⟩ := Nat.dvd_trans coarse m.onGrid.2
    rw [hk, Nat.mul_comm] at h ⊢
    exact Nat.mul_le_mul_right _ (Nat.le_sub_one_of_lt (Nat.lt_of_mul_lt_mul_right h))

theorem Magnitude.steps_mul_le {m : Magnitude} (h : m.steps < stepsPerUnit) :
    m.steps * wholeLimit ≤ topWhole * stepsPerUnit := by
  obtain ⟨e, -, he, -, unit, -⟩ := exists_two_pow
  have split : stepsPerUnit = 2 ^ 53 * 2 ^ (e - 53) := by
    have exponent : 53 + (e - 53) = e := by omega
    rw [unit, ← Nat.pow_add, exponent]
  have scaled : wholeLimit = 2 ^ 10 * 2 ^ 53 := by decide
  rw [split] at h ⊢
  calc m.steps * wholeLimit ≤ (2 ^ 53 - 1) * 2 ^ (e - 53) * wholeLimit :=
        Nat.mul_le_mul_right _ (steps_le_of_lt h)
    _ = topWhole * (2 ^ 53 * 2 ^ (e - 53)) := by
        rw [scaled, topWhole, Nat.mul_comm (2 ^ 53) (2 ^ (e - 53)), Nat.mul_assoc, Nat.mul_assoc,
          Nat.mul_left_comm (2 ^ (e - 53))]

/-- Natural numbers up to the limit have values up to the limit. -/
theorem exists_ofNat {n : Nat} (h : n ≤ wholeLimit) :
    ∃ m : Magnitude, ofNat n = .finite false m ∧ m.steps ≤ wholeLimit * stepsPerUnit :=
  exists_nearest false Nat.one_pos (by rw [Nat.mul_one]; exact Nat.mul_le_mul_right _ h)
    onGrid_wholeLimit

/-- **A fraction times a base is rounded to a number in range,** though the value of the base may be
    the limit itself. -/
theorem inRange_scaled {v : Binary64} (h : v.IsProper) {base : Nat} (hb : base ≤ wholeLimit) :
    (v.mul (.ofNat base)).round.InRange := by
  obtain ⟨s, m, rfl, lt⟩ := h
  obtain ⟨b, hb, le⟩ := exists_ofNat hb
  have product : m.steps * b.steps ≤ topWhole * stepsPerUnit * stepsPerUnit :=
    calc m.steps * b.steps ≤ m.steps * (wholeLimit * stepsPerUnit) := Nat.mul_le_mul_left _ le
      _ = m.steps * wholeLimit * stepsPerUnit := (Nat.mul_assoc ..).symm
      _ ≤ topWhole * stepsPerUnit * stepsPerUnit :=
        Nat.mul_le_mul_right _ (Magnitude.steps_mul_le lt)
  obtain ⟨p, hp, le⟩ := exists_nearest (s != false) stepsPerUnit_pos product onGrid_topWhole
  rw [hb, mul, hp]
  exact inRange_round_of_le le

/-! ## Quotients -/

/-- The value of a positive number is not below one. -/
theorem stepsPerUnit_le_ofNat {n : Nat} (pos : 0 < n) {m : Magnitude}
    (h : ofNat n = .finite false m) : stepsPerUnit ≤ m.steps := by
  obtain ⟨e, -, -, -, unit, -⟩ := exists_two_pow
  have le : stepsPerUnit ≤ roundToGrid (n * stepsPerUnit) 1 := by
    rw [unit]
    exact two_pow_le_roundToGrid (Nat.le_mul_of_pos_left _ pos)
  unfold ofNat nearest at h
  split at h
  · cases h
    exact le
  · cases h

theorem isFinite_ofNat_of_le {n : Nat} (h : n ≤ wholeLimit) : (ofNat n).isFinite := by
  obtain ⟨m, hm, -⟩ := exists_ofNat h
  rw [hm]
  rfl

/-- The quotient of a number by a positive one is a finite value. -/
theorem isFinite_div_ofNat {n d : Nat} (hn : n ≤ wholeLimit) (hd : d ≤ wholeLimit) (pos : 0 < d) :
    ((ofNat n).div (.ofNat d)).isFinite := by
  obtain ⟨a, ha, le⟩ := exists_ofNat hn
  obtain ⟨b, hb, -⟩ := exists_ofNat hd
  have unit := stepsPerUnit_le_ofNat pos hb
  have ne : b.steps ≠ 0 := Nat.ne_of_gt (Nat.lt_of_lt_of_le stepsPerUnit_pos unit)
  obtain ⟨q, hq, -⟩ := exists_nearest (false != false) (Nat.pos_of_ne_zero ne)
    (Nat.mul_le_mul le unit) onGrid_wholeLimit
  rw [ha, hb, div, if_neg ne, hq]
  rfl

end Binary64
end Spellout
