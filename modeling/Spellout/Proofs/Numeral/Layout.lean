/-
  The layout of whole numbers.

  A pattern without places writes a whole number as its decimal digits, with zeros before them up to
  the least number of digits that it asks for.  If it groups digits, the commas stand where groups of
  its size end that are counted from the right, so the one group that may be short is the first.

  * `NumeralPattern.grouping_pos`: the groups of a pattern have a digit;
  * `NumeralSystem.InGroups`: digits with commas between groups of one size;
  * `NumeralSystem.inGroups_groupDigits`: so digits are written, however many there are;
  * `NumeralSystem.render_integral`: the numeral of a whole number, of any size and either sign.
-/
import Spellout.Proofs.Numeral.Rendering

namespace Spellout

/-! ## Sizes of groups -/

/-- A pattern ends its whole part with a digit, so a digit stands behind its last comma. -/
theorem NumeralPattern.groupSize?_pos {whole : Text} (h : whole.getLast?.any isFractionChar)
    {size : Nat} (hs : groupSize? whole = some size) : 0 < size := by
  unfold groupSize? at hs
  split at hs
  · obtain rfl := Option.some.inj hs
    rw [← List.head?_reverse] at h
    cases hw : whole.reverse with
    | nil =>
      rw [hw] at h
      cases h
    | cons c rest =>
      have digit : isFractionChar c = true := by simpa [hw] using h
      have ne : c ≠ ',' := by
        rintro rfl
        cases digit
      rw [List.takeWhile_cons_of_pos (by simpa using ne)]
      exact Nat.succ_pos _
  · cases hs

/-- **The groups of a pattern have a digit.** -/
theorem NumeralPattern.grouping_pos {t : Text} {p : NumeralPattern} (h : ofText? t = some p)
    {size : Nat} (hs : p.grouping = some size) : 0 < size := by
  unfold ofText? at h
  dsimp only at h
  split at h
  · rename_i ends
    split at h
    · obtain rfl := Option.some.inj h
      exact groupSize?_pos ends hs
    · split at h
      · obtain rfl := Option.some.inj h
        exact groupSize?_pos ends hs
      · cases h
  · cases h

namespace NumeralSystem

/-! ## Groups -/

/-- The text shows the digits in groups of one size, counted from the right, with commas between
    them; only the first group may have fewer digits. -/
def InGroups (size : Nat) (digits t : Text) : Prop :=
  ∃ first rest, t = [','].intercalate (first :: rest) ∧ (first :: rest).flatten = digits ∧
    1 ≤ first.length ∧ first.length ≤ size ∧ ∀ group ∈ rest, group.length = size

/-- One digit is a group. -/
theorem inGroups_singleton {size : Nat} (pos : 0 < size) (c : Char) : InGroups size [c] [c] :=
  ⟨[c], [], by simp, by simp, Nat.le_refl 1, pos, by simp⟩

/-- Behind a digit a group ends if full groups follow, and only then. -/
theorem InGroups.cons {size : Nat} {digits t : Text} (h : InGroups size digits t)
    (pos : 0 < size) (c : Char) :
    InGroups size (c :: digits) (if digits.length % size = 0 then c :: ',' :: t else c :: t) := by
  obtain ⟨first, rest, rfl, rfl, some, fits, full⟩ := h
  have lengths : (first :: rest).flatten.length = first.length + rest.length * size := by
    rw [List.length_flatten, List.map_cons, List.sum_cons, List.map_congr_left full,
      List.map_const', List.sum_replicate_nat]
  rw [lengths, Nat.add_mul_mod_self_right]
  split
  · rename_i ends
    -- a group of at most `size` digits whose length `size` divides is full
    have all : first.length = size :=
      Nat.le_antisymm fits (Nat.le_of_dvd some (Nat.dvd_of_mod_eq_zero ends))
    refine ⟨[c], first :: rest, by simp, by simp, Nat.le_refl 1, pos, ?_⟩
    rintro group (_ | ⟨_, mem⟩)
    · exact all
    · exact full group mem
  · rename_i short
    have below : first.length < size := by
      refine Nat.lt_of_le_of_ne fits ?_
      intro all
      rw [all, Nat.mod_self] at short
      exact short rfl
    refine ⟨c :: first, rest, ?_, by simp, by simp, below, full⟩
    cases rest with
    | nil => simp
    | cons group rest => simp

/-- **Digits are written in groups,** however many there are. -/
theorem inGroups_groupDigits {size : Nat} (pos : 0 < size) {digits : Text} (some : digits ≠ []) :
    InGroups size digits (groupDigits size digits) := by
  induction digits with
  | nil => exact absurd rfl some
  | cons c digits ih =>
    by_cases last : digits = []
    · rw [last]
      exact inGroups_singleton pos c
    · simpa [groupDigits, last] using (ih last).cons pos c

/-! ## Whole numbers -/

/-- **The numeral of a whole number** by a pattern without places: a minus sign if it is below zero,
    and behind that its digits, filled up with zeros to the least number of digits and no further.
    With groups, they stand in groups of the size that the pattern has; without, there is no comma. -/
theorem render_integral {t : Text} {p : NumeralPattern} (h : NumeralPattern.ofText? t = some p)
    (plain : p.keepsFraction = false) {v : Binary64} (integral : v.isIntegral) :
    ∃ n body, v.abs.place = some ((n * Binary64.stepsPerUnit : Nat) : Int) ∧
      decimal.render v p = .ok ((if v.isNegative then ['-'] else []) ++ body) ∧
      body.filter (· ≠ ',') = Decimal.paddedDigits p.minWhole n ∧
      match p.grouping with
      | some size => 0 < size ∧ InGroups size (Decimal.paddedDigits p.minWhole n) body
      | none => ',' ∉ body := by
  obtain ⟨s, m, rfl⟩ : ∃ s m, v = .finite s m := by
    have finite := Binary64.isFinite_of_isIntegral integral
    cases v with
    | finite s m => exact ⟨s, m, rfl⟩
    | nan | infinite => cases finite
  have steps := Binary64.steps_of_isIntegral integral
  have sign : (s ∧ m.floor ≠ 0) ↔ (Binary64.finite s m).isNegative := by
    rw [Binary64.isNegative_finite, steps, ne_eq, ne_eq,
      Nat.mul_eq_zero, or_iff_left (Nat.ne_of_gt Binary64.stepsPerUnit_pos)]
  have digits := all_isDigit_paddedDigits p.minWhole m.floor
  have bare : (grouped p (Decimal.paddedDigits p.minWhole m.floor)).filter (· ≠ ',') =
      Decimal.paddedDigits p.minWhole m.floor := by
    rw [filter_grouped, filter_digits digits]
  refine ⟨m.floor, grouped p (Decimal.paddedDigits p.minWhole m.floor), ?_, ?_, bare, ?_⟩
  · rw [Binary64.abs, ← steps]
    rfl
  · rw [← if_congr sign rfl rfl, ← renderFinite_whole plain s steps]
    rfl
  · cases hs : p.grouping with
    | some size =>
      have pos := NumeralPattern.grouping_pos h hs
      have some : Decimal.paddedDigits p.minWhole m.floor ≠ [] :=
        List.append_ne_nil_of_right_ne_nil _ Nat.toDigits_ne_nil
      have shown : grouped p (Decimal.paddedDigits p.minWhole m.floor) =
          groupDigits size (Decimal.paddedDigits p.minWhole m.floor) := by
        rw [grouped, hs]
        exact if_pos pos
      rw [shown]
      exact ⟨pos, inGroups_groupDigits pos some⟩
    | none =>
      have shown : grouped p (Decimal.paddedDigits p.minWhole m.floor) =
          Decimal.paddedDigits p.minWhole m.floor := by
        rw [grouped, hs]
      rw [shown]
      intro comma
      exact absurd (List.all_eq_true.1 digits _ comma) (by decide)

/-- The pattern `00,#00,0000` fills a number below zero up to eight digits, and then puts them in
    groups of four. -/
theorem render_integral_padded :
    ∃ p, NumeralPattern.ofText? "00,#00,0000".toList = some p ∧ p.keepsFraction = false ∧
      (Binary64.ofNat 1042).neg.isIntegral ∧
      decimal.render (Binary64.ofNat 1042).neg p = .ok "-0000,1042".toList ∧
      ∃ n body, (Binary64.ofNat 1042).neg.abs.place = some ((n * Binary64.stepsPerUnit : Nat) : Int) ∧
        decimal.render (Binary64.ofNat 1042).neg p =
          .ok ((if (Binary64.ofNat 1042).neg.isNegative then ['-'] else []) ++ body) ∧
        body.filter (· ≠ ',') = Decimal.paddedDigits p.minWhole n ∧
        match p.grouping with
        | some size => 0 < size ∧ InGroups size (Decimal.paddedDigits p.minWhole n) body
        | none => ',' ∉ body := by
  have integral : (Binary64.ofNat 1042).neg.isIntegral := by decide +kernel
  have pattern : NumeralPattern.ofText? "00,#00,0000".toList =
      some ⟨"00,#00,0000".toList, 8, some 4, 0, 0⟩ := by decide
  exact ⟨_, pattern, rfl, integral, by decide +kernel, render_integral pattern rfl integral⟩

end NumeralSystem
end Spellout
