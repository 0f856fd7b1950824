/-
  The part of a text that a decimal numeral is read from.

  * `NumeralSystem.numeralParts?_append`: the parts of a numeral stand at the start of the text, and
    are the parts of the numeral alone;
  * `NumeralSystem.exists_prefix_of_readDecimal`: what is read from a text is read from the start
    that it takes up, all of it.
-/
import Mathlib.Data.List.Basic
import Mathlib.Data.List.TakeWhile
import Spellout.Numeral.Decimal

namespace Spellout

theorem Text.utf8Size_pos {t : Text} (h : t ≠ []) : 0 < Text.utf8Size t := by
  cases t with
  | nil => exact absurd rfl h
  | cons c t =>
    have := c.utf8Size_pos
    simp only [Text.utf8Size_cons]
    omega

namespace NumeralSystem

/-! ## Whole parts -/

variable {commas : Bool}

/-- A text that neither a digit nor a comma starts. -/
def EndsWhole (t : Text) : Prop := ∀ c ∈ t.head?, Text.isDecimalDigit c = false ∧ c ≠ ','

theorem wholePart_of_endsWhole {t : Text} (h : EndsWhole t) : wholePart commas t = [] := by
  cases t with
  | nil => rfl
  | cons c t =>
    obtain ⟨digit, comma⟩ := h c (by simp)
    simp [wholePart, digit, comma]

theorem wholePart_isStart : ∀ t : Text, wholePart commas t <+: t
  | [] => List.nil_prefix
  | c :: rest => by
    unfold wholePart
    split
    · exact (List.prefix_cons_inj c).2 (wholePart_isStart rest)
    · split
      · exact (List.prefix_cons_inj c).2 (wholePart_isStart rest)
      · exact List.nil_prefix

/-- A digit at the start belongs to the whole part. -/
theorem head?_wholePart {t : Text} (h : t.head?.any Text.isDecimalDigit) :
    (wholePart commas t).head? = t.head? := by
  cases t with
  | nil => rfl
  | cons c t =>
    have digit : Text.isDecimalDigit c = true := by simpa using h
    simp [wholePart, digit]

theorem wholePart_ne_nil {t : Text} (h : t.head?.any Text.isDecimalDigit) :
    wholePart commas t ≠ [] := by
  intro hw
  have head : (wholePart commas t).head? = t.head? := head?_wholePart h
  rw [hw] at head
  rw [← head] at h
  cases h

/-- The whole part of a numeral is the whole part of itself, and of itself with something behind it
    that neither a digit nor a comma starts. -/
theorem wholePart_append : ∀ {t u : Text}, EndsWhole u →
    wholePart commas (wholePart commas t ++ u) = wholePart commas t
  | [], u, h => by simpa [wholePart] using wholePart_of_endsWhole h
  | c :: rest, u, h => by
    have ih := wholePart_append (t := rest) h
    rw [wholePart]
    split
    · rename_i digit
      simp [wholePart, digit, ih]
    · split
      · rename_i digit comma
        -- behind the comma the whole part goes on with the same digit
        have next : rest.head?.any Text.isDecimalDigit = true := by
          simp only [Bool.and_eq_true] at comma
          exact comma.2
        have again : (wholePart commas rest ++ u).head? = rest.head? := by
          rw [List.head?_append_of_ne_nil _ (wholePart_ne_nil next), head?_wholePart next]
        rw [List.cons_append, wholePart, if_neg digit, again, if_pos comma, ih]
      · exact wholePart_of_endsWhole h

/-! ## Fraction parts -/

theorem fractionPart_isStart (t : Text) : fractionPart t <+: t := by
  unfold fractionPart
  split
  · dsimp only
    split
    · exact List.nil_prefix
    · exact (List.prefix_cons_inj _).2 (List.takeWhile_prefix _)
  · exact List.nil_prefix

theorem fractionPart_point {t : Text} (h : t.takeWhile Text.isDecimalDigit ≠ []) :
    fractionPart ('.' :: t) = '.' :: t.takeWhile Text.isDecimalDigit := by
  simp only [fractionPart, if_neg h]

theorem fractionPart_eq (t : Text) : fractionPart t = [] ∨
    ∃ digits, digits ≠ [] ∧ digits.takeWhile Text.isDecimalDigit = digits ∧
      fractionPart t = '.' :: digits := by
  unfold fractionPart
  split
  · dsimp only
    split
    · exact .inl rfl
    · exact .inr ⟨_, ‹_›, List.takeWhile_idem, rfl⟩
  · exact .inl rfl

theorem fractionPart_fractionPart (t : Text) : fractionPart (fractionPart t) = fractionPart t := by
  rcases fractionPart_eq t with h | ⟨digits, ne, all, h⟩
  · rw [h]
    rfl
  · rw [h, fractionPart_point (by rwa [all]), all]

theorem endsWhole_fractionPart (t : Text) : EndsWhole (fractionPart t) := by
  intro c hc
  rcases fractionPart_eq t with h | ⟨digits, -, -, h⟩
  · rw [h] at hc
    cases hc
  · rw [h] at hc
    obtain rfl : '.' = c := by simpa using hc
    decide

/-- The fraction part, if one is read at all. -/
def keptFraction (keep : Bool) (t : Text) : Text := if keep then fractionPart t else []

theorem keptFraction_isStart (keep : Bool) (t : Text) : keptFraction keep t <+: t := by
  cases keep with
  | false => exact List.nil_prefix
  | true => exact fractionPart_isStart t

theorem keptFraction_keptFraction (keep : Bool) (t : Text) :
    keptFraction keep (keptFraction keep t) = keptFraction keep t := by
  cases keep with
  | false => rfl
  | true => exact fractionPart_fractionPart t

theorem endsWhole_keptFraction (keep : Bool) (t : Text) : EndsWhole (keptFraction keep t) := by
  cases keep with
  | false => intro c hc; cases hc
  | true => exact endsWhole_fractionPart t

/-! ## Numerals -/

theorem signPart_append (t : Text) : signPart t ++ t.drop (signPart t).length = t := by
  unfold signPart
  split <;> simp

theorem signPart_of_digit {t : Text} (h : t.head?.any Text.isDecimalDigit) : signPart t = [] := by
  unfold signPart
  split
  · have : Text.isDecimalDigit '-' = true := by simpa using h
    exact absurd this (by decide)
  · rfl

theorem signPart_append_digit {t u : Text} (h : u.head?.any Text.isDecimalDigit) :
    signPart (signPart t ++ u) = signPart t := by
  have : signPart t = ['-'] ∨ signPart t = [] := by
    unfold signPart
    split <;> simp
  rcases this with ht | ht
  · rw [ht]
    rfl
  · rw [ht]
    exact signPart_of_digit h

/-- A numeral starts with a digit behind its sign. -/
theorem numeralParts?_eq_some {t : Text} {p : NumeralPattern} {sign whole fraction : Text} :
    numeralParts? t p = some (sign, whole, fraction) ↔
      (t.drop (signPart t).length).head?.any Text.isDecimalDigit ∧ signPart t = sign ∧
        wholePart p.grouping.isSome (t.drop sign.length) = whole ∧
          keptFraction p.keepsFraction ((t.drop sign.length).drop whole.length) = fraction := by
  unfold numeralParts?
  dsimp only
  constructor
  · intro h
    split at h
    · rename_i digit
      simp only [Option.some.injEq, Prod.mk.injEq] at h
      obtain ⟨rfl, rfl, rfl⟩ := h
      exact ⟨digit, rfl, rfl, rfl⟩
    · cases h
  · rintro ⟨digit, rfl, rfl, rfl⟩
    exact if_pos digit

/-- **The parts of a numeral** stand at the start of the text, and are those of the numeral
    alone. -/
theorem numeralParts?_append {t : Text} {p : NumeralPattern} {sign whole fraction : Text}
    (h : numeralParts? t p = some (sign, whole, fraction)) :
    (sign ++ whole ++ fraction) <+: t ∧ whole ≠ [] ∧
      numeralParts? (sign ++ whole ++ fraction) p = some (sign, whole, fraction) := by
  obtain ⟨digit, rfl, hw, hf⟩ := numeralParts?_eq_some.1 h
  have split := signPart_append t
  generalize t.drop (signPart t).length = body at digit hw hf split
  have ne : whole ≠ [] := hw ▸ wholePart_ne_nil digit
  have start : (whole ++ fraction).head?.any Text.isDecimalDigit := by
    rw [List.head?_append_of_ne_nil _ ne, ← hw, head?_wholePart digit]
    exact digit
  have again : wholePart p.grouping.isSome (whole ++ fraction) = whole := by
    have ends : EndsWhole fraction := hf ▸ endsWhole_keptFraction _ _
    rw [← hw]
    exact wholePart_append ends
  have kept : keptFraction p.keepsFraction fraction = fraction := by
    rw [← hf, keptFraction_keptFraction]
  refine ⟨?_, ne, numeralParts?_eq_some.2 ?_⟩
  · obtain ⟨behind, hb⟩ : fraction <+: body.drop whole.length := hf ▸ keptFraction_isStart _ _
    have rest : whole ++ body.drop whole.length = body :=
      List.prefix_iff_eq_append.1 (hw ▸ wholePart_isStart body)
    exact ⟨behind, by rw [List.append_assoc, List.append_assoc, hb, rest, split]⟩
  · rw [List.append_assoc, signPart_append_digit start, List.drop_left, again, List.drop_left]
    exact ⟨start, rfl, rfl, kept⟩

/-- **What is read from a text is read from the start that it takes up,** all of it. -/
theorem exists_prefix_of_readDecimal {t : Text} {p : NumeralPattern} {v : Binary64} {n : Nat}
    (h : readDecimal t p = some (v, n)) :
    ∃ s, s <+: t ∧ s ≠ [] ∧ Text.utf8Size s = n ∧ readDecimal s p = some (v, n) := by
  unfold readDecimal at h
  split at h
  · cases h
  · rename_i sign whole fraction hparts
    obtain ⟨start, ne, again⟩ := numeralParts?_append hparts
    refine ⟨sign ++ whole ++ fraction, start, by simp [ne], ?_, ?_⟩
    · dsimp only at h
      split at h
      · exact (Prod.mk.inj (Option.some.inj h)).2
      · cases h
    · unfold readDecimal
      rw [again]
      exact h

end NumeralSystem
end Spellout
