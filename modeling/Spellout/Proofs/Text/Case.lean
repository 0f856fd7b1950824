/-
  Texts that differ in the case of ASCII letters only.

  * `Text.SameLetter`, `Text.SameLetters`: two characters are one letter of ASCII in either case, or
    the same; two texts are so character by character;
  * `Text.SameLetter.congr`: what does not tell letters apart does not tell case apart;
  * `Text.spellings` are all texts with the letters of a given one;
  * `NumeralSystem.readDecimal_of_sameLetters`: letters do not belong to decimal numerals.
-/
import Mathlib.Data.List.Forall2
import Spellout.Numeral.Decimal
import Spellout.Text.Lowercase

namespace Spellout

namespace Text

/-! ## Letters -/

/-- What holds of the first 123 characters as far as they are letters holds of all letters of ASCII. -/
theorem of_isAlpha {P : Char → Prop} (h : ∀ n < 123, (Char.ofNat n).isAlpha → P (Char.ofNat n))
    {c : Char} (hc : c.isAlpha) : P c := by
  have top : c.val ≤ 'z'.val := by
    rcases Bool.or_eq_true_iff.1 hc with upper | lower
    · exact UInt32.le_trans (of_decide_eq_true upper).2 (by decide)
    · exact of_decide_eq_true (Bool.and_eq_true_iff.1 lower).2
  have bound : c.toNat < 123 := Nat.lt_succ_of_le (UInt32.le_iff_toNat_le.1 top)
  have := h c.toNat bound
  rw [Char.ofNat_toNat] at this
  exact this hc

theorem isAlpha_of_isUpper {c : Char} (h : c.isUpper) : c.isAlpha := Bool.or_eq_true_iff.2 (.inl h)

theorem toLower_of_not_isUpper {c : Char} (h : ¬ c.isUpper) : c.toLower = c :=
  dif_neg fun range => h (decide_eq_true range)

theorem toLower_toLower (c : Char) : toLower c.toLower = toLower c := by
  by_cases h : c.isUpper
  · have lower : toLower c.toLower = c.toLower :=
      of_isAlpha (P := fun c => toLower c.toLower = c.toLower) (by decide +kernel)
        (isAlpha_of_isUpper h)
    rw [lower, toLower_of_isUpper h]
  · rw [toLower_of_not_isUpper h]

/-- One letter of ASCII in either case, or one character. -/
def SameLetter (c c' : Char) : Prop := c'.toLower = c.toLower

instance (c c' : Char) : Decidable (SameLetter c c') :=
  inferInstanceAs (Decidable (c'.toLower = c.toLower))

namespace SameLetter

variable {c c' : Char}

theorem symm (h : SameLetter c c') : SameLetter c' c := Eq.symm h

theorem eq_or_isAlpha (h : SameLetter c c') : c' = c ∨ c.isAlpha ∧ c'.isAlpha := by
  have small {c : Char} (hc : c.isUpper) : c.toLower.isAlpha :=
    of_isAlpha (P := fun c => c.toLower.isAlpha) (by decide) (isAlpha_of_isUpper hc)
  have same : c'.toLower = c.toLower := h
  by_cases hc : c.isUpper <;> by_cases hc' : c'.isUpper
  · exact .inr ⟨isAlpha_of_isUpper hc, isAlpha_of_isUpper hc'⟩
  · rw [toLower_of_not_isUpper hc'] at same
    exact .inr ⟨isAlpha_of_isUpper hc, same ▸ small hc⟩
  · rw [toLower_of_not_isUpper hc] at same
    exact .inr ⟨same ▸ small hc', isAlpha_of_isUpper hc'⟩
  · rw [toLower_of_not_isUpper hc, toLower_of_not_isUpper hc'] at same
    exact .inl same

/-- What does not tell letters apart does not tell case apart. -/
theorem congr {α : Type} {f : Char → α} {a : α} (letters : ∀ c, c.isAlpha → f c = a)
    (h : SameLetter c c') : f c' = f c := by
  rcases h.eq_or_isAlpha with rfl | ⟨hc, hc'⟩
  · rfl
  · rw [letters c hc, letters c' hc']

/-- A character with a property that letters do not have is the same. -/
theorem eq_of {p : Char → Bool} (letters : ∀ c, c.isAlpha → p c = false) (h : SameLetter c c')
    (hc : p c) : c' = c := by
  rcases h.eq_or_isAlpha with same | ⟨alpha, -⟩
  · exact same
  · rw [letters c alpha] at hc
    cases hc

/-- A character that is not a letter is the same. -/
theorem eq_iff {d : Char} (other : d.isAlpha = false) (h : SameLetter c c') : c' = d ↔ c = d := by
  rcases h.eq_or_isAlpha with rfl | ⟨hc, hc'⟩
  · exact Iff.rfl
  · refine ⟨?_, ?_⟩ <;> rintro rfl
    · exact absurd hc' (by simp [other])
    · exact absurd hc (by simp [other])

theorem toLower_eq (h : SameLetter c c') : toLower c' = toLower c := by
  rw [← toLower_toLower c', ← toLower_toLower c, show c'.toLower = c.toLower from h]

theorem utf8Size_eq (h : SameLetter c c') : c'.utf8Size = c.utf8Size :=
  h.congr fun _ hc => of_isAlpha (P := fun c => c.utf8Size = 1) (by decide) hc

/-- The case of a character is changed back and forth without loss. -/
theorem both_cases (c : Char) : (c = c.toLower ∨ c = c.toUpper) ∧ c.toLower.toLower = c.toLower ∧
    c.toUpper.toLower = c.toLower ∧ c.toLower.toUpper = c.toUpper := by
  by_cases alpha : c.isAlpha
  · exact of_isAlpha (P := fun c => (c = c.toLower ∨ c = c.toUpper) ∧
      c.toLower.toLower = c.toLower ∧ c.toUpper.toLower = c.toLower ∧
        c.toLower.toUpper = c.toUpper) (by decide) alpha
  · have lower : c.toLower = c := toLower_of_not_isUpper fun h => alpha (isAlpha_of_isUpper h)
    have upper : c.toUpper = c := dif_neg fun range => alpha (Bool.or_eq_true_iff.2 (.inr
      (Bool.and_eq_true_iff.2 ⟨decide_eq_true range.1, decide_eq_true range.2⟩)))
    simp only [lower, upper, true_or, and_self]

theorem mem_iff (c c' : Char) : c' ∈ [c.toLower, c.toUpper] ↔ SameLetter c c' := by
  obtain ⟨-, lower, upper, back⟩ := both_cases c
  simp only [List.mem_cons, List.not_mem_nil, or_false]
  constructor
  · rintro (rfl | rfl)
    · exact lower
    · exact upper
  · intro h
    have same : c'.toLower = c.toLower := h
    obtain ⟨small | capital, -, -, back'⟩ := both_cases c'
    · exact .inl (small.trans same)
    · exact .inr (capital.trans (by rw [← back', same, back]))

end SameLetter

/-! ## Texts -/

/-- Texts that differ in the case of ASCII letters only. -/
def SameLetters : Text → Text → Prop := List.Forall₂ SameLetter

instance (t t' : Text) : Decidable (SameLetters t t') :=
  inferInstanceAs (Decidable (List.Forall₂ SameLetter t t'))

/-- All texts with the letters of a given one, in any case. -/
def spellings : Text → List Text
  | [] => [[]]
  | c :: t => [c.toLower, c.toUpper].flatMap fun c' => (spellings t).map (c' :: ·)

theorem mem_spellings : ∀ {t t' : Text}, t' ∈ spellings t ↔ SameLetters t t'
  | [], t' => by
    rw [spellings, List.mem_singleton]
    exact List.forall₂_nil_left_iff.symm
  | c :: t, t' => by
    simp only [spellings, List.mem_flatMap, List.mem_map, SameLetter.mem_iff, mem_spellings]
    constructor
    · rintro ⟨c', hc, t', ht, rfl⟩
      exact .cons hc ht
    · intro h
      cases h with
      | cons hc ht => exact ⟨_, hc, _, ht, rfl⟩

namespace SameLetters

variable {t t' : Text}

theorem symm (h : SameLetters t t') : SameLetters t' t := h.flip.imp fun _ _ => SameLetter.symm

theorem utf8Size_eq (h : SameLetters t t') : utf8Size t' = utf8Size t := by
  induction h with
  | nil => rfl
  | cons hc _ ih => rw [utf8Size_cons, utf8Size_cons, hc.utf8Size_eq, ih]

theorem head?_any {p : Char → Bool} (letters : ∀ c, c.isAlpha → p c = false)
    (h : SameLetters t t') : t'.head?.any p = t.head?.any p := by
  cases h with
  | nil => rfl
  | cons hc _ => exact hc.congr letters

theorem takeWhile_eq {p : Char → Bool} (letters : ∀ c, c.isAlpha → p c = false)
    (h : SameLetters t t') : t'.takeWhile p = t.takeWhile p := by
  induction h with
  | nil => rfl
  | @cons c c' _ _ hc _ ih =>
    rw [List.takeWhile_cons, List.takeWhile_cons, hc.congr letters, ih]
    split
    · rename_i holds
      rw [hc.eq_of letters holds]
    · rfl

end SameLetters

end Text

/-! ## Numerals -/

namespace NumeralSystem

open Text

variable {t t' : Text}

theorem isDecimalDigit_letter {c : Char} (hc : c.isAlpha) : isDecimalDigit c = false :=
  of_isAlpha (P := fun c => isDecimalDigit c = false) (by decide) hc

theorem wholePart_of_sameLetters (commas : Bool) (h : SameLetters t t') :
    wholePart commas t' = wholePart commas t := by
  induction h with
  | nil => rfl
  | @cons c c' rest rest' hc h ih =>
    have next : rest'.head?.any isDecimalDigit = rest.head?.any isDecimalDigit :=
      SameLetters.head?_any (fun _ => isDecimalDigit_letter) h
    have comma : (c' == ',') = (c == ',') :=
      Bool.eq_iff_iff.2 (by simpa using hc.eq_iff (by decide))
    simp only [wholePart, ih, hc.congr fun _ => isDecimalDigit_letter, comma, next]
    split
    · rename_i digit
      rw [hc.eq_of (fun _ => isDecimalDigit_letter) digit]
    · split
      · rename_i holds
        simp only [Bool.and_eq_true, beq_iff_eq] at holds
        rw [holds.1.2, (hc.eq_iff (by decide)).2 holds.1.2]
      · rfl

theorem signPart_of_sameLetters (h : SameLetters t t') : signPart t' = signPart t := by
  cases h with
  | nil => rfl
  | @cons c c' rest rest' hc h =>
    by_cases minus : c = '-'
    · obtain rfl := (hc.eq_iff (by decide)).2 minus
      subst minus
      rfl
    · have minus' : c' ≠ '-' := fun eq => minus ((hc.eq_iff (by decide)).1 eq)
      rw [signPart.eq_2 _ fun _ eq => minus (List.cons.inj eq).1,
        signPart.eq_2 _ fun _ eq => minus' (List.cons.inj eq).1]

theorem fractionPart_of_sameLetters (h : SameLetters t t') : fractionPart t' = fractionPart t := by
  cases h with
  | nil => rfl
  | @cons c c' rest rest' hc h =>
    by_cases point : c = '.'
    · obtain rfl := (hc.eq_iff (by decide)).2 point
      subst point
      simp only [fractionPart, SameLetters.takeWhile_eq (fun _ => isDecimalDigit_letter) h]
    · have point' : c' ≠ '.' := fun eq => point ((hc.eq_iff (by decide)).1 eq)
      rw [fractionPart.eq_2 _ fun _ eq => point (List.cons.inj eq).1,
        fractionPart.eq_2 _ fun _ eq => point' (List.cons.inj eq).1]

/-- **Letters do not belong to decimal numerals,** so their case makes no difference. -/
theorem readDecimal_of_sameLetters (h : SameLetters t t') (p : NumeralPattern) :
    readDecimal t' p = readDecimal t p := by
  have parts : numeralParts? t' p = numeralParts? t p := by
    have body : SameLetters (t.drop (signPart t).length) (t'.drop (signPart t).length) :=
      List.forall₂_drop _ h
    have fraction (n : Nat) := fractionPart_of_sameLetters (List.forall₂_drop n body)
    simp only [numeralParts?, signPart_of_sameLetters h, wholePart_of_sameLetters _ body,
      body.head?_any fun _ => isDecimalDigit_letter, fraction]
  simp only [readDecimal, parts]

end NumeralSystem
end Spellout
