/-
  Numerals are read back.

  The decimal system drops zeros at the end of a fraction, fills up the whole part, and puts commas
  between its groups.  None of that is lost on the way back: what is read from the numeral of a value
  is all of it, and the value is the one nearest to the decimal fraction that is shown.  The one
  numeral that is not read back is one without a digit before its point.

  * `Decimal.ofDigits_digits`: the digits of a decimal fraction are read as that fraction;
  * `Decimal.nearest_ofDigits_shown`: zeros that are added or dropped do not change the value;
  * `NumeralSystem.wholePart_grouped`: the groups of a whole part are read together;
  * `NumeralPattern.OmitsWhole`: the numeral of a decimal fraction starts with its point;
  * `NumeralSystem.read_render`: exactly the other numerals are read back.
-/
import Spellout.Proofs.Numeral.Rendering

namespace Spellout

/-! ## Scaled quotients -/

theorem roundHalfEven_mul_mul (a b : Nat) {c : Nat} (hc : 0 < c) :
    roundHalfEven (a * c) (b * c) = roundHalfEven a b := by
  have below : 2 * (a % b * c) < b * c ↔ 2 * (a % b) < b := by
    rw [← Nat.mul_assoc]
    exact Nat.mul_lt_mul_right hc
  have above : b * c < 2 * (a % b * c) ↔ b < 2 * (a % b) := by
    rw [← Nat.mul_assoc]
    exact Nat.mul_lt_mul_right hc
  simp only [roundHalfEven, Nat.mul_div_mul_right a b hc, Nat.mul_mod_mul_right, below, above]

namespace Binary64

theorem roundToGrid_mul_mul (a b : Nat) {c : Nat} (hc : 0 < c) :
    roundToGrid (a * c) (b * c) = roundToGrid a b := by
  rw [roundToGrid, Nat.mul_div_mul_right a b hc, Nat.mul_right_comm, roundHalfEven_mul_mul _ _ hc,
    roundToGrid]

/-- The value nearest to a quotient is that of the quotient scaled on both sides. -/
theorem nearest_mul_mul (s : Bool) (a b : Nat) {c : Nat} (hc : 0 < c) :
    nearest s (a * c) (b * c) = nearest s a b := by
  simp only [nearest, roundToGrid_mul_mul a b hc]

end Binary64

namespace Decimal

/-! ## Digits and their number -/

theorem numberOfDigits_append (s t : Text) :
    numberOfDigits (s ++ t) = 10 ^ t.length * numberOfDigits s + numberOfDigits t :=
  (Nat.ofDigitChars_append 0).trans Nat.ofDigitChars_eq_ofDigitChars_zero

theorem numberOfDigits_replicate (k : Nat) : numberOfDigits (List.replicate k '0') = 0 :=
  Nat.ofDigitChars_replicate_zero.trans (Nat.mul_zero _)

theorem numberOfDigits_toDigits (n : Nat) : numberOfDigits (Nat.toDigits 10 n) = n :=
  Nat.ofDigitChars_ten_toDigits

theorem numberOfDigits_paddedDigits (width n : Nat) : numberOfDigits (paddedDigits width n) = n := by
  rw [paddedDigits, numberOfDigits_append, numberOfDigits_replicate, numberOfDigits_toDigits,
    Nat.mul_zero, Nat.zero_add]

theorem length_paddedDigits {width n : Nat} (pos : 0 < width) (h : n < 10 ^ width) :
    (paddedDigits width n).length = width := by
  have fits : (Nat.toDigits 10 n).length ≤ width :=
    (Nat.length_toDigits_le_iff (by decide) pos).2 h
  rw [paddedDigits, List.length_append, List.length_replicate]
  exact Nat.sub_add_cancel fits

variable (d : Decimal)

theorem length_fractionDigits : d.fractionDigits.length = d.places := by
  unfold fractionDigits
  split
  · rename_i none
    exact none.symm
  · rename_i some
    exact length_paddedDigits (Nat.pos_of_ne_zero some) (Nat.mod_lt _ (Nat.pow_pos (by decide)))

theorem numberOfDigits_fractionDigits :
    numberOfDigits d.fractionDigits = d.units % 10 ^ d.places := by
  unfold fractionDigits
  split
  · rename_i none
    rw [none, Nat.pow_zero, Nat.mod_one]
    rfl
  · exact numberOfDigits_paddedDigits ..

/-- The digits of a decimal fraction are read as that fraction. -/
theorem ofDigits_digits : ofDigits d.wholeDigits d.fractionDigits = d := by
  have units : 10 ^ d.places * (d.units / 10 ^ d.places) + d.units % 10 ^ d.places = d.units :=
    Nat.div_add_mod ..
  rw [ofDigits, numberOfDigits_append, length_fractionDigits, numberOfDigits_fractionDigits,
    wholeDigits, numberOfDigits_toDigits, units]

theorem wholeDigits_eq_zero {d : Decimal} :
    d.wholeDigits = ['0'] ↔ d.units < 10 ^ d.places := by
  have pos : 0 < 10 ^ d.places := Nat.pow_pos (by decide)
  constructor
  · intro h
    have zero : d.units / 10 ^ d.places = 0 := NumeralSystem.toDigits_injective h
    exact (Nat.div_eq_zero_iff.1 zero).resolve_left (Nat.ne_of_gt pos)
  · intro h
    rw [wholeDigits, Nat.div_eq_of_lt h]
    rfl

theorem fractionDigits_of_units_eq_zero {d : Decimal} (h : d.units = 0) :
    d.fractionDigits = List.replicate d.places '0' := by
  unfold fractionDigits
  split
  · rename_i none
    rw [none, List.replicate_zero]
  · rename_i some
    have zero : Nat.toDigits 10 (d.units % 10 ^ d.places) = List.replicate 1 '0' := by
      rw [h, Nat.zero_mod]
      rfl
    rw [paddedDigits, zero, List.length_replicate, List.replicate_append_replicate,
      Nat.sub_add_cancel (Nat.pos_of_ne_zero some)]

/-! ## Zeros at either end -/

theorem ofDigits_replicate_append (k : Nat) (whole fraction : Text) :
    ofDigits (List.replicate k '0' ++ whole) fraction = ofDigits whole fraction := by
  rw [ofDigits, List.append_assoc, numberOfDigits_append, numberOfDigits_replicate, Nat.mul_zero,
    Nat.zero_add, ofDigits]

/-- Zeros at the end of the fraction do not change the value. -/
theorem nearest_ofDigits_append_replicate (s : Bool) (whole fraction : Text) (k : Nat) :
    nearest s (ofDigits whole (fraction ++ List.replicate k '0')) =
      nearest s (ofDigits whole fraction) := by
  have units : numberOfDigits (whole ++ (fraction ++ List.replicate k '0')) =
      numberOfDigits (whole ++ fraction) * 10 ^ k := by
    rw [← List.append_assoc, numberOfDigits_append, numberOfDigits_replicate, Nat.add_zero,
      List.length_replicate, Nat.mul_comm]
  have places : (fraction ++ List.replicate k '0').length = fraction.length + k := by
    rw [List.length_append, List.length_replicate]
  rw [nearest, ofDigits, units, places, Binary64.ofRatio, Nat.pow_add, Nat.mul_right_comm,
    Binary64.nearest_mul_mul _ _ _ (Nat.pow_pos (by decide))]
  rfl

end Decimal

namespace NumeralSystem

theorem exists_dropZeros (n : Nat) (t : Text) :
    ∃ k ≤ n, t = List.replicate k '0' ++ dropZeros n t := by
  induction n generalizing t with
  | zero => exact ⟨0, Nat.le_refl 0, by simp [dropZeros]⟩
  | succ n ih =>
    unfold dropZeros
    split
    · rename_i rest _
      rename_i eq
      cases eq
      obtain ⟨k, le, hk⟩ := ih rest
      exact ⟨k + 1, Nat.succ_le_succ le, by rw [List.replicate_succ, List.cons_append, ← hk]⟩
    · exact ⟨0, Nat.zero_le _, rfl⟩

/-! ## Parts of a numeral -/

theorem isDecimalDigit_of_all {t : Text} (h : t.all Char.isDigit) {c : Char} (hc : c ∈ t) :
    Text.isDecimalDigit c :=
  Text.isDecimalDigit_of_isDigit (List.all_eq_true.1 h c hc)

/-- Digits are read, whatever follows them. -/
theorem wholePart_digits_append {commas : Bool} {digits : Text} (h : digits.all Char.isDigit)
    (u : Text) : wholePart commas (digits ++ u) = digits ++ wholePart commas u := by
  induction digits with
  | nil => rfl
  | cons c digits ih =>
    have digit : Text.isDecimalDigit c := isDecimalDigit_of_all h (by simp)
    rw [List.all_cons, Bool.and_eq_true] at h
    rw [List.cons_append, wholePart, if_pos digit, ih h.2, List.cons_append]

theorem wholePart_digits {commas : Bool} {digits u : Text} (h : digits.all Char.isDigit)
    (hu : EndsWhole u) : wholePart commas (digits ++ u) = digits := by
  rw [wholePart_digits_append h, wholePart_of_endsWhole hu, List.append_nil]

theorem head?_groupDigits (size : Nat) (t : Text) : (groupDigits size t).head? = t.head? := by
  cases t with
  | nil => rfl
  | cons c t =>
    unfold groupDigits
    split <;> rfl

theorem groupDigits_ne_nil {size : Nat} {t : Text} (h : t ≠ []) : groupDigits size t ≠ [] := by
  intro nil
  have head := head?_groupDigits size t
  rw [nil] at head
  exact h (List.head?_eq_none_iff.1 head.symm)

theorem wholePart_groupDigits {size : Nat} {digits u : Text} (h : digits.all Char.isDigit)
    (hu : EndsWhole u) : wholePart true (groupDigits size digits ++ u) = groupDigits size digits := by
  induction digits with
  | nil => exact wholePart_of_endsWhole hu
  | cons c digits ih =>
    have digit : Text.isDecimalDigit c := isDecimalDigit_of_all h (by simp)
    rw [List.all_cons, Bool.and_eq_true] at h
    unfold groupDigits
    split
    · rename_i more
      -- the comma is read, for a digit stands behind it
      have next : (groupDigits size digits ++ u).head?.any Text.isDecimalDigit := by
        rw [List.head?_append_of_ne_nil _ (groupDigits_ne_nil more.1), head?_groupDigits]
        cases digits with
        | nil => exact absurd rfl more.1
        | cons d digits => exact isDecimalDigit_of_all h.2 (by simp)
      have comma : ¬ Text.isDecimalDigit ',' := by decide
      rw [List.cons_append, wholePart, if_pos digit, List.cons_append, wholePart, if_neg comma,
        if_pos (by simpa using next), ih h.2]
    · rw [List.cons_append, wholePart, if_pos digit, ih h.2]

/-- **The groups of a whole part are read together.** -/
theorem wholePart_grouped {p : NumeralPattern} {digits u : Text} (h : digits.all Char.isDigit)
    (hu : EndsWhole u) :
    wholePart p.grouping.isSome (grouped p digits ++ u) = grouped p digits := by
  unfold grouped
  cases p.grouping with
  | none => exact wholePart_digits h hu
  | some size =>
    dsimp only
    split
    · exact wholePart_groupDigits h hu
    · exact wholePart_digits h hu

theorem head?_grouped (p : NumeralPattern) (digits : Text) :
    (grouped p digits).head? = digits.head? := by
  unfold grouped
  split
  · split
    · exact head?_groupDigits ..
    · rfl
  · rfl

/-- The fraction with its point, if there is one. -/
def pointed (fraction : Text) : Text := if fraction = [] then [] else '.' :: fraction

theorem endsWhole_pointed (fraction : Text) : EndsWhole (pointed fraction) := by
  intro c hc
  unfold pointed at hc
  split at hc
  · cases hc
  · obtain rfl : '.' = c := by simpa using hc
    decide

theorem drop_pointed (fraction : Text) : (pointed fraction).drop 1 = fraction := by
  unfold pointed
  split
  · rename_i none
    exact none.symm
  · rfl

theorem keptFraction_pointed {keep : Bool} {fraction : Text} (h : fraction.all Char.isDigit)
    (kept : fraction ≠ [] → keep) : keptFraction keep (pointed fraction) = pointed fraction := by
  unfold pointed
  split
  · cases keep <;> rfl
  · rename_i some
    have all : fraction.takeWhile Text.isDecimalDigit = fraction :=
      List.takeWhile_eq_self_iff.2 fun c hc => isDecimalDigit_of_all h hc
    rw [kept some, keptFraction, if_pos rfl, fractionPart_point (by rwa [all]), all]

/-- A numeral with a digit before its point is read, all of it. -/
theorem readDecimal_of_digits {p : NumeralPattern} {sign digits fraction : Text}
    (hs : sign = ['-'] ∨ sign = []) (some : digits ≠ []) (hd : digits.all Char.isDigit)
    (hf : fraction.all Char.isDigit) (kept : fraction ≠ [] → p.keepsFraction) :
    readDecimal (sign ++ grouped p digits ++ pointed fraction) p =
      Option.some (Decimal.nearest (sign ≠ []) (.ofDigits digits fraction),
        Text.utf8Size (sign ++ grouped p digits ++ pointed fraction)) := by
  have start : (grouped p digits ++ pointed fraction).head?.any Text.isDecimalDigit := by
    cases digits with
    | nil => exact absurd rfl some
    | cons c digits =>
      have ne : grouped p (c :: digits) ≠ [] := by
        intro nil
        have head := head?_grouped p (c :: digits)
        rw [nil] at head
        cases head
      rw [List.head?_append_of_ne_nil _ ne, head?_grouped]
      exact isDecimalDigit_of_all hd (by simp)
  have signed : signPart (sign ++ (grouped p digits ++ pointed fraction)) = sign := by
    rcases hs with rfl | rfl
    · rfl
    · exact signPart_of_digit start
  have parts : numeralParts? (sign ++ grouped p digits ++ pointed fraction) p =
      Option.some (sign, grouped p digits, pointed fraction) := by
    rw [List.append_assoc, numeralParts?_eq_some, signed, List.drop_left,
      wholePart_grouped hd (endsWhole_pointed fraction), List.drop_left,
      keptFraction_pointed hf kept]
    exact ⟨start, rfl, rfl, rfl⟩
  have plain : (grouped p digits).filter (· ≠ ',') = digits := by
    rw [filter_grouped, filter_digits hd]
  have ascii : (digits ++ fraction).all Char.isDigit := by
    rw [List.all_append, hd, hf]
    rfl
  rw [readDecimal, parts]
  simp only [plain, drop_pointed, ascii, if_true]

/-! ## Rendered values -/

theorem all_isDigit_fractionDigits (d : Decimal) : d.fractionDigits.all Char.isDigit := by
  unfold Decimal.fractionDigits
  split
  · rfl
  · exact all_isDigit_paddedDigits ..

/-- Only zeros are not shown, and only those that the pattern does not ask for. -/
theorem exists_shownFraction (p : NumeralPattern) (digits : Text) :
    ∃ k ≤ digits.length - p.minFraction,
      digits = shownFraction p digits ++ List.replicate k '0' := by
  obtain ⟨k, le, hk⟩ := exists_dropZeros (digits.length - p.minFraction) digits.reverse
  refine ⟨k, le, ?_⟩
  calc digits = digits.reverse.reverse := (List.reverse_reverse digits).symm
    _ = (dropZeros (digits.length - p.minFraction) digits.reverse).reverse ++
        (List.replicate k '0').reverse := by rw [← List.reverse_append, ← hk]
    _ = shownFraction p digits ++ List.replicate k '0' := by rw [List.reverse_replicate]; rfl

theorem all_isDigit_shownFraction {p : NumeralPattern} {digits : Text}
    (h : digits.all Char.isDigit) : (shownFraction p digits).all Char.isDigit := by
  obtain ⟨k, -, hk⟩ := exists_shownFraction p digits
  rw [hk, List.all_append, Bool.and_eq_true] at h
  exact h.1

end NumeralSystem

/-- The numeral of a decimal fraction has no digit before its point: the pattern asks for none, the
    fraction is below one, and a digit of it is shown. -/
def NumeralPattern.OmitsWhole (p : NumeralPattern) (d : Decimal) : Prop :=
  p.minWhole = 0 ∧ d.units < 10 ^ d.places ∧ (d.units ≠ 0 ∨ 0 < d.places ∧ 0 < p.minFraction)

instance (p : NumeralPattern) (d : Decimal) : Decidable (p.OmitsWhole d) :=
  inferInstanceAs (Decidable (_ ∧ _ ∧ _))

namespace NumeralSystem

/-- A fraction below one is shown if it has a digit that is no zero, or the pattern asks for
    digits. -/
theorem shownFraction_ne_nil {p : NumeralPattern} {d : Decimal} (h : d.units < 10 ^ d.places) :
    shownFraction p d.fractionDigits ≠ [] ↔ d.units ≠ 0 ∨ 0 < d.places ∧ 0 < p.minFraction := by
  constructor
  · intro shown
    by_contra hidden
    obtain ⟨zero, unasked⟩ := not_or.1 hidden
    have zeros := Decimal.fractionDigits_of_units_eq_zero (not_not.1 zero)
    have all : d.places - p.minFraction = d.places := by omega
    have gone : dropZeros (d.places + 0) (List.replicate d.places '0' ++ []) = [] :=
      dropZeros_replicate ..
    refine shown ?_
    rw [shownFraction, zeros, List.length_replicate, List.reverse_replicate, all]
    rw [Nat.add_zero, List.append_nil] at gone
    rw [gone]
    rfl
  · intro asked hidden
    obtain ⟨k, le, hk⟩ := exists_shownFraction p d.fractionDigits
    rw [hidden, List.nil_append] at hk
    -- only zeros are there, and all of them are dropped
    have all : k = d.places := by
      rw [← d.length_fractionDigits, hk, List.length_replicate]
    have zero : d.units = 0 := by
      rw [← Nat.mod_eq_of_lt h, ← d.numberOfDigits_fractionDigits, hk,
        Decimal.numberOfDigits_replicate]
    rw [d.length_fractionDigits] at le
    rcases asked with ne | ⟨places, min⟩
    · exact ne zero
    · omega

/-- The digits before the point are those of the whole part, unless they are left out. -/
theorem shownWhole_eq (p : NumeralPattern) (d : Decimal) :
    shownWhole p d.wholeDigits (shownFraction p d.fractionDigits) =
      if p.OmitsWhole d then [] else
        List.replicate (p.minWhole - d.wholeDigits.length) '0' ++ d.wholeDigits := by
  have omits : d.wholeDigits = ['0'] ∧ p.minWhole = 0 ∧ shownFraction p d.fractionDigits ≠ [] ↔
      p.OmitsWhole d := by
    rw [Decimal.wholeDigits_eq_zero]
    constructor
    · rintro ⟨below, min, shown⟩
      exact ⟨min, below, (shownFraction_ne_nil below).1 shown⟩
    · rintro ⟨min, below, shown⟩
      exact ⟨below, min, (shownFraction_ne_nil below).2 shown⟩
  rw [shownWhole, if_congr omits rfl rfl]

/-- What is shown of a decimal fraction has its value. -/
theorem nearest_ofDigits_shown (s : Bool) (p : NumeralPattern) (d : Decimal) (k : Nat) :
    Decimal.nearest s (.ofDigits (List.replicate k '0' ++ d.wholeDigits)
      (shownFraction p d.fractionDigits)) = Decimal.nearest s d := by
  obtain ⟨j, -, hj⟩ := exists_shownFraction p d.fractionDigits
  calc Decimal.nearest s (.ofDigits (List.replicate k '0' ++ d.wholeDigits)
        (shownFraction p d.fractionDigits))
      = Decimal.nearest s (.ofDigits d.wholeDigits (shownFraction p d.fractionDigits)) := by
        rw [Decimal.ofDigits_replicate_append]
    _ = Decimal.nearest s (.ofDigits d.wholeDigits d.fractionDigits) := by
        rw [← Decimal.nearest_ofDigits_append_replicate s _ _ j, ← hj]
    _ = Decimal.nearest s d := by rw [Decimal.ofDigits_digits]

/-- A numeral that starts with its point is not read. -/
theorem readDecimal_pointed {p : NumeralPattern} {sign fraction : Text}
    (hs : sign = ['-'] ∨ sign = []) : readDecimal (sign ++ pointed fraction) p = none := by
  have digitless : ¬ (pointed fraction).head?.any Text.isDecimalDigit := by
    cases hc : (pointed fraction).head? with
    | none => exact Bool.false_ne_true
    | some c =>
      rw [Option.any_some, (endsWhole_pointed fraction c hc).1]
      exact Bool.false_ne_true
  have signed : signPart (sign ++ pointed fraction) = sign := by
    rcases hs with rfl | rfl
    · rfl
    · unfold pointed
      split <;> rfl
  rw [readDecimal, numeralParts?, signed, List.drop_left]
  simp only [if_neg digitless]

/-- A fraction is shown only by a pattern with places for it. -/
theorem keepsFraction_of_shown {p : NumeralPattern} {d : Decimal} (h : d.places = p.maxFraction)
    (shown : shownFraction p d.fractionDigits ≠ []) : p.keepsFraction := by
  refine decide_eq_true (Nat.pos_of_ne_zero fun none => shown ?_)
  have empty : d.fractionDigits = [] := by
    rw [Decimal.fractionDigits, if_pos (h.trans none)]
  rw [empty, shownFraction, List.length_nil, Nat.zero_sub]
  rfl

/-- **The numeral of a value is read back** as the value nearest to what it shows, all of it, if it
    has a digit before its point; a numeral without one is not read at all. -/
theorem read_render (p : NumeralPattern) (s : Bool) (m : Binary64.Magnitude) :
    ∃ t, decimal.render (.finite s m) p = .ok t ∧
      decimal.read t p =
        if p.OmitsWhole (m.toPlaces p.maxFraction) then none
        else some (Decimal.nearest (s ∧ (m.toPlaces p.maxFraction).units ≠ 0)
          (m.toPlaces p.maxFraction), Text.utf8Size t) := by
  refine ⟨renderFinite s m p, rfl, ?_⟩
  have places : (m.toPlaces p.maxFraction).places = p.maxFraction := rfl
  generalize hd : m.toPlaces p.maxFraction = d at places
  generalize hs : (if s ∧ d.units ≠ 0 then ['-'] else []) = sign
  have signs : sign = ['-'] ∨ sign = [] := by
    rw [← hs]
    split <;> simp
  have negative : decide (sign ≠ []) = decide (s ∧ d.units ≠ 0) := by
    rw [← hs]
    split <;> simp [*]
  have written : renderFinite s m p = sign ++
      grouped p (shownWhole p d.wholeDigits (shownFraction p d.fractionDigits)) ++
        pointed (shownFraction p d.fractionDigits) := by
    rw [← hs, ← hd]
    rfl
  rw [written, shownWhole_eq]
  split
  · have nothing : grouped p [] = [] := by
      unfold grouped
      split
      · split <;> rfl
      · rfl
    rw [nothing, List.append_nil]
    exact readDecimal_pointed signs
  · have some : List.replicate (p.minWhole - d.wholeDigits.length) '0' ++ d.wholeDigits ≠ [] :=
      List.append_ne_nil_of_right_ne_nil _ Nat.toDigits_ne_nil
    have digits : (List.replicate (p.minWhole - d.wholeDigits.length) '0' ++
        d.wholeDigits).all Char.isDigit := by
      rw [List.all_append, all_isDigit_replicate, Decimal.wholeDigits, all_isDigit_toDigits]
      rfl
    have fraction := all_isDigit_shownFraction (p := p) (all_isDigit_fractionDigits d)
    have read := readDecimal_of_digits signs some digits fraction (keepsFraction_of_shown places)
    rw [nearest_ofDigits_shown, negative] at read
    exact read

/-- The numeral of one half by the pattern `#.#` is `.5`, which the same pattern does not read; the
    numeral `0.5` it does read. -/
theorem not_read_render :
    ∃ p, NumeralPattern.ofText? "#.#".toList = some p ∧
      decimal.render ((Binary64.ofNat 1).div (.ofNat 2)) p = .ok ".5".toList ∧
      decimal.read ".5".toList p = none ∧
      decimal.read "0.5".toList p = some ((Binary64.ofNat 1).div (.ofNat 2), 3) :=
  ⟨⟨"#.#".toList, 0, none, 0, 1⟩, by decide, by decide +kernel, by decide, by decide +kernel⟩

end NumeralSystem
end Spellout
