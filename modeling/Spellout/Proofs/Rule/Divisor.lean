/-
  Divisors.

  The divisor of a key is a power of its radix.  Its exponent is that of the greatest power which is not
  above the base value, less one for every mark.  On words of 64 bits that power is found by
  multiplication: powers are counted up until the next one is above the base value, or is no word any
  more.  Both ends of the count come at the same exponent, and the divisor itself is then multiplied
  together without a product that is no word.

  * `Key.exponent_eq_log`: the exponent of a key is a logarithm;
  * `Word.mul?`, `Word.pow?`: products and powers of words, as far as these are words;
  * `Word.Power`, `Word.Power.next?`, `Word.Power.last`: powers of a radix, counted up to a bound;
  * `Word.Power.exponent_last`: the count ends at the greatest power that is not above the bound;
  * `Key.divisorOnWords`: the divisor as it is found on words;
  * `Key.divisor_eq_pow`: the divisor is the power that it should be, and it is found on words.
-/
import Mathlib.Data.Nat.Log
import Spellout.Proofs.RuleBook.Rules

namespace Spellout

variable {base radix marks bound : Nat}

/-! ## Exponents -/

namespace Key

theorem exponentWithin_eq_log (two : 2 ≤ radix) : ∀ {fuel n : Nat}, n < 2 ^ (fuel + 1) →
    exponentWithin radix fuel n = Nat.log radix n
  | 0, n, lt => (Nat.log_of_lt (by omega)).symm
  | fuel + 1, n, lt => by
    unfold exponentWithin
    split
    · rename_i le
      have smaller : n / radix < 2 ^ (fuel + 1) := by
        have half : n / radix ≤ n / 2 := Nat.div_le_div_left two (by decide)
        rw [Nat.pow_succ] at lt
        omega
      rw [exponentWithin_eq_log two smaller, ← Nat.log_of_one_lt_of_le two le]
    · rename_i above
      exact (Nat.log_of_lt (Nat.lt_of_not_le above)).symm

/-- The exponent that gives the greatest power of the radix is a logarithm. -/
theorem exponent_eq_log (two : 2 ≤ radix) (n : Nat) : exponent radix n = Nat.log radix n :=
  exponentWithin_eq_log two Nat.lt_log2_self

end Key

/-! ## Words -/

namespace Word

/-- The product of two words of 64 bits with a sign, if it is one. -/
def mul? (a b : Nat) : Option Nat := if a * b ≤ Key.maxBase then some (a * b) else none

/-- The product of a word and a power, by squaring, if all products on the way are words. -/
def pow? (a b k : Nat) : Option Nat :=
  if k = 0 then some a
  else if k = 1 then mul? a b
  else do
    let a ← if k % 2 = 1 then mul? a b else some a
    pow? a (← mul? b b) (k / 2)
termination_by k

theorem mul?_eq_some {a b : Nat} (h : a * b ≤ Key.maxBase) : mul? a b = some (a * b) := if_pos h

/-- The power with half the exponent is one of the square. -/
theorem pow_eq_mul_pow_half (b k : Nat) : b ^ k = b ^ (k % 2) * (b * b) ^ (k / 2) := by
  rw [← Nat.pow_two, ← Nat.pow_mul, ← Nat.pow_add, Nat.mod_add_div]

/-- **A power that is a word is found by squaring,** for no product on the way is greater. -/
theorem pow?_eq_some {a b k : Nat} (ha : 0 < a) (hb : 0 < b) (h : a * b ^ k ≤ Key.maxBase) :
    pow? a b k = some (a * b ^ k) := by
  induction k using Nat.strong_induction_on generalizing a b with
  | _ k ih =>
    rw [pow?]
    split
    · rename_i zero
      rw [zero, Nat.pow_zero, Nat.mul_one]
    split
    · rename_i one
      subst one
      rw [Nat.pow_one] at h ⊢
      exact mul?_eq_some h
    · have two : 2 ≤ k := by omega
      have square : b * b ≤ Key.maxBase :=
        calc b * b = b ^ 2 := (Nat.pow_two b).symm
          _ ≤ b ^ k := Nat.pow_le_pow_right hb two
          _ ≤ a * b ^ k := Nat.le_mul_of_pos_left _ ha
          _ ≤ Key.maxBase := h
      split
      · rename_i odd
        have parts : a * b ^ k = a * b * (b * b) ^ (k / 2) := by
          rw [pow_eq_mul_pow_half b k, odd, Nat.pow_one, Nat.mul_assoc]
        have factor : a * b ≤ Key.maxBase := by
          refine Nat.le_trans ?_ (parts ▸ h)
          exact Nat.le_mul_of_pos_right _ (Nat.pow_pos (Nat.mul_pos hb hb))
        rw [mul?_eq_some factor, mul?_eq_some square, parts]
        exact ih (k / 2) (by omega) (Nat.mul_pos ha hb) (Nat.mul_pos hb hb) (parts ▸ h)
      · rename_i notOdd
        have even : k % 2 = 0 := (Nat.mod_two_eq_zero_or_one k).resolve_right notOdd
        have parts : a * b ^ k = a * (b * b) ^ (k / 2) := by
          rw [pow_eq_mul_pow_half b k, even, Nat.pow_zero, Nat.one_mul]
        rw [mul?_eq_some square, parts]
        exact ih (k / 2) (by omega) ha (Nat.mul_pos hb hb) (parts ▸ h)

/-- A power of the radix, with its exponent. -/
structure Power (radix : Nat) where
  exponent : Nat
  value : Nat
  value_eq : value = radix ^ exponent

namespace Power

variable {p q : Power radix}

/-- No factor at all. -/
def one (radix : Nat) : Power radix := ⟨0, 1, rfl⟩

/-- One more factor. -/
def succ (p : Power radix) : Power radix :=
  ⟨p.exponent + 1, p.value * radix, by rw [p.value_eq, Nat.pow_succ]⟩

/-- The next power, unless it is no word or above the bound. -/
def next? (p : Power radix) (bound : Nat) : Option (Power radix) :=
  match mul? p.value radix with
  | some v => if v ≤ bound then some p.succ else none
  | none => none

theorem next?_eq_some (h : p.next? bound = some q) : q = p.succ ∧ p.value * radix ≤ bound := by
  unfold next? mul? at h
  split at h
  · rename_i v product
    split at product <;> cases product
    split at h <;> cases h
    exact ⟨rfl, ‹_›⟩
  · cases h

/-- **Both ends of the count say the same:** a power that is no word is above every bound that is
    one. -/
theorem lt_of_next?_eq_none (word : bound ≤ Key.maxBase) (h : p.next? bound = none) :
    bound < p.value * radix := by
  unfold next? mul? at h
  split at h
  · rename_i v product
    split at product <;> cases product
    split at h
    · cases h
    · rename_i above
      exact Nat.lt_of_not_le above
  · rename_i product
    split at product
    · cases product
    · rename_i noWord
      omega

theorem value_pos (two : 2 ≤ radix) (p : Power radix) : 0 < p.value := by
  rw [p.value_eq]
  exact Nat.pow_pos (by omega)

/-- A power that is counted brings the count nearer to the bound. -/
theorem sub_lt_of_next? (two : 2 ≤ radix) (h : p.next? bound = some q) :
    bound - q.value < bound - p.value := by
  obtain ⟨rfl, le⟩ := next?_eq_some h
  have more : p.value < p.value * radix := (Nat.lt_mul_iff_one_lt_right (p.value_pos two)).2 two
  exact Nat.sub_lt_sub_left (Nat.lt_of_lt_of_le more le) more

/-- The last power that is counted from one on. -/
def last (two : 2 ≤ radix) (p : Power radix) (bound : Nat) : Power radix :=
  match next : p.next? bound with
  | some q =>
    have := sub_lt_of_next? two next
    q.last two bound
  | none => p
termination_by bound - p.value

theorem last_of_some (two : 2 ≤ radix) (h : p.next? bound = some q) :
    p.last two bound = q.last two bound := by
  rw [last]
  split
  · rename_i q' next
    rw [h] at next
    cases next
    rfl
  · rename_i next
    rw [h] at next
    cases next

theorem last_of_none (two : 2 ≤ radix) (h : p.next? bound = none) : p.last two bound = p := by
  rw [last]
  split
  · rename_i next
    rw [h] at next
    cases next
  · rfl

/-- What a step of the count preserves holds of the last power, behind which none is counted. -/
theorem last_induction (two : 2 ≤ radix) {P : Power radix → Prop}
    (step : ∀ p q : Power radix, P p → p.next? bound = some q → P q) (p : Power radix) (hp : P p) :
    P (p.last two bound) ∧ (p.last two bound).next? bound = none := by
  induction p using last.induct two bound with
  | case1 p q next nearer ih =>
    rw [last_of_some two next]
    exact ih (step p q hp next)
  | case2 p next =>
    rw [last_of_none two next]
    exact ⟨hp, next⟩

/-- **The count ends at the greatest power that is not above the bound.** -/
theorem exponent_last (two : 2 ≤ radix) (word : bound ≤ Key.maxBase) :
    ((one radix).last two bound).exponent = Nat.log radix bound := by
  have step (p q : Power radix) (_ : p.value ≤ max bound 1) (next : p.next? bound = some q) :
      q.value ≤ max bound 1 := by
    obtain ⟨rfl, le⟩ := next?_eq_some next
    exact Nat.le_trans le (Nat.le_max_left ..)
  obtain ⟨le, ends⟩ := last_induction two step (one radix) (Nat.le_max_right ..)
  generalize (one radix).last two bound = p at le ends
  have above := lt_of_next?_eq_none word ends
  rw [p.value_eq] at le above
  rcases Nat.eq_zero_or_pos bound with rfl | pos
  · -- only the power without a factor is not above one
    rw [Nat.log_zero_right]
    by_contra some
    have lt : 1 < radix ^ p.exponent := Nat.one_lt_pow some two
    omega
  · refine ((Nat.log_eq_iff (.inr ⟨two, Nat.ne_of_gt pos⟩)).2 ⟨?_, ?_⟩).symm
    · omega
    · rw [Nat.pow_succ]
      exact above

end Power
end Word

/-! ## Divisors -/

namespace Key

/-- The divisor as it is found on words of 64 bits, if no product is beyond them.  A radix below two
    is taken for two. -/
def divisorOnWords (base radix marks : Nat) : Option Nat :=
  let top := (Word.Power.one (max radix 2)).last (Nat.le_max_right ..) base
  Word.pow? 1 (max radix 2) (top.exponent - marks)

/-- A power of the radix is not above a base exactly if its exponent is not above the greatest one. -/
theorem pow_le_iff (two : 2 ≤ radix) (pos : 0 < base) (k : Nat) :
    radix ^ k ≤ base ↔ k ≤ exponent radix base := by
  rw [exponent_eq_log two, Nat.le_log_iff_pow_le two (Nat.ne_of_gt pos)]

theorem exponent_zero (radix : Nat) : exponent radix 0 = 0 := rfl

theorem divisor_le (two : 2 ≤ radix) (base marks : Nat) :
    (numeric base radix marks).divisor ≤ max base 1 := by
  rcases Nat.eq_zero_or_pos base with rfl | pos
  · rw [divisor, exponent_zero, Nat.zero_sub, Nat.pow_zero]
    exact Nat.le_max_right ..
  · exact Nat.le_trans ((pow_le_iff two pos _).2 (Nat.sub_le ..)) (Nat.le_max_left ..)

/-- The greatest power of a radix that is not above a word has less than 63 factors. -/
theorem exponent_lt (two : 2 ≤ radix) (word : base ≤ maxBase) : exponent radix base < 63 := by
  rcases Nat.eq_zero_or_pos base with rfl | pos
  · rw [exponent_zero]
    decide
  · by_contra many
    have word : base < 2 ^ 63 := Nat.lt_of_le_of_lt word (by decide)
    have greatest : radix ^ 63 ≤ base := (pow_le_iff two pos 63).2 (Nat.le_of_not_lt many)
    have : 2 ^ 63 ≤ radix ^ 63 := Nat.pow_le_pow_left two 63
    omega

/-- **The divisor is found on words,** without a product that is none. -/
theorem divisorOnWords_eq_some (two : 2 ≤ radix) (word : base ≤ maxBase) (marks : Nat) :
    divisorOnWords base radix marks = some (numeric base radix marks).divisor := by
  suffices found : ∀ (r : Nat) (h : 2 ≤ r), r = radix →
      Word.pow? 1 r (((Word.Power.one r).last h base).exponent - marks) =
        some (numeric base radix marks).divisor from
    found _ (Nat.le_max_right ..) (Nat.max_eq_left two)
  rintro r h rfl
  have le : 1 * r ^ (exponent r base - marks) ≤ maxBase := by
    rw [Nat.one_mul]
    exact Nat.le_trans (divisor_le h base marks) (Nat.max_le.2 ⟨word, by decide⟩)
  rw [Word.Power.exponent_last h word, ← exponent_eq_log h,
    Word.pow?_eq_some Nat.one_pos (by omega) le, Nat.one_mul, divisor]

/-- **The divisor is the power of the radix that it should be.**  Its exponent is the greatest one
    whose power is not above the base, less the marks, and nothing for the base zero.  It is found on
    words, where the count of powers ends within 63 steps and no product is beyond a word; so it is
    never zero, and not above a base that is positive. -/
theorem divisor_eq_pow (two : 2 ≤ radix) (word : base ≤ maxBase) (marks : Nat) :
    ∃ e, (base = 0 → e = 0) ∧ (0 < base → ∀ k, radix ^ k ≤ base ↔ k ≤ e) ∧ e < 63 ∧
      (numeric base radix marks).divisor = radix ^ (e - marks) ∧
      divisorOnWords base radix marks = some (numeric base radix marks).divisor ∧
      1 ≤ (numeric base radix marks).divisor ∧ (numeric base radix marks).divisor ≤ max base 1 := by
  refine ⟨exponent radix base, ?_, fun pos k => pow_le_iff two pos k, ?_, rfl,
    divisorOnWords_eq_some two word marks, Nat.pow_pos (by omega), divisor_le two base marks⟩
  · rintro rfl
    rfl
  · exact exponent_lt two word

/-- The count for the greatest base ends at a product that is no word, with 18 factors of ten; a mark
    takes one of them away. -/
theorem divisor_eq_pow_maxBase :
    2 ≤ 10 ∧ maxBase ≤ maxBase ∧ ¬ 10 ^ 18 * 10 ≤ maxBase ∧
      (numeric maxBase 10 1).divisor = 10 ^ 17 ∧ divisorOnWords maxBase 10 1 = some (10 ^ 17) := by
  have divisor : (numeric maxBase 10 1).divisor = 10 ^ 17 := by decide +kernel
  obtain ⟨e, -, -, -, -, found, -, -⟩ :=
    divisor_eq_pow (show 2 ≤ 10 by decide) (Nat.le_refl maxBase) 1
  exact ⟨by decide, Nat.le_refl _, by decide, divisor, divisor ▸ found⟩

end Key
end Spellout
