/-
  How the rule set of cardinals writes numbers.

  A natural number is written with the rule of the greatest number that has a word and is not above
  it.  Its quotient and its remainder are smaller, and are written on deeper levels.

  * `exists_chosen?`: the rule for a number;
  * `exists_phrase`: a number below the rule for numerals is written as a phrase that counts it;
  * `exists_format_ofInt`: so is an integer, behind a minus sign in words if it is below zero.
-/
import Mathlib.Data.Nat.Find
import Spellout.Proofs.English.Simplified
import Spellout.Proofs.Spelling.Selection
import Spellout.Proofs.Spelling.Writes
import Spellout.RuleBook.Conversion

namespace Spellout.English

/-! ## The rule for a number -/

theorem ordered_simplified : simplified.Ordered :=
  ⟨by decide +kernel, by decide +kernel, by decide +kernel⟩

/-- There is a greatest number that has a word and is not above a given one. -/
theorem exists_greatest (n : Nat) : ∃ b ∈ bases, b ≤ n ∧ ∀ c ∈ bases, c ≤ n → c ≤ b :=
  have zero : 0 ∈ bases := by decide +kernel
  ⟨Nat.findGreatest (· ∈ bases) n, Nat.findGreatest_spec (Nat.zero_le n) zero,
    Nat.findGreatest_le n, fun _ mem le => Nat.le_findGreatest le mem⟩

theorem stepsBack_rule {b : Nat} (h : b ∈ bases) (n : Nat) : (rule b).stepsBack n = false := by
  have all : ∀ b ∈ bases, (rule b).template.substitutionCount ≠ 2 ∨ b % (rule b).divisor = 0 := by
    decide +kernel
  have base : (rule b).base = b := rfl
  rcases all b h with one | even
  · simp [Rule.stepsBack, one]
  · simp [Rule.stepsBack, base, even]

/-- **The rule for a number is that of the greatest word not above it.** -/
theorem exists_chosen? {n : Nat} (h : n < 10 ^ 15) :
    ∃ b ∈ bases, b ≤ n ∧ (∀ c ∈ bases, c ≤ n → c ≤ b) ∧
      ∃ below, simplified.chosen? n = some (rule b, below) := by
  obtain ⟨b, mem, le, max⟩ := exists_greatest n
  refine ⟨b, mem, le, max, RuleSet.exists_chosen?_of_greatest ordered_simplified
    (rule_mem_ladder mem) le (fun r hr low => ?_) (stepsBack_rule mem n)⟩
  rcases mem_ladder hr with rfl | ⟨c, hc, rfl⟩
  · exact absurd h (Nat.not_lt.2 low)
  · exact max c hc low

/-! ## Phrases -/

variable {sp : Speller} {fuel depth b n : Nat} {below : List Rule} {t u : Text}

/-- The rule of a word, applied to a number. -/
def applied (b : Nat) (below : List Rule) (n : Nat) : Applied :=
  ⟨simplified, (rule b).key, .whole n, template b, .normal (rule b) below n⟩

theorem writes_of_chosen? (hb : simplified.chosen? n = some (rule b, below))
    (h : sp.Fills fuel (depth + 1) (applied b below n) (applied b below n).pieces t) :
    sp.Writes (fuel + 1) depth (.value simplified (.whole n)) t :=
  Speller.writes_of_plan (RuleSet.plan_of_chosen? hb) h

theorem pieces_word (lt : b < 20) : (applied b below n).pieces = [.literal (word b)] := by
  simp [applied, Applied.pieces, template, lt, Template.keeping]

/-- A group with a remainder in it is written unless the remainder is zero. -/
theorem keeps_remainder (l : Text) : (Application.normal (rule b) below n).keeps
    [.literal l, .substitution (.remainder .owner)] = !decide (n % (rule b).divisor = 0) :=
  rfl

theorem pieces_tens (ge : 20 ≤ b) (lt : b < 100) :
    (applied b below n).pieces = .literal (word b) ::
      if n % (rule b).divisor = 0 then []
      else [.literal ['-'], .substitution (.remainder .owner)] := by
  have ge : ¬ b < 20 := by omega
  by_cases zero : n % (rule b).divisor = 0 <;>
    simp [applied, Applied.pieces, template, ge, lt, Template.keeping, keeps_remainder, zero]

theorem pieces_scale (ge : 100 ≤ b) :
    (applied b below n).pieces = .substitution (.quotient .owner) :: .literal (' ' :: word b) ::
      if n % (rule b).divisor = 0 then []
      else [.literal [' '], .substitution (.remainder .owner)] := by
  have ge₁ : ¬ b < 20 := by omega
  have ge₂ : ¬ b < 100 := by omega
  by_cases zero : n % (rule b).divisor = 0 <;>
    simp [applied, Applied.pieces, template, ge₁, ge₂, Template.keeping, keeps_remainder, zero]

/-- The quotient is written a level deeper. -/
theorem insertion_quotient (b : Nat) (below : List Rule) (n : Nat) (book : RuleBook) :
    (applied b below n).insertion book (.quotient .owner) =
      .ok (.spelled (.value simplified (.whole (n / (rule b).divisor)))) :=
  rfl

/-- The remainder is written a level deeper. -/
theorem insertion_remainder (b : Nat) (below : List Rule) (n : Nat) (book : RuleBook) :
    (applied b below n).insertion book (.remainder .owner) =
      .ok (.spelled (.value simplified (.whole (n % (rule b).divisor)))) :=
  rfl

theorem writes_word (lt : n < 20) :
    sp.Writes (fuel + 1) depth (.value simplified (.whole n)) (word n) := by
  obtain ⟨b, -, le, max, below, chosen⟩ := exists_chosen? (Nat.lt_of_lt_of_le lt (by decide))
  obtain rfl : b = n := Nat.le_antisymm le (max n (mem_bases_of_lt lt) (Nat.le_refl n))
  refine writes_of_chosen? chosen ?_
  simpa [pieces_word lt] using Speller.Fills.literal (word b) .nil

theorem writes_tens (hb : simplified.chosen? n = some (rule b, below)) (ge : 20 ≤ b)
    (lt : b < 100) (zero : n % (rule b).divisor = 0) :
    sp.Writes (fuel + 1) depth (.value simplified (.whole n)) (word b) := by
  refine writes_of_chosen? hb ?_
  simpa [pieces_tens ge lt, zero] using Speller.Fills.literal (word b) .nil

theorem writes_compound (hb : simplified.chosen? n = some (rule b, below)) (ge : 20 ≤ b)
    (lt : b < 100) (rest : n % (rule b).divisor ≠ 0)
    (ht : sp.Writes fuel (depth + 1) (.value simplified (.whole (n % (rule b).divisor))) t) :
    sp.Writes (fuel + 1) depth (.value simplified (.whole n)) (word b ++ '-' :: t) := by
  refine writes_of_chosen? hb ?_
  have unit := Speller.Fills.spelled (insertion_remainder b below n sp.book) ht .nil
  simpa [pieces_tens ge lt, rest] using (unit.literal ['-']).literal (word b)

theorem writes_times (hb : simplified.chosen? n = some (rule b, below)) (ge : 100 ≤ b)
    (zero : n % (rule b).divisor = 0)
    (hu : sp.Writes fuel (depth + 1) (.value simplified (.whole (n / (rule b).divisor))) u) :
    sp.Writes (fuel + 1) depth (.value simplified (.whole n)) (u ++ ' ' :: word b) := by
  refine writes_of_chosen? hb ?_
  have whole := Speller.Fills.spelled (insertion_quotient b below n sp.book) hu
    (.literal (' ' :: word b) .nil)
  simpa [pieces_scale ge, zero] using whole

theorem writes_plus (hb : simplified.chosen? n = some (rule b, below)) (ge : 100 ≤ b)
    (rest : n % (rule b).divisor ≠ 0)
    (hu : sp.Writes fuel (depth + 1) (.value simplified (.whole (n / (rule b).divisor))) u)
    (ht : sp.Writes fuel (depth + 1) (.value simplified (.whole (n % (rule b).divisor))) t) :
    sp.Writes (fuel + 1) depth (.value simplified (.whole n))
      (u ++ ' ' :: (word b ++ ' ' :: t)) := by
  refine writes_of_chosen? hb ?_
  have left := Speller.Fills.spelled (insertion_remainder b below n sp.book) ht .nil
  have whole := Speller.Fills.spelled (insertion_quotient b below n sp.book) hu
    ((left.literal [' ']).literal (' ' :: word b))
  simpa [pieces_scale ge, rest] using whole

/-- Numbers that tens are the greatest word for go up to the next tens. -/
theorem lt_next_tens (hb : b ∈ bases) (ge : 20 ≤ b) (lt : b < 100)
    (max : ∀ c ∈ bases, c ≤ n → c ≤ b) : n < b + 10 := by
  have all : ∀ b ∈ bases, 20 ≤ b → b < 100 → b + 10 ∈ bases := by decide +kernel
  by_contra beyond
  have := max _ (all b hb ge lt) (by omega)
  omega

/-- Numbers that a scale is the greatest word for count it fewer times than it counts. -/
theorem lt_next_scale (hb : b ∈ bases) (ge : 100 ≤ b) (h : n < 10 ^ 15)
    (max : ∀ c ∈ bases, c ≤ n → c ≤ b) : n < b * b := by
  have all : ∀ b ∈ bases, 100 ≤ b → 10 ^ 15 ≤ b * b ∨ ∃ c ∈ bases, b < c ∧ c ≤ b * b := by
    decide +kernel
  by_contra beyond
  rcases all b hb ge with top | ⟨c, hc, lt, le⟩
  · omega
  · have := max c hc (by omega)
    omega

/-- A divisor not above a number leaves a level less for smaller numbers. -/
theorem exists_level {d : Nat} (hd : d ∈ divisors) (le : d ≤ n) (enough : levels (n + 1) ≤ fuel) :
    ∃ k, fuel = k + 1 ∧ ∀ m < d, levels (m + 1) ≤ k := by
  have less : levels d < levels (n + 1) := levels_lt hd (Nat.lt_succ_of_le le)
  refine ⟨fuel - 1, by omega, fun m hm => ?_⟩
  have mono : levels (m + 1) ≤ levels d := levels_mono hm
  omega

/-- The number is written as a phrase that counts it, if the levels suffice. -/
def Written (sp : Speller) (n : Nat) : Prop :=
  ∃ p : Phrase, p.Names n ∧ ∀ fuel depth, levels (n + 1) ≤ fuel →
    sp.Writes fuel depth (.value simplified (.whole n)) p.text

theorem written_word (lt : n < 20) : Written sp n := by
  refine ⟨.word n, .word (mem_bases_of_lt lt) (by omega), fun fuel depth enough => ?_⟩
  obtain ⟨k, rfl⟩ := exists_succ enough
  exact writes_word lt

theorem written_tens (hb : b ∈ bases) (ge : 20 ≤ b) (lt : b < 100) (le : b ≤ n)
    (max : ∀ c ∈ bases, c ≤ n → c ≤ b) (chosen : simplified.chosen? n = some (rule b, below)) :
    Written sp n := by
  obtain ⟨ten, even⟩ := divisor_tens hb ge lt
  have next := lt_next_tens hb ge lt max
  have split : n = b + n % 10 := by omega
  have divisor : 10 ∈ divisors := ten ▸ divisor_mem hb ge
  rw [← ten] at split
  by_cases zero : n % (rule b).divisor = 0
  · obtain rfl : b = n := by omega
    refine ⟨.word b, .word hb lt, fun fuel depth enough => ?_⟩
    obtain ⟨k, rfl, -⟩ := exists_level divisor (by omega) enough
    exact writes_tens chosen ge lt zero
  · have unit : n % (rule b).divisor < 10 := by
      rw [ten]
      exact Nat.mod_lt n (by omega)
    refine ⟨.compound b (n % (rule b).divisor), ?_, fun fuel depth enough => ?_⟩
    · have names := Phrase.Names.compound hb ge lt (mem_bases_of_lt (by omega)) unit
      rwa [← split] at names
    · obtain ⟨k, rfl, below⟩ := exists_level divisor (by omega) enough
      obtain ⟨k, rfl⟩ := exists_succ (below _ unit)
      exact writes_compound chosen ge lt zero (writes_word (by omega))

theorem written_scale (hb : b ∈ bases) (ge : 100 ≤ b) (le : b ≤ n) (h : n < 10 ^ 15)
    (max : ∀ c ∈ bases, c ≤ n → c ≤ b) (chosen : simplified.chosen? n = some (rule b, below))
    (ih : ∀ m < b, Written sp m) : Written sp n := by
  have scale := divisor_scale hb ge
  have divisor : b ∈ divisors := by
    have mem := divisor_mem hb (by omega)
    rwa [scale] at mem
  have pos : 0 < n / b := Nat.div_pos le (by omega)
  have small : n / b < b := Nat.div_lt_of_lt_mul (lt_next_scale hb ge h max)
  have left : n % b < b := Nat.mod_lt n (by omega)
  have split : n / b * b + n % b = n := Nat.div_add_mod' n b
  obtain ⟨q, hq, writesq⟩ := ih _ small
  by_cases zero : n % b = 0
  · refine ⟨.times q b, ?_, fun fuel depth enough => ?_⟩
    · have names := Phrase.Names.times hb ge hq pos small
      have even : n / b * b = n := by omega
      rwa [even] at names
    · obtain ⟨k, rfl, below⟩ := exists_level divisor le enough
      refine writes_times chosen ge (scale.symm ▸ zero) ?_
      rw [scale]
      exact writesq k _ (below _ small)
  · obtain ⟨r, hr, writesr⟩ := ih _ left
    refine ⟨.plus q b r, ?_, fun fuel depth enough => ?_⟩
    · have names := Phrase.Names.plus hb ge hq pos small hr left
      rwa [split] at names
    · obtain ⟨k, rfl, below⟩ := exists_level divisor le enough
      refine writes_plus chosen ge (scale.symm ▸ zero) ?_ ?_
      · rw [scale]
        exact writesq k _ (below _ small)
      · rw [scale]
        exact writesr k _ (below _ left)

/-- **A number below the rule for numerals is written as a phrase that counts it,** on as many
    levels as there are divisors not above it. -/
theorem exists_phrase (sp : Speller) (n : Nat) (h : n < 10 ^ 15) : Written sp n := by
  induction n using Nat.strongRecOn with
  | ind n ih =>
  rcases Nat.lt_or_ge n 20 with lt | ge
  · exact written_word lt
  · obtain ⟨b, hb, le, max, below, chosen⟩ := exists_chosen? h
    have tens : 20 ≤ b := max 20 (by decide +kernel) ge
    rcases Nat.lt_or_ge b 100 with lt | ge
    · exact written_tens hb tens lt le max chosen
    · exact written_scale hb ge le h max chosen fun m hm => ih m (by omega) (by omega)

/-! ## Integers -/

/-- What the whole rule set writes for an integer, given the phrase for its magnitude. -/
def integerText (v : Int) (p : Phrase) : Text :=
  if v < 0 then "minus ".toList ++ p.text else p.text

/-- Numbers of up to fifteen digits are exact. -/
theorem exact_of_lt (h : n < 10 ^ 15) : n ≤ 2 ^ 53 := Nat.le_trans (Nat.le_of_lt h) (by decide)

theorem wholeOf_ofNat (h : n < 10 ^ 15) : wholeOf (.ofNat n) = .ok n := by
  have le : n ≤ 2 ^ 53 := exact_of_lt h
  have limit : n < wholeLimit := Nat.lt_of_lt_of_le h (by decide)
  rw [Binary64.ofNat_of_le le, wholeOf, Binary64.floor_ofNat le, if_pos limit]

theorem plan_ofNat (h : n < 10 ^ 15) : Request.plan (.value simplified (.real (.ofNat n))) =
    Request.plan (.value simplified (.whole n)) := by
  have le : n ≤ 2 ^ 53 := exact_of_lt h
  exact Plan.real_of_whole rfl (Binary64.isNegative_ofNat le) (Binary64.isIntegral_ofNat le)
    (wholeOf_ofNat h)

/-- The rule for numbers below zero, applied to a magnitude. -/
def appliedMinus (n : Nat) : Applied :=
  ⟨simplified, .special .negative, (Operand.whole n).neg, minusTemplate, .negative (.whole n)⟩

theorem pieces_minus : (appliedMinus n).pieces =
    [.literal "minus ".toList, .substitution (.remainder .owner)] :=
  rfl

theorem insertion_minus (n : Nat) (book : RuleBook) :
    (appliedMinus n).insertion book (.remainder .owner) =
      .ok (.spelled (.value simplified (.whole n))) :=
  rfl

theorem plan_neg_ofNat (h : n < 10 ^ 15) (pos : 0 < n) :
    Request.plan (.value simplified (.real (Binary64.ofNat n).neg)) =
      .ok (.apply (appliedMinus n)) := by
  have le : n ≤ 2 ^ 53 := exact_of_lt h
  refine Plan.real_of_negative rfl (Binary64.isNegative_neg_ofNat le pos) ?_ ?_
  · rw [Binary64.neg_neg]
    exact Binary64.isIntegral_ofNat le
  · rw [Binary64.neg_neg]
    exact wholeOf_ofNat h

/-- **An integer is written as a phrase for its magnitude,** behind a minus sign in words if it is
    below zero. -/
theorem exists_format_ofInt (sp : Speller) (limit : 7 ≤ sp.limit) (v : Int)
    (h : v.natAbs < 10 ^ 15) : ∃ p : Phrase, p.Names v.natAbs ∧
      ∃ s, sp.format simplified (.ofInt v) = .ok s ∧ s.text = integerText v p := by
  have le : v.natAbs ≤ 2 ^ 53 := exact_of_lt h
  have enough : levels (v.natAbs + 1) ≤ sp.limit := Nat.le_trans (levels_le _) limit
  have finite := Binary64.isFinite_ofNat le
  obtain ⟨p, hp, writes⟩ := exists_phrase sp v.natAbs h
  refine ⟨p, hp, ?_⟩
  by_cases neg : v < 0
  · rw [Binary64.ofInt, integerText, if_pos neg, if_pos neg, Speller.format,
      if_pos ((Binary64.isFinite_neg _).trans finite)]
    refine Speller.writes_of_plan (plan_neg_ofNat h (by omega)) ?_
    have magnitude := Speller.Fills.spelled (insertion_minus v.natAbs sp.book)
      (writes sp.limit 1 enough) .nil
    rw [pieces_minus]
    simpa using magnitude.literal "minus ".toList
  · rw [Binary64.ofInt, integerText, if_neg neg, if_neg neg, Speller.format, if_pos finite]
    exact (writes _ 0 (by omega)).congr (plan_ofNat h).symm

end Spellout.English
