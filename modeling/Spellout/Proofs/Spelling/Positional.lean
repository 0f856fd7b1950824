/-
  Positional sets: words for digits.

  A set with words for the digits of a base, and one rule more that writes a quotient by the base in
  front of the remainder, spells a number out digit by digit.  Every digit but the first is on a level
  of its own, so the default limit suffices for the numbers that rules can divide, even in base two.

  * `RuleSet.Positional`: the set has words for the digits of a base, and a rule that carries;
  * `digitText`: the words for the digits of a number;
  * `RuleSet.Positional.writes`: so a number is spelled out, on as many levels as it can be halved on;
  * `RuleBook.format_positional`: so are the whole values in range, with the default limit.
-/
import Mathlib.Data.Nat.Digits.Defs
import Spellout.Proofs.Spelling.Halving
import Spellout.Proofs.Spelling.Words

namespace Spellout

/-- The set has words for the digits of a base.  The rule for the base itself, which is the last one,
    writes the quotient and the remainder; no rule is special. -/
structure RuleSet.Positional (s : RuleSet) (base : Nat) (w : Nat → Text) : Prop where
  two_le : 2 ≤ base
  digits : s.Spells base w
  carry : ∃ rule ∈ s.ladder, rule.base = base ∧ rule.radix = base ∧ rule.marks = 0 ∧
    rule.template =
      [.piece (.substitution (.quotient .owner)), .piece (.substitution (.remainder .owner))]
  last : ∀ rule ∈ s.ladder, rule.base ≤ base
  plain : ∀ form, s.special form = none

/-- The words for the digits of a number, the first digit first; zero has one digit. -/
def digitText (base : Nat) (w : Nat → Text) (n : Nat) : Text :=
  if n = 0 then w 0 else ((Nat.digits base n).reverse.map w).flatten

variable {base n : Nat} {w : Nat → Text}

theorem digitText_of_lt (lt : n < base) : digitText base w n = w n := by
  unfold digitText
  split
  · rename_i zero
    rw [zero]
  · rename_i some
    rw [Nat.digits_of_lt base n some lt]
    simp

/-- The last digit stands behind the others. -/
theorem digitText_of_le (two : 2 ≤ base) (le : base ≤ n) :
    digitText base w n = digitText base w (n / base) ++ w (n % base) := by
  have some : n ≠ 0 := by omega
  have others : n / base ≠ 0 := Nat.ne_of_gt (Nat.div_pos le (by omega))
  rw [digitText, digitText, if_neg some, if_neg others,
    Nat.digits_def' (by omega) (Nat.pos_of_ne_zero some)]
  simp

/-- A base without marks is its own divisor. -/
theorem Key.divisor_self (two : 2 ≤ base) : (Key.numeric base base 0).divisor = base := by
  have fuel : base.log2 = base.log2 - 1 + 1 := by
    have := (Nat.le_log2 (by omega : base ≠ 0)).2 (by simpa using two : 2 ^ 1 ≤ base)
    omega
  have one : exponentWithin base (base.log2 - 1) 1 = 0 := by
    cases base.log2 - 1 with
    | zero => rfl
    | succ fuel => exact if_neg (by omega)
  have exponent : exponent base base = 1 := by
    rw [Key.exponent, fuel, exponentWithin, if_pos (Nat.le_refl _), Nat.div_self (by omega), one]
  rw [divisor, exponent, Nat.sub_zero, Nat.pow_one]

namespace RuleSet.Positional

variable {s : RuleSet} {sp : Speller} {fuel depth : Nat} {t u : Text}

/-- The rule for the base writes the quotient and the remainder one level deeper. -/
theorem writes_carry (h : s.Positional base w) (ordered : s.Ordered) (le : base ≤ n)
    (hu : sp.Writes fuel (depth + 1) (.value s (.whole (n / base))) u)
    (ht : sp.Writes fuel (depth + 1) (.value s (.whole (n % base))) t) :
    sp.Writes (fuel + 1) depth (.value s (.whole n)) (u ++ t) := by
  obtain ⟨rule, mem, hb, hr, hm, template⟩ := h.carry
  have divisor : rule.divisor = base := by
    rw [Rule.divisor, Rule.key, hb, hr, hm, Key.divisor_self h.two_le]
  have stays : rule.stepsBack n = false := by
    simp [Rule.stepsBack, divisor, hb]
  obtain ⟨below, plan⟩ := exists_plan ordered mem (hb ▸ le) (fun r mem _ => hb ▸ h.last r mem) stays
  refine Speller.writes_of_plan plan ?_
  rw [← divisor] at hu ht
  rw [Applied.pieces, template, ← List.append_nil t]
  exact .spelled rfl hu (.spelled rfl ht .nil)

/-- **A number is spelled out digit by digit,** on as many levels as it can be halved on. -/
theorem writes (h : s.Positional base w) (ordered : s.Ordered) (enough : Halvable fuel n) :
    sp.Writes fuel depth (.value s (.whole n)) (digitText base w n) := by
  induction fuel generalizing n depth with
  | zero => exact absurd enough.1 (Nat.lt_irrefl 0)
  | succ fuel ih =>
    rcases Nat.lt_or_ge n base with lt | ge
    · rw [digitText_of_lt lt]
      exact h.digits.writes ordered lt sp fuel depth
    · -- both operands of the rule are at most half of the number
      have two := h.two_le
      have last : n % base < base := Nat.mod_lt n (by omega)
      rw [digitText_of_le two ge, ← digitText_of_lt (w := w) last]
      exact h.writes_carry ordered ge
        (ih (enough.half (by omega) (two_mul_div_le two)))
        (ih (enough.half (by omega) (two_mul_mod_le (by omega) ge)))

end RuleSet.Positional

/-! ## Values -/

namespace RuleBook

/-- **A positional set spells out whole values digit by digit,** and the default limit is enough for
    all that are in range. -/
theorem format_positional {description : Text} {book : RuleBook}
    (compiled : ofDescription description = .ok book) {set : Option Text} {s : RuleSet}
    (entry : book.entry set = .ok s) {base : Nat} {w : Nat → Text} (positional : s.Positional base w)
    {v : Binary64} (integral : v.isIntegral) (sign : v.isNegative = false)
    (lt : v.lt (.ofNat (2 ^ 63))) (context : Context) (lenient : Bool) :
    ∃ n, v.place = some ((n * Binary64.stepsPerUnit : Nat) : Int) ∧
      book.format v set context ⟨64, lenient⟩ = .ok (digitText base w n) := by
  obtain ⟨n, below, place, whole⟩ := Binary64.exists_whole integral sign lt
  have ordered := ordered_of_ofDescription compiled s (mem_of_entry entry)
  have writes : Speller.Writes ⟨book, context.numerals, 64⟩ 65 0 (.value s (.whole n))
      (digitText base w n) :=
    positional.writes ordered (halvable_of_lt (by decide) below)
  have plan := Plan.real_of_whole (positional.plain .whole) sign integral whole
  obtain ⟨spelled, eq, text⟩ := writes.congr plan.symm
  refine ⟨n, place, ?_⟩
  rw [format_of_entry entry (Binary64.isFinite_of_isIntegral integral), eq, ← text]
  rfl

/-- The digits of base two. -/
def bits : RuleSet where
  name := "%bits".toList
  ladder :=
    [⟨2, 2, 0, false,
        [.piece (.substitution (.quotient .owner)), .piece (.substitution (.remainder .owner))]⟩,
      ⟨1, 10, 0, false, [.piece (.literal "on".toList)]⟩,
      ⟨0, 10, 0, false, [.piece (.literal "off".toList)]⟩]

/-- The greatest value in range has 63 digits in base two, and so many levels are needed for it. -/
theorem format_positional_bits :
    ∃ w : Nat → Text, w 0 = "off".toList ∧ w 1 = "on".toList ∧
      ofDescription "%bits: 0: off; 1: on; 2/2: <<>>;".toList = .ok ⟨[bits], .none⟩ ∧
      entry ⟨[bits], .none⟩ none = .ok bits ∧ bits.Positional 2 w ∧
      (Binary64.ofRatio false (2 ^ 63 - 2 ^ 10) 1).isIntegral ∧
      (Binary64.ofRatio false (2 ^ 63 - 2 ^ 10) 1).isNegative = false ∧
      (Binary64.ofRatio false (2 ^ 63 - 2 ^ 10) 1).lt (.ofNat (2 ^ 63)) ∧
      format ⟨[bits], .none⟩ (.ofRatio false (2 ^ 63 - 2 ^ 10) 1) none {} ⟨61, false⟩ =
        .error (.depthExceeded "%bits".toList 61) ∧
      ∃ n, (Binary64.ofRatio false (2 ^ 63 - 2 ^ 10) 1).place =
          some ((n * Binary64.stepsPerUnit : Nat) : Int) ∧
        format ⟨[bits], .none⟩ (.ofRatio false (2 ^ 63 - 2 ^ 10) 1) none {} ⟨64, false⟩ =
          .ok (digitText 2 w n) := by
  let w (d : Nat) : Text := if d = 0 then "off".toList else "on".toList
  have compiled : ofDescription "%bits: 0: off; 1: on; 2/2: <<>>;".toList =
      .ok ⟨[bits], .none⟩ := by decide +kernel
  have entry : entry ⟨[bits], .none⟩ none = .ok bits := by decide
  have positional : bits.Positional 2 w :=
    ⟨by decide, by decide, by decide, by decide, fun form => by cases form <;> rfl⟩
  have integral : (Binary64.ofRatio false (2 ^ 63 - 2 ^ 10) 1).isIntegral := by decide +kernel
  have sign : (Binary64.ofRatio false (2 ^ 63 - 2 ^ 10) 1).isNegative = false := by decide +kernel
  have lt : (Binary64.ofRatio false (2 ^ 63 - 2 ^ 10) 1).lt (.ofNat (2 ^ 63)) := by decide +kernel
  have deep : format ⟨[bits], .none⟩ (.ofRatio false (2 ^ 63 - 2 ^ 10) 1) none {} ⟨61, false⟩ =
      .error (.depthExceeded "%bits".toList 61) := by decide +kernel
  exact ⟨w, rfl, rfl, compiled, entry, positional, integral, sign, lt, deep,
    format_positional compiled entry positional integral sign lt {} false⟩

end RuleBook
end Spellout
