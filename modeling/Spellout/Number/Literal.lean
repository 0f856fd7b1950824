/-
  Values written as decimal literals.

  A literal is a sign, a run of digits with a point somewhere, and a decimal exponent, all but the
  digits optional; or, in place of the digits, a word for what is no finite number, in any case.

  * `Binary64.ofLiteral?` is the value nearest to a literal, `none` for other text;
  * `scaled_eq_ofRatio`: exponents of any size are read exactly.
-/
import Spellout.Number.Decimal

namespace Spellout.Binary64

/-- The value nearest to `digits * 10 ^ exponent`.  The power of ten is not computed where it is
    certain to lead beyond the largest value or below half a step (`scaled_eq_ofRatio`). -/
def scaled (negative : Bool) (digits : Nat) (exponent : Int) : Binary64 :=
  let up := exponent.toNat
  let down := (-exponent).toNat
  if digits = 0 ∨ digits.log2 + 1076 ≤ 3 * down then .finite negative .zero
  else if down = 0 ∧ 1024 ≤ digits.log2 + 3 * up then .infinite negative
  else .ofRatio negative (digits * 10 ^ up) (10 ^ down)

theorem two_pow_le_ten_pow (n : Nat) : 2 ^ (3 * n) ≤ 10 ^ n := by
  rw [Nat.pow_mul]
  exact Nat.pow_le_pow_left (by decide) n

theorem two_mul_lt_ten_pow {n e k : Nat} (h : n.log2 + 2 + e ≤ 3 * k) :
    2 * (n * 2 ^ e) < 10 ^ k := by
  refine Nat.lt_of_lt_of_le ?_ (two_pow_le_ten_pow k)
  refine Nat.lt_of_lt_of_le ?_ (Nat.pow_le_pow_right (by decide) h)
  rw [show n.log2 + 2 + e = 1 + ((n.log2 + 1) + e) by omega, Nat.pow_add, Nat.pow_add]
  exact Nat.mul_lt_mul_of_pos_left
    (Nat.mul_lt_mul_of_pos_right Nat.lt_log2_self (Nat.two_pow_pos e)) (by decide)

theorem two_pow_mul_le {n d e k : Nat} (ne : n ≠ 0) (h : d ≤ n.log2 + 3 * k) :
    2 ^ (d + e) ≤ n * 10 ^ k * 2 ^ e := by
  rw [Nat.pow_add]
  refine Nat.mul_le_mul_right _ (Nat.le_trans (Nat.pow_le_pow_right (by decide) h) ?_)
  rw [Nat.pow_add]
  exact Nat.mul_le_mul (Nat.log2_self_le ne) (two_pow_le_ten_pow k)

theorem scaled_eq_ofRatio (negative : Bool) (digits : Nat) (exponent : Int) :
    scaled negative digits exponent =
      .ofRatio negative (digits * 10 ^ exponent.toNat) (10 ^ (-exponent).toNat) := by
  obtain ⟨e, o, he, ho, unit, top⟩ := exists_two_pow
  simp only [scaled, ofRatio]
  split
  · rename_i small
    refine (nearest_of_two_mul_lt _ ?_).symm
    rcases small with rfl | small
    · simp only [Nat.zero_mul, Nat.mul_zero]
      exact Nat.pow_pos (by decide)
    · rw [show exponent.toNat = 0 by omega, Nat.pow_zero, Nat.mul_one, unit]
      exact two_mul_lt_ten_pow (by omega)
  · split
    · rename_i small large
      refine (nearest_of_overflow_le _ ?_).symm
      rw [large.1, Nat.pow_zero, Nat.div_one, unit, top, show o = 1024 + e by omega]
      exact two_pow_mul_le (fun zero => small (.inl zero)) large.2
    · rfl

/-- The value of a literal without its sign. -/
def unsigned? (negative : Bool) (t : Text) : Option Binary64 :=
  let whole := t.takeWhile Char.isDigit
  let rest := t.drop whole.length
  let fraction := match rest with
    | '.' :: more => more.takeWhile Char.isDigit
    | _ => []
  let rest := match rest with
    | '.' :: more => more.drop fraction.length
    | _ => rest
  let digits := Decimal.numberOfDigits (whole ++ fraction)
  if whole = [] ∧ fraction = [] then none
  else match rest with
    | [] => some (scaled negative digits (-(fraction.length : Int)))
    | e :: more =>
      if e = 'e' ∨ e = 'E' then
        (Decimal.integer? more).map fun n => scaled negative digits (n - fraction.length)
      else none

/-- The value of a word for what is no finite number, in small letters. -/
def word? (negative : Bool) (t : Text) : Option Binary64 :=
  if t = "nan".toList then some .nan
  else if t = "inf".toList ∨ t = "infinity".toList then some (.infinite negative)
  else none

/-- The value of digits or of a word, with a sign. -/
def signed? (negative : Bool) (t : Text) : Option Binary64 :=
  (unsigned? negative t).or (word? negative (t.map Char.toLower))

/-- The value nearest to a decimal literal. -/
def ofLiteral? : Text → Option Binary64
  | '-' :: t => signed? true t
  | '+' :: t | t => signed? false t

end Spellout.Binary64
