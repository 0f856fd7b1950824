/-
  Decimal fractions and their written form.

  A decimal fraction is a natural number of units of its last place.  It is written with all its
  places, and read from a run of digits before and after the point.

  * `Decimal.wholeDigits` and `Decimal.fractionDigits` are the digits before and after the point,
    `Decimal.text` both with the point between them;
  * `Decimal.ofDigits` reads two runs of digits, `Decimal.integer?` an integer with a sign;
  * `Decimal.nearest` is the binary number nearest to a decimal fraction;
  * `Binary64.Magnitude.toPlaces` rounds a magnitude to a fixed number of places.
-/
import Spellout.Number.Binary64
import Spellout.Text.Basic

namespace Spellout

/-- The decimal fraction `units / 10 ^ places`. -/
structure Decimal where
  units : Nat
  places : Nat
deriving DecidableEq, Repr

namespace Decimal

/-! ## Writing -/

/-- The digits of `n` with zeros before them up to `width` digits. -/
def paddedDigits (width n : Nat) : Text :=
  let digits := Nat.toDigits 10 n
  List.replicate (width - digits.length) '0' ++ digits

/-- The digits before the point, at least one. -/
def wholeDigits (d : Decimal) : Text := Nat.toDigits 10 (d.units / 10 ^ d.places)

/-- The digits after the point, one for each place. -/
def fractionDigits (d : Decimal) : Text :=
  if d.places = 0 then [] else paddedDigits d.places (d.units % 10 ^ d.places)

/-- All digits, with a point if there are places. -/
def text (d : Decimal) : Text :=
  d.wholeDigits ++ if d.places = 0 then [] else '.' :: d.fractionDigits

/-! ## Reading -/

/-- The number written by a run of digits. -/
def numberOfDigits (digits : Text) : Nat :=
  digits.foldl (fun n c => 10 * n + (c.toNat - '0'.toNat)) 0

/-- The integer written as an optional sign and digits. -/
def integer? : Text → Option Int
  | '-' :: digits => if digits ≠ [] ∧ digits.all Char.isDigit then
      some (-(numberOfDigits digits : Int)) else none
  | '+' :: digits | digits => if digits ≠ [] ∧ digits.all Char.isDigit then
      some (numberOfDigits digits) else none

/-- The decimal fraction written by the digits before and after the point. -/
def ofDigits (whole fraction : Text) : Decimal :=
  ⟨numberOfDigits (whole ++ fraction), fraction.length⟩

/-! ## Binary numbers -/

/-- The binary number nearest to a decimal fraction, with a sign. -/
def nearest (negative : Bool) (d : Decimal) : Binary64 :=
  .ofRatio negative d.units (10 ^ d.places)

end Decimal

/-- The magnitude rounded to a number of places; of two equally near the one with an even digit. -/
def Binary64.Magnitude.toPlaces (m : Magnitude) (places : Nat) : Decimal :=
  ⟨roundHalfEven (m.steps * 10 ^ places) stepsPerUnit, places⟩

end Spellout
