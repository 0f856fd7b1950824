/-
  Numeral patterns such as `#,##0`, `00` and `##0.###`.

  A pattern shows how a positional numeral is laid out: `0` is a digit that is always written, `#`
  one that may be missing, `,` separates groups of digits before the point.  Digits after the point
  are asked for behind a single `.`.

  * `NumeralPattern.ofText?` reads a pattern; it ends its whole part with a digit and, if there is
    a point, has at least one digit behind it.
-/
import Spellout.Text.Basic

namespace Spellout

/-- The layout of a positional numeral. -/
structure NumeralPattern where
  /-- The pattern as it was written. -/
  source : Text
  /-- The least number of digits before the point. -/
  minWhole : Nat
  /-- The number of digits in a group, if digits are grouped. -/
  grouping : Option Nat
  /-- The least number of digits after the point. -/
  minFraction : Nat
  /-- The greatest number of digits after the point. -/
  maxFraction : Nat
deriving DecidableEq, Repr

namespace NumeralPattern

/-- The pattern can show digits after the point. -/
def keepsFraction (p : NumeralPattern) : Bool := 0 < p.maxFraction

/-- A character of the whole part of a pattern. -/
def isWholeChar (c : Char) : Bool := c == '#' || c == '0' || c == ','

/-- A character of the fraction part of a pattern. -/
def isFractionChar (c : Char) : Bool := c == '#' || c == '0'

/-- The number of digits after the last separator, if there is one. -/
def groupSize? (whole : Text) : Option Nat :=
  if whole.contains ',' then some (whole.reverse.takeWhile (· ≠ ',')).length else none

/-- The pattern with the given whole and fraction parts. -/
def ofParts (source whole fraction : Text) : NumeralPattern where
  source := source
  minWhole := whole.count '0'
  grouping := groupSize? whole
  minFraction := fraction.count '0'
  maxFraction := fraction.length

/-- Reads a pattern; `none` if the text is none. -/
def ofText? (t : Text) : Option NumeralPattern :=
  let whole := t.takeWhile isWholeChar
  if whole.getLast?.any isFractionChar then
    match t.dropWhile isWholeChar with
    | [] => some (ofParts t whole [])
    | point :: fraction =>
      if point = '.' ∧ fraction ≠ [] ∧ fraction.all isFractionChar then
        some (ofParts t whole fraction)
      else none
  else none

end NumeralPattern
end Spellout
