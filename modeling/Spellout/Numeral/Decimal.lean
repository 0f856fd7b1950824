/-
  The decimal numeral system, with `,` between groups of digits and `.` as the point.

  Rendering rounds the exact value to the places of the pattern, drops zeros at the end that the
  pattern does not ask for, pads and groups the whole part.  Reading takes the longest numeral at
  the start of the text: an optional minus sign, digits (in groups, if the pattern has groups), and
  a point with digits behind it if the pattern has places.

  Any decimal digit of Unicode continues a numeral, but only ASCII digits have a value; a numeral
  with other digits is not read at all.

  * `NumeralSystem.decimal` is the system;
  * `groupDigits` puts a comma before every full group, counted from the right;
  * `numeralParts?` are the parts of the numeral at the start of a text.
-/
import Spellout.Numeral.System
import Spellout.Text.Digit

namespace Spellout.NumeralSystem

/-! ## Rendering -/

/-- Digits with a comma wherever a multiple of `size` digits follows. -/
def groupDigits (size : Nat) : Text → Text
  | [] => []
  | c :: rest =>
    if rest ≠ [] ∧ rest.length % size = 0 then c :: ',' :: groupDigits size rest
    else c :: groupDigits size rest

/-- Drops up to `surplus` zeros at the start. -/
def dropZeros : Nat → Text → Text
  | n + 1, '0' :: rest => dropZeros n rest
  | _, t => t

/-- The fraction digits that are written: zeros at the end only if the pattern asks for them. -/
def shownFraction (p : NumeralPattern) (digits : Text) : Text :=
  (dropZeros (digits.length - p.minFraction) digits.reverse).reverse

/-- The whole digits that are written: a lone zero may be missing before a fraction. -/
def shownWhole (p : NumeralPattern) (digits fraction : Text) : Text :=
  if digits = ['0'] ∧ p.minWhole = 0 ∧ fraction ≠ [] then []
  else List.replicate (p.minWhole - digits.length) '0' ++ digits

/-- The digits with the separators of the pattern. -/
def grouped (p : NumeralPattern) (digits : Text) : Text :=
  match p.grouping with
  | some size => if 0 < size then groupDigits size digits else digits
  | none => digits

/-- The numeral of a finite value; the sign is written unless all digits are zeros. -/
def renderFinite (negative : Bool) (m : Binary64.Magnitude) (p : NumeralPattern) : Text :=
  let d := m.toPlaces p.maxFraction
  let fraction := shownFraction p d.fractionDigits
  let sign := if negative ∧ d.units ≠ 0 then ['-'] else []
  let point := if fraction = [] then [] else '.' :: fraction
  sign ++ grouped p (shownWhole p d.wholeDigits fraction) ++ point

/-- The numeral of a value. -/
def renderDecimal (v : Binary64) (p : NumeralPattern) : Except NumeralError Text :=
  match v with
  | .finite negative m => .ok (renderFinite negative m p)
  | v => .error (.nonFinite v)

/-! ## Reading -/

/-- The digits at the start, with single commas between digits if digits are grouped. -/
def wholePart (commas : Bool) : Text → Text
  | [] => []
  | c :: rest =>
    if Text.isDecimalDigit c then c :: wholePart commas rest
    else if commas && c == ',' && rest.head?.any Text.isDecimalDigit then
      c :: wholePart commas rest
    else []

/-- The sign of a numeral at the start, if there is one. -/
def signPart : Text → Text
  | '-' :: _ => ['-']
  | _ => []

/-- A point with digits behind it. -/
def fractionPart : Text → Text
  | '.' :: rest =>
    let digits := rest.takeWhile Text.isDecimalDigit
    if digits = [] then [] else '.' :: digits
  | _ => []

/-- The sign, whole part and fraction part of the numeral at the start of a text. -/
def numeralParts? (t : Text) (p : NumeralPattern) : Option (Text × Text × Text) :=
  let sign := signPart t
  let body := t.drop sign.length
  if body.head?.any Text.isDecimalDigit then
    let whole := wholePart p.grouping.isSome body
    let fraction := if p.keepsFraction then fractionPart (body.drop whole.length) else []
    some (sign, whole, fraction)
  else none

/-- The numeral at the start of a text: its value, if it has ASCII digits only, and its length. -/
def readDecimal (t : Text) (p : NumeralPattern) : Option (Binary64 × Nat) :=
  match numeralParts? t p with
  | none => none
  | some (sign, whole, fraction) =>
    let wholeDigits := whole.filter (· ≠ ',')
    let fractionDigits := fraction.drop 1
    if (wholeDigits ++ fractionDigits).all Char.isDigit then
      some (Decimal.nearest (sign ≠ []) (.ofDigits wholeDigits fractionDigits),
        Text.utf8Size (sign ++ whole ++ fraction))
    else none

/-- Decimal numerals with `,` between groups and `.` as the point. -/
def decimal : NumeralSystem := ⟨renderDecimal, readDecimal⟩

end Spellout.NumeralSystem
