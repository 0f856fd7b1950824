/-
  Numeral systems: how rules write and read positional numerals.

  A rule may ask for a numeral laid out by a pattern.  The rules know nothing of digits; they hand
  the value to a `NumeralSystem`, which a caller may supply.

  * `NumeralSystem` renders a value and reads a numeral at the start of a text;
  * `NumeralError` says why a value cannot be rendered.
-/
import Spellout.Number.Shortest
import Spellout.Numeral.Pattern

namespace Spellout

/-- Why a value cannot be rendered. -/
inductive NumeralError where
  /-- The value is an infinity or not a number. -/
  | nonFinite (value : Binary64)
  /-- The pattern is malformed, or not one that the system can follow. -/
  | invalidPattern (source : Text)
deriving DecidableEq

/-- The text shown for an error. -/
def NumeralError.message : NumeralError → Text
  | .nonFinite v => "cannot render non-finite value ".toList ++ v.text
  | .invalidPattern source => "invalid numeral pattern `".toList ++ source ++ ['`']

/-- A way to write and read positional numerals. -/
structure NumeralSystem where
  /-- The numeral of a value, laid out by a pattern. -/
  render : Binary64 → NumeralPattern → Except NumeralError Text
  /-- The value of the numeral at the start of a text, and its length in bytes of UTF-8. -/
  read : Text → NumeralPattern → Option (Binary64 × Nat)

/-- Reads a pattern for its own sake. -/
def NumeralPattern.ofText (t : Text) : Except NumeralError NumeralPattern :=
  match ofText? t with
  | some p => .ok p
  | none => .error (.invalidPattern t)

end Spellout
