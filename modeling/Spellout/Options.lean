/-
  What callers may choose.

  * `Context` holds the numeral system, `Options` the limit on nesting and whether reading is
    lenient;
  * `Context.describe` is the text shown for a context, which says nothing of the numeral system.
-/
import Spellout.Numeral.Decimal

namespace Spellout

/-- What values are spelled out and texts read with, besides rules. -/
structure Context where
  numerals : NumeralSystem := .decimal

/-- The text shown for a context. -/
def Context.describe (_ : Context) : Text :=
  "Context \x7b bridge: \"dyn NumeralBridge\" \x7d".toList

/-- How values are spelled out and texts read. -/
structure Options where
  /-- The greatest level of rules inside rules. -/
  maxDepth : Nat := 64
  /-- Reading ignores case, blanks and hyphens, and takes declared texts as equal. -/
  lenient : Bool := false
deriving DecidableEq, Repr

end Spellout
