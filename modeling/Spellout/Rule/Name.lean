/-
  Names of rule sets.

  A name is one or two percent signs and at least one other character; blanks and the characters
  that structure a description are not allowed in it.  Two percent signs make a set private.

  * `SetName.isName` holds of the names, `SetName.isPublic` of those with one percent sign;
  * `SetName.unnamed` and `SetName.lenient` are the names with a meaning of their own.
-/
import Spellout.Text.Blank
import Spellout.Text.Basic

namespace Spellout.SetName

/-- A character that may follow the percent signs. -/
def isNameChar (c : Char) : Bool :=
  !(Text.isBlank c || [':', ';', '%', '<', '>', '=', '[', ']'].contains c)

/-- One or two percent signs at the start. -/
def sign : Text → Text
  | '%' :: '%' :: _ => ['%', '%']
  | '%' :: _ => ['%']
  | _ => []

/-- The whole text is the name of a rule set. -/
def isName (t : Text) : Bool :=
  let rest := t.drop (sign t).length
  sign t ≠ [] && rest ≠ [] && rest.all isNameChar

/-- A name that callers may use. -/
def isPublic (name : Text) : Bool := sign name ≠ ['%', '%']

/-- The name of the set whose rules stand before any header. -/
def unnamed : Text := ['%', 'd', 'e', 'f', 'a', 'u', 'l', 't']

/-- The name in the header of the lenient section. -/
def lenient : Text := "%%lenient-parse".toList

end Spellout.SetName
