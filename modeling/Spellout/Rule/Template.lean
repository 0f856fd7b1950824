/-
  Templates: the text of a rule, with places where other text goes.

  A template is a sequence of literals, substitutions and optional groups.  A group holds literals
  and substitutions only, so that groups are never nested.  A substitution takes an operand of the
  rule (the quotient or the remainder of a division, or the value itself) and sends it to a target:
  the rule set that owns the rule, a rule set of some name, or a numeral pattern.

  * `Template` and its parts are the types;
  * `Template.substitutionCount` counts substitutions, those in groups too;
  * `Template.alternatives` are the flat sequences that arise when each group is kept or dropped;
  * `Template.keeping` is the one that keeps the groups of a given kind.
-/
import Spellout.Numeral.Pattern

namespace Spellout

/-- Where a substitution sends its operand. -/
inductive Target where
  /-- The rule set that owns the rule. -/
  | owner
  /-- The rule set of this name. -/
  | ruleSet (name : Text)
  /-- A numeral laid out by this pattern. -/
  | numeral (pattern : NumeralPattern)
deriving DecidableEq, Repr

/-- A place in a template where an operand of the rule goes. -/
inductive Substitution where
  /-- The quotient: `<<`, `<%name<`, `<#,##0<`. -/
  | quotient (target : Target)
  /-- The remainder: `>>`, `>%name>`, `>#,##0>`. -/
  | remainder (target : Target)
  /-- The remainder by way of the preceding rule: `>>>`. -/
  | forced
  /-- The value itself: `==`, `=%name=`, `=#,##0=`. -/
  | same (target : Target)
deriving DecidableEq, Repr

/-- A literal or a substitution. -/
inductive Piece where
  | literal (text : Text)
  | substitution (sub : Substitution)
deriving DecidableEq, Repr

/-- The substitution of a piece, if it is one. -/
def Piece.substitution? : Piece → Option Substitution
  | .literal _ => none
  | .substitution sub => some sub

/-- A piece of a template, or pieces that may be missing. -/
inductive Segment where
  | piece (p : Piece)
  | optional (pieces : List Piece)
deriving DecidableEq, Repr

/-- The pieces of a segment, if a group is kept. -/
def Segment.pieces : Segment → List Piece
  | .piece p => [p]
  | .optional ps => ps

/-- The text of a rule. -/
abbrev Template := List Segment

namespace Template

/-- The number of substitutions, those in optional groups included. -/
def substitutionCount (t : Template) : Nat :=
  (t.flatMap Segment.pieces).countP fun p => p.substitution?.isSome

/-- The first substitution of a group, which governs whether the group is written. -/
def governor? (group : List Piece) : Option Substitution := group.findSome? Piece.substitution?

/-- The pieces of a template with the groups that satisfy `kept` and without the others. -/
def keeping (kept : List Piece → Bool) (t : Template) : List Piece :=
  t.flatMap fun
    | .piece p => [p]
    | .optional ps => if kept ps then ps else []

/-- Each sequence with the segment behind it, first kept, then dropped if it is a group. -/
def extendAll (alts : List (List Piece)) : Segment → List (List Piece)
  | .piece p => alts.map (· ++ [p])
  | .optional ps => alts.map (· ++ ps) ++ alts

/-- The sequences that arise when each group is kept or dropped: all kept first, all dropped last. -/
def alternatives (t : Template) : List (List Piece) := t.foldl extendAll [[]]

end Template
end Spellout
