/-
  What can be wrong with a rule description.

  Every error names the rule set that was being read and the place in the description, counted in
  characters.

  * `Flaw` is a fault and an offset, `CompileError` a flaw with its rule set;
  * `CompileError.message` is the text shown for it.
-/
import Spellout.Text.Basic

namespace Spellout

/-- What is wrong with a description. -/
inductive CompileFault where
  /-- A key is neither reserved nor a number. -/
  | malformedKey (key : Text)
  /-- A `[` without its `]`, or a `]` without its `[`. -/
  | unbalancedBracket
  /-- A substitution, or a quoted item of the lenient section, that is not closed. -/
  | unterminated (delimiter : Char)
  /-- A group inside a group. -/
  | nestedOptional
  /-- A substitution whose target is neither a rule set nor a numeral pattern. -/
  | malformedSubstitution (token : Text)
  /-- A second rule with the same key. -/
  | duplicateRule (key : Text)
  /-- A base value below that of the rule before. -/
  | baseOutOfOrder (base : Nat)
  /-- A second rule set with the same name. -/
  | duplicateRuleSet
deriving DecidableEq, Repr

/-- A fault and the offset of the faulty characters. -/
structure Flaw where
  fault : CompileFault
  offset : Nat
deriving DecidableEq, Repr

/-- A flaw and the rule set that was being read. -/
structure CompileError extends Flaw where
  ruleSet : Text
deriving DecidableEq, Repr

/-- The error of a flaw found in a rule set. -/
def Flaw.inSet (f : Flaw) (ruleSet : Text) : CompileError := { f with ruleSet }

namespace CompileError

/-- The text shown for an error. -/
def message (e : CompileError) : Text :=
  let place := " in ".toList ++ e.ruleSet ++ " at offset ".toList ++ Nat.toDigits 10 e.offset
  match e.fault with
  | .malformedKey key => "malformed rule key `".toList ++ key ++ ['`'] ++ place
  | .unbalancedBracket => "unbalanced optional bracket".toList ++ place
  | .unterminated d => "unterminated `".toList ++ d :: "` substitution".toList ++ place
  | .nestedOptional => "nested optional group".toList ++ place
  | .malformedSubstitution token => "malformed substitution `".toList ++ token ++ ['`'] ++ place
  | .duplicateRule key => "duplicate rule `".toList ++ key ++ ['`'] ++ place
  | .baseOutOfOrder base =>
    "base value ".toList ++ Nat.toDigits 10 base ++ place ++
      " is lower than the preceding rule".toList
  | .duplicateRuleSet =>
    "rule set ".toList ++ e.ruleSet ++ " is declared twice (second declaration at offset ".toList ++
      Nat.toDigits 10 e.offset ++ [')']

end CompileError
end Spellout
