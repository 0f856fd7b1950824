/-
  Reading a description.

  Comments are overwritten, the lenient section is lifted out, the rest is cut into bodies, and each
  rule set is read in turn.  The first error found in this order is reported.

  * `RuleBook.ofDescription` compiles a description.
-/
import Spellout.Description.Comment
import Spellout.Description.Equivalences
import Spellout.Description.LenientSection
import Spellout.Description.Rule
import Spellout.RuleBook.Basic

namespace Spellout.RuleBook

/-- The rule sets read so far, the last one first, with one more. -/
def addSource (sets : List RuleSet) (source : SetSource) : Except CompileError (List RuleSet) :=
  if sets.any fun s => s.name = source.name then
    .error ⟨⟨.duplicateRuleSet, source.offset⟩, source.name⟩
  else do return (← RuleSet.ofSource source) :: sets

/-- Reads the lenient section, if there is one. -/
def readLenient : Option (List Mark) → Except CompileError Equivalences
  | some body => Equivalences.ofMarks body
  | none => .ok .none

/-- The bodies of a description, grouped under headers, and its lenient section. -/
def sources (description : Text) : List SetSource × Option (List Mark) :=
  let (rules, lenient) := Mark.liftLenientSection (Mark.blankComments (Mark.ofText description))
  (SetSource.ofBodies (Body.ofMarks rules description.length), lenient)

/-- Compiles a description. -/
def ofDescription (description : Text) : Except CompileError RuleBook := do
  let (sources, lenient) := sources description
  let sets ← sources.foldlM addSource []
  return ⟨sets.reverse, ← readLenient lenient⟩

end Spellout.RuleBook
