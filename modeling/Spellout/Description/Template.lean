/-
  Reading a template.

  A template is read character by character.  `[` and `]` open and close a group.  `<`, `>` and `=`
  open a substitution, which goes on to the next character of the same kind; what stands between
  is its target, and nothing stands for the owner of the rule.  A third `>` behind `>>` makes it
  `>>>`.  All else is literal text.

  * `TemplateDraft` is a template that is being read, `feed` adds one character to it, `finish` ends
    it;
  * `Template.ofMarks` reads a whole template.
-/
import Spellout.Description.Error
import Spellout.Description.Mark
import Spellout.Rule.Template

namespace Spellout

/-- The target of a substitution, as written between its delimiters. -/
def Target.ofText? (t : Text) : Option Target :=
  if t = [] then some .owner
  else if SetName.isName t then some (.ruleSet t)
  else (NumeralPattern.ofText? t).map .numeral

/-- A substitution that has been begun. -/
inductive OpenSubstitution where
  /-- No substitution is open. -/
  | none
  /-- The delimiter, its offset, and the target so far, last character first. -/
  | target (delimiter : Char) (offset : Nat) (text : Text)
  /-- A `>>`, which a third `>` would make a `>>>`. -/
  | doubled
deriving DecidableEq, Repr

/-- A template that is being read; lists hold the last item first. -/
structure TemplateDraft where
  segments : List Segment := []
  /-- The open group: the offset of its bracket, and its pieces. -/
  group : Option (Nat × List Piece) := none
  /-- Literal text since the last item. -/
  literal : Text := []
  opened : OpenSubstitution := .none

namespace TemplateDraft

/-- The draft with one more piece. -/
def push (d : TemplateDraft) (p : Piece) : TemplateDraft :=
  match d.group with
  | some (offset, pieces) => { d with group := some (offset, p :: pieces) }
  | none => { d with segments := .piece p :: d.segments }

/-- The draft with its literal text as a piece. -/
def flush (d : TemplateDraft) : TemplateDraft :=
  if d.literal = [] then d
  else { d.push (.literal d.literal.reverse) with literal := [] }

/-- The draft with one more substitution, which closes the open one. -/
def substitute (d : TemplateDraft) (sub : Substitution) : TemplateDraft :=
  { d.flush.push (.substitution sub) with opened := .none }

/-- The substitution between a pair of delimiters. -/
def substitution (delimiter : Char) (target : Target) : Substitution :=
  if delimiter = '<' then .quotient target
  else if delimiter = '>' then .remainder target
  else .same target

/-- Closes the open substitution, whose target is complete. -/
def close (d : TemplateDraft) (delimiter : Char) (offset : Nat) (target : Text) :
    Except Flaw TemplateDraft :=
  match Target.ofText? target with
  | some t => .ok (d.substitute (substitution delimiter t))
  | none => .error ⟨.malformedSubstitution (delimiter :: target ++ [delimiter]), offset⟩

/-- Adds a character outside substitutions. -/
def feedPlain (d : TemplateDraft) (m : Mark) : Except Flaw TemplateDraft :=
  if m.char = '[' then
    match d.group with
    | some _ => .error ⟨.nestedOptional, m.offset⟩
    | none => .ok { d.flush with group := some (m.offset, []) }
  else if m.char = ']' then
    match d.flush.group with
    | none => .error ⟨.unbalancedBracket, m.offset⟩
    | some (_, pieces) =>
      let d := d.flush
      .ok { d with group := none, segments := .optional pieces.reverse :: d.segments }
  else if m.char = '<' ∨ m.char = '>' ∨ m.char = '=' then
    .ok { d with opened := .target m.char m.offset [] }
  else .ok { d with literal := m.char :: d.literal }

/-- Adds a character. -/
def feed (d : TemplateDraft) (m : Mark) : Except Flaw TemplateDraft :=
  match d.opened with
  | .none => d.feedPlain m
  | .target delimiter offset t =>
    if m.char ≠ delimiter then .ok { d with opened := .target delimiter offset (m.char :: t) }
    else if delimiter = '>' ∧ t = [] then .ok { d with opened := .doubled }
    else d.close delimiter offset t.reverse
  | .doubled =>
    if m.char = '>' then .ok (d.substitute .forced)
    else (d.substitute (.remainder .owner)).feedPlain m

/-- The template of a draft to which nothing is added any more. -/
def finish (d : TemplateDraft) : Except Flaw Template :=
  match d.opened with
  | .target delimiter offset _ => .error ⟨.unterminated delimiter, offset⟩
  | opened =>
    let d := if opened = .doubled then d.substitute (.remainder .owner) else d
    match d.group with
    | some (offset, _) => .error ⟨.unbalancedBracket, offset⟩
    | none => .ok d.flush.segments.reverse

end TemplateDraft

/-- Reads a template. -/
def Template.ofMarks (ms : List Mark) : Except Flaw Template := do
  (← ms.foldlM TemplateDraft.feed {}).finish

end Spellout
