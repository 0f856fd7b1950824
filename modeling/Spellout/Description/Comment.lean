/-
  Comments in a description.

  A comment starts with `//` at the start of a line or behind a blank, so that `1/2` and `http://`
  inside a rule are left alone, and goes on to the end of the line.  It is overwritten with spaces.

  * `blankComments` does so.
-/
import Spellout.Description.Mark

namespace Spellout.Mark

/-- Where a character stands as far as comments are concerned. -/
inductive CommentState where
  /-- At the start of a line or behind a blank, where a comment may start. -/
  | open
  /-- Behind any other character. -/
  | closed
  /-- Inside a comment. -/
  | inside

/-- The state behind a character that is not in a comment. -/
def stateAfter (m : Mark) : CommentState := if m.isBlank then .open else .closed

/-- Overwrites the comments of marked text that is entered in a given state. -/
def blankCommentsFrom : CommentState → List Mark → List Mark
  | _, [] => []
  | .inside, m :: rest =>
    m.blanks ++ blankCommentsFrom (if m.char = '\n' then .open else .inside) rest
  | .open, m :: rest =>
    if m.char = '/' ∧ (rest.head?.map Mark.char) = some '/' then
      m.blanks ++ blankCommentsFrom .inside rest
    else m :: blankCommentsFrom m.stateAfter rest
  | .closed, m :: rest => m :: blankCommentsFrom m.stateAfter rest

/-- Overwrites the comments of a description with spaces. -/
def blankComments (ms : List Mark) : List Mark := blankCommentsFrom .open ms

end Spellout.Mark
