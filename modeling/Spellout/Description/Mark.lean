/-
  Characters of a description with their places.

  Comments and the lenient section are overwritten with spaces before rules are read.  A `Mark` is
  a character together with its offset in the description as it was written, so that an error found
  later still points there.

  * `Mark.ofText` marks the characters of a description, and `Mark.text` forgets the offsets again
    (`text_ofText`);
  * `Mark.blanks` overwrites one character, with as many spaces as it has bytes in UTF-8; line
    breaks stay;
  * `Mark.header?` finds the name of a rule set and a colon at the start of marked text.
-/
import Spellout.Rule.Name

namespace Spellout

/-- A character and its offset in the description. -/
structure Mark where
  char : Char
  offset : Nat
deriving DecidableEq, Repr

namespace Mark

/-- Characters marked from an offset on. -/
def ofTextFrom : Nat → Text → List Mark
  | _, [] => []
  | n, c :: t => ⟨c, n⟩ :: ofTextFrom (n + 1) t

/-- The characters of a description with their offsets. -/
def ofText (t : Text) : List Mark := ofTextFrom 0 t

/-- The characters alone. -/
def text (ms : List Mark) : Text := ms.map Mark.char

@[simp] theorem text_ofText (t : Text) : text (ofText t) = t := by
  suffices ∀ n, text (ofTextFrom n t) = t from this 0
  induction t with
  | nil => intro n; rfl
  | cons c t ih =>
    intro n
    simp only [text] at ih
    simp [ofTextFrom, text, ih]

/-- The character is blank. -/
def isBlank (m : Mark) : Bool := Text.isBlank m.char

/-- The character ends a line. -/
def isLineBreak (m : Mark) : Bool := m.char == '\n' || m.char == '\r'

/-- The spaces that take the place of a character; a line break stays. -/
def blanks (m : Mark) : List Mark :=
  if m.isLineBreak then [m] else List.replicate m.char.utf8Size { m with char := ' ' }

/-- The marks without blanks at the start. -/
def trimStart (ms : List Mark) : List Mark := ms.dropWhile isBlank

/-- The offset of the first mark, or the given one if there is none. -/
def offsetOr (ms : List Mark) (default : Nat) : Nat := (ms.head?.map Mark.offset).getD default

/-! ## Headers -/

/-- What stands behind blanks and a colon. -/
def afterColon? (ms : List Mark) : Option (List Mark) :=
  match trimStart ms with
  | m :: rest => if m.char = ':' then some rest else none
  | [] => none

/-- A header at the start: the name of a rule set, and what stands behind its colon. -/
def header? (ms : List Mark) : Option (Text × List Mark) :=
  let sign := SetName.sign (text (ms.take 2))
  let letters := (ms.drop sign.length).takeWhile fun m => SetName.isNameChar m.char
  let name := sign ++ text letters
  if SetName.isName name then
    (afterColon? (ms.drop name.length)).map fun rest => (name, rest)
  else none

end Mark
end Spellout
