/-
  The lenient section of a description.

  The header `%%lenient-parse:` opens a section that declares which texts count as equal.  It goes
  on to the next header of any kind.  A header counts only at the start of the text, behind a
  semicolon or behind a blank.  The section is lifted out of the description, where spaces take its
  place.

  * `splitAtHeader` finds the first place where a header is;
  * `liftLenientSection` is the description without the section, and the body of the section.
-/
import Spellout.Description.Mark

namespace Spellout.Mark

/-- The header of the lenient section at the start: what stands behind its colon. -/
def lenientHeader? (ms : List Mark) : Option (List Mark) :=
  let length := SetName.lenient.length
  if text (ms.take length) = SetName.lenient then afterColon? (ms.drop length) else none

/-- A header may start behind this character. -/
def mayPrecedeHeader (m : Mark) : Bool := m.char == ';' || m.isBlank

/-- The marks before the first place that satisfies `header`, and the marks from there on.  Only
    places behind a character that may precede a header count, and the first one if `fresh`. -/
def splitAtHeader (header : List Mark → Bool) : Bool → List Mark → List Mark × List Mark
  | _, [] => ([], [])
  | fresh, m :: rest =>
    if fresh && header (m :: rest) then ([], m :: rest)
    else
      let (before, after) := splitAtHeader header m.mayPrecedeHeader rest
      (m :: before, after)

/-- The description with spaces in place of the lenient section, and the body of the section. -/
def liftLenientSection (ms : List Mark) : List Mark × Option (List Mark) :=
  let (before, found) := splitAtHeader (fun ms => (lenientHeader? ms).isSome) true ms
  match lenientHeader? found with
  | none => (ms, none)
  | some body =>
    let (inner, after) := splitAtHeader (fun ms => (header? ms).isSome) true body
    let covered := found.take (found.length - after.length)
    (before ++ covered.flatMap blanks ++ after, some inner)

end Spellout.Mark
