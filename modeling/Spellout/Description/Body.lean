/-
  Rule bodies of a description and the rule sets they belong to.

  Every semicolon ends a body.  Blanks before a body go; blanks behind it go only if there is a line
  break among them, so that spaces at the end of a rule can be kept.  An empty body between two
  semicolons counts, an empty one at the end does not.

  A body that starts with a header opens a rule set.  Bodies before the first header belong to a set
  without a name of its own.

  * `Body` is a body with its place, `Body.ofMarks` cuts marked text into bodies;
  * `SetSource` is a header with its bodies, `SetSource.ofBodies` groups bodies under headers.
-/
import Spellout.Description.Mark

namespace Spellout

/-- A rule body and the offset where it starts. -/
structure Body where
  marks : List Mark
  offset : Nat
deriving DecidableEq, Repr

namespace Body

/-- The stretches between semicolons, each with the offset of what ends it. -/
def stretches (endOffset : Nat) : List Mark → List (List Mark × Nat)
  | [] => [([], endOffset)]
  | m :: rest =>
    if m.char = ';' then ([], m.offset) :: stretches endOffset rest
    else match stretches endOffset rest with
      | (ms, stop) :: more => (m :: ms, stop) :: more
      | [] => [([m], endOffset)]

/-- The marks without the blanks at the end, if a line break is among those. -/
def trimEnd (ms : List Mark) : List Mark :=
  let tail := ms.reverse.takeWhile Mark.isBlank
  if tail.any Mark.isLineBreak then (ms.reverse.dropWhile Mark.isBlank).reverse else ms

/-- The body in a stretch that ends at an offset. -/
def ofStretch (stretch : List Mark × Nat) : Body :=
  let ms := Mark.trimStart stretch.1
  ⟨trimEnd ms, Mark.offsetOr ms stretch.2⟩

/-- The bodies of marked text that ends at an offset. -/
def ofMarks (ms : List Mark) (endOffset : Nat) : List Body :=
  let bodies := (stretches endOffset ms).map ofStretch
  if (bodies.getLast?.map Body.marks) = some [] then bodies.dropLast else bodies

/-- The name in the header that a body starts with, and the body behind it. -/
def header? (b : Body) : Option (Text × Body) :=
  (Mark.header? b.marks).map fun (name, rest) =>
    let ms := Mark.trimStart rest
    (name, ⟨ms, Mark.offsetOr ms b.offset⟩)

end Body

/-- The name of a rule set, the offset of its header, and its bodies. -/
structure SetSource where
  name : Text
  offset : Nat
  bodies : List Body
deriving DecidableEq, Repr

namespace SetSource

/-- The bodies before the first header, and the rule sets behind it. -/
def group : List Body → List Body × List SetSource
  | [] => ([], [])
  | b :: rest =>
    let (loose, sets) := group rest
    match b.header? with
    | some (name, first) => ([], ⟨name, b.offset, first :: loose⟩ :: sets)
    | none => (b :: loose, sets)

/-- The rule sets of a description; bodies without a header form the first one. -/
def ofBodies (bodies : List Body) : List SetSource :=
  match group bodies with
  | ([], sets) => sets
  | (b :: loose, sets) => ⟨SetName.unnamed, b.offset, b :: loose⟩ :: sets

end SetSource
end Spellout
