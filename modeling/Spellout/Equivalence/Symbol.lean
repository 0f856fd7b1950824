/-
  Texts that count as equal, and folding.

  For lenient reading a description declares groups of texts that stand for one another.  Text is
  folded into symbols: at each place the longest declared text, and else one character in lower
  case.  Two texts match if their symbols have the same keys.

  Blanks and hyphens are ignorable: they may be left out or put in.  A group is ignorable if one of
  its members consists of such characters.

  * `Equivalences` are the declared groups;
  * `Equivalences.fold` folds a text, `Symbol.exact` is the folding that keeps all distinctions;
  * `Equivalences.longest?` is the longest declared text at a place.
-/
import Spellout.Text.Basic
import Spellout.Text.Blank
import Spellout.Text.Lowercase

namespace Spellout

/-- What two symbols must share to match. -/
inductive SymbolKey where
  /-- A text of the group declared at this place. -/
  | group (index : Nat)
  /-- A character that is not part of a declared text. -/
  | char (c : Char)
deriving DecidableEq, Repr

/-- A stretch of text that matches as a whole. -/
structure Symbol where
  key : SymbolKey
  text : Text
  ignorable : Bool
deriving DecidableEq, Repr

/-- Declared groups of texts, in the order of their declaration. -/
structure Equivalences where
  groups : List (List Text)
deriving DecidableEq, Repr

/-- No texts count as equal. -/
def Equivalences.none : Equivalences := ⟨[]⟩

namespace Symbol

/-- A blank or a hyphen. -/
def isIgnorable (c : Char) : Bool := Text.isBlank c || c == '-'

/-- One symbol for each character, none ignorable. -/
def exact (t : Text) : List Symbol := t.map fun c => ⟨.char c, [c], false⟩

end Symbol

namespace Equivalences

/-- Every declared text with the place of its group. -/
def members (e : Equivalences) : List (Text × Nat) :=
  e.groups.zipIdx.flatMap fun (texts, index) => texts.map fun t => (t, index)

/-- A group is ignorable if a member consists of ignorable characters. -/
def groupIgnorable (e : Equivalences) (index : Nat) : Bool :=
  (e.groups[index]?.getD []).any fun t => t.all Symbol.isIgnorable

/-- The longest member that `t` starts with, the one declared first of two equal ones. -/
def longest? (t : Text) : List (Text × Nat) → Option (Text × Nat)
  | [] => .none
  | m :: rest =>
    if m.1.isPrefixOf t then
      match longest? t rest with
      | some n => if m.1.length < n.1.length then some n else some m
      | .none => some m
    else longest? t rest

/-- The symbol at the start of `c :: rest`. -/
def symbolAt (e : Equivalences) (members : List (Text × Nat)) (c : Char) (rest : Text) : Symbol :=
  match longest? (c :: rest) members with
  | some (t, index) => ⟨.group index, t, e.groupIgnorable index⟩
  | .none => ⟨.char (Text.toLower c), [c], Symbol.isIgnorable c⟩

/-- The symbols behind `skip` characters, which belong to the symbol before. -/
def foldFrom (e : Equivalences) (members : List (Text × Nat)) : Nat → Text → List Symbol
  | _, [] => []
  | skip + 1, _ :: rest => e.foldFrom members skip rest
  | 0, c :: rest =>
    let s := e.symbolAt members c rest
    s :: e.foldFrom members (s.text.length - 1) rest

/-- The symbols of a text. -/
def fold (e : Equivalences) (t : Text) : List Symbol := e.foldFrom e.members 0 t

end Equivalences
end Spellout
