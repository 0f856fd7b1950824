/-
  Reading the lenient section.

  The section is a sequence of items.  An item is quoted, with a doubled apostrophe for one of its
  own, or a run of other characters.  `&` opens a group; commas, semicolons, `=` and `<` between
  items mean nothing.  Items before any `&` form a group of their own; empty items do not count.

  * `EquivalenceDraft` is a section that is being read, `feed` adds one character to it, `finish`
    ends it;
  * `Equivalences.ofMarks` reads a whole section.
-/
import Spellout.Description.Error
import Spellout.Description.Mark
import Spellout.Equivalence.Symbol

namespace Spellout

/-- An item that is being read; its text has the last character first. -/
inductive OpenItem where
  | none
  /-- A quotation: the offset of its apostrophe. -/
  | quoted (offset : Nat) (text : Text)
  /-- A quotation with an apostrophe that ends it unless another one follows. -/
  | quoteEnd (offset : Nat) (text : Text)
  /-- A run of characters. -/
  | bare (text : Text)
deriving DecidableEq, Repr

/-- A lenient section that is being read; lists hold the last item first. -/
structure EquivalenceDraft where
  groups : List (List Text) := []
  item : OpenItem := .none

namespace EquivalenceDraft

/-- A character that stands between items. -/
def isSeparator (c : Char) : Bool := [',', ';', '=', '<'].contains c

/-- A character that ends a run. -/
def endsRun (c : Char) : Bool := Text.isBlank c || isSeparator c || c == '&' || c == '\''

/-- The draft with one more item, whose text has the last character first. -/
def push (d : EquivalenceDraft) (t : Text) : EquivalenceDraft :=
  if t = [] then { d with item := .none }
  else match d.groups with
    | [] => ⟨[[t.reverse]], .none⟩
    | g :: rest => ⟨(t.reverse :: g) :: rest, .none⟩

/-- Adds a character between items. -/
def feedBetween (d : EquivalenceDraft) (m : Mark) : EquivalenceDraft :=
  if m.isBlank || isSeparator m.char then d
  else if m.char = '&' then { d with groups := [] :: d.groups }
  else if m.char = '\'' then { d with item := .quoted m.offset [] }
  else { d with item := .bare [m.char] }

/-- Adds a character. -/
def feed (d : EquivalenceDraft) (m : Mark) : EquivalenceDraft :=
  match d.item with
  | .none => d.feedBetween m
  | .quoted offset t =>
    if m.char = '\'' then { d with item := .quoteEnd offset t }
    else { d with item := .quoted offset (m.char :: t) }
  | .quoteEnd offset t =>
    if m.char = '\'' then { d with item := .quoted offset ('\'' :: t) }
    else (d.push t).feedBetween m
  | .bare t =>
    if endsRun m.char then (d.push t).feedBetween m
    else { d with item := .bare (m.char :: t) }

/-- The groups of a draft, in the order of declaration. -/
def equivalences (d : EquivalenceDraft) : Equivalences := ⟨(d.groups.map List.reverse).reverse⟩

/-- The groups of a draft to which nothing is added any more. -/
def finish (d : EquivalenceDraft) : Except Flaw Equivalences :=
  match d.item with
  | .none => .ok d.equivalences
  | .quoted offset _ => .error ⟨.unterminated '\'', offset⟩
  | .quoteEnd _ t | .bare t => .ok (d.push t).equivalences

end EquivalenceDraft

/-- Reads a lenient section. -/
def Equivalences.ofMarks (ms : List Mark) : Except CompileError Equivalences :=
  (ms.foldl EquivalenceDraft.feed {}).finish.mapError (·.inSet SetName.lenient)

end Spellout
