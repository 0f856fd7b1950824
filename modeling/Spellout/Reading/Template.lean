/-
  Matching a template against a stretch of text.

  A template with groups is matched in each of its alternatives, and the longest match counts.  An
  alternative is matched from left to right.

  * a literal must stand where the match has come to;
  * a substitution with a literal behind it is tried with every stretch behind which that literal
    stands, and must read all of it;
  * a substitution with another one behind it is tried with every stretch, shortest first;
  * a substitution at the end reads as much as it can.

  A trial that comes to the end of the text ends the row of trials.

  * `Reader.matchElements` matches an alternative, `Reader.matchTemplate` a template, both given how
    substitutions are read (`SubReader`).
-/
import Spellout.Reading.Composition
import Spellout.Reading.Reader

namespace Spellout

/-- A folded literal or a substitution. -/
inductive Element where
  | literal (l : Literal)
  | substitution (sub : Substitution)
deriving DecidableEq, Repr

/-- How a substitution reads the start of a stretch of text. -/
abbrev SubReader := Substitution → (start stop : Nat) → Search (Option Match)

/-- A place in the text, and the values read on the way there. -/
structure Progress where
  place : Nat
  parts : Parts

/-- The one that has come further, the first of two at the same place. -/
def Progress.further : Option Progress → Option Progress → Option Progress
  | best, none => best
  | none, some p => some p
  | some b, some p => if b.place < p.place then some p else some b

/-- Tries one split after the other until a trial comes to `stop`; the furthest one counts. -/
def Search.overSplits (stop : Nat) (attempt : Nat → Search (Option Progress)) :
    List Nat → Option Progress → Search (Option Progress)
  | [], best => .done best
  | split :: rest, best => do
    let best := Progress.further best (← attempt split)
    if best.any fun p => p.place = stop then .done best else overSplits stop attempt rest best

namespace Reader

/-- A piece of a template with its literal folded. -/
def element (r : Reader) : Piece → Element
  | .literal t => .literal (r.foldLiteral t)
  | .substitution sub => .substitution sub

/-- A match covers its stretch, but for ignorable symbols at the end. -/
def covers (r : Reader) (m : Match) (stop : Nat) : Bool :=
  m.stop = stop ||
    r.lenient && m.stop < stop && (List.range' m.stop (stop - m.stop)).all r.ignorableAt

/-- The value of a match that covers its stretch. -/
def covering? (r : Reader) (stop : Nat) (m : Option Match) : Option Binary64 :=
  (m.filter fun m => r.covers m stop).map Match.value

/-- The elements start with something that may stand at a place: any literal must stand there. -/
def mayStart (r : Reader) (stop : Nat) (elements : List Element) (place : Nat) : Bool :=
  match elements with
  | .literal l :: _ => (r.matchLiteral? l place stop).isSome
  | _ => true

/-- Matches a sequence of elements from `place` on. -/
def matchElements (r : Reader) (read : SubReader) (stop : Nat) :
    List Element → Nat → Parts → Search (Option Progress)
  | [], place, parts => .done (some ⟨place, parts⟩)
  | .literal l :: rest, place, parts =>
    match r.matchLiteral? l place stop with
    | some next => r.matchElements read stop rest next parts
    | none => .done none
  | [.substitution sub], place, parts => do
    return (← read sub place stop).map fun m => ⟨m.stop, parts.add sub m.value⟩
  | .substitution sub :: rest, place, parts =>
    Search.overSplits stop
      (fun split =>
        if r.mayStart stop rest split then do
          match r.covering? split (← read sub place split) with
          | some v => r.matchElements read stop rest split (parts.add sub v)
          | none => .done none
        else .done none)
      (List.range' place (stop + 1 - place)) none

/-- The longest match of a template at the start of a stretch. -/
def matchTemplate (r : Reader) (read : SubReader) (value : Parts → Binary64) (t : Template)
    (start stop : Nat) : Search (Option Match) :=
  Search.longest
    (fun pieces => do
      return (← r.matchElements read stop (pieces.map r.element) start {}).map
        fun p => ⟨value p.parts, p.place⟩)
    t.alternatives none

end Reader
end Spellout
