/-
  A text that is being read, as a sequence of symbols.

  * `Reader` holds the symbols with all that reading depends on, `Reader.ofText` folds a text;
  * `Literal` is a literal of a rule, folded the same way, and `Reader.matchLiteral?` matches one;
  * `Reader.readNumeral?` reads a numeral.

  In lenient mode ignorable symbols may stand before any symbol of a literal.  A literal of nothing
  but such symbols matches one or more of them.
-/
import Spellout.Reading.Search
import Spellout.RuleBook.Basic

namespace Spellout

/-- All that reading a text depends on. -/
structure Reader where
  book : RuleBook
  numerals : NumeralSystem
  lenient : Bool
  limit : Nat
  symbols : Array Symbol

/-- A folded literal: the keys of its symbols that cannot be ignored. -/
structure Literal where
  keys : List SymbolKey
  /-- There are symbols, and all can be ignored. -/
  blank : Bool
deriving DecidableEq, Repr

namespace Reader

/-! ## Symbols -/

/-- The symbols of a text, folded if reading is lenient. -/
def symbolsOf (book : RuleBook) (lenient : Bool) (t : Text) : List Symbol :=
  if lenient then book.equivalences.fold t else Symbol.exact t

/-- A reader of a text. -/
def ofText (book : RuleBook) (numerals : NumeralSystem) (lenient : Bool) (limit : Nat) (t : Text) :
    Reader :=
  ⟨book, numerals, lenient, limit, (symbolsOf book lenient t).toArray⟩

/-- The symbol at a place can be ignored. -/
def ignorableAt (r : Reader) (i : Nat) : Bool := r.symbols[i]?.any Symbol.ignorable

/-- The symbol at a place has this key. -/
def hasKey (r : Reader) (i : Nat) (k : SymbolKey) : Bool := r.symbols[i]?.any fun s => s.key = k

/-- The text of the symbol at a place. -/
def textAt (r : Reader) (i : Nat) : Text := (r.symbols[i]?.map Symbol.text).getD []

/-- The first of the places from `i` on, `n` at most, where the symbol cannot be ignored. -/
def skip (r : Reader) : Nat → Nat → Nat
  | 0, i => i
  | n + 1, i => if r.ignorableAt i then r.skip n (i + 1) else i

/-- The number of bytes in UTF-8 of the text before a place. -/
def bytesBefore (r : Reader) (i : Nat) : Nat :=
  Text.utf8Size ((r.symbols.toList.take i).flatMap Symbol.text)

/-! ## Literals -/

/-- Folds a literal. -/
def foldLiteral (r : Reader) (t : Text) : Literal :=
  let symbols := symbolsOf r.book r.lenient t
  ⟨(symbols.filter fun s => !s.ignorable).map Symbol.key,
    symbols ≠ [] && symbols.all Symbol.ignorable⟩

/-- The place behind the symbols with the given keys, from `i` on and before `stop`. -/
def matchKeys? (r : Reader) (stop : Nat) : List SymbolKey → Nat → Option Nat
  | [], i => some i
  | k :: keys, i =>
    let i := if r.lenient then r.skip (stop - i) i else i
    if i < stop && r.hasKey i k then r.matchKeys? stop keys (i + 1) else none

/-- The place behind a literal that stands at `i`, before `stop`. -/
def matchLiteral? (r : Reader) (l : Literal) (i stop : Nat) : Option Nat :=
  if l.keys = [] ∧ l.blank then
    let j := r.skip (stop - i) i
    if i < j then some j else none
  else r.matchKeys? stop l.keys i

/-! ## Numerals -/

/-- The places of a stretch whose symbols belong to a numeral. -/
def numeralPlaces (r : Reader) (start stop : Nat) : List Nat :=
  (List.range' start (stop - start)).filter fun i => !(r.lenient && r.ignorableAt i)

/-- The place behind the last of the given places whose texts fit into `bytes`. -/
def placeBehind? (r : Reader) : Nat → List Nat → Option Nat
  | _, [] => none
  | bytes, i :: rest =>
    let size := Text.utf8Size (r.textAt i)
    if size ≤ bytes then some ((r.placeBehind? (bytes - size) rest).getD (i + 1)) else none

/-- The numeral at the start of a stretch. -/
def readNumeral? (r : Reader) (p : NumeralPattern) (start stop : Nat) : Option Match :=
  let places := r.numeralPlaces start stop
  match r.numerals.read (places.flatMap r.textAt) p with
  | some (value, bytes) => (r.placeBehind? bytes places).map fun stop => ⟨value, stop⟩
  | none => none

end Reader
end Spellout
