/-
  Rule keys: what stands before the colon of a rule.

  A special rule has one of four reserved keys.  Any other key is a base value, the least value the
  rule is for, with a radix behind a slash if it is not 10, and one `>` for each power of the radix
  that is taken away from the divisor.  Commas in numbers are decoration.

  * `Key.ofText?` reads a key, `Key.text` writes it;
  * `Key.divisor` is the power of the radix that splits a value into quotient and remainder.
-/
import Spellout.Number.Decimal

namespace Spellout

/-- The rules that are chosen by the shape of a value and not by its size. -/
inductive SpecialForm where
  /-- `-x`: values below zero. -/
  | negative
  /-- `x.x`: values with a fraction. -/
  | improper
  /-- `0.x`: values between zero and one. -/
  | proper
  /-- `x.0`: all values not below zero that no other special rule takes. -/
  | whole
deriving DecidableEq, Repr

/-- What stands before the colon of a rule. -/
inductive Key where
  /-- A reserved key. -/
  | special (form : SpecialForm)
  /-- A base value, its radix, and the number of `>` marks. -/
  | numeric (base radix marks : Nat)
deriving DecidableEq, Repr

namespace Key

/-- The largest base value: numbers are those of signed words of 64 bits. -/
def maxBase : Nat := 2 ^ 63 - 1

/-- The largest radix, that of an unsigned word of 32 bits. -/
def maxRadix : Nat := 2 ^ 32 - 1

/-- The base value, zero for the reserved keys. -/
def base : Key → Nat
  | .special _ => 0
  | .numeric base _ _ => base

/-- The radix, 10 for the reserved keys. -/
def radix : Key → Nat
  | .special _ => 10
  | .numeric _ radix _ => radix

/-! ## Reading -/

/-- A digit or a decorative comma. -/
def isNumberChar (c : Char) : Bool := c.isDigit || c == ','

/-- The number written by digits and commas. -/
def numberOf (t : Text) : Nat := Decimal.numberOfDigits (t.filter (· ≠ ','))

/-- A number at the start of a text, which starts with a digit, and the text behind it. -/
def number? (t : Text) : Option (Nat × Text) :=
  if t.head?.any Char.isDigit then
    some (numberOf (t.takeWhile isNumberChar), t.dropWhile isNumberChar)
  else none

/-- The radix behind a base value, 10 if none is written, and the text behind it. -/
def radix? : Text → Option (Nat × Text)
  | '/' :: t => (number? t).filter fun r => 2 ≤ r.1 && r.1 ≤ maxRadix
  | t => some (10, t)

/-- The number of marks, counted by a word of 32 bits. -/
def markCount (marks : Text) : Nat := marks.length % 2 ^ 32

/-- Reads a key with a base value. -/
def numeric? (t : Text) : Option Key := do
  let (base, t) ← number? t
  let (radix, marks) ← radix? t
  if base ≤ maxBase ∧ marks.all (· = '>') then
    some (.numeric base radix (markCount marks))
  else none

/-- Reads a key. -/
def ofText? : Text → Option Key
  | ['-', 'x'] => some (.special .negative)
  | ['x', '.', 'x'] => some (.special .improper)
  | ['0', '.', 'x'] => some (.special .proper)
  | ['x', '.', '0'] => some (.special .whole)
  | t => numeric? t

/-! ## Writing -/

/-- The key as it is written in a description, without decoration. -/
def text : Key → Text
  | .special .negative => ['-', 'x']
  | .special .improper => ['x', '.', 'x']
  | .special .proper => ['0', '.', 'x']
  | .special .whole => ['x', '.', '0']
  | .numeric base radix marks =>
    Nat.toDigits 10 base ++ (if radix = 10 then [] else '/' :: Nat.toDigits 10 radix) ++
      List.replicate marks '>'

/-! ## Divisors -/

/-- The largest exponent `e` with `radix ^ e ≤ n`, found within `fuel` divisions. -/
def exponentWithin (radix : Nat) : Nat → Nat → Nat
  | 0, _ => 0
  | fuel + 1, n => if radix ≤ n then exponentWithin radix fuel (n / radix) + 1 else 0

/-- The largest exponent `e` with `radix ^ e ≤ n`, zero if there is none. -/
def exponent (radix n : Nat) : Nat := exponentWithin radix n.log2 n

/-- The power of the radix that splits values into quotient and remainder. -/
def divisor : Key → Nat
  | .special _ => 1
  | .numeric base radix marks => radix ^ (exponent radix base - marks)

end Key
end Spellout
