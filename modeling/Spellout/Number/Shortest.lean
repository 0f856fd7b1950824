/-
  The shortest decimal fraction that reads back as a given binary number.

  The reals that round to a magnitude form an interval around it; its ends belong to it if the
  magnitude is an even multiple of its spacing.  The fractions of one decimal grid (multiples of
  `10 ^ k`, or of `10 ^ -k`) that lie in the interval are nearest to the magnitude at one of its two
  neighbours on that grid.  So the coarsest grid with a neighbour in the interval has the fewest
  digits, and the nearer neighbour is the answer, the larger one of two equally near.

  * `Magnitude.shortest` is that decimal fraction;
  * `Binary64.text` writes a value with it, without an exponent.
-/
import Spellout.Number.Decimal

namespace Spellout.Binary64

namespace Magnitude

/-! ## The interval that rounds to a magnitude -/

/-- The lower end of the interval, in quarters of a step. -/
def lowerEnd (m : Magnitude) : Nat :=
  let s := spacing m.steps
  4 * m.steps - if m.steps = 2 ^ 52 * s && 1 < s then s else 2 * s

/-- The upper end of the interval, in quarters of a step. -/
def upperEnd (m : Magnitude) : Nat := 4 * m.steps + 2 * spacing m.steps

/-- The fraction `a / b` of a step rounds to the magnitude. -/
def admits (m : Magnitude) (a b : Nat) : Bool :=
  if m.steps / spacing m.steps % 2 = 0 then
    m.lowerEnd * b ≤ 4 * a && 4 * a ≤ m.upperEnd * b
  else m.lowerEnd * b < 4 * a && 4 * a < m.upperEnd * b

/-! ## Decimal grids -/

/-- The multiple of `a / b` steps that is in the interval and nearest to the magnitude. -/
def onDecimalGrid? (m : Magnitude) (a b : Nat) : Option Nat :=
  let below := m.steps * b / a
  let lower := m.admits (below * a) b && below ≠ 0
  let upper := m.admits ((below + 1) * a) b
  let nearer := 2 * (m.steps * b) < (2 * below + 1) * a
  if lower && (nearer || !upper) then some below
  else if upper then some (below + 1)
  else none

/-- Grids with `places` decimal places and finer ones, `fuel` of them. -/
def shortestBelowUnit (m : Magnitude) (places : Nat) : Nat → Decimal
  | 0 => ⟨0, 0⟩
  | fuel + 1 =>
    match m.onDecimalGrid? stepsPerUnit (10 ^ places) with
    | some n => ⟨n, places⟩
    | none => m.shortestBelowUnit (places + 1) fuel

/-- Grids of multiples of `10 ^ (power - 1)` and finer ones. -/
def shortestFrom (m : Magnitude) : Nat → Decimal
  | 0 => m.shortestBelowUnit 1 1074
  | power + 1 =>
    match m.onDecimalGrid? (10 ^ power * stepsPerUnit) 1 with
    | some n => ⟨n * 10 ^ power, 0⟩
    | none => m.shortestFrom power

/-- The decimal fraction with the fewest digits that reads back as the magnitude, and of those the
    nearest to it. -/
def shortest (m : Magnitude) : Decimal :=
  if m.steps = 0 then ⟨0, 0⟩ else m.shortestFrom ((Nat.toDigits 10 m.floor).length + 1)

end Magnitude

/-! ## Written values -/

/-- A value with the fewest digits that read back as it, written without an exponent. -/
def text : Binary64 → Text
  | .nan => ['N', 'a', 'N']
  | .infinite negative => (if negative then ['-'] else []) ++ ['i', 'n', 'f']
  | .finite negative m => (if negative then ['-'] else []) ++ m.shortest.text

end Spellout.Binary64
