/-
  The values that rules work on.

  A value is a natural number, on which division is exact, or a binary number with a fraction or of
  unknown shape.  A rule that is applied to a value has three operands: the value itself, a quotient
  and a remainder.

  * `Operand` is a value, `Operand.ofReal` the operand of a binary number;
  * `wholeOf` is the integral part of a value, as far as rules can divide it;
  * `Application` is a rule with its value, and its operands are
    `Application.value`, `Application.quotient` and `Application.remainder`.
-/
import Spellout.Error
import Spellout.Rule.RuleSet

namespace Spellout

/-! ## Operands -/

/-- A value that a rule works on. -/
inductive Operand where
  /-- A natural number. -/
  | whole (n : Nat)
  /-- A binary number. -/
  | real (v : Binary64)
deriving DecidableEq

namespace Operand

/-- The binary number nearest to the operand. -/
def toBinary64 : Operand → Binary64
  | .whole n => .ofNat n
  | .real v => v

/-- The operand with the other sign, as a binary number. -/
def neg (x : Operand) : Operand := .real x.toBinary64.neg

/-- The operand is zero. -/
def isZero : Operand → Bool
  | .whole n => n = 0
  | .real v => v.isZero

end Operand

/-- Values from here on are too large for rules to divide. -/
def wholeLimit : Nat := 2 ^ 63

/-- The integral part of a value that is not below zero. -/
def wholeOf (v : Binary64) : Except Error Nat :=
  match v with
  | .finite _ m => if m.floor < wholeLimit then .ok m.floor else .error (.outOfRange v)
  | v => .error (.outOfRange v)

/-- The operand of a value that is not below zero: a natural number if the value is integral. -/
def Operand.ofReal (v : Binary64) : Except Error Operand :=
  if v.isIntegral then do return .whole (← wholeOf v) else .ok (.real v)

/-! ## Applications -/

/-- A rule together with the value it is applied to. -/
inductive Application where
  /-- A rule with a base value, the rules below it, and a natural number. -/
  | normal (rule : Rule) (below : List Rule) (n : Nat)
  /-- A rule for values with a fraction, a value, and its integral part. -/
  | fraction (v : Binary64) (whole : Nat)
  /-- A rule for values below zero, and the magnitude of one. -/
  | negative (magnitude : Operand)
  /-- A rule whose base value is a denominator, and the numerator. -/
  | numerator (n : Nat)
deriving DecidableEq

namespace Application

/-- The value itself. -/
def value : Application → Operand
  | .normal _ _ n => .whole n
  | .fraction v _ => .real v
  | .negative m => m
  | .numerator n => .whole n

/-- The quotient by the divisor; the part before the point; the magnitude; the numerator. -/
def quotient : Application → Operand
  | .normal rule _ n => .whole (n / rule.divisor)
  | .fraction _ whole => .whole whole
  | .negative m => m
  | .numerator n => .whole n

/-- The remainder by the divisor; the part behind the point; the magnitude; nothing. -/
def remainder : Application → Operand
  | .normal rule _ n => .whole (n % rule.divisor)
  | .fraction v _ => .real (v.sub v.trunc)
  | .negative m => m
  | .numerator _ => .whole 0

/-- An optional group is written: unless its governing operand is zero; with a numerator, unless
    that is one. -/
def keeps (app : Application) (group : List Piece) : Bool :=
  match app with
  | .numerator n => n ≠ 1
  | app =>
    match Template.governor? group with
    | some (.quotient _) => !app.quotient.isZero
    | some (.same _) => !app.value.isZero
    | some .forced => true
    | some (.remainder _) | none => !app.remainder.isZero

end Application
end Spellout
