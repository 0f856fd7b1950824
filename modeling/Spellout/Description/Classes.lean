/-
  Classes of rules.

  Each special form is a class of its own, and all rules with base values make up one more.  While a
  rule set is read, the classes of its rules are noted; a special form is refused if its class has
  been noted before.

  * `RuleBody.ruleClass` is the class of a rule;
  * `DeclaredSet` is a rule set that is being read, with the classes noted so far;
  * `DeclaredSet.ofSource` reads a whole set and its classes.
-/
import Spellout.Description.Rule

namespace Spellout

/-- A kind of rules that a set may declare. -/
inductive RuleClass where
  | special (form : SpecialForm)
  /-- The rules with base values. -/
  | normal
deriving DecidableEq, Repr

/-- The class of a rule. -/
def RuleBody.ruleClass (body : RuleBody) : RuleClass :=
  match body.key with
  | some (.special form) => .special form
  | some (.numeric ..) | none => .normal

/-- A rule set that is being read, and the classes of its rules, the last one first. -/
structure DeclaredSet where
  set : RuleSet
  classes : List RuleClass := []

namespace DeclaredSet

/-- The set with one more rule, whose class is noted. -/
def add (d : DeclaredSet) (body : RuleBody) : Except CompileFault DeclaredSet :=
  match body.key with
  | some (.special form) =>
    if body.ruleClass ∈ d.classes then .error (.duplicateRule (Key.special form).text)
    else .ok ⟨d.set.withSpecial form body.template, body.ruleClass :: d.classes⟩
  | some (.numeric ..) | none => do return ⟨← d.set.add body, body.ruleClass :: d.classes⟩

/-- The set with the rule of a body. -/
def addBody (d : DeclaredSet) (b : Body) : Except Flaw DeclaredSet := do
  let body ← RuleBody.ofBody b
  (d.add body).mapError (⟨·, b.offset⟩)

/-- Reads a rule set and the classes of its rules. -/
def ofSource (source : SetSource) : Except CompileError DeclaredSet :=
  (source.bodies.foldlM addBody { set := { name := source.name } }).mapError (·.inSet source.name)

end DeclaredSet
end Spellout
