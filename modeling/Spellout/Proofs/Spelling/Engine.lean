/-
  The engine on signed words.

  Where values are spelled out in practice, whole numbers are signed words of 64 bits: any of them may
  be below zero, is tested for it, and is divided towards zero.  What the engine does is noted in its
  order, also in a run that fails in the end: the numbers and the values that are handed on, the rules
  that are applied, and the text that is written.

  * `Act` is what the engine does, `Run` a part of a run with all acts so far;
  * `SignedOperand`, `Operands`: the values that the substitutions of a rule are replaced with;
  * `Engine.Call` is what one level of rules asks of the next, `Engine.answer` what is done about it;
  * `Engine.run`, `Engine.format`: whole runs.
-/
import Spellout.Proofs.Number.Exact
import Spellout.Spelling.Expansion

namespace Spellout

/-! ## Acts -/

/-- A rule that is applied: at which level, in which set, with which key, to which value. -/
structure Record where
  depth : Nat
  ruleSet : Text
  key : Key
  value : Binary64
deriving DecidableEq

/-- What the engine does. -/
inductive Act where
  /-- A whole number is taken up to be spelled out. -/
  | whole (n : Int)
  /-- A rule is recorded. -/
  | record (r : Record)
  /-- A value is handed to the numeral system. -/
  | numeral (v : Binary64) (p : NumeralPattern)
  /-- The text of a rule, of a separator or of a numeral is written. -/
  | text (t : Text)
  /-- A minus sign is written that no rule asks for. -/
  | sign
deriving DecidableEq

/-- The text that is written. -/
def Act.written : Act → Text
  | .text t => t
  | .sign => ['-']
  | .whole _ | .record _ | .numeral .. => []

/-- The rule that is recorded. -/
def Act.record? : Act → Option Record
  | .record r => some r
  | .whole _ | .numeral .. | .text _ | .sign => none

/-- A part of a run: all that has been done, and how it ended. -/
structure Run (α : Type) where
  acts : List Act
  result : Except Error α

namespace Run

instance : Monad Run where
  pure a := ⟨[], .ok a⟩
  bind x f :=
    match x.result with
    | .ok a => ⟨x.acts ++ (f a).acts, (f a).result⟩
    | .error e => ⟨x.acts, .error e⟩

/-- One act. -/
def act (a : Act) : Run Unit := ⟨[a], .ok ()⟩

/-- Nothing is done, but there may be an error. -/
def of {α : Type} (x : Except Error α) : Run α := ⟨[], x⟩

/-- The text that has been written. -/
def text {α : Type} (x : Run α) : Text := x.acts.flatMap Act.written

/-- The rules that have been recorded. -/
def records {α : Type} (x : Run α) : List Record := x.acts.filterMap Act.record?

end Run

/-! ## Values -/

/-- The whole number that a value is cut down to. -/
def Binary64.cut : Binary64 → Int
  | .finite s m => signed s m.floor
  | .nan | .infinite _ => 0

/-- The word that a value is cut down to, if it is one. -/
def toWord (v : Binary64) : Except Error Int :=
  if (Binary64.ofNat wholeLimit).neg.lt v ∧ v.lt (.ofNat wholeLimit) then .ok v.cut
  else .error (.outOfRange v)

/-- A value that a rule works on, perhaps below zero. -/
inductive SignedOperand where
  | whole (n : Int)
  | real (v : Binary64)
deriving DecidableEq

namespace SignedOperand

/-- The binary number nearest to the operand. -/
def toBinary64 : SignedOperand → Binary64
  | .whole n => .ofInt n
  | .real v => v

/-- The operand is zero. -/
def isZero : SignedOperand → Bool
  | .whole n => n = 0
  | .real v => v.isZero

end SignedOperand

/-- How a rule came to be applied. -/
inductive Manner where
  /-- For its base value; below it are these rules. -/
  | normal (rule : Rule) (below : List Rule)
  | fraction
  | negative
  /-- For its base value as a denominator. -/
  | denominator
deriving DecidableEq

/-- The values that the substitutions of a rule see. -/
structure Operands where
  whole : SignedOperand
  quotient : SignedOperand
  remainder : SignedOperand
  /-- With a numerator: it is one. -/
  singular : Option Bool := none
deriving DecidableEq

/-- An optional group is left out: if its governing operand is zero; with a numerator, if that is one. -/
def Operands.elides (o : Operands) (group : List Piece) : Bool :=
  match o.singular with
  | some singular => singular
  | none =>
    match Template.governor? group with
    | some (.quotient _) => o.quotient.isZero
    | some .forced => false
    | some (.same _) => o.whole.isZero
    | some (.remainder _) | none => o.remainder.isZero

namespace Engine

/-! ## Substitutions -/

/-- What one level of rules asks of the next. -/
inductive Call where
  /-- To spell out an operand. -/
  | operand (set : RuleSet) (x : SignedOperand)
  /-- To apply a rule to a number. -/
  | rung (set : RuleSet) (rule : Rule) (below : List Rule) (n : Int)
  /-- To spell out a fraction with a base value as the denominator. -/
  | fraction (set : RuleSet) (v : Binary64)
deriving DecidableEq

/-- The rule set that is asked. -/
def Call.set : Call → RuleSet
  | .operand s _ | .rung s .. | .fraction s _ => s

section

variable (sp : Speller) (down : Call → Run Unit)

/-- A value is handed to the numeral system, and its numeral is written. -/
def numeral (v : Binary64) (p : NumeralPattern) : Run Unit := do
  .act (.numeral v p)
  .act (.text (← .of ((sp.numerals.render v p).mapError .numeral)))

/-- An operand is sent to a target; `owner` is the owning set. -/
def render (owner : RuleSet) (x : SignedOperand) : Target → Run Unit
  | .owner => down (.operand owner x)
  | .ruleSet name => do down (.operand (← .of (sp.book.resolve name)) x)
  | .numeral p => numeral sp x.toBinary64 p

/-- Digits are spelled out one by one, with a separator between them. -/
def spellDigits (s : RuleSet) (separator : Text) : List Nat → Run Unit
  | [] => pure ()
  | d :: digits => do
    down (.operand s (.whole d))
    digits.forM fun d => do
      .act (.text separator)
      down (.operand s (.whole d))

/-- A substitution is replaced. -/
def substitute (s : RuleSet) (manner : Manner) (o : Operands) : Substitution → Run Unit
  | .quotient t =>
    match manner, t with
    | .denominator, t => render sp down (sp.book.default?.getD s) o.quotient t
    | .normal rule _, .numeral p =>
      let scaled := o.whole.toBinary64.div (.ofInt rule.divisor)
      render sp down s (if p.keepsFraction then .real scaled else o.quotient) (.numeral p)
    | _, t => render sp down s o.quotient t
  | .remainder t =>
    match manner, t with
    | .fraction, .owner => spellDigits down s [' '] o.whole.toBinary64.abs.fractionDigits
    | .fraction, .ruleSet name => do
      down (.fraction (← .of (sp.book.resolve name)) o.remainder.toBinary64)
    | _, t => render sp down s o.remainder t
  | .forced =>
    match manner, o.remainder with
    | .fraction, _ => spellDigits down s [] o.whole.toBinary64.abs.fractionDigits
    | .normal _ (p :: below), .whole r => down (.rung s p below r)
    | _, x => render sp down s x .owner
  | .same t => render sp down s o.whole t

/-- A piece of a template is written. -/
def write (s : RuleSet) (manner : Manner) (o : Operands) : Piece → Run Unit
  | .literal t => .act (.text t)
  | .substitution sub => substitute sp down s manner o sub

/-- A template is written, without the groups that are left out. -/
def expand (s : RuleSet) (t : Template) (manner : Manner) (o : Operands) : Run Unit :=
  (t.keeping fun group => !o.elides group).forM (write sp down s manner o)

/-! ## Rules -/

variable (depth : Nat)

/-- A rule is applied for its base value, and splits a number towards zero. -/
def applyNormal (s : RuleSet) (rule : Rule) (below : List Rule) (n : Int) : Run Unit := do
  .act (.record ⟨depth, s.name, rule.key, .ofInt n⟩)
  expand sp down s rule.template (.normal rule below)
    ⟨.whole n, .whole (n.tdiv rule.divisor), .whole (n.tmod rule.divisor), none⟩

/-- A rule is applied to a value with a fraction. -/
def applyFraction (s : RuleSet) (form : SpecialForm) (t : Template) (v : Binary64) : Run Unit := do
  .act (.record ⟨depth, s.name, .special form, v⟩)
  let n ← .of (toWord v.trunc)
  expand sp down s t .fraction ⟨.real v, .whole n, .real (v.sub v.trunc), none⟩

/-- A magnitude is spelled out below zero. -/
def formatNegative (s : RuleSet) (magnitude : SignedOperand) : Run Unit :=
  match s.negative with
  | some t => do
    .act (.record ⟨depth, s.name, .special .negative, magnitude.toBinary64.neg⟩)
    expand sp down s t .negative ⟨magnitude, magnitude, magnitude, none⟩
  | none => do
    .act .sign
    down (.operand s magnitude)

/-- The rule for a number, stepped back if it would spell out a zero remainder, and those below. -/
def rollback (n : Int) : List Rule → Option (Rule × List Rule)
  | [] => none
  | [r] => some (r, [])
  | r :: p :: below =>
    if r.template.substitutionCount = 2 ∧ n.tmod r.divisor = 0 ∧ r.base % r.divisor ≠ 0 then
      some (p, below)
    else some (r, p :: below)

/-- A whole number is spelled out.  The least word has no magnitude. -/
def formatWhole (s : RuleSet) (n : Int) : Run Unit := do
  .act (.whole n)
  if n < 0 then
    if n = -wholeLimit then .of (.error (.outOfRange (.ofInt n)))
    else formatNegative sp down depth s (.whole (-n))
  else
    match rollback n (s.rungsFor n) with
    | some (rule, below) => applyNormal sp down depth s rule below n
    | none => .of (.error (.noRule s.name (.ofInt n)))

/-- A binary number is spelled out. -/
def formatReal (s : RuleSet) (v : Binary64) : Run Unit :=
  if v.isNegative then do
    let magnitude ←
      if v.neg.isIntegral then .of ((toWord v.neg).map .whole) else pure (.real v.neg)
    formatNegative sp down depth s magnitude
  else if v.isIntegral then
    match s.whole with
    | some t => applyFraction sp down depth s .whole t v
    | none => do formatWhole sp down depth s (← .of (toWord v))
  else
    match s.fractionForm? v with
    | some (form, t) => applyFraction sp down depth s form t v
    | none => do formatWhole sp down depth s (← .of (toWord v.round))

/-- A fraction is spelled out with a denominator. -/
def formatFraction (s : RuleSet) (v : Binary64) : Run Unit :=
  match s.denominator? v with
  | some rule => do
    let n ← .of (toWord (v.mul (.ofNat rule.base)).round)
    .act (.record ⟨depth, s.name, rule.key, v⟩)
    expand sp down s rule.template .denominator
      ⟨.whole n, .whole n, .whole 0, some (n = 1)⟩
  | none => .of (.error (.noRule s.name v))

/-- What is done about a call on a level. -/
def answer : Call → Run Unit
  | .operand s (.whole n) => formatWhole sp down depth s n
  | .operand s (.real v) => formatReal sp down depth s v
  | .rung s rule below n => applyNormal sp down depth s rule below n
  | .fraction s v => formatFraction sp down depth s v

end

/-! ## Runs -/

/-- What is done about a call that is too deep: a whole number is taken up, but not spelled out. -/
def refuse (sp : Speller) (c : Call) : Run Unit := do
  if let .operand _ (.whole n) := c then .act (.whole n)
  .of (.error (.depthExceeded c.set.name sp.limit))

/-- The run of a call on a level, with `fuel` levels left. -/
def run (sp : Speller) : Nat → Nat → Call → Run Unit
  | 0, _, c => refuse sp c
  | fuel + 1, depth, c => answer sp (run sp fuel (depth + 1)) depth c

/-- The run of a value with a rule set; only finite values have one. -/
def format (sp : Speller) (s : RuleSet) (v : Binary64) : Run Unit :=
  if v.isFinite then run sp (sp.limit + 1) 0 (.operand s (.real v))
  else .of (.error (.nonFinite v))

end Engine
end Spellout
