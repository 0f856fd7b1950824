/-
  When a piece of text derives a value.

  The rules of a rule book are read as a grammar.  A set derives a value from a piece of text if one
  of the rules that the mode allows does; a rule does if the text is the pieces of one of its
  alternatives put together, each literal as it is written and each substitution a piece that derives
  a value of its own.  Nothing is said of how pieces are found, of lengths, or of what else the text
  could derive.

  * `Mode.Allows` says which rules a mode allows;
  * `Derives` is the grammar: `Derives.Set` for rule sets, `Derives.Rule` for rules,
    `Derives.Pieces` for alternatives, `Derives.Sub` for substitutions, `Derives.Sent` for their
    targets, `Derives.Digits` for digits spelled one by one.
-/
import Spellout.Reading.Candidate

namespace Spellout

/-! ## Rules -/

/-- The rules that may answer a question in a mode. -/
inductive Mode.Allows (s : RuleSet) : Mode → Candidate → Prop
  | negative {t : Template} : s.negative = some t → Allows s .full (.negative t)
  | fraction {form : SpecialForm} {t : Template} :
      form ≠ .negative → s.special form = some t → Allows s .full (.fraction t)
  | normal {rule : Rule} {below : List Rule} :
      (rule :: below) <:+ s.ladder → Allows s .full (.normal rule below)
  /-- The base value stands below the bound, if there is one. -/
  | bounded {rule : Rule} {below : List Rule} {bound : Option Nat} :
      (rule :: below) <:+ s.ladder → (∀ b, bound = some b → rule.base < b) →
        Allows s (.integer bound) (.normal rule below)
  | numerator {rule : Rule} :
      rule ∈ s.ladder → 0 < rule.base → Allows s .denominators (.numerator rule)

/-- The template of a rule. -/
def Candidate.template : Candidate → Template
  | .negative t | .fraction t => t
  | .normal rule _ | .numerator rule => rule.template

/-- The value of a rule, from the values that its substitutions read. -/
def Candidate.value : Candidate → Parts → Binary64
  | .negative _ => Parts.negative
  | .fraction _ => Parts.fraction
  | .normal rule _ => Parts.normal rule
  | .numerator rule => Parts.numerator rule

/-- The value stands for the digit `n`; zero may have either sign. -/
def Binary64.IsDigit (v : Binary64) (n : Nat) : Prop := n < 10 ∧ v.place = (Binary64.ofNat n).place

/-! ## Derivations -/

namespace Derives

mutual

/-- The set derives the value from the text in a mode; with a bound, the value stands below it. -/
inductive Set (book : RuleBook) (ns : NumeralSystem) : RuleSet → Mode → Text → Binary64 → Prop
  | rule {s : RuleSet} {mode : Mode} {c : Candidate} {t : Text} {v : Binary64} :
      mode.Allows s c → Rule book ns s c mode.bound? t v →
        (∀ b, mode = .integer (some b) → v.lt (.ofNat b)) → Set book ns s mode t v

/-- A rule of the set derives the value from the text; `bound` is the bound of the question that the
    rule is to answer. -/
inductive Rule (book : RuleBook) (ns : NumeralSystem) :
    RuleSet → Candidate → Option Nat → Text → Binary64 → Prop
  | alternative {s : RuleSet} {c : Candidate} {bound : Option Nat} {pieces : List Piece} {t : Text}
      {parts : Parts} : pieces ∈ c.template.alternatives → Pieces book ns s c bound pieces t {} parts →
        Rule book ns s c bound t (c.value parts)

/-- The text is put together of the pieces; on the way the parts that have been read grow. -/
inductive Pieces (book : RuleBook) (ns : NumeralSystem) :
    RuleSet → Candidate → Option Nat → List Piece → Text → Parts → Parts → Prop
  | nil {s : RuleSet} {c : Candidate} {bound : Option Nat} {parts : Parts} :
      Pieces book ns s c bound [] [] parts parts
  | literal {s : RuleSet} {c : Candidate} {bound : Option Nat} {rest : List Piece} {l t : Text}
      {parts parts' : Parts} : Pieces book ns s c bound rest t parts parts' →
        Pieces book ns s c bound (.literal l :: rest) (l ++ t) parts parts'
  | substitution {s : RuleSet} {c : Candidate} {bound : Option Nat} {sub : Substitution}
      {rest : List Piece} {t t' : Text} {v : Binary64} {parts parts' : Parts} :
      Sub book ns s c bound sub t v → Pieces book ns s c bound rest t' (parts.add sub v) parts' →
        Pieces book ns s c bound (.substitution sub :: rest) (t ++ t') parts parts'

/-- A substitution of a rule derives the value from the text. -/
inductive Sub (book : RuleBook) (ns : NumeralSystem) :
    RuleSet → Candidate → Option Nat → Substitution → Text → Binary64 → Prop
  /-- Quotients of a rule with a base value are read below its divisor. -/
  | normalQuotient {s : RuleSet} {rule : Spellout.Rule} {below : List Spellout.Rule}
      {bound : Option Nat} {target : Target} {t : Text} {v : Binary64} :
      Sent book ns s (.integer (some rule.divisor)) target t v →
        Sub book ns s (.normal rule below) bound (.quotient target) t v
  /-- So are remainders, and these stand below the divisor. -/
  | normalRemainder {s : RuleSet} {rule : Spellout.Rule} {below : List Spellout.Rule}
      {bound : Option Nat} {target : Target} {t : Text} {v : Binary64} :
      Sent book ns s (.integer (some rule.divisor)) target t v → v.lt (.ofNat rule.divisor) →
        Sub book ns s (.normal rule below) bound (.remainder target) t v
  /-- `>>>` is read with the preceding rule. -/
  | normalForced {s : RuleSet} {rule preceding : Spellout.Rule} {below : List Spellout.Rule}
      {bound : Option Nat} {t : Text} {v : Binary64} :
      Rule book ns s (.normal preceding below) (some rule.divisor) t v →
        Sub book ns s (.normal rule (preceding :: below)) bound .forced t v
  /-- With the lowest rule `>>>` is read with the owner. -/
  | lowestForced {s : RuleSet} {rule : Spellout.Rule} {bound : Option Nat} {t : Text}
      {v : Binary64} : Set book ns s (.integer (some rule.divisor)) t v →
        Sub book ns s (.normal rule []) bound .forced t v
  /-- The value itself has the bound that the rule has. -/
  | normalSame {s : RuleSet} {rule : Spellout.Rule} {below : List Spellout.Rule}
      {bound : Option Nat} {target : Target} {t : Text} {v : Binary64} :
      Sent book ns s (.integer bound) target t v →
        Sub book ns s (.normal rule below) bound (.same target) t v
  | fractionQuotient {s : RuleSet} {template : Template} {bound : Option Nat} {target : Target}
      {t : Text} {v : Binary64} : Sent book ns s (.integer none) target t v →
        Sub book ns s (.fraction template) bound (.quotient target) t v
  /-- `>>` behind a decimal point is read digit by digit, with a space between digits. -/
  | spacedDigits {s : RuleSet} {template : Template} {bound : Option Nat} {t digits : Text} :
      Digits book ns s [' '] t digits →
        Sub book ns s (.fraction template) bound (.remainder .owner) t
          (Decimal.nearest false (.ofDigits [] digits))
  /-- `>>>` is read digit by digit, with nothing between digits. -/
  | closeDigits {s : RuleSet} {template : Template} {bound : Option Nat} {t digits : Text} :
      Digits book ns s [] t digits →
        Sub book ns s (.fraction template) bound .forced t
          (Decimal.nearest false (.ofDigits [] digits))
  /-- A fraction is read with the denominators of a named set. -/
  | fractionSet {s s' : RuleSet} {template : Template} {bound : Option Nat} {name t : Text}
      {v : Binary64} : book.find? name = some s' → Set book ns s' .denominators t v →
        Sub book ns s (.fraction template) bound (.remainder (.ruleSet name)) t v
  | fractionNumeral {s : RuleSet} {template : Template} {bound : Option Nat} {p : NumeralPattern}
      {t : Text} {v : Binary64} : Sent book ns s .full (.numeral p) t v →
        Sub book ns s (.fraction template) bound (.remainder (.numeral p)) t v
  | fractionSame {s : RuleSet} {template : Template} {bound : Option Nat} {target : Target}
      {t : Text} {v : Binary64} : Sent book ns s .full target t v →
        Sub book ns s (.fraction template) bound (.same target) t v
  | negative {s : RuleSet} {template : Template} {bound : Option Nat} {sub : Substitution}
      {target : Target} {t : Text} {v : Binary64} :
      sub = .quotient target ∨ sub = .remainder target ∨ sub = .same target →
        Sent book ns s .full target t v → Sub book ns s (.negative template) bound sub t v
  | negativeForced {s : RuleSet} {template : Template} {bound : Option Nat} {t : Text}
      {v : Binary64} : Set book ns s .full t v → Sub book ns s (.negative template) bound .forced t v
  /-- A numerator without a target is read with the default set. -/
  | numeratorQuotient {s : RuleSet} {rule : Spellout.Rule} {bound : Option Nat} {t : Text}
      {v : Binary64} : Set book ns (book.default?.getD s) (.integer none) t v →
        Sub book ns s (.numerator rule) bound (.quotient .owner) t v
  | numerator {s : RuleSet} {rule : Spellout.Rule} {bound : Option Nat} {sub : Substitution}
      {target : Target} {t : Text} {v : Binary64} :
      (sub = .quotient target ∧ target ≠ .owner) ∨ sub = .remainder target ∨ sub = .same target →
        Sent book ns s (.integer none) target t v → Sub book ns s (.numerator rule) bound sub t v
  | numeratorForced {s : RuleSet} {rule : Spellout.Rule} {bound : Option Nat} {t : Text}
      {v : Binary64} : Set book ns s (.integer none) t v →
        Sub book ns s (.numerator rule) bound .forced t v

/-- A target derives the value from the text; a numeral takes up all of it. -/
inductive Sent (book : RuleBook) (ns : NumeralSystem) :
    RuleSet → Mode → Target → Text → Binary64 → Prop
  | owner {s : RuleSet} {mode : Mode} {t : Text} {v : Binary64} :
      Set book ns s mode t v → Sent book ns s mode .owner t v
  | ruleSet {s s' : RuleSet} {mode : Mode} {name t : Text} {v : Binary64} :
      book.find? name = some s' → Set book ns s' mode t v → Sent book ns s mode (.ruleSet name) t v
  | numeral {s : RuleSet} {mode : Mode} {p : NumeralPattern} {t : Text} {v : Binary64} :
      ns.read t p = some (v, Text.utf8Size t) → Sent book ns s mode (.numeral p) t v

/-- The set derives digits one by one from the text, with a separator between them. -/
inductive Digits (book : RuleBook) (ns : NumeralSystem) : RuleSet → Text → Text → Text → Prop
  | last {s : RuleSet} {sep t : Text} {v : Binary64} {n : Nat} :
      t ≠ [] → Set book ns s (.integer (some 10)) t v → v.IsDigit n →
        Digits book ns s sep t [Nat.digitChar n]
  | more {s : RuleSet} {sep t t' digits : Text} {v : Binary64} {n : Nat} :
      t ≠ [] → Set book ns s (.integer (some 10)) t v → v.IsDigit n →
        Digits book ns s sep t' digits →
          Digits book ns s sep (t ++ sep ++ t') (Nat.digitChar n :: digits)

end

end Derives
end Spellout
