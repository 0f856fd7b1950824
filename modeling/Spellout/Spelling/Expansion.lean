/-
  Spelling a value out.

  A chosen rule is expanded: its literals are copied, its groups kept or dropped, and each
  substitution is replaced by a numeral, or by what a rule set makes of an operand, one level deeper.
  Levels beyond a limit are refused.  Every rule that is applied leaves a `Step`.

  * `Spelling` is a text with the steps that led to it, in the order of application;
  * `Applied.insertion` says what takes the place of a substitution;
  * `Speller.spell` spells out a request; its first argument is the number of levels left.
-/
import Spellout.RuleBook.Basic
import Spellout.Spelling.Selection

namespace Spellout

/-! ## Results -/

/-- A rule that was applied: at which level, in which set, with which key, to which value. -/
structure Step where
  depth : Nat
  ruleSet : Text
  key : Key
  value : Operand
deriving DecidableEq

/-- A text with the steps that led to it. -/
structure Spelling where
  text : Text
  steps : List Step
deriving DecidableEq

namespace Spelling

instance : Append Spelling := ⟨fun a b => ⟨a.text ++ b.text, a.steps ++ b.steps⟩⟩

/-- Text that no rule was needed for. -/
def ofText (t : Text) : Spelling := ⟨t, []⟩

/-- The spellings one after the other. -/
def join (parts : List Spelling) : Spelling := parts.foldr (· ++ ·) (ofText [])

/-- The greatest depth of a step. -/
def depth (s : Spelling) : Nat := s.steps.foldl (fun d step => max d step.depth) 0

end Spelling

/-! ## Substitutions -/

/-- What takes the place of a substitution. -/
inductive Insertion where
  /-- What a rule set makes of a request. -/
  | spelled (r : Request)
  /-- A numeral. -/
  | numeral (v : Binary64) (p : NumeralPattern)
  /-- The decimal digits behind the point of a value, each spelled out by a rule set. -/
  | digits (set : RuleSet) (v : Binary64) (separator : Text)
deriving DecidableEq

namespace Applied

/-- What takes the place of an operand that is sent to a target; `owner` is the owning set. -/
def sent (book : RuleBook) (owner : RuleSet) (x : Operand) : Target → Except Error Insertion
  | .owner => .ok (.spelled (.value owner x))
  | .ruleSet name => do return .spelled (.value (← book.resolve name) x)
  | .numeral p => .ok (.numeral x.toBinary64 p)

/-- The operand of a quotient: with a pattern that can show it, a fraction is not cut off. -/
def quotientFor (app : Application) (t : Target) : Operand :=
  match app, t with
  | .normal rule _ n, .numeral p =>
    if p.keepsFraction then .real ((Binary64.ofNat n).div (.ofNat rule.divisor)) else app.quotient
  | _, _ => app.quotient

/-- What takes the place of a substitution.  Numerators are spelled out by the default set. -/
def insertion (book : RuleBook) (a : Applied) : Substitution → Except Error Insertion
  | .quotient t =>
    match a.application with
    | .numerator n => sent book (book.default?.getD a.set) (.whole n) t
    | app => sent book a.set (quotientFor app t) t
  | .remainder t =>
    match a.application, t with
    | .fraction v _, .owner => .ok (.digits a.set v [' '])
    | .fraction v _, .ruleSet name => do
      return .spelled (.fraction (← book.resolve name) (v.sub v.trunc))
    | app, t => sent book a.set app.remainder t
  | .forced =>
    match a.application with
    | .fraction v _ => .ok (.digits a.set v [])
    | .normal rule (p :: below) n => .ok (.spelled (.rung a.set p below (n % rule.divisor)))
    | app => sent book a.set app.remainder .owner
  | .same t => sent book a.set a.application.value t

/-- The step that the application of the rule leaves at a level. -/
def step (a : Applied) (depth : Nat) : Step := ⟨depth, a.set.name, a.key, a.value⟩

/-- The pieces of the template that are written. -/
def pieces (a : Applied) : List Piece := a.template.keeping a.application.keeps

end Applied

/-! ## Expansion -/

/-- The decimal digits behind the point of a value, in its shortest form. -/
def Binary64.fractionDigits : Binary64 → List Nat
  | .finite _ m => m.shortest.fractionDigits.map fun c => c.toNat - '0'.toNat
  | _ => []

/-- The rules, the numeral system and the greatest level that values are spelled out with. -/
structure Speller where
  book : RuleBook
  numerals : NumeralSystem
  limit : Nat

namespace Speller

/-- The spelling that takes the place of a substitution, given how requests are met. -/
def insert (sp : Speller) (ask : Request → Except Error Spelling) :
    Insertion → Except Error Spelling
  | .spelled r => ask r
  | .numeral v p =>
    match sp.numerals.render v p with
    | .ok t => .ok (.ofText t)
    | .error e => .error (.numeral e)
  | .digits set v separator => do
    let digits ← v.fractionDigits.mapM fun d => ask (.value set (.whole d))
    return .join (digits.intersperse (.ofText separator))

/-- The spelling of a piece of a template. -/
def expandPiece (sp : Speller) (ask : Request → Except Error Spelling) (a : Applied) :
    Piece → Except Error Spelling
  | .literal t => .ok (.ofText t)
  | .substitution sub => do sp.insert ask (← a.insertion sp.book sub)

/-- The spelling of a request on a level, with `fuel` levels left. -/
def spell (sp : Speller) : Nat → Nat → Request → Except Error Spelling
  | 0, _, r => .error (.depthExceeded r.set.name sp.limit)
  | fuel + 1, depth, r => do
    match ← r.plan with
    | .minus next => return .ofText ['-'] ++ (← sp.spell fuel (depth + 1) next)
    | .apply a =>
      let parts ← a.pieces.mapM (sp.expandPiece (sp.spell fuel (depth + 1)) a)
      return ⟨[], [a.step depth]⟩ ++ .join parts

end Speller

/-- Spells out a value with a rule set; only finite values can be. -/
def Speller.format (sp : Speller) (s : RuleSet) (v : Binary64) : Except Error Spelling :=
  if v.isFinite then sp.spell (sp.limit + 1) 0 (.value s (.real v))
  else .error (.nonFinite v)

end Spellout
