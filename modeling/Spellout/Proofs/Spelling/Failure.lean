/-
  Why a request is not met.

  To meet a request a rule is planned, and further requests arise from its substitutions, one level
  deeper.  So a predicate of requests that is handed down from a rule to the requests it leads to
  bounds the errors of all of them.

  * `Insertion.Meets`, `Plan.Meets`: the requests that arise are good, and numerals fail as allowed;
  * `RuleBook.ends_resolve`: the set that a name refers to is found, unless it is lacking;
  * `Speller.Keeps`: a good request leads to good requests, or fails as allowed;
  * `Speller.Keeps.spell`: then a good request is met, or fails as allowed;
  * `RuleBook.format_of_entry`: a finite value is such a request to the set the caller asks for.
-/
import Spellout.Proofs.RuleBook.Names
import Spellout.Proofs.RuleBook.Rules
import Spellout.RuleBook.Conversion

namespace Spellout

/-! ## What arises from a request -/

/-- The requests that an insertion leads to are good, and its numeral fails as allowed. -/
def Insertion.Meets (numerals : NumeralSystem) (Good : Request → Prop) (Fails : Error → Prop) :
    Insertion → Prop
  | .spelled r => Good r
  | .numeral v p => Ends (fun e => Fails (.numeral e)) (fun _ => True) (numerals.render v p)
  | .digits set v _ => ∀ d ∈ v.fractionDigits, Good (.value set (.whole d))

/-- The requests that a plan leads to are good, and what else there is in it fails as allowed. -/
def Plan.Meets (book : RuleBook) (numerals : NumeralSystem) (Good : Request → Prop)
    (Fails : Error → Prop) : Plan → Prop
  | .minus next => Good next
  | .apply a => ∀ sub ∈ a.template.substitutions,
      Ends Fails (Insertion.Meets numerals Good Fails) (a.insertion book sub)

/-! ## Targets -/

/-- The name of the set that a target refers to. -/
def Target.setName? : Target → Option Text
  | .ruleSet name => some name
  | .owner | .numeral _ => none

/-- The target is a numeral. -/
def Target.IsNumeral : Target → Prop
  | .numeral _ => True
  | .owner | .ruleSet _ => False

instance : DecidablePred Target.IsNumeral
  | .numeral _ => .isTrue trivial
  | .owner | .ruleSet _ => .isFalse id

theorem RuleBook.ends_resolve {book : RuleBook} {Fails : Error → Prop} {name : Text}
    (undefined : book.find? name = none → Fails (.undefinedRuleSet name)) :
    Ends Fails (fun s => book.find? name = some s) (book.resolve name) := by
  unfold resolve
  cases h : book.find? name with
  | some s => exact rfl
  | none => exact undefined h

/-! ## Requests -/

namespace Speller

variable {sp : Speller} {Fails : Error → Prop}

/-- A request that is good with some levels left leads to requests that are good with one level less,
    or fails as allowed. -/
structure Keeps (sp : Speller) (Good : Nat → Request → Prop) (Fails : Error → Prop) : Prop where
  limit : ∀ r, Good 0 r → Fails (.depthExceeded r.set.name sp.limit)
  plan : ∀ levels r, Good (levels + 1) r →
    Ends Fails (Plan.Meets sp.book sp.numerals (Good levels) Fails) r.plan

theorem ends_insert {Good : Request → Prop} {ask : Request → Except Error Spelling}
    (h : ∀ r, Good r → Ends Fails (fun _ => True) (ask r)) {i : Insertion}
    (meets : i.Meets sp.numerals Good Fails) : Ends Fails (fun _ => True) (sp.insert ask i) := by
  cases i with
  | spelled r => exact h r meets
  | numeral v p =>
    simp only [Insertion.Meets, insert] at meets ⊢
    cases hr : sp.numerals.render v p with
    | ok t => trivial
    | error e =>
      rw [hr] at meets
      exact meets
  | digits set v separator =>
    exact (Ends.mapM fun d hd => h _ (meets d hd)).bind fun _ _ => trivial

theorem ends_expandPiece {Good : Request → Prop} {ask : Request → Except Error Spelling}
    (h : ∀ r, Good r → Ends Fails (fun _ => True) (ask r)) {a : Applied}
    (meets : (Plan.apply a).Meets sp.book sp.numerals Good Fails) {p : Piece} (hp : p ∈ a.pieces) :
    Ends Fails (fun _ => True) (sp.expandPiece ask a p) := by
  cases p with
  | literal t => exact trivial
  | substitution sub =>
    exact (meets sub (Template.mem_substitutions hp)).bind fun _ hi => ends_insert h hi

/-- **A good request is met, or fails as allowed.** -/
theorem Keeps.spell {Good : Nat → Request → Prop} (keeps : sp.Keeps Good Fails) :
    ∀ {levels : Nat} (depth : Nat) {r : Request}, Good levels r →
      Ends Fails (fun _ => True) (sp.spell levels depth r)
  | 0, _, r, h => keeps.limit r h
  | levels + 1, depth, r, h => by
    unfold Speller.spell
    refine (keeps.plan levels r h).bind fun plan meets => ?_
    cases plan with
    | minus next => exact (keeps.spell (depth + 1) meets).bind fun _ _ => trivial
    | apply a =>
      have pieces : ∀ p ∈ a.pieces,
          Ends Fails (fun _ => True) (sp.expandPiece (sp.spell levels (depth + 1)) a p) :=
        fun p hp => ends_expandPiece (fun r hr => keeps.spell (depth + 1) hr) meets hp
      exact (Ends.mapM pieces).bind fun _ _ => trivial

end Speller

/-- A finite value is spelled out as a request to the set that is asked for. -/
theorem RuleBook.format_of_entry {book : RuleBook} {set : Option Text} {s : RuleSet}
    (entry : book.entry set = .ok s) {v : Binary64} (finite : v.isFinite) {context : Context}
    {options : Options} : book.format v set context options =
      Spelling.text <$> Speller.spell ⟨book, context.numerals, options.maxDepth⟩
        (options.maxDepth + 1) 0 (.value s (.real v)) := by
  simp only [format, formatVerbose, entry, Speller.format, finite, if_true]
  rfl

end Spellout
