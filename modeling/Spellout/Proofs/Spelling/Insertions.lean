/-
  What takes the place of a substitution.

  A rule has an operand for each of its substitutions, which a set is asked for or a numeral shows.
  Besides, a remainder may be handed to the rule below, and a rule for values with a fraction hands
  out the fraction itself or its digits.  What a request leads to is told from these ways; the only
  thing that can stand in the way is a set that the book lacks.

  * `Application.operand`: the operand for a substitution;
  * `Applied.Inserts`: the ways in which a substitution is replaced, one constructor for each;
  * `Applied.ends_inserts`: there are no others, and a substitution of a set that exists is replaced.
-/
import Spellout.Proofs.RuleBook.Names
import Spellout.Proofs.RuleBook.Rules
import Spellout.Proofs.Spelling.Failure

namespace Spellout

/-- The operand that a rule has for a substitution. -/
def Application.operand (app : Application) : Substitution → Operand
  | .quotient _ => app.quotient
  | .remainder _ | .forced => app.remainder
  | .same _ => app.value

namespace Applied

/-- The ways in which a substitution is replaced. -/
inductive Inserts (book : RuleBook) (a : Applied) : Substitution → Insertion → Prop where
  /-- A set is asked for the operand; it is one of the book, if the rule is. -/
  | value {sub : Substitution} {s : RuleSet} (set : ∀ t, sub.target? = some t → ¬ t.IsNumeral)
      (held : a.set ∈ book.sets → s ∈ book.sets) :
      Inserts book a sub (.spelled (.value s (a.application.operand sub)))
  | numeral {sub : Substitution} {p : NumeralPattern} (target : sub.target? = some (.numeral p)) :
      Inserts book a sub (.numeral (a.application.operand sub).toBinary64 p)
  /-- A pattern that can show the fraction of a quotient does. -/
  | divided {rule : Rule} {below : List Rule} {n : Nat} {p : NumeralPattern}
      (normal : a.application = .normal rule below n) (keeps : p.keepsFraction) :
      Inserts book a (.quotient (.numeral p))
        (.numeral ((Binary64.ofNat n).div (.ofNat rule.divisor)) p)
  /-- The rule below is used for the remainder, whatever its base value. -/
  | rung {rule next : Rule} {below : List Rule} {n : Nat}
      (normal : a.application = .normal rule (next :: below) n) :
      Inserts book a .forced (.spelled (.rung a.set next below (n % rule.divisor)))
  | fraction {v : Binary64} {whole : Nat} {name : Text} {s : RuleSet}
      (fraction : a.application = .fraction v whole) (found : book.find? name = some s) :
      Inserts book a (.remainder (.ruleSet name)) (.spelled (.fraction s v.fract))
  | digits {v : Binary64} {whole : Nat} (fraction : a.application = .fraction v whole) :
      Inserts book a (.remainder .owner) (.digits a.set v [' '])
  | joinedDigits {v : Binary64} {whole : Nat} (fraction : a.application = .fraction v whole) :
      Inserts book a .forced (.digits a.set v [])

variable {book : RuleBook} {a : Applied} {s : RuleSet} {sub : Substitution} {Fails : Error → Prop}

/-- A substitution with a target is replaced by a request to a set, or by a numeral. -/
theorem Inserts.ends_sent (sub : Substitution) {t : Target} (target : sub.target? = some t)
    (held : a.set ∈ book.sets → s ∈ book.sets)
    (undefined : ∀ name, t.setName? = some name → book.find? name = none →
      Fails (.undefinedRuleSet name)) :
    Ends Fails (a.Inserts book sub) (sent book s (a.application.operand sub) t) := by
  have set (h : ¬ t.IsNumeral) : ∀ t', sub.target? = some t' → ¬ t'.IsNumeral := by
    intro t' ht'
    rwa [← Option.some.inj (target.symm.trans ht')]
  cases t with
  | owner => exact .value (set id) held
  | ruleSet name =>
    exact (RuleBook.ends_resolve (undefined name rfl)).bind fun s' hs' =>
      .value (set id) fun _ => RuleBook.mem_of_find? hs'
  | numeral p => exact .numeral target

/-- A quotient is cut off, unless a pattern can show its fraction. -/
theorem quotientFor_cases (app : Application) (t : Target) :
    quotientFor app t = app.quotient ∨
      ∃ rule below n p, app = .normal rule below n ∧ t = .numeral p ∧ p.keepsFraction ∧
        quotientFor app t = .real ((Binary64.ofNat n).div (.ofNat rule.divisor)) := by
  unfold quotientFor
  split
  · split
    · exact .inr ⟨_, _, _, _, rfl, rfl, ‹_›, rfl⟩
    · exact .inl rfl
  · exact .inl rfl

theorem Inserts.ends_quotient {t : Target}
    (undefined : ∀ name, t.setName? = some name → book.find? name = none →
      Fails (.undefinedRuleSet name)) :
    Ends Fails (a.Inserts book (.quotient t)) (sent book a.set (quotientFor a.application t) t) := by
  obtain whole | ⟨rule, below, n, p, normal, rfl, keeps, exact⟩ := quotientFor_cases a.application t
  · rw [whole]
    exact ends_sent (.quotient t) rfl id undefined
  · have shown : a.Inserts book (.quotient (.numeral p)) _ := .divided normal keeps
    rw [exact]
    exact shown

/-- **There are no other ways in which a substitution is replaced,** and it is, unless its set is
    lacking. -/
theorem ends_inserts (undefined : ∀ t name, sub.target? = some t → t.setName? = some name →
      book.find? name = none → Fails (.undefinedRuleSet name)) :
    Ends Fails (a.Inserts book sub) (a.insertion book sub) := by
  have lacking (t : Target) (target : sub.target? = some t) (name : Text) :=
    undefined t name target
  cases sub with
  | quotient t =>
    simp only [insertion]
    split
    · rename_i n numerator
      have quotient : a.application.quotient = .whole n := by rw [numerator]; rfl
      rw [← quotient]
      exact Inserts.ends_sent (.quotient t) rfl RuleBook.default_mem (lacking t rfl)
    · exact Inserts.ends_quotient (lacking t rfl)
  | remainder t =>
    simp only [insertion]
    split
    · exact .digits ‹_›
    · exact (RuleBook.ends_resolve (lacking _ rfl _ rfl)).bind fun _ found => .fraction ‹_› found
    · exact Inserts.ends_sent (.remainder _) rfl id (lacking _ rfl)
  | forced =>
    simp only [insertion]
    split
    · exact .joinedDigits ‹_›
    · exact .rung ‹_›
    · have sent : a.Inserts book .forced (.spelled (.value a.set (a.application.operand .forced))) :=
        .value nofun id
      exact sent
  | same t => exact Inserts.ends_sent (.same t) rfl id (lacking t rfl)

theorem inserts_of_ok {i : Insertion} (h : a.insertion book sub = .ok i) : a.Inserts book sub i :=
  have ends : Ends (fun _ => True) (a.Inserts book sub) (a.insertion book sub) :=
    ends_inserts fun _ _ _ _ _ => trivial
  ends.of_ok h

end Applied
end Spellout
