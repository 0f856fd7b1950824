/-
  How the substitutions of special rules read.

  Rules for values with a fraction, for values below zero and with a denominator differ in the modes and
  sets that their substitutions read with, but all of them read with a target on the level below, or
  digit by digit.  What is said of both holds of all of them.

  * `SpecialRead`: the ways in which a substitution of a special rule reads, in any reader;
  * `special_readFraction`, `special_readNegative`, `special_readNumerator`: there are no others.
-/
import Spellout.Proofs.RuleBook.Rules
import Spellout.Reading.Candidate

namespace Spellout.Reader

/-- The ways in which a substitution of a special rule of a set reads; digits are read only if it is
    `digital`. -/
inductive SpecialRead (s : RuleSet) (sub : Substitution) (digital : Prop) :
    (Reader → (start stop : Nat) → Search (Option Match)) → Prop where
  /-- With its own target or the owning set, and without a bound. -/
  | target (mode : Mode) (t : Target) (unbound : mode.bound? = none)
      (named : t = .owner ∨ sub.target? = some t) :
      SpecialRead s sub digital fun r => r.readTarget 0 s mode t
  /-- With the default set. -/
  | default : SpecialRead s sub digital fun r =>
      r.readTarget 0 (r.book.default?.getD s) (.integer none) .owner
  | digits (spaced : Bool) (h : digital) : SpecialRead s sub digital fun r => r.readDigits s spaced

variable (s : RuleSet) (sub : Substitution)

theorem special_readFraction : SpecialRead s sub (sub = .forced ∨ sub = .remainder .owner)
    fun r => r.readFraction s sub := by
  cases sub with
  | quotient t => exact .target (.integer none) t rfl (.inr rfl)
  | remainder t =>
    cases t with
    | owner => exact .digits true (.inr rfl)
    | ruleSet name => exact .target .denominators (.ruleSet name) rfl (.inr rfl)
    | numeral p => exact .target .full (.numeral p) rfl (.inr rfl)
  | forced => exact .digits false (.inl rfl)
  | same t => exact .target .full t rfl (.inr rfl)

theorem special_readNegative : SpecialRead s sub False fun r => r.readNegative s sub := by
  cases sub with
  | quotient t | remainder t | same t => exact .target .full t rfl (.inr rfl)
  | forced => exact .target .full .owner rfl (.inl rfl)

theorem special_readNumerator : SpecialRead s sub False fun r => r.readNumerator s sub := by
  cases sub with
  | quotient t =>
    cases t with
    | owner => exact .default
    | ruleSet name => exact .target (.integer none) (.ruleSet name) rfl (.inr rfl)
    | numeral p => exact .target (.integer none) (.numeral p) rfl (.inr rfl)
  | remainder t | same t => exact .target (.integer none) t rfl (.inr rfl)
  | forced => exact .target (.integer none) .owner rfl (.inl rfl)

end Spellout.Reader
