/-
  Numerals in the text of a value.

  A rule that splits a natural number may write the parts, or the number itself, as numerals.  What is
  written are the digits of the nearest binary number: those of the number if it has no more than 53
  significant binary digits, and other digits if it has more.  A quotient of a binary number may well
  have more.

  * `Substitution.share`: what a substitution takes of a number;
  * `Applied.insertion_numeral`: the nearest binary number is what is rendered of it;
  * `RuleBook.expandPiece_numeral`: when the digits are those of the number;
  * `RuleBook.not_expandPiece_numeral`: a tenth of `2 ^ 62` is not written with its digits.
-/
import Spellout.Proofs.Numeral.Rendering
import Spellout.Proofs.Spelling.Applies

namespace Spellout

/-! ## Shares of a number -/

/-- What a substitution takes of a number: the quotient or the remainder by the divisor of the rule, or
    all of it. -/
def Substitution.share (sub : Substitution) (rule : Rule) (n : Nat) : Nat :=
  match sub with
  | .quotient _ => n / rule.divisor
  | .remainder _ | .forced => n % rule.divisor
  | .same _ => n

theorem Substitution.share_le (sub : Substitution) (rule : Rule) (n : Nat) :
    sub.share rule n ≤ n := by
  cases sub with
  | quotient => exact Nat.div_le_self ..
  | remainder | forced => exact Nat.mod_le ..
  | same => exact Nat.le_refl _

/-- A share that is sent to a pattern without places behind the point is rendered. -/
theorem Applied.insertion_numeral (book : RuleBook) {a : Applied} {rule : Rule} {below : List Rule}
    {n : Nat} (normal : a.application = .normal rule below n) {sub : Substitution}
    {p : NumeralPattern} (pattern : sub.pattern? = some p) (plain : p.keepsFraction = false) :
    a.insertion book sub = .ok (.numeral (.ofNat (sub.share rule n)) p) := by
  rcases a with ⟨s, key, value, template, app⟩
  obtain rfl : app = .normal rule below n := normal
  have numeral {t : Target} (h : t.pattern? = some p) : t = .numeral p := by
    cases t <;> cases h
    rfl
  cases sub with
  | quotient t =>
    obtain rfl := numeral pattern
    simp [Applied.insertion, Applied.quotientFor, plain, Applied.sent, Operand.toBinary64,
      Application.quotient, Substitution.share]
  | remainder t =>
    obtain rfl := numeral pattern
    rfl
  | forced => cases pattern
  | same t =>
    obtain rfl := numeral pattern
    rfl

theorem Speller.insert_numeral {sp : Speller} {ask : Request → Except Error Spelling} {v : Binary64}
    {p : NumeralPattern} {t : Text} (h : sp.numerals.render v p = .ok t) :
    sp.insert ask (.numeral v p) = .ok (.ofText t) := by
  simp only [insert, h]

namespace RuleBook

variable {book : RuleBook}

/-- **A rule writes the digits of a natural number if the number is on the grid,** and only then: the
    digits of the quotient, the remainder, or the number itself, whichever the substitution takes, but
    for commas and for zeros that fill the numeral up.  All numbers of up to 53 binary digits are on
    the grid. -/
theorem expandPiece_numeral {description : Text} (compiled : ofDescription description = .ok book)
    {s : RuleSet} (hs : s ∈ book.sets) {v : Binary64} (finite : v.isFinite)
    (range : v.abs.lt (.ofNat (2 ^ 63))) {a : Applied}
    (applied : book.Applies (.value s (.real v)) a) {rule : Rule} {below : List Rule} {n : Nat}
    (normal : a.application = .normal rule below n) {sub : Substitution} {p : NumeralPattern}
    (pattern : sub.pattern? = some p) (plain : p.keepsFraction = false)
    (ask : Request → Except Error Spelling) (limit : Nat) :
    ∃ t, Speller.expandPiece ⟨book, .decimal, limit⟩ ask a (.substitution sub) = .ok (.ofText t) ∧
      (NumeralSystem.bare t = Nat.toDigits 10 (sub.share rule n) ↔
        Binary64.OnGrid (sub.share rule n * Binary64.stepsPerUnit)) ∧
      (sub.share rule n ≤ 2 ^ 53 → NumeralSystem.bare t = Nat.toDigits 10 (sub.share rule n)) := by
  have inRange : v.InRange ↔ v.abs.lt (.ofNat (2 ^ 63)) := Binary64.inRange_iff_lt finite
  have sound : Request.Sound book (.value s (.real v)) := ⟨hs, inRange.2 range⟩
  have application := (applied.sound (ordered_of_ofDescription compiled) sound).application
  rw [normal] at application
  have le : sub.share rule n ≤ wholeLimit :=
    Nat.le_of_lt (Nat.lt_of_le_of_lt (sub.share_le rule n) application.2)
  obtain ⟨t, rendered, digits⟩ := NumeralSystem.exists_render_ofNat plain le
  refine ⟨t, ?_, digits, fun small => digits.2 (Binary64.onGrid_of_le small)⟩
  refine bind_eq_ok.2 ⟨_, Applied.insertion_numeral book normal pattern plain, ?_⟩
  exact Speller.insert_numeral rendered

/-- The rule `10: <00,000<`. -/
def tenth : Rule :=
  ⟨10, 10, 0, false,
    [.piece (.substitution (.quotient (.numeral ⟨"00,000".toList, 5, some 3, 0, 0⟩)))]⟩

/-- The rule set of `%tenths: zero; 10: <00,000<;`. -/
def tenthSet : RuleSet where
  name := "%tenths".toList
  ladder := [tenth, ⟨0, 10, 0, true, [.piece (.literal "zero".toList)]⟩]

/-- The rule is applied to 12340, and writes `01,234`: the digits of 1234. -/
theorem expandPiece_numeral_tenths :
    ofDescription "%tenths: zero; 10: <00,000<;".toList = .ok ⟨[tenthSet], .none⟩ ∧
      (Binary64.ofNat 12340).isFinite ∧ (Binary64.ofNat 12340).abs.lt (.ofNat (2 ^ 63)) ∧
      RuleBook.Applies ⟨[tenthSet], .none⟩ (.value tenthSet (.real (.ofNat 12340)))
        ⟨tenthSet, tenth.key, .whole 12340, tenth.template, .normal tenth tenthSet.ladder.tail 12340⟩ ∧
      (∀ p, p.keepsFraction = false → ∃ t,
        Speller.expandPiece ⟨⟨[tenthSet], .none⟩, .decimal, 64⟩ (fun _ => .error .noPublicRuleSet)
            ⟨tenthSet, tenth.key, .whole 12340, tenth.template,
              .normal tenth tenthSet.ladder.tail 12340⟩
            (.substitution (.quotient (.numeral p))) = .ok (.ofText t) ∧
          NumeralSystem.bare t = Nat.toDigits 10 1234) ∧
      format ⟨[tenthSet], .none⟩ (.ofNat 12340) none {} {} = .ok "01,234".toList := by
  have compiled : ofDescription "%tenths: zero; 10: <00,000<;".toList = .ok ⟨[tenthSet], .none⟩ := by
    decide +kernel
  have finite : (Binary64.ofNat 12340).isFinite := by decide +kernel
  have range : (Binary64.ofNat 12340).abs.lt (.ofNat (2 ^ 63)) := by decide +kernel
  have applied : RuleBook.Applies ⟨[tenthSet], .none⟩ (.value tenthSet (.real (.ofNat 12340)))
      ⟨tenthSet, tenth.key, .whole 12340, tenth.template, .normal tenth tenthSet.ladder.tail 12340⟩ :=
    .here (by decide +kernel)
  refine ⟨compiled, finite, range, applied, fun p plain => ?_, by decide +kernel⟩
  obtain ⟨t, written, -, digits⟩ := expandPiece_numeral compiled (List.mem_singleton_self _) finite
    range applied rfl (p := p) (show (Substitution.quotient (.numeral p)).pattern? = some p from rfl)
    plain (fun _ => .error .noPublicRuleSet) 64
  have share : (Substitution.quotient (.numeral p)).share tenth 12340 = 1234 := by
    simp only [Substitution.share]
    decide
  rw [share] at digits
  exact ⟨t, written, digits (by decide)⟩

/-- **A tenth of `2 ^ 62` is not written with its digits:** it has 58 significant binary digits. -/
theorem not_expandPiece_numeral :
    ∃ book, ofDescription "%a: zero; 10: <0<;".toList = .ok book ∧
      (Binary64.ofNat (2 ^ 62)).isIntegral ∧
      (Binary64.ofNat (2 ^ 62)).abs.lt (.ofNat (2 ^ 63)) ∧
      Nat.toDigits 10 (2 ^ 62 / 10) = "461168601842738790".toList ∧
      book.format (.ofNat (2 ^ 62)) none {} {} = .ok "461168601842738816".toList := by
  refine ⟨⟨[{ name := "%a".toList
              ladder :=
                [⟨10, 10, 0, false,
                   [.piece (.substitution (.quotient (.numeral ⟨['0'], 1, none, 0, 0⟩)))]⟩,
                 ⟨0, 10, 0, true, [.piece (.literal "zero".toList)]⟩] }], .none⟩, ?_⟩
  exact ⟨by decide +kernel, by decide +kernel, by decide +kernel, by decide +kernel,
    by decide +kernel⟩

end RuleBook
end Spellout
