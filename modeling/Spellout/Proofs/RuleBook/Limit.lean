/-
  The limit on nesting is a guard only.

  * `RuleBook.eq_of_le_maxDepth`: a call that does not give up has the same outcome under every higher
    limit, be it a result or an error.
-/
import Spellout.Proofs.Reading.Limit
import Spellout.Proofs.Spelling.Limit
import Spellout.RuleBook.Conversion

namespace Spellout.RuleBook

variable (book : RuleBook) (set : Option Text) (context : Context)

theorem outlasts_formatVerbose {low high : Options} (le : low.maxDepth ≤ high.maxDepth)
    (v : Binary64) :
    Outlasts (book.formatVerbose v set context low) (book.formatVerbose v set context high) :=
  (Outlasts.refl (book.entry set)).bind fun s => Speller.outlasts_format le s v

theorem outlasts_format {low high : Options} (le : low.maxDepth ≤ high.maxDepth) (v : Binary64) :
    Outlasts (book.format v set context low) (book.format v set context high) :=
  (outlasts_formatVerbose book set context le v).bind fun _ => .refl _

theorem outlasts_parse {low high : Nat} (le : low ≤ high) (lenient : Bool) (t : Text) :
    Outlasts (book.parse t set context ⟨low, lenient⟩) (book.parse t set context ⟨high, lenient⟩) :=
  (Outlasts.refl (book.entry set)).bind fun s =>
    (Reader.outlasts_read book context.numerals lenient t le s).bind fun _ => .refl _

/-- **A call that does not give up has the same outcome under every higher limit:** the same text,
    the same text and steps, the same value and number of bytes, or the same error. -/
theorem eq_of_le_maxDepth (lenient : Bool) {low high : Nat} (le : low ≤ high) :
    (∀ v, ¬ GivesUp (book.format v set context ⟨low, lenient⟩) →
        book.format v set context ⟨high, lenient⟩ = book.format v set context ⟨low, lenient⟩) ∧
      (∀ v, ¬ GivesUp (book.formatVerbose v set context ⟨low, lenient⟩) →
        book.formatVerbose v set context ⟨high, lenient⟩ =
          book.formatVerbose v set context ⟨low, lenient⟩) ∧
      ∀ t, ¬ GivesUp (book.parse t set context ⟨low, lenient⟩) →
        book.parse t set context ⟨high, lenient⟩ = book.parse t set context ⟨low, lenient⟩ := by
  refine ⟨fun v settled => ?_, fun v settled => ?_, fun t settled => ?_⟩
  · exact (outlasts_format book set context le v).eq settled
  · exact (outlasts_formatVerbose book set context le v).eq settled
  · exact (outlasts_parse book set context le lenient t).eq settled

/-- The rule book of `%tens: zero; one; two; 10: <<ty[->>]; %two: 2: two;`. -/
def tens : RuleBook where
  sets :=
    [{ name := "%tens".toList
       ladder :=
         [⟨10, 10, 0, false,
           [.piece (.substitution (.quotient .owner)), .piece (.literal "ty".toList),
             .optional [.literal ['-'], .substitution (.remainder .owner)]]⟩,
          ⟨2, 10, 0, true, [.piece (.literal "two".toList)]⟩,
          ⟨1, 10, 0, true, [.piece (.literal "one".toList)]⟩,
          ⟨0, 10, 0, true, [.piece (.literal "zero".toList)]⟩] },
     { name := "%two".toList, ladder := [⟨2, 10, 0, false, [.piece (.literal "two".toList)]⟩] }]
  equivalences := .none

/-- One level suffices for two digits, and for the error of a set without a rule. -/
theorem eq_of_le_maxDepth_tens :
    ofDescription "%tens: zero; one; two; 10: <<ty[->>]; %two: 2: two;".toList = .ok tens ∧
      1 ≤ 64 ∧
      (¬ GivesUp (tens.format (.ofNat 21) none {} ⟨1, false⟩) ∧
        tens.format (.ofNat 21) none {} ⟨64, false⟩ = .ok "twoty-one".toList) ∧
      (¬ GivesUp (tens.formatVerbose (.ofNat 1) (some "%two".toList) {} ⟨1, false⟩) ∧
        tens.formatVerbose (.ofNat 1) (some "%two".toList) {} ⟨64, false⟩ =
          .error (.noRule "%two".toList (.ofNat 1))) ∧
      ¬ GivesUp (tens.parse "Twoty one!".toList none {} ⟨1, true⟩) ∧
        tens.parse "Twoty one!".toList none {} ⟨64, true⟩ = .ok ⟨.ofNat 21, 9⟩ := by
  have spelled : tens.format (.ofNat 21) none {} ⟨1, false⟩ = .ok "twoty-one".toList := by
    decide +kernel
  have refused : tens.formatVerbose (.ofNat 1) (some "%two".toList) {} ⟨1, false⟩ =
      .error (.noRule "%two".toList (.ofNat 1)) := by
    decide +kernel
  have read : tens.parse "Twoty one!".toList none {} ⟨1, true⟩ = .ok ⟨.ofNat 21, 9⟩ := by
    decide +kernel
  have settled : ¬ GivesUp (tens.format (.ofNat 21) none {} ⟨1, false⟩) := by
    rw [spelled]
    exact not_givesUp_ok _
  have settled' : ¬ GivesUp (tens.formatVerbose (.ofNat 1) (some "%two".toList) {} ⟨1, false⟩) := by
    rw [refused]
    rintro ⟨_, _, h⟩
    cases h
  have settled'' : ¬ GivesUp (tens.parse "Twoty one!".toList none {} ⟨1, true⟩) := by
    rw [read]
    exact not_givesUp_ok _
  have le : 1 ≤ 64 := by decide
  refine ⟨by decide +kernel, le, ⟨settled, ?_⟩, ⟨settled', ?_⟩, settled'', ?_⟩
  · rw [(eq_of_le_maxDepth tens none {} false le).1 _ settled, spelled]
  · rw [(eq_of_le_maxDepth tens (some "%two".toList) {} false le).2.1 _ settled', refused]
  · rw [(eq_of_le_maxDepth tens none {} true le).2.2 _ settled'', read]

end Spellout.RuleBook
