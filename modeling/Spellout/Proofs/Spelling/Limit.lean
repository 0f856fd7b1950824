/-
  Spelling out under a higher limit on nesting.

  * `Speller.outlasts_expandPiece`: what is written for a piece outlasts another text for it if the
    requests are met so;
  * `Speller.outlasts_spell`: what is written on more levels outlasts what is written on fewer;
  * `Speller.outlasts_format`: so does what is written for a value under a higher limit.
-/
import Spellout.Proofs.GivesUp
import Spellout.Spelling.Expansion

namespace Spellout.Speller

variable {book : RuleBook} {numerals : NumeralSystem} {limit limit' : Nat}

theorem outlasts_insert {ask ask' : Request → Except Error Spelling}
    (h : ∀ r, Outlasts (ask r) (ask' r)) (i : Insertion) :
    Outlasts (insert ⟨book, numerals, limit⟩ ask i) (insert ⟨book, numerals, limit'⟩ ask' i) := by
  cases i with
  | spelled r => exact h r
  | numeral v p => exact .refl _
  | digits set v separator => exact (Outlasts.mapM (fun d => h _) _).bind fun _ => .refl _

theorem outlasts_expandPiece {ask ask' : Request → Except Error Spelling}
    (h : ∀ r, Outlasts (ask r) (ask' r)) (a : Applied) (p : Piece) :
    Outlasts (expandPiece ⟨book, numerals, limit⟩ ask a p)
      (expandPiece ⟨book, numerals, limit'⟩ ask' a p) := by
  cases p with
  | literal t => exact .refl _
  | substitution sub => exact (Outlasts.refl _).bind fun i => outlasts_insert h i

/-- **On more levels a request is met with the same text and steps,** or leads to the same error. -/
theorem outlasts_spell : ∀ {fuel fuel' : Nat}, fuel ≤ fuel' → ∀ (depth : Nat) (r : Request),
    Outlasts (spell ⟨book, numerals, limit⟩ fuel depth r)
      (spell ⟨book, numerals, limit'⟩ fuel' depth r)
  | 0, _, _, _, r => .inl ⟨r.set.name, limit, rfl⟩
  | fuel + 1, 0, le, _, _ => by omega
  | fuel + 1, fuel' + 1, le, depth, r => by
    have deeper := outlasts_spell (Nat.le_of_succ_le_succ le) (depth + 1)
    refine (Outlasts.refl r.plan).bind fun plan => ?_
    cases plan with
    | minus next => exact (deeper next).bind fun _ => .refl _
    | apply a => exact (Outlasts.mapM (outlasts_expandPiece deeper a) _).bind fun _ => .refl _

/-- What is written for a value under a higher limit is what is written for it under a lower one,
    unless that gives up. -/
theorem outlasts_format (le : limit ≤ limit') (s : RuleSet) (v : Binary64) :
    Outlasts (Speller.format ⟨book, numerals, limit⟩ s v)
      (Speller.format ⟨book, numerals, limit'⟩ s v) := by
  unfold Speller.format
  split
  · exact outlasts_spell (Nat.succ_le_succ le) 0 _
  · exact .refl _

end Spellout.Speller
