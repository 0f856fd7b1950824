/-
  Reading under a higher limit on nesting.

  A question that is in the memory is answered from it on any level; only a question that is new is
  refused when no level is left.  So two readers with different limits keep the same memory, until
  one of them gives up.

  * `Search.outlasts_run`: a search outlasts another one if its answers do;
  * `Reader.outlasts_answer`: answers on more levels outlast those on fewer;
  * `Reader.outlasts_read`: what is read under a higher limit outlasts what is read under a lower one;
  * `Reader.read_of_settled`: a set reads what it answers without a memory, unless it gives up.
-/
import Spellout.Proofs.GivesUp
import Spellout.Proofs.Reading.Agreement
import Spellout.Proofs.Reading.Memory

namespace Spellout

theorem Search.outlasts_run {α : Type} {answer answer' : Nat → Question → Remembered (Option Match)}
    (h : ∀ deeper q memo, Outlasts (answer deeper q memo) (answer' deeper q memo)) (x : Search α)
    (memo : Memo) : Outlasts (x.run answer memo) (x.run answer' memo) := by
  induction x generalizing memo with
  | done a => exact .refl _
  | fail e => exact .refl _
  | ask deeper q next ih => exact (h deeper q memo).bind fun p => ih p.1 p.2

namespace Reader

variable {r r' : Reader}

/-- **On more levels a question keeps its answer, or the error it led to;** the memory is the same,
    too. -/
theorem outlasts_answer (alike : r.Agrees r' fun _ => True) : ∀ {levels levels' : Nat}, levels ≤ levels' →
    ∀ (deeper : Nat) (q : Question) (memo : Memo),
      Outlasts (r.answer levels deeper q memo) (r'.answer levels' deeper q memo) := by
  intro levels
  induction levels with
  | zero =>
    intro levels' _ deeper q memo
    cases hf : memo.find? q with
    | some slot =>
      rw [answer_of_find? hf, answer_of_find? hf]
      exact .refl _
    | none =>
      refine .inl ⟨q.set.name, r.limit, ?_⟩
      simp only [answer, Memo.recall, hf, refuse]
      rfl
  | succ levels ih =>
    intro levels' le deeper q memo
    obtain ⟨levels', rfl⟩ : ∃ k, levels' = k + 1 := ⟨levels' - 1, by omega⟩
    have le : levels ≤ levels' := by omega
    cases deeper with
    | succ deeper => exact ih le deeper q memo
    | zero =>
      cases hf : memo.find? q with
      | some slot =>
        rw [answer_of_find? hf, answer_of_find? hf]
        exact .refl _
      | none =>
        simp only [answer, Memo.recall, hf, alike.search fun _ _ => trivial]
        exact (Search.outlasts_run (ih le) _ _).bind fun _ => .refl _

/-- What is read under a higher limit is what is read under a lower one, unless that gives up. -/
theorem outlasts_read (book : RuleBook) (numerals : NumeralSystem) (lenient : Bool) (t : Text)
    {limit limit' : Nat} (le : limit ≤ limit') (s : RuleSet) :
    Outlasts ((ofText book numerals lenient limit t).read s)
      ((ofText book numerals lenient limit' t).read s) := by
  have alike := agrees_withLimit (ofText book numerals lenient limit t) limit' fun _ => True
  exact (outlasts_answer alike (Nat.succ_le_succ le) 0 _ _).bind fun _ => .refl _

/-- **A set reads what it answers without a memory** about the whole text, unless it gives up. -/
theorem read_of_settled (distinct : r.book.Distinct) {s : RuleSet} (hs : s ∈ r.book.sets)
    {levels k : Nat} {v : Binary64}
    (h : r.fresh [] levels 0 ⟨s, .full, 0, r.symbols.size⟩ = .ok (some ⟨v, k⟩)) (pos : 0 < k)
    (settled : ¬ GivesUp (r.read s)) : r.read s = .ok (some (v, r.bytesBefore k)) := by
  obtain ⟨memo, ha⟩ := answer_empty_of_fresh distinct (q := ⟨s, .full, 0, r.symbols.size⟩) hs h
    (Nat.le_max_left levels (r.limit + 1))
  have alike := agrees_withLimit r r.limit fun _ => True
  have same := (outlasts_answer alike (Nat.le_max_right levels (r.limit + 1)) 0 _ _).eq
    fun givesUp => settled (givesUp.bind _)
  refine bind_eq_ok.2 ⟨_, same.symm.trans ha, ?_⟩
  simp [pure, Except.pure, pos]

end Reader
end Spellout
