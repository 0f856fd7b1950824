/-
  Nesting comes to an end by itself.

  A question that comes up again while it is under way has no match.  So every question that is
  searched for takes one more question of finitely many, and `>>>` adds fewer levels than there are
  rules each time.

  * `Memo.idle`: the questions that are not under way;
  * `Search.not_givesUp_run`: a search does not give up if its answers do not;
  * `Reader.not_givesUp_answer`: levels suffice that count the rules once for each idle question;
  * `RuleBook.not_givesUp_parse`: so no text is too deep for a limit that counts all questions.
-/
import Spellout.Proofs.Reading.Memory
import Spellout.Proofs.Reading.Questions
import Spellout.RuleBook.Conversion

namespace Spellout

/-! ## Questions under way -/

namespace Memo

/-- The given questions that are not under way. -/
def idle (memo : Memo) (questions : Finset Question) : Finset Question :=
  questions.filter fun q => memo.find? q ≠ some .pending

theorem find?_congr {memo : Memo} {q q' : Question} (h : q.code = q'.code) :
    memo.find? q = memo.find? q' := by
  simp only [find?, h]

/-- A question that is searched for is idle no more. -/
theorem card_idle_record_lt {memo : Memo} {questions : Finset Question} {q : Question}
    (hq : q ∈ questions) (new : memo.find? q = none) :
    ((memo.record q .pending).idle questions).card < (memo.idle questions).card := by
  refine Finset.card_lt_card ⟨fun q' h => ?_, fun h => ?_⟩
  · obtain ⟨mem, idle⟩ := Finset.mem_filter.1 h
    rw [find?_record] at idle
    split at idle
    · exact absurd rfl idle
    · exact Finset.mem_filter.2 ⟨mem, idle⟩
  · have := h (Finset.mem_filter.2 ⟨hq, by simp [new]⟩)
    simp [idle, find?_record_self] at this

/-- The same questions are under way. -/
def SameOpen (memo memo' : Memo) : Prop :=
  ∀ q, memo'.find? q = some .pending ↔ memo.find? q = some .pending

theorem SameOpen.refl (memo : Memo) : memo.SameOpen memo := fun _ => Iff.rfl

theorem SameOpen.trans {memo memo₁ memo₂ : Memo} (h : memo.SameOpen memo₁)
    (h' : memo₁.SameOpen memo₂) : memo.SameOpen memo₂ := fun q => (h' q).trans (h q)

theorem SameOpen.idle_eq {memo memo' : Memo} (h : memo.SameOpen memo') (questions : Finset Question) :
    memo'.idle questions = memo.idle questions :=
  Finset.filter_congr fun q _ => not_congr (h q)

/-- A question that was searched for is under way no more. -/
theorem SameOpen.record_answered {memo memo₁ : Memo} {q : Question}
    (h : (memo.record q .pending).SameOpen memo₁) (new : memo.find? q = none) (m : Option Match) :
    memo.SameOpen (memo₁.record q (.answered m)) := by
  intro q'
  rw [find?_record]
  split
  · rename_i code
    simp [← find?_congr code, new]
  · rename_i code
    rw [h q', find?_record, if_neg code]

end Memo

/-! ## Searches -/

namespace Search

variable {α : Type} {P : Question → Option Match → Prop} {A : Nat → Question → Prop}
  {answer : Nat → Question → Remembered (Option Match)}

/-- **A search does not give up if its answers do not,** keep the memory good, and satisfy `P`. -/
theorem not_givesUp_run {G : Memo → Prop}
    (settled : ∀ deeper q memo, A deeper q → G memo → ¬ GivesUp (answer deeper q memo))
    (step : ∀ deeper q memo m memo', A deeper q → G memo → answer deeper q memo = .ok (m, memo') →
      P q m ∧ G memo') {x : Search α} (bounded : x.Bounded P A) {memo : Memo} (good : G memo) :
    ¬ GivesUp (x.run answer memo) := by
  induction x generalizing memo with
  | done a => exact not_givesUp_ok _
  | fail e =>
    rintro ⟨name, limit, h⟩
    cases h
    exact bounded ⟨name, limit, rfl⟩
  | ask deeper q next ih =>
    intro h
    rcases givesUp_bind.1 h with h | ⟨⟨m, memo'⟩, ha, h⟩
    · exact settled deeper q memo bounded.1 good h
    · obtain ⟨hm, good'⟩ := step deeper q memo m memo' bounded.1 good ha
      exact ih m (bounded.2 m hm) good' h

end Search

/-! ## Answers -/

namespace Reader

variable {r : Reader}

/-- After an answer the same questions are under way as before. -/
theorem sameOpen_of_answer : ∀ {levels deeper : Nat} {q : Question} {memo : Memo}
    {m : Option Match} {memo' : Memo}, r.InBook q →
      r.answer levels deeper q memo = .ok (m, memo') → memo.SameOpen memo' := by
  intro levels
  induction levels using Nat.strongRecOn with
  | ind levels ih =>
    intro deeper q memo m memo' hq h
    cases hf : memo.find? q with
    | some slot =>
      rw [answer_of_find? hf] at h
      cases h
      exact .refl _
    | none =>
      obtain ⟨lt, memo₁, hrun, rfl⟩ := answer_of_new hf h
      obtain ⟨-, same⟩ := Search.run_yields (P := fun _ _ => True) (A := r.InBook)
        (G := (memo.record q .pending).SameOpen)
        (fun _ _ _ _ _ hq' same h' => ⟨trivial, same.trans (ih _ (by omega) hq' h')⟩)
        (asks_search hq) (.refl _) hrun
      exact same.record_answered hf m

theorem not_givesUp_of_find? {q : Question} {memo : Memo} {slot : Slot}
    (hf : memo.find? q = some slot) (levels deeper : Nat) :
    ¬ GivesUp (r.answer levels deeper q memo) := by
  rw [answer_of_find? hf]
  exact not_givesUp_ok _

/-- The search for a new question does not give up if the answers on the way do not, the levels for
    which have been paid by the question. -/
theorem not_givesUp_search (distinct : r.book.Distinct) {levels : Nat}
    (ih : ∀ {deeper : Nat} {q : Question} {memo : Memo}, q ∈ r.book.questions r.symbols.size →
      memo.Holds r Question.Spans →
        deeper + (memo.idle (r.book.questions r.symbols.size)).card * r.book.ruleCount <
          levels + r.book.ruleCount → ¬ GivesUp (r.answer levels deeper q memo))
    {q : Question} {memo : Memo} (hq : q ∈ r.book.questions r.symbols.size)
    (hf : memo.find? q = none) (holds : memo.Holds r Question.Spans)
    (enough : (memo.idle (r.book.questions r.symbols.size)).card * r.book.ruleCount <
      levels + 1 + r.book.ruleCount) :
    ¬ GivesUp ((r.search q).run (r.answer levels) (memo.record q .pending)) := by
  have fewer : ((memo.record q .pending).idle (r.book.questions r.symbols.size)).card + 1 ≤
      (memo.idle (r.book.questions r.symbols.size)).card := Memo.card_idle_record_lt hq hf
  have paid := Nat.mul_le_mul_right r.book.ruleCount fewer
  rw [Nat.add_one_mul] at paid
  refine Search.not_givesUp_run (G := fun memo' =>
    memo'.Holds r Question.Spans ∧ (memo.record q .pending).SameOpen memo')
    (fun deeper' q' memo' poses good => ?_) (fun deeper' q' memo' m memo'' poses good ha => ?_)
    (bounded_search hq) ⟨holds.record_pending q, .refl _⟩
  · refine ih poses.2 good.1 ?_
    rw [good.2.idle_eq]
    have := poses.1
    omega
  · have inBook : r.InBook q' := (RuleBook.mem_questions.1 poses.2).1
    obtain ⟨spans, holds'⟩ := answer_holds distinct closed_spans inBook good.1 ha
    exact ⟨spans, holds', good.2.trans (sameOpen_of_answer inBook ha)⟩

/-- **Levels suffice that count the rules once for each question not under way.**  The levels passed
    over are paid for by the question that is about to be searched for. -/
theorem not_givesUp_answer (distinct : r.book.Distinct) : ∀ {levels deeper : Nat} {q : Question}
    {memo : Memo}, q ∈ r.book.questions r.symbols.size → memo.Holds r Question.Spans →
      deeper + (memo.idle (r.book.questions r.symbols.size)).card * r.book.ruleCount <
        levels + r.book.ruleCount → ¬ GivesUp (r.answer levels deeper q memo) := by
  intro levels
  induction levels with
  | zero =>
    intro deeper q memo hq holds enough
    cases hf : memo.find? q with
    | some slot => exact not_givesUp_of_find? hf _ _
    | none =>
      have pos := Nat.zero_lt_of_lt (Memo.card_idle_record_lt hq hf)
      have := Nat.le_mul_of_pos_left r.book.ruleCount pos
      omega
  | succ levels ih =>
    intro deeper q memo hq holds enough
    cases deeper with
    | succ deeper => exact ih hq holds (by omega)
    | zero =>
      cases hf : memo.find? q with
      | some slot => exact not_givesUp_of_find? hf _ _
      | none =>
        simp only [answer, Memo.recall, hf]
        intro h
        rcases givesUp_bind.1 h with h | ⟨p, -, h⟩
        · exact not_givesUp_search distinct ih hq hf holds (by omega) h
        · exact not_givesUp_ok _ h

end Reader

/-! ## Rule books -/

namespace RuleBook

/-- **No text is too deep,** whatever cycles there are among the rule sets: a limit suffices that
    counts the rules once for each question about the text. -/
theorem not_givesUp_parse {description : Text} {book : RuleBook}
    (compiled : ofDescription description = .ok book) (t : Text) (set : Option Text)
    (context : Context) (lenient : Bool) {maxDepth : Nat}
    (enough : (book.questions (Reader.symbolsOf book lenient t).length).card * book.ruleCount ≤
      maxDepth) :
    ¬ GivesUp (book.parse t set context ⟨maxDepth, lenient⟩) := by
  intro h
  rcases givesUp_bind.1 h with h | ⟨s, hs, h⟩
  · exact book.not_givesUp_entry set h
  · rcases givesUp_bind.1 h with h | ⟨found, -, h⟩
    · rcases givesUp_bind.1 h with h | ⟨p, -, h⟩
      · -- nothing is under way yet when the question about the whole text is asked
        refine Reader.not_givesUp_answer (distinct_of_ofDescription compiled)
          (RuleBook.mem_questions.2 ⟨mem_of_entry hs, ?_, Nat.zero_le _, Nat.le_refl _⟩)
          (Memo.holds_empty _) ?_ h
        · simp [modes]
        · have idle_le := Finset.card_filter_le (book.questions (Reader.symbolsOf book lenient t).length)
            fun q => Memo.empty.find? q ≠ some .pending
          have counted := Nat.mul_le_mul_right book.ruleCount idle_le
          change 0 + (Memo.empty.idle (book.questions (Reader.symbolsOf book lenient t).length)).card *
            book.ruleCount < maxDepth + 1 + book.ruleCount
          unfold Memo.idle
          omega
      · exact not_givesUp_ok _ h
    · obtain ⟨_, _, h⟩ := h
      split at h <;> cases h

/-- Two sets that refer to one another are too deep for one level, and for 180 levels no more. -/
theorem not_givesUp_parse_cyclic :
    ofDescription "%few: none; one; =%many=; %many: 2: two; =%few=; 10: <%few<ty[->>];".toList =
        .ok cyclic ∧
      GivesUp (cyclic.parse "z".toList none {} ⟨1, true⟩) ∧
      (cyclic.questions (Reader.symbolsOf cyclic true "z".toList).length).card * cyclic.ruleCount ≤
        180 ∧
      ¬ GivesUp (cyclic.parse "z".toList none {} ⟨180, true⟩) := by
  have compiled : ofDescription
      "%few: none; one; =%many=; %many: 2: two; =%few=; 10: <%few<ty[->>];".toList = .ok cyclic := by
    decide +kernel
  have deep : cyclic.parse "z".toList none {} ⟨1, true⟩ =
      .error (.depthExceeded "%few".toList 1) := by
    decide +kernel
  have enough : (cyclic.questions (Reader.symbolsOf cyclic true "z".toList).length).card *
      cyclic.ruleCount ≤ 180 := by
    decide +kernel
  exact ⟨compiled, ⟨_, _, deep⟩, enough, not_givesUp_parse compiled _ none {} true enough⟩

end RuleBook
end Spellout
