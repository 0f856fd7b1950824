/-
  What a memory changes.

  Without a memory a question is searched for each time it comes up, on whatever level.  If that comes
  to an end, the question never comes up while it is under way: it would come up again and again.  So
  a memory that holds true answers gives the same answer.

  * `Reader.fresh_mono`: more levels keep an answer;
  * `Reader.Settled`: a question has an answer without a memory;
  * `Memo.Sound`: the answers in a memory to settled questions are those without one;
  * `Reader.eq_of_answer`: with a sound memory, a settled question is given no other answer;
  * `Reader.answer_of_fresh`: and it is given this answer if the levels suffice;
  * `Reader.Arises.mayEnd`: a memory holds only what searches may end with, so that a question that
    leads to no others is given its answer (`Reader.exists_answer_of_done`).
-/
import Spellout.Proofs.Reading.Answer

namespace Spellout

variable {r : Reader} {shut : List Question}

namespace Reader

/-! ## Levels -/

theorem fresh_of_mem {q : Question} (h : q ∈ shut) :
    ∀ levels deeper : Nat, r.fresh shut levels deeper q = .ok none
  | 0, _ => by simp [fresh, h]
  | levels + 1, 0 => by simp [fresh, h]
  | levels + 1, deeper + 1 => fresh_of_mem h levels deeper

theorem fresh_zero {q : Question} (h : q ∉ shut) (deeper : Nat) (m : Option Match) :
    r.fresh shut 0 deeper q ≠ .ok m := by
  simp [fresh, h]

theorem fresh_succ_zero {q : Question} (h : q ∉ shut) (levels : Nat) :
    r.fresh shut (levels + 1) 0 q = (r.search q).eval (r.fresh shut levels) := by
  simp [fresh, h]

theorem fresh_succ : ∀ {levels deeper : Nat} {q : Question} {m : Option Match},
    r.fresh shut levels deeper q = .ok m → r.fresh shut (levels + 1) deeper q = .ok m
  | 0, deeper, q, m, h => by
    by_cases hq : q ∈ shut
    · rw [fresh_of_mem hq] at h ⊢
      exact h
    · exact absurd h (fresh_zero hq deeper m)
  | levels + 1, 0, q, m, h => by
    by_cases hq : q ∈ shut
    · rw [fresh_of_mem hq] at h ⊢
      exact h
    · rw [fresh_succ_zero hq] at h ⊢
      exact Search.eval_mono (fun _ _ _ => fresh_succ) h
  | levels + 1, deeper + 1, q, m, h => @fresh_succ levels deeper q m h

theorem fresh_mono {levels levels' deeper : Nat} {q : Question} {m : Option Match}
    (le : levels ≤ levels') (h : r.fresh shut levels deeper q = .ok m) :
    r.fresh shut levels' deeper q = .ok m := by
  induction le with
  | refl => exact h
  | step _ ih => exact fresh_succ ih

/-- Whatever the levels are, there is one answer. -/
theorem fresh_unique {levels levels' deeper : Nat} {q : Question} {m m' : Option Match}
    (h : r.fresh shut levels deeper q = .ok m) (h' : r.fresh shut levels' deeper q = .ok m') :
    m = m' := by
  have := fresh_mono (Nat.le_max_left levels levels') h
  rw [fresh_mono (Nat.le_max_right levels levels') h'] at this
  exact (Except.ok.inj this).symm

/-- There is a least level on which a question has an answer. -/
theorem exists_least_level {q : Question} (hq : q ∉ shut) {m : Option Match} :
    ∀ {levels : Nat}, r.fresh shut levels 0 q = .ok m →
      ∃ k < levels, r.fresh shut (k + 1) 0 q = .ok m ∧ ∀ m', r.fresh shut k 0 q ≠ .ok m'
  | 0, h => absurd h (fresh_zero hq 0 m)
  | levels + 1, h => by
    by_cases below : ∃ m', r.fresh shut levels 0 q = .ok m'
    · obtain ⟨m', h'⟩ := below
      obtain rfl := fresh_unique h h'
      obtain ⟨k, lt, hk⟩ := exists_least_level hq h'
      exact ⟨k, by omega, hk⟩
    · exact ⟨levels, by omega, h, fun m' h' => below ⟨m', h'⟩⟩

end Reader

/-- The question has an answer without a memory, if there are levels enough. -/
def Reader.Settled (r : Reader) (shut : List Question) (q : Question) : Prop :=
  ∃ levels m, r.fresh shut levels 0 q = .ok m

/-! ## Sound memories -/

namespace Memo

/-- Settled questions have their answers without a memory, and questions that are shut are under
    way. -/
structure Sound (memo : Memo) (r : Reader) (shut : List Question) : Prop where
  answered : memo.Holds r fun q m => ∀ levels m', r.fresh shut levels 0 q = .ok m' → m = m'
  shut : ∀ q ∈ shut, memo.find? q = some .pending

/-- Questions under way have no answer on the given number of levels, unless they are shut. -/
def Ahead (memo : Memo) (r : Reader) (shut : List Question) (levels : Nat) : Prop :=
  ∀ q, r.InBook q → memo.find? q = some .pending → q ∉ shut → ∀ m, r.fresh shut levels 0 q ≠ .ok m

/-- The later memory knows more only of settled questions, and these have been answered. -/
def Settles (memo memo' : Memo) (r : Reader) (shut : List Question) : Prop :=
  ∀ q, r.InBook q → memo'.find? q = memo.find? q ∨
    (r.Settled shut q ∧ memo.find? q = none ∧ ∃ m, memo'.find? q = some (.answered m))

theorem Settles.refl (memo : Memo) : memo.Settles memo r shut := fun _ _ => .inl rfl

theorem Settles.trans {memo memo₁ memo₂ : Memo} (h : memo.Settles memo₁ r shut)
    (h' : memo₁.Settles memo₂ r shut) : memo.Settles memo₂ r shut := by
  intro q hq
  rcases h' q hq with eq | ⟨settled, new, hm⟩
  · rw [eq]
    exact h q hq
  · rcases h q hq with eq | ⟨-, -, m, hm'⟩
    · exact .inr ⟨settled, eq ▸ new, hm⟩
    · rw [hm'] at new
      cases new

theorem Settles.pending {memo memo' : Memo} (h : memo.Settles memo' r shut) {q : Question}
    (hq : r.InBook q) : memo'.find? q = some .pending ↔ memo.find? q = some .pending := by
  rcases h q hq with eq | ⟨-, new, m, hm⟩
  · rw [eq]
  · simp [new, hm]

theorem Ahead.mono {memo : Memo} {levels levels' : Nat} (h : memo.Ahead r shut levels')
    (le : levels ≤ levels') : memo.Ahead r shut levels :=
  fun q hq hp hs m hm => h q hq hp hs m (Reader.fresh_mono le hm)

theorem Ahead.settles {memo memo' : Memo} {levels : Nat} (h : memo.Ahead r shut levels)
    (settles : memo.Settles memo' r shut) : memo'.Ahead r shut levels :=
  fun q hq hp => h q hq ((settles.pending hq).1 hp)

variable {memo : Memo} {q : Question} {m : Option Match}

theorem Ahead.record_pending (distinct : r.book.Distinct) {levels : Nat}
    (h : memo.Ahead r shut levels) (hq : r.InBook q) (none : ∀ m, r.fresh shut levels 0 q ≠ .ok m) :
    (memo.record q .pending).Ahead r shut levels := by
  intro q' hq' hp hs
  by_cases hqq : q = q'
  · exact hqq ▸ none
  · rw [find?_record_of_ne distinct hq hq' hqq] at hp
    exact h q' hq' hp hs

theorem Sound.record_pending (h : memo.Sound r shut) (q : Question) :
    (memo.record q .pending).Sound r shut where
  answered := h.answered.record_pending q
  shut q' hq' := by
    rw [find?_record]
    split
    · rfl
    · exact h.shut q' hq'

theorem Sound.record_answered (distinct : r.book.Distinct) (inBook : ∀ q ∈ shut, r.InBook q)
    (h : memo.Sound r shut) (hq : r.InBook q) (hs : q ∉ shut)
    (hm : ∀ levels m', r.fresh shut levels 0 q = .ok m' → m = m') :
    (memo.record q (.answered m)).Sound r shut where
  answered := h.answered.record_answered distinct hq hm
  shut q' hq' := by
    rw [find?_record_of_ne distinct hq (inBook q' hq') fun hqq => hs (hqq ▸ hq')]
    exact h.shut q' hq'

/-- A settled question that is new, is under way and is then answered. -/
theorem Settles.record {memo' : Memo} (distinct : r.book.Distinct) (hq : r.InBook q)
    (settled : r.Settled shut q) (new : memo.find? q = none)
    (h : (memo.record q .pending).Settles memo' r shut) :
    memo.Settles (memo'.record q (.answered m)) r shut := by
  intro q' hq'
  by_cases hqq : q = q'
  · subst hqq
    exact .inr ⟨settled, new, m, find?_record_self ..⟩
  · have := h q' hq'
    rwa [find?_record_of_ne distinct hq hq' hqq] at this ⊢

end Memo

namespace Reader

theorem fresh_zero_of_deeper : ∀ {levels deeper : Nat} {q : Question} {m : Option Match},
    r.fresh shut levels deeper q = .ok m → r.fresh shut levels 0 q = .ok m
  | _, 0, _, _, h => h
  | 0, _ + 1, _, _, h => h
  | _ + 1, _ + 1, _, _, h => fresh_succ (fresh_zero_of_deeper h)

/-- On its least level a question is searched for with answers on levels on which it has none. -/
theorem exists_search_ahead (distinct : r.book.Distinct) {q : Question} (hq : r.InBook q)
    (hs : q ∉ shut) {levels : Nat} {m : Option Match} (h : r.fresh shut levels 0 q = .ok m)
    {memo : Memo} (ahead : memo.Ahead r shut levels) :
    ∃ k < levels, (r.search q).eval (r.fresh shut k) = .ok m ∧
      (memo.record q .pending).Ahead r shut k := by
  obtain ⟨k, lt, hk, least⟩ := exists_least_level hs h
  rw [fresh_succ_zero hs] at hk
  exact ⟨k, lt, hk, (ahead.mono (by omega)).record_pending distinct hq least⟩

/-- **With a memory a settled question is given no other answer.**  The memory is sound, and the
    questions under way have no answer on the levels that this one needs. -/
theorem eq_of_answer (distinct : r.book.Distinct) (inBook : ∀ q ∈ shut, r.InBook q)
    (levels : Nat) : ∀ {deeper budget : Nat} {q : Question} {m n : Option Match} {memo memo' : Memo},
      r.InBook q → r.fresh shut levels 0 q = .ok m → memo.Sound r shut →
        memo.Ahead r shut levels → r.answer budget deeper q memo = .ok (n, memo') →
          n = m ∧ memo'.Sound r shut ∧ memo.Settles memo' r shut := by
  induction levels using Nat.strongRecOn with
  | ind levels ih =>
    intro deeper budget q m n memo memo' hq h sound ahead ha
    cases hf : memo.find? q with
    | some slot =>
      rw [answer_of_find? hf] at ha
      cases ha
      refine ⟨?_, sound, .refl _⟩
      cases slot with
      | answered m' => exact sound.answered q m' hq hf levels m h
      | pending =>
        by_cases hs : q ∈ shut
        · rw [fresh_of_mem hs] at h
          exact Except.ok.inj h
        · exact absurd h (ahead q hq hf hs m)
    | none =>
      have hs : q ∉ shut := fun hs => by simp [sound.shut q hs] at hf
      obtain ⟨-, memo₁, hrun, rfl⟩ := answer_of_new hf ha
      obtain ⟨k, lt, hk, aheadq⟩ := exists_search_ahead distinct hq hs h ahead
      obtain ⟨rfl, sound₁, settles₁⟩ := Search.run_eq_of_eval
        (G := fun memo' => memo'.Sound r shut ∧ (memo.record q .pending).Settles memo' r shut)
        (fun deeper q' m' n' memo' memo'' hq' good h' ha' => by
          obtain ⟨eq, sound'', settles''⟩ := ih k lt hq' (fresh_zero_of_deeper h') good.1
            (aheadq.settles good.2) ha'
          exact ⟨eq, sound'', good.2.trans settles''⟩)
        (asks_search hq) hk ⟨sound.record_pending q, .refl _⟩ hrun
      exact ⟨rfl, sound₁.record_answered distinct inBook hq hs fun _ _ => fresh_unique h,
        settles₁.record distinct hq ⟨_, _, h⟩ hf⟩

/-- **An answer without a memory is the answer with one,** on as many levels. -/
theorem answer_of_fresh (distinct : r.book.Distinct) (inBook : ∀ q ∈ shut, r.InBook q)
    (levels : Nat) : ∀ {deeper budget : Nat} {q : Question} {m : Option Match} {memo : Memo},
      r.InBook q → r.fresh shut levels deeper q = .ok m → levels ≤ budget → memo.Sound r shut →
        memo.Ahead r shut levels → ∃ memo', r.answer budget deeper q memo = .ok (m, memo') := by
  induction levels using Nat.strongRecOn with
  | ind levels ih =>
    intro deeper budget q m memo hq h le sound ahead
    cases hf : memo.find? q with
    | some slot =>
      have ha := answer_of_find? (r := r) hf budget deeper
      obtain ⟨eq, -⟩ := eq_of_answer distinct inBook levels hq (fresh_zero_of_deeper h) sound ahead ha
      exact ⟨memo, eq ▸ ha⟩
    | none =>
      have hs : q ∉ shut := fun hs => by simp [sound.shut q hs] at hf
      cases levels with
      | zero => exact absurd h (fresh_zero hs deeper m)
      | succ levels =>
        cases budget with
        | zero => omega
        | succ budget =>
          cases deeper with
          | succ deeper =>
            have h' : r.fresh shut levels deeper q = .ok m := h
            obtain ⟨memo', ha⟩ := ih levels (by omega) hq h' (show levels ≤ budget by omega) sound
              (ahead.mono (by omega))
            exact ⟨memo', ha⟩
          | zero =>
            obtain ⟨k, lt, hk, aheadq⟩ := exists_search_ahead distinct hq hs h ahead
            obtain ⟨memo₁, hrun, -⟩ := Search.run_of_eval
              (G := fun memo' => memo'.Sound r shut ∧
                (memo.record q .pending).Settles memo' r shut)
              (fun deeper q' m' memo' hq' good h' => by
                obtain ⟨memo'', ha⟩ := ih k (by omega) hq' h' (show k ≤ budget by omega) good.1
                  (aheadq.settles good.2)
                obtain ⟨-, sound'', settles''⟩ := eq_of_answer distinct inBook k hq'
                  (fresh_zero_of_deeper h') good.1 (aheadq.settles good.2) ha
                exact ⟨memo'', ha, sound'', good.2.trans settles''⟩)
              (asks_search hq) hk ⟨sound.record_pending q, .refl _⟩
            exact ⟨memo₁.record q (.answered m),
              Memo.recall_eq_ok.2 (.inr (.inr ⟨hf, memo₁, hrun, rfl⟩))⟩

/-- With nothing known yet, an answer without a memory is the answer. -/
theorem answer_empty_of_fresh (distinct : r.book.Distinct) {q : Question} (hq : r.InBook q)
    {levels budget : Nat} {m : Option Match} (h : r.fresh [] levels 0 q = .ok m)
    (le : levels ≤ budget) : ∃ memo, r.answer budget 0 q Memo.empty = .ok (m, memo) := by
  have sound : Memo.empty.Sound r [] := ⟨Memo.holds_empty r, by simp⟩
  have ahead : Memo.empty.Ahead r [] levels := fun q _ hp => by simp at hp
  exact answer_of_fresh distinct (by simp) levels hq h le sound ahead

/-- A set reads what it answers without a memory about the whole text. -/
theorem read_of_fresh (distinct : r.book.Distinct) {s : RuleSet} (hs : s ∈ r.book.sets)
    {levels k : Nat} {v : Binary64}
    (h : r.fresh [] levels 0 ⟨s, .full, 0, r.symbols.size⟩ = .ok (some ⟨v, k⟩))
    (le : levels ≤ r.limit + 1) (pos : 0 < k) : r.read s = .ok (some (v, r.bytesBefore k)) := by
  obtain ⟨memo, ha⟩ :=
    answer_empty_of_fresh distinct (q := ⟨s, .full, 0, r.symbols.size⟩) hs h le
  refine bind_eq_ok.2 ⟨_, ha, ?_⟩
  simp [pure, Except.pure, pos]

/-! ## Questions that lead to no others -/

/-- The search for the answer may end with this. -/
def MayEnd (r : Reader) (q : Question) (m : Option Match) : Prop :=
  (r.search q).Yields (fun _ _ => True) m

/-- **A memory that comes about in reading holds only what searches may end with.** -/
theorem Arises.mayEnd (distinct : r.book.Distinct) {memo : Memo} (h : r.Arises memo) :
    memo.Holds r r.MayEnd :=
  h.holds_of_search (Q := fun _ _ => True) distinct (fun _ _ _ => trivial) (fun _ => trivial)
    fun _ _ _ yields => yields.mono fun _ _ _ => trivial

/-- A question that leads to no others and is not under way is answered on one level; nothing else
    is under way afterwards. -/
theorem exists_answer_of_done (distinct : r.book.Distinct) {q : Question} (hq : r.InBook q)
    {m : Option Match} (done : r.search q = .done m) {memo : Memo} (arises : r.Arises memo)
    (idle : memo.find? q ≠ some .pending) (levels : Nat) :
    ∃ memo', r.answer (levels + 1) 0 q memo = .ok (m, memo') ∧ r.Arises memo' ∧
      ∀ q', memo'.find? q' = some .pending → memo.find? q' = some .pending := by
  cases hf : memo.find? q with
  | some slot =>
    cases slot with
    | pending => exact absurd hf idle
    | answered m' =>
      have ends := arises.mayEnd distinct q m' hq hf
      rw [MayEnd, done] at ends
      obtain rfl := Search.yields_done.1 ends
      exact ⟨memo, answer_of_find? hf _ _, arises, fun _ => id⟩
  | none =>
    have run : (r.search q).run (r.answer levels) (memo.record q .pending) =
        .ok (m, memo.record q .pending) := by
      rw [done]
      rfl
    have answered : r.answer (levels + 1) 0 q memo =
        .ok (m, (memo.record q .pending).record q (.answered m)) :=
      Memo.recall_eq_ok.2 (.inr (.inr ⟨hf, _, run, rfl⟩))
    refine ⟨_, answered, arises.answered hq answered, fun q' hq' => ?_⟩
    rw [Memo.find?_record, Memo.find?_record] at hq'
    split at hq'
    · cases hq'
    · exact hq'

end Reader
end Spellout
