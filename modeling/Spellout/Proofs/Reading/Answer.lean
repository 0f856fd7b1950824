/-
  Answers of a reader, with a memory and without one.

  * `Reader.asks_search`: a question about a set of the rule book leads to such questions only;
  * `Reader.answerBy` answers questions by other searches, and `Reader.answerBy_eq` says that nothing
    changes if these are the same for the sets of the rule book;
  * `Reader.fresh` answers a question without a memory; some questions may be shut, they have no
    match;
  * `Memo.Holds P`: all answers in a memory satisfy `P`;
  * `Reader.answer_of_find?`, `Reader.answer_of_new`: a question is answered from the memory, or it is
    searched for;
  * `Reader.Closed P`: `P` holds of an answer if it holds of the answers that it is made from;
  * `Reader.answer_holds`, `Reader.fresh_holds`: a closed predicate holds of all answers, those given
    while other questions are under way included (`Reader.answer_preserves`);
  * `Reader.Arises`, `Reader.Gives`: the memories and answers that may come about in reading
    (`Reader.Arises.holds_of_search`, `Reader.Gives.holds_of_search`);
  * `Reader.yields_of_run`: what a search ends with then, it may end with when questions are answered
    in such a way.
-/
import Spellout.Proofs.Reading.Special
import Spellout.Proofs.Reading.Trail
import Spellout.Proofs.RuleBook.Names

namespace Spellout

/-! ## Questions about sets of the rule book -/

namespace Reader

variable {r : Reader}

/-- The question is about a rule set of the book. -/
def InBook (r : Reader) (q : Question) : Prop := q.set ∈ r.book.sets

theorem asks_readTarget {owner : RuleSet} (h : owner ∈ r.book.sets) (deeper : Nat) (mode : Mode)
    (t : Target) (i j : Nat) : (r.readTarget deeper owner mode t i j).Asks r.InBook := by
  cases t with
  | owner => exact ⟨h, fun _ => trivial⟩
  | ruleSet name =>
    cases hs : r.book.resolve name with
    | ok s =>
      simp only [readTarget, hs]
      exact ⟨RuleBook.mem_of_resolve hs, fun _ => trivial⟩
    | error e =>
      simp only [readTarget, hs]
      trivial
  | numeral p => trivial

theorem asks_readDigitsFrom {s : RuleSet} (h : s ∈ r.book.sets) (spaced : Bool) (stop : Nat) :
    ∀ (fuel : Nat) (digits : Text) (place : Nat),
      (r.readDigitsFrom s spaced stop fuel digits place).Asks r.InBook
  | 0, _, _ => trivial
  | fuel + 1, digits, place => by
    unfold readDigitsFrom
    split
    · trivial
    · refine ⟨h, fun m => ?_⟩
      dsimp only
      split
      · trivial
      · split
        · trivial
        · exact asks_readDigitsFrom h spaced stop fuel _ _

theorem asks_readDigits {s : RuleSet} (h : s ∈ r.book.sets) (spaced : Bool) (i j : Nat) :
    (r.readDigits s spaced i j).Asks r.InBook :=
  Search.Asks.bind (asks_readDigitsFrom h _ _ _ _ _) fun _ => trivial

theorem asks_readNormal {s : RuleSet} (h : s ∈ r.book.sets) (rule : Rule) (bound : Option Nat)
    (deeper : Nat) {forced : (start stop : Nat) → Search (Option Match)}
    (hf : ∀ i j, (forced i j).Asks r.InBook) (sub : Substitution) (i j : Nat) :
    (r.readNormal s rule bound deeper forced sub i j).Asks r.InBook := by
  cases sub with
  | quotient t | same t => exact asks_readTarget h _ _ _ _ _
  | remainder t => exact Search.Asks.bind (asks_readTarget h _ _ _ _ _) fun _ => trivial
  | forced => exact hf i j

theorem asks_special {s : RuleSet} (h : s ∈ r.book.sets) {sub : Substitution} {digital : Prop}
    {x : Reader → (start stop : Nat) → Search (Option Match)} (reads : SpecialRead s sub digital x)
    (i j : Nat) : (x r i j).Asks r.InBook := by
  cases reads with
  | target mode t unbound named => exact asks_readTarget h _ _ _ _ _
  | default => exact asks_readTarget (RuleBook.default_mem h) _ _ _ _ _
  | digits spaced _ => exact asks_readDigits h _ _ _

theorem asks_matchRung {s : RuleSet} (h : s ∈ r.book.sets) :
    ∀ (ladder : List Rule) (bound : Option Nat) (deeper i j : Nat),
      (r.matchRung s ladder bound deeper i j).Asks r.InBook
  | [], _, _, _, _ => trivial
  | [rule], bound, deeper, _, _ =>
    asks_matchTemplate (asks_readNormal h rule bound deeper (asks_readTarget h _ _ _)) _ _ _
  | rule :: rule' :: below, bound, deeper, _, _ =>
    asks_matchTemplate
      (asks_readNormal h rule bound deeper (asks_matchRung h (rule' :: below) _ _)) _ _ _

theorem asks_matchCandidate {q : Question} (h : r.InBook q) (c : Candidate) :
    (r.matchCandidate q c).Asks r.InBook := by
  cases c with
  | negative t =>
    exact asks_matchTemplate (fun sub => asks_special h (special_readNegative _ sub)) _ _ _
  | fraction t =>
    exact asks_matchTemplate (fun sub => asks_special h (special_readFraction _ sub)) _ _ _
  | normal rule below => exact Search.Asks.bind (asks_matchRung h _ _ _ _ _) fun _ => trivial
  | numerator rule =>
    exact asks_matchTemplate (fun sub => asks_special h (special_readNumerator _ sub)) _ _ _

/-- **A question about a set of the book leads to such questions only.** -/
theorem asks_search {q : Question} (h : r.InBook q) : (r.search q).Asks r.InBook :=
  Search.asks_longest _ fun c _ => asks_matchCandidate h c

/-! ## Other searches -/

/-- Answers a question as `answer` does, by other searches: one for each number of levels that are
    left below the question. -/
def answerBy (r : Reader) (search : Nat → Question → Search (Option Match)) :
    (levels deeper : Nat) → Question → Remembered (Option Match)
  | 0, _, q => Memo.recall q (r.refuse q)
  | levels + 1, 0, q => Memo.recall q fun memo => (search levels q).run (r.answerBy search levels) memo
  | levels + 1, deeper + 1, q => r.answerBy search levels deeper q

/-- A reader with the same limit answers by its own searches. -/
theorem answer_eq_answerBy {r' : Reader} (limit : r'.limit = r.limit) :
    ∀ levels deeper : Nat, r'.answer levels deeper = r.answerBy (fun _ => r'.search) levels deeper
  | 0, _ => by
    funext q memo
    simp only [answer, answerBy, Memo.recall, refuse, limit]
  | levels + 1, 0 => by
    have deeper : r'.answer levels = r.answerBy (fun _ => r'.search) levels :=
      funext (answer_eq_answerBy limit levels)
    funext q
    simp only [answer, answerBy, deeper]
  | levels + 1, deeper + 1 => answer_eq_answerBy limit levels deeper

/-- **Searches that are the same for the sets of the rule book give the same answers.** -/
theorem answerBy_eq {search : Nat → Question → Search (Option Match)}
    (same : ∀ levels q, r.InBook q → search levels q = r.search q) :
    ∀ (levels deeper : Nat) {q : Question} (memo : Memo), r.InBook q →
      r.answerBy search levels deeper q memo = r.answer levels deeper q memo
  | 0, _, _, _, _ => rfl
  | levels + 1, 0, q, memo, hq => by
    have run : (fun memo => (search levels q).run (r.answerBy search levels) memo) =
        fun memo => (r.search q).run (r.answer levels) memo := by
      funext memo
      rw [same levels q hq]
      exact Search.run_congr (A := r.InBook)
        (fun deeper q memo hq => answerBy_eq same levels deeper memo hq) (asks_search hq) memo
    simp only [answerBy, answer, run]
  | levels + 1, deeper + 1, _, memo, hq => answerBy_eq same levels deeper memo hq

/-- Questions of the book with one code are the same. -/
theorem InBook.eq_of_code (distinct : r.book.Distinct) {q q' : Question} (h : r.InBook q)
    (h' : r.InBook q') (code : q.code = q'.code) : q = q' := by
  obtain ⟨hi, hj, hm, hn⟩ := Question.code_eq_iff.1 code
  have hs := distinct.eq h h' hn
  cases q; cases q'
  simp only [Question.mk.injEq]
  exact ⟨hs, hm, hi, hj⟩

/-! ## Without a memory -/

/-- The answer to a question without a memory: `levels` are left, and `deeper` of them are passed
    over.  Questions that are `shut` have no match. -/
def fresh (r : Reader) (shut : List Question) :
    (levels deeper : Nat) → Question → Except Error (Option Match)
  | 0, _, q => if q ∈ shut then .ok none else .error (.depthExceeded q.set.name r.limit)
  | levels + 1, 0, q => if q ∈ shut then .ok none else (r.search q).eval (r.fresh shut levels)
  | levels + 1, deeper + 1, q => r.fresh shut levels deeper q

end Reader

/-! ## Memories -/

namespace Memo

/-- All answers in the memory satisfy `P`, as far as they are about sets of the book. -/
def Holds (memo : Memo) (r : Reader) (P : Question → Option Match → Prop) : Prop :=
  ∀ q m, r.InBook q → memo.find? q = some (.answered m) → P q m

theorem holds_empty (r : Reader) : Memo.empty.Holds r P := by
  intro q m _ h
  simp at h

theorem find?_record_self (memo : Memo) (q : Question) (slot : Slot) :
    (memo.record q slot).find? q = some slot := by
  simp [find?_record]

theorem find?_record_of_ne {r : Reader} (distinct : r.book.Distinct) {q q' : Question}
    (h : r.InBook q) (h' : r.InBook q') (ne : q ≠ q') (memo : Memo) (slot : Slot) :
    (memo.record q slot).find? q' = memo.find? q' := by
  rw [find?_record, if_neg fun code => ne (h.eq_of_code distinct h' code)]

theorem Holds.record_pending {memo : Memo} {r : Reader} (h : memo.Holds r P) (q : Question) :
    (memo.record q .pending).Holds r P := by
  intro q' m hq' hm
  rw [find?_record] at hm
  split at hm
  · cases hm
  · exact h q' m hq' hm

theorem Holds.record_answered {memo : Memo} {r : Reader} (distinct : r.book.Distinct)
    (h : memo.Holds r P) {q : Question} {m : Option Match} (hq : r.InBook q) (hm : P q m) :
    (memo.record q (.answered m)).Holds r P := by
  intro q' m' hq' hm'
  by_cases hqq : q = q'
  · subst hqq
    rw [find?_record_self] at hm'
    cases hm'; exact hm
  · rw [find?_record_of_ne distinct hq hq' hqq] at hm'
    exact h q' m' hq' hm'

/-- The three ways to an answer: the question is under way, it has been answered, or it is new. -/
theorem recall_eq_ok {q : Question} {answer : Remembered (Option Match)} {memo memo' : Memo}
    {m : Option Match} : Memo.recall q answer memo = .ok (m, memo') ↔
      (memo.find? q = some .pending ∧ m = none ∧ memo' = memo) ∨
      (memo.find? q = some (.answered m) ∧ memo' = memo) ∨
      (memo.find? q = none ∧ ∃ memo₁, answer (memo.record q .pending) = .ok (m, memo₁) ∧
        memo' = memo₁.record q (.answered m)) := by
  unfold Memo.recall
  cases hf : memo.find? q with
  | none =>
    constructor
    · intro h
      obtain ⟨⟨n, memo₁⟩, ha, h⟩ := bind_eq_ok.1 h
      obtain ⟨rfl, rfl⟩ := Prod.mk.inj (Except.ok.inj h)
      exact .inr (.inr ⟨rfl, memo₁, ha, rfl⟩)
    · rintro (⟨h, -⟩ | ⟨h, -⟩ | ⟨-, memo₁, ha, rfl⟩)
      · cases h
      · cases h
      · exact bind_eq_ok.2 ⟨(m, memo₁), ha, rfl⟩
  | some slot =>
    cases slot with
    | pending => simp [eq_comm]
    | answered n => simp [eq_comm]

end Memo

/-! ## Ways to an answer -/

/-- The answer that a memory gives to a question it knows. -/
def Slot.reply : Slot → Option Match
  | .pending => none
  | .answered m => m

namespace Reader

variable {r : Reader}

/-- What the memory knows is answered from it on any level. -/
theorem answer_of_find? {q : Question} {memo : Memo} {slot : Slot} (h : memo.find? q = some slot) :
    ∀ levels deeper : Nat, r.answer levels deeper q memo = .ok (slot.reply, memo)
  | 0, _ | _ + 1, 0 => by
    cases slot <;> simp [answer, Memo.recall, h, Slot.reply]
  | levels + 1, deeper + 1 => answer_of_find? h levels deeper

/-- What the memory does not know is searched for, on the levels that are left. -/
theorem answer_of_new {q : Question} {memo memo' : Memo} {m : Option Match}
    (new : memo.find? q = none) : ∀ {levels deeper : Nat},
      r.answer levels deeper q memo = .ok (m, memo') → deeper < levels ∧ ∃ memo₁,
        (r.search q).run (r.answer (levels - deeper - 1)) (memo.record q .pending) = .ok (m, memo₁) ∧
          memo' = memo₁.record q (.answered m)
  | 0, _, h => by
    rcases Memo.recall_eq_ok.1 h with ⟨hp, -⟩ | ⟨hm, -⟩ | ⟨-, _, hrun, -⟩
    · simp [new] at hp
    · simp [new] at hm
    · cases hrun
  | levels + 1, 0, h => by
    rcases Memo.recall_eq_ok.1 h with ⟨hp, -⟩ | ⟨hm, -⟩ | ⟨-, memo₁, hrun, hmemo⟩
    · simp [new] at hp
    · simp [new] at hm
    · exact ⟨Nat.succ_pos levels, memo₁, hrun, hmemo⟩
  | levels + 1, deeper + 1, h => by
    have h' : r.answer levels deeper q memo = .ok (m, memo') := h
    obtain ⟨lt, rest⟩ := answer_of_new new h'
    have eq : levels + 1 - (deeper + 1) - 1 = levels - deeper - 1 := by omega
    exact ⟨by omega, eq ▸ rest⟩

/-- What holds of a memory stays true of it while a question is answered, if it is true again when the
    question is under way and when it has been answered. -/
theorem answer_keeps {G : Memo → Prop} (pending : ∀ memo q, G memo → G (memo.record q .pending))
    (answered : ∀ memo q m, G memo → G (memo.record q (.answered m))) : ∀ {levels deeper : Nat}
      {q : Question} {memo memo' : Memo} {m : Option Match}, r.InBook q → G memo →
        r.answer levels deeper q memo = .ok (m, memo') → G memo' := by
  intro levels
  induction levels using Nat.strongRecOn with
  | ind levels ih =>
    intro deeper q memo memo' m hq good h
    cases hf : memo.find? q with
    | some slot =>
      rw [answer_of_find? hf] at h
      cases h
      exact good
    | none =>
      obtain ⟨lt, memo₁, hrun, rfl⟩ := answer_of_new hf h
      have run := Search.run_yields (P := fun _ _ => True) (G := G)
        (fun _ _ _ _ _ hq' good h' => ⟨trivial, ih _ (by omega) hq' good h'⟩) (asks_search hq)
        (pending memo q good) hrun
      exact answered memo₁ q m run.2

/-! ## Predicates that hold of all answers -/

/-- The predicate holds where there is no match, and of what a search ends with when it holds of the
    answers on the way. -/
structure Closed (r : Reader) (P : Question → Option Match → Prop) : Prop where
  none : ∀ q, P q none
  search : ∀ q m, (r.search q).Yields P m → P q m

/-- The reader gives this answer, with some memory that satisfies `G`. -/
def GivesWith (r : Reader) (G : Memo → Prop) (q : Question) (m : Option Match) : Prop :=
  r.InBook q ∧ ∃ memo memo' levels deeper, G memo ∧ r.answer levels deeper q memo = .ok (m, memo')

/-- **What holds of all answers with a memory.**  A predicate `Q` holds of them, and `P` stays true of
    the memory, if `Q` holds where there is no match and where `P` does, and `P` of what a search ends
    with when the answers on the way satisfy `Q` and are given with memories that satisfy `G`. -/
theorem answer_preserves {P Q : Question → Option Match → Prop} (distinct : r.book.Distinct)
    {G : Memo → Prop}
    (pending : ∀ memo q, G memo → G (memo.record q .pending))
    (answered : ∀ memo memo' levels deeper q m, G memo → r.InBook q →
      r.answer levels deeper q memo = .ok (m, memo') → G memo')
    (weaken : ∀ q m, P q m → Q q m) (none : ∀ q, Q q none)
    (search : ∀ q m, r.InBook q →
      (r.search q).Yields (fun q m => r.GivesWith G q m ∧ Q q m) m → P q m) :
    ∀ {levels deeper : Nat} {q : Question} {memo : Memo} {m : Option Match} {memo' : Memo},
      r.InBook q → G memo → memo.Holds r P → r.answer levels deeper q memo = .ok (m, memo') →
        Q q m ∧ memo'.Holds r P := by
  intro levels
  induction levels using Nat.strongRecOn with
  | ind levels ih =>
    intro deeper q memo m memo' hq good holds h
    cases hf : memo.find? q with
    | some slot =>
      rw [answer_of_find? hf] at h
      cases h
      cases slot with
      | pending => exact ⟨none q, holds⟩
      | answered m => exact ⟨weaken q m (holds q m hq hf), holds⟩
    | none =>
      -- the answers on the way come from the levels below
      obtain ⟨lt, memo₁, hrun, rfl⟩ := answer_of_new hf h
      obtain ⟨hy, -, holds₁⟩ := Search.run_yields (A := r.InBook)
        (P := fun q m => r.GivesWith G q m ∧ Q q m) (G := fun memo => G memo ∧ memo.Holds r P)
        (fun deeper' q' memo m' memo' hq' good' h' => by
          obtain ⟨hp, holds'⟩ := ih _ (by omega) hq' good'.1 good'.2 h'
          exact ⟨⟨⟨hq', memo, memo', _, deeper', good'.1, h'⟩, hp⟩,
            answered _ _ _ _ _ _ good'.1 hq' h', holds'⟩)
        (asks_search hq) ⟨pending _ q good, holds.record_pending q⟩ hrun
      have hm := search q m hq hy
      exact ⟨weaken q m hm, holds₁.record_answered distinct hq hm⟩

/-- **A closed predicate holds of every answer with a memory,** and stays true of the memory. -/
theorem answer_holds (distinct : r.book.Distinct) (closed : r.Closed P) {levels deeper : Nat}
    {q : Question} {memo : Memo} {m : Option Match} {memo' : Memo} (hq : r.InBook q)
    (holds : memo.Holds r P) (h : r.answer levels deeper q memo = .ok (m, memo')) :
    P q m ∧ memo'.Holds r P :=
  answer_preserves distinct (G := fun _ => True) (fun _ _ _ => trivial)
    (fun _ _ _ _ _ _ _ _ _ => trivial) (fun _ _ => id) closed.none
    (fun q m _ hy => closed.search q m (hy.mono fun _ _ h => h.2)) hq trivial holds h

/-- A closed predicate holds of every answer without a memory. -/
theorem fresh_holds (closed : r.Closed P) {shut : List Question} :
    ∀ {levels deeper : Nat} {q : Question} {m : Option Match},
      r.fresh shut levels deeper q = .ok m → P q m := by
  intro levels
  induction levels with
  | zero =>
    intro deeper q m h
    simp only [fresh] at h
    split at h
    · cases h; exact closed.none q
    · cases h
  | succ levels ih =>
    intro deeper q m h
    cases deeper with
    | succ deeper => exact ih h
    | zero =>
      simp only [fresh] at h
      split at h
      · cases h; exact closed.none q
      · exact closed.search q m (Search.yields_of_eval (fun _ _ _ h' => ih h') h)

/-! ## Answers that may come about -/

/-- The memory may come about in reading: questions have been noted as under way, and answered. -/
inductive Arises (r : Reader) : Memo → Prop
  | empty : Arises r Memo.empty
  | pending {memo : Memo} (q : Question) : Arises r memo → Arises r (memo.record q .pending)
  | answered {memo memo' : Memo} {levels deeper : Nat} {q : Question} {m : Option Match} :
      Arises r memo → r.InBook q → r.answer levels deeper q memo = .ok (m, memo') → Arises r memo'

/-- The reader gives this answer, with some memory that may come about. -/
def Gives (r : Reader) (q : Question) (m : Option Match) : Prop :=
  r.InBook q ∧ ∃ memo memo' levels deeper,
    r.Arises memo ∧ r.answer levels deeper q memo = .ok (m, memo')

section
variable {P Q : Question → Option Match → Prop} (distinct : r.book.Distinct)
  (weaken : ∀ q m, P q m → Q q m) (none : ∀ q, Q q none)
  (search : ∀ q m, r.InBook q → (r.search q).Yields (fun q m => r.Gives q m ∧ Q q m) m → P q m)
include distinct weaken none search

theorem Arises.preserves {memo memo' : Memo} (arises : r.Arises memo) (holds : memo.Holds r P)
    {q : Question} (hq : r.InBook q) {levels deeper : Nat} {m : Option Match}
    (ha : r.answer levels deeper q memo = .ok (m, memo')) : Q q m ∧ memo'.Holds r P :=
  answer_preserves distinct (fun _ q arises => arises.pending q)
    (fun _ _ _ _ _ _ arises hq ha => arises.answered hq ha) weaken none search hq arises holds ha

/-- A memory that may come about holds what searches end with when the answers on the way are given
    and satisfy `Q`. -/
theorem Arises.holds_of_search {memo : Memo} (arises : r.Arises memo) : memo.Holds r P := by
  induction arises with
  | empty => exact Memo.holds_empty r
  | pending q _ ih => exact ih.record_pending q
  | answered arises hq ha ih => exact (arises.preserves distinct weaken none search ih hq ha).2

/-- A predicate holds of all answers that are given, if it holds where there is no match and of what a
    search ends with when the answers on the way are given and satisfy it. -/
theorem Gives.holds_of_search {q : Question} {m : Option Match} (h : r.Gives q m) : Q q m := by
  obtain ⟨hq, memo, memo', levels, deeper, arises, ha⟩ := h
  have holds := arises.holds_of_search distinct weaken none search
  exact (arises.preserves distinct weaken none search holds hq ha).1

end

/-- A closed predicate holds of all answers that are given. -/
theorem Gives.holds (distinct : r.book.Distinct) (closed : r.Closed P) {q : Question}
    {m : Option Match} (h : r.Gives q m) : P q m :=
  h.holds_of_search distinct (fun _ _ => id) closed.none
    fun q m _ hy => closed.search q m (hy.mono fun _ _ h => h.2)

/-- **What a search ends with is made of answers that are given.** -/
theorem yields_of_run {α : Type} {x : Search α} {levels : Nat} {memo memo' : Memo} {a : α}
    (asks : x.Asks r.InBook) (arises : r.Arises memo)
    (hx : x.run (r.answer levels) memo = .ok (a, memo')) : x.Yields r.Gives a ∧ r.Arises memo' :=
  Search.run_yields (G := r.Arises)
    (fun _ _ _ _ _ hq good ha => ⟨⟨hq, _, _, _, _, good, ha⟩, good.answered hq ha⟩) asks arises hx

end Reader
end Spellout
