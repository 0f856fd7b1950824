/-
  The questions that reading a text leads to.

  Whatever the text is, rules ask about sets of the book, in a few modes, about stretches of the text.
  So there are finitely many questions.  A chain of `>>>` goes down the ladder of a set; a question at
  its end is asked fewer levels deeper than the set has rules.

  * `RuleBook.questions` are the questions about a text of a given length;
  * `Search.Bounded`: what a search asks, as long as answers satisfy a predicate;
  * `Reader.bounded_search`: a question of the book leads to such questions only, as long as matches
    lie inside their stretches.
-/
import Mathlib.Data.Finset.Card
import Spellout.Proofs.GivesUp
import Spellout.Proofs.Reading.Soundness
import Spellout.Proofs.Reading.Span
import Spellout.Proofs.RuleBook.Rules

namespace Spellout

/-! ## Questions -/

namespace RuleBook

/-- The modes in which rules of the book ask: with their divisors as bounds, and for digits. -/
def modes (book : RuleBook) : List Mode :=
  [.full, .denominators, .integer none, .integer (some 10)] ++
    (book.sets.flatMap RuleSet.ladder).map fun rule => .integer (some rule.divisor)

/-- The stretches of a text of `size` symbols. -/
def stretches (size : Nat) : List (Nat × Nat) :=
  (List.range (size + 1)).flatMap fun i => (List.range' i (size + 1 - i)).map fun j => (i, j)

/-- The questions about a text of `size` symbols: a set, a mode, and a stretch. -/
def questions (book : RuleBook) (size : Nat) : Finset Question :=
  (book.sets.flatMap fun s => book.modes.flatMap fun mode =>
    (stretches size).map fun p => ⟨s, mode, p.1, p.2⟩).toFinset

theorem mem_stretches {size i j : Nat} : (i, j) ∈ stretches size ↔ i ≤ j ∧ j ≤ size := by
  simp only [stretches, List.mem_flatMap, List.mem_map, List.mem_range, List.mem_range'_1,
    Prod.mk.injEq]
  constructor
  · rintro ⟨_, _, _, _, rfl, rfl⟩
    omega
  · intro h
    exact ⟨i, by omega, j, by omega, rfl, rfl⟩

theorem mem_questions {book : RuleBook} {size : Nat} {q : Question} :
    q ∈ book.questions size ↔
      q.set ∈ book.sets ∧ q.mode ∈ book.modes ∧ q.start ≤ q.stop ∧ q.stop ≤ size := by
  simp only [questions, List.mem_toFinset, List.mem_flatMap, List.mem_map]
  constructor
  · rintro ⟨s, hs, mode, hm, ⟨i, j⟩, hp, rfl⟩
    exact ⟨hs, hm, mem_stretches.1 hp⟩
  · rintro ⟨hs, hm, hp⟩
    exact ⟨q.set, hs, q.mode, hm, (q.start, q.stop), mem_stretches.2 hp, rfl⟩

theorem mem_modes_of_mem {book : RuleBook} {s : RuleSet} (hs : s ∈ book.sets) {rule : Rule}
    (h : rule ∈ s.ladder) : .integer (some rule.divisor) ∈ book.modes :=
  List.mem_append_right _ (List.mem_map.2 ⟨rule, List.mem_flatMap.2 ⟨s, hs, h⟩, rfl⟩)

theorem mem_modes_of_unbound (book : RuleBook) {mode : Mode} (h : mode.bound? = none) :
    mode ∈ book.modes := by
  cases mode with
  | full | denominators => simp [modes]
  | integer bound =>
    obtain rfl : bound = none := h
    simp [modes]

end RuleBook

/-! ## Searches -/

namespace Search

variable {α β : Type} {P : Question → Option Match → Prop} {A : Nat → Question → Prop}

/-- As long as answers satisfy `P`, the questions of the search and their levels satisfy `A`; the
    search does not give up by itself. -/
def Bounded (P : Question → Option Match → Prop) (A : Nat → Question → Prop) : Search α → Prop
  | .done _ => True
  | .fail e => ¬ GivesUp (α := α) (.error e)
  | .ask deeper q next => A deeper q ∧ ∀ m, P q m → (next m).Bounded P A

theorem Bounded.bind {x : Search α} {f : α → Search β} (hx : x.Bounded P A)
    (hf : ∀ a, (f a).Bounded P A) : (x.bind f).Bounded P A := by
  induction x with
  | done a => exact hf a
  | fail e =>
    rintro ⟨name, limit, h⟩
    cases h
    exact hx ⟨name, limit, rfl⟩
  | ask deeper q next ih => exact ⟨hx.1, fun m hm => ih m (hx.2 m hm)⟩

theorem bounded_longest {f : β → Search (Option Match)} : ∀ {l : List β} (best : Option Match),
    (∀ b ∈ l, (f b).Bounded P A) → (longest f l best).Bounded P A
  | [], _, _ => trivial
  | b :: rest, best, h =>
    Bounded.bind (h b (by simp)) fun m =>
      bounded_longest (Match.longer best m) fun b' hb' => h b' (by simp [hb'])

theorem bounded_overSplits {stop : Nat} {attempt : Nat → Search (Option Progress)} :
    ∀ {splits : List Nat} (best : Option Progress), (∀ split ∈ splits, (attempt split).Bounded P A) →
      (overSplits stop attempt splits best).Bounded P A
  | [], _, _ => trivial
  | split :: rest, best, h => Bounded.bind (h split (by simp)) fun p => by
      dsimp only
      split
      · trivial
      · exact bounded_overSplits _ fun split' hs' => h split' (by simp [hs'])

end Search

/-! ## Rules -/

namespace Reader

variable {r : Reader}

/-- A question about the text of the reader, fewer levels deeper than there are rules. -/
def Poses (r : Reader) (deeper : Nat) (q : Question) : Prop :=
  deeper < r.book.ruleCount ∧ q ∈ r.book.questions r.symbols.size

/-- Substitutions lead to questions about the text only. -/
def ReadsBounded (r : Reader) (read : SubReader) : Prop :=
  ∀ sub i j, i ≤ j → j ≤ r.symbols.size → (read sub i j).Bounded Question.Spans r.Poses

theorem bounded_matchElements {read : SubReader} (h : r.ReadsBounded read) {stop : Nat}
    (hstop : stop ≤ r.symbols.size) (els : List Element) (place : Nat) (parts : Parts)
    (hplace : place ≤ stop) :
    (r.matchElements read stop els place parts).Bounded Question.Spans r.Poses := by
  fun_induction matchElements r read stop els place parts with
  | case1 | case3 => trivial
  | case2 l rest place parts next hl ih => exact ih (within_matchLiteral? hl hplace).2
  | case4 sub place parts => exact Search.Bounded.bind (h _ _ _ hplace hstop) fun _ => trivial
  | case5 sub rest place parts ne ih =>
    refine Search.bounded_overSplits _ fun split hs => ?_
    have range := List.mem_range'_1.1 hs
    split
    · refine Search.Bounded.bind (h _ _ _ range.1 (by omega)) fun m => ?_
      split
      · exact ih _ _ (by omega)
      · trivial
    · trivial

theorem bounded_matchTemplate {read : SubReader} (h : r.ReadsBounded read)
    (value : Parts → Binary64) (t : Template) {i j : Nat} (hij : i ≤ j)
    (hj : j ≤ r.symbols.size) :
    (r.matchTemplate read value t i j).Bounded Question.Spans r.Poses :=
  Search.bounded_longest _ fun _ _ =>
    Search.Bounded.bind (bounded_matchElements h hj _ _ _ hij) fun _ => trivial

theorem bounded_readTarget {owner : RuleSet} (hs : owner ∈ r.book.sets) {mode : Mode}
    (hm : mode ∈ r.book.modes) {deeper : Nat} (hd : deeper < r.book.ruleCount) (t : Target)
    {i j : Nat} (hij : i ≤ j) (hj : j ≤ r.symbols.size) :
    (r.readTarget deeper owner mode t i j).Bounded Question.Spans r.Poses := by
  cases t with
  | owner => exact ⟨⟨hd, RuleBook.mem_questions.2 ⟨hs, hm, hij, hj⟩⟩, fun _ _ => trivial⟩
  | ruleSet name =>
    cases hr : r.book.resolve name with
    | ok s =>
      simp only [readTarget, hr]
      exact ⟨⟨hd, RuleBook.mem_questions.2 ⟨RuleBook.mem_of_resolve hr, hm, hij, hj⟩⟩,
        fun _ _ => trivial⟩
    | error e =>
      simp only [readTarget, hr]
      rintro ⟨name', limit, h⟩
      cases h
      exact r.book.not_givesUp_resolve name ⟨name', limit, hr⟩
  | numeral p => trivial

theorem bounded_readDigitsFrom {s : RuleSet} (hs : s ∈ r.book.sets) (hd : 0 < r.book.ruleCount)
    (spaced : Bool) {stop : Nat} (hstop : stop ≤ r.symbols.size) :
    ∀ (fuel : Nat) (digits : Text) (place : Nat), place ≤ stop →
      (r.readDigitsFrom s spaced stop fuel digits place).Bounded Question.Spans r.Poses
  | 0, _, _, _ => trivial
  | fuel + 1, digits, place, hplace => by
    have hm : .integer (some 10) ∈ r.book.modes := by simp [RuleBook.modes]
    unfold readDigitsFrom
    split
    · trivial
    · rename_i start hstart
      have start_le := (within_digitStart? hstart hplace).2
      refine ⟨⟨hd, RuleBook.mem_questions.2 ⟨hs, hm, start_le, hstop⟩⟩, fun m spans => ?_⟩
      dsimp only
      split
      · trivial
      · rename_i n
        split
        · trivial
        · -- the next digit starts where the match of this one ends
          exact bounded_readDigitsFrom hs hd spaced hstop fuel _ _ (spans start_le n rfl).2

theorem bounded_readDigits {s : RuleSet} (hs : s ∈ r.book.sets) (hd : 0 < r.book.ruleCount)
    (spaced : Bool) {i j : Nat} (hij : i ≤ j) (hj : j ≤ r.symbols.size) :
    (r.readDigits s spaced i j).Bounded Question.Spans r.Poses :=
  Search.Bounded.bind (bounded_readDigitsFrom hs hd spaced hj _ _ _ hij) fun _ => trivial

theorem readsBounded_readNormal {s : RuleSet} (hs : s ∈ r.book.sets) {rule : Rule}
    (hr : rule ∈ s.ladder) {bound : Option Nat} (hb : .integer bound ∈ r.book.modes) {deeper : Nat}
    (hd : deeper < r.book.ruleCount) {forced : (start stop : Nat) → Search (Option Match)}
    (hf : ∀ i j, i ≤ j → j ≤ r.symbols.size → (forced i j).Bounded Question.Spans r.Poses) :
    r.ReadsBounded (r.readNormal s rule bound deeper forced) := by
  intro sub i j hij hj
  have divisor := RuleBook.mem_modes_of_mem hs hr
  cases sub with
  | quotient t => exact bounded_readTarget hs divisor hd t hij hj
  | remainder t =>
    exact Search.Bounded.bind (bounded_readTarget hs divisor hd t hij hj) fun _ => trivial
  | forced => exact hf i j hij hj
  | same t => exact bounded_readTarget hs hb hd t hij hj

theorem bounded_special {s : RuleSet} (hs : s ∈ r.book.sets) (hd : 0 < r.book.ruleCount)
    {sub : Substitution} {digital : Prop} {x : Reader → (start stop : Nat) → Search (Option Match)}
    (reads : SpecialRead s sub digital x) {i j : Nat} (hij : i ≤ j) (hj : j ≤ r.symbols.size) :
    (x r i j).Bounded Question.Spans r.Poses := by
  cases reads with
  | target mode t unbound named =>
    exact bounded_readTarget hs (r.book.mem_modes_of_unbound unbound) hd t hij hj
  | default =>
    have integer : .integer none ∈ r.book.modes := r.book.mem_modes_of_unbound rfl
    exact bounded_readTarget (RuleBook.default_mem hs) integer hd .owner hij hj
  | digits spaced _ => exact bounded_readDigits hs hd spaced hij hj

/-- Each `>>>` goes one rule down the ladder, so the levels it adds are bounded by the rules above. -/
theorem bounded_matchRung {s : RuleSet} (hs : s ∈ r.book.sets) : ∀ {ladder : List Rule}
    {bound : Option Nat} {deeper i j : Nat}, ladder <:+ s.ladder → .integer bound ∈ r.book.modes →
      deeper + ladder.length ≤ r.book.ruleCount → i ≤ j → j ≤ r.symbols.size →
        (r.matchRung s ladder bound deeper i j).Bounded Question.Spans r.Poses
  | [], _, _, _, _, _, _, _, _, _ => trivial
  | [rule], _, deeper, _, _, suffix, hb, hd, hij, hj => by
    have mem := suffix.subset (List.mem_singleton_self rule)
    have lt : deeper < r.book.ruleCount := hd
    exact bounded_matchTemplate (readsBounded_readNormal hs mem hb lt
      fun _ _ => bounded_readTarget hs (RuleBook.mem_modes_of_mem hs mem) lt .owner) _ _ hij hj
  | rule :: rule' :: below, _, deeper, _, _, suffix, hb, hd, hij, hj => by
    have mem := suffix.subset (List.mem_cons_self (a := rule))
    have rest : (rule' :: below) <:+ s.ladder := (List.suffix_cons ..).trans suffix
    simp only [List.length_cons] at hd
    exact bounded_matchTemplate (readsBounded_readNormal hs mem hb (by omega)
      fun _ _ => bounded_matchRung hs rest (RuleBook.mem_modes_of_mem hs mem)
        (by simp only [List.length_cons]; omega)) _ _ hij hj

theorem bounded_matchCandidate {q : Question} (hq : q ∈ r.book.questions r.symbols.size)
    {c : Candidate} (allowed : q.mode.Allows q.set c) :
    (r.matchCandidate q c).Bounded Question.Spans r.Poses := by
  obtain ⟨hs, hm, hij, hj⟩ := RuleBook.mem_questions.1 hq
  have count := RuleBook.length_templates_le hs
  have pos {form : SpecialForm} {t : Template} (h : q.set.special form = some t) :
      0 < r.book.ruleCount :=
    Nat.lt_of_lt_of_le (List.length_pos_of_mem (RuleSet.mem_templates_of_special h)) count
  have normal {rule : Rule} {below : List Rule} (suffix : (rule :: below) <:+ q.set.ladder)
      (hb : .integer q.mode.bound? ∈ r.book.modes) :
      (r.matchCandidate q (.normal rule below)).Bounded Question.Spans r.Poses := by
    refine Search.Bounded.bind (bounded_matchRung hs suffix hb ?_ hij hj) fun _ => trivial
    have := suffix.length_le
    have := q.set.length_ladder_le
    omega
  rcases q with ⟨s, mode, i, j⟩
  cases allowed with
  | negative ht =>
    have special : s.special .negative = some _ := ht
    exact bounded_matchTemplate
      (fun sub _ _ => bounded_special hs (pos special) (special_readNegative s sub)) _ _ hij hj
  | fraction ne ht =>
    exact bounded_matchTemplate
      (fun sub _ _ => bounded_special hs (pos ht) (special_readFraction s sub)) _ _ hij hj
  | normal suffix => exact normal suffix (by simp [RuleBook.modes, Mode.bound?])
  | bounded suffix _ => exact normal suffix hm
  | @numerator rule mem _ =>
    have pos := Nat.lt_of_lt_of_le (List.length_pos_of_mem (RuleSet.mem_templates_of_mem mem)) count
    exact bounded_matchTemplate
      (fun sub _ _ => bounded_special hs pos (special_readNumerator s sub)) _ _ hij hj

/-- **A question of the book leads to such questions only,** fewer levels deeper than there are
    rules. -/
theorem bounded_search {q : Question} (hq : q ∈ r.book.questions r.symbols.size) :
    (r.search q).Bounded Question.Spans r.Poses :=
  Search.bounded_longest _ fun _ hc => bounded_matchCandidate hq (Mode.allows_of_mem hc)

end Reader
end Spellout
