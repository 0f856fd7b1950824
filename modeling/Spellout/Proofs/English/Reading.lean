/-
  How the rule set of cardinals reads phrases.

  Every question about a text of words comes to an answer on a few levels, since divisors get smaller.
  A phrase is read by the rule of its greatest word, at least to its end, and so, as its letters have
  one meaning, exactly to its end and with its value.

  * `Wordy.total_integer`, `Wordy.total_full`: questions have answers;
  * `Wordy.rungReads`: the rule of its greatest word reads a phrase;
  * `Wordy.fresh_integer`, `Wordy.fresh_full`: so does the set, asked below a bound or for anything;
  * `Wordy.fresh_minus`: a minus sign in words before a phrase is read too.
-/
import Spellout.Proofs.English.Meaning
import Spellout.Proofs.Reading.Memory
import Spellout.Proofs.Reading.Reach

namespace Spellout.English

/-! ## Every question has an answer -/

namespace Wordy

variable {r : Reader} {t : Text} {b n i j : Nat}

/-- The set answers questions below a bound on so many levels. -/
def Answers (r : Reader) (n b : Nat) : Prop :=
  ∀ i j, ∃ m, r.fresh [] n 0 ⟨simplified, .integer (some b), i, j⟩ = .ok m

/-- Rules of words ask for quotients and remainders only, and below twenty for nothing. -/
theorem substitution_of_mem (hb : b ∈ bases) {pieces : List Piece} {sub : Substitution}
    (mem : pieces ∈ (template b).alternatives) (hs : .substitution sub ∈ pieces) :
    20 ≤ b ∧ (sub = .quotient .owner ∨ sub = .remainder .owner) := by
  have all : ∀ b ∈ bases, ∀ pieces ∈ (template b).alternatives, ∀ piece ∈ pieces,
      piece.substitution?.all fun sub =>
        20 ≤ b && (sub = .quotient .owner || sub = .remainder .owner) := by
    decide +kernel
  simpa [Piece.substitution?] using all b hb pieces mem _ hs

theorem total_rule (hb : b ∈ bases) (ask : 20 ≤ b → Answers r n (rule b).divisor)
    {bound : Option Nat} {forced : (start stop : Nat) → Search (Option Match)} :
    ∀ pieces ∈ (template b).alternatives, ∀ sub, .substitution sub ∈ pieces → ∀ i j,
      Search.Total (r.fresh [] n) (r.readNormal simplified (rule b) bound 0 forced sub i j) := by
  intro pieces mem sub hs i j
  obtain ⟨ge, kind⟩ := substitution_of_mem hb mem hs
  obtain ⟨m, hm⟩ := ask ge i j
  have asked : Search.Total (r.fresh [] n)
      (r.readTarget 0 simplified (.integer (some (rule b).divisor)) .owner i j) :=
    ⟨m, Search.eval_ask.trans hm⟩
  rcases kind with rfl | rfl
  · exact asked
  · exact asked.bind fun _ => .done _

theorem total_matchRung (hb : b ∈ bases) (ask : 20 ≤ b → Answers r n (rule b).divisor)
    (below : List Rule) (bound : Option Nat) (i j : Nat) :
    Search.Total (r.fresh [] n) (r.matchRung simplified (rule b :: below) bound 0 i j) := by
  obtain ⟨forced, -, eq⟩ := Reader.exists_forced (r := r) simplified (rule b) below bound 0
  rw [eq]
  exact Reader.total_matchTemplate (total_rule hb ask)

theorem total_numeralRule (below : List Rule) (bound : Option Nat) (i j : Nat) :
    Search.Total (r.fresh [] n) (r.matchRung simplified (numeralRule :: below) bound 0 i j) := by
  obtain ⟨forced, -, eq⟩ := Reader.exists_forced (r := r) simplified numeralRule below bound 0
  rw [eq]
  refine Reader.total_matchTemplate fun pieces mem sub hs i j => ?_
  obtain rfl := List.mem_singleton.1 (show pieces ∈ [[numeralPiece]] from mem)
  obtain rfl := Piece.substitution.inj (List.mem_singleton.1 hs)
  exact .done _

/-- A rule of the set with a base value comes to a result, if its divisor leaves levels enough. -/
theorem total_normal {rule : Rule} {below : List Rule} {mode : Mode}
    (suffix : (rule :: below) <:+ simplified.ladder)
    (ask : ∀ b ∈ bases, rule = English.rule b → 20 ≤ b → Answers r n (English.rule b).divisor) :
    Search.Total (r.fresh [] n) (r.matchCandidate ⟨simplified, mode, i, j⟩ (.normal rule below)) := by
  have mem : rule ∈ simplified.ladder := suffix.subset (by simp)
  refine Search.Total.bind ?_ fun _ => .done _
  rcases mem_ladder mem with rfl | ⟨b, hb, rfl⟩
  · exact total_numeralRule _ _ _ _
  · exact total_matchRung hb (ask b hb rfl) _ _ _ _

/-- **Below a bound every question has an answer** on as many levels as there are divisors below the
    bound. -/
theorem total_integer : ∀ {n b : Nat}, levels b ≤ n → Answers r n b
  | 0, b, enough => by
    have pos : 0 < levels b := Nat.succ_pos _
    omega
  | n + 1, b, enough => by
    intro i j
    rw [Reader.fresh_succ_zero (List.not_mem_nil)]
    refine Search.Total.longest none fun c mem => ?_
    cases Mode.allows_of_mem mem with
    | bounded suffix below =>
      refine total_normal suffix fun b' hb' eq ge => total_integer ?_
      have lt : b' < b := by
        subst eq
        exact below b rfl
      have less := levels_lt (divisor_mem hb' ge) (Nat.lt_of_le_of_lt (divisor_le hb' ge) lt)
      omega

/-- Behind a literal that does not match nothing is asked. -/
theorem overSplits_none {stop : Nat} {attempt : Nat → Search (Option Progress)}
    (h : ∀ split, attempt split = .done none) : ∀ splits : List Nat,
      Search.overSplits stop attempt splits none = .done none
  | [] => rfl
  | split :: rest => by
    rw [Search.overSplits, h split]
    exact overSplits_none h rest

theorem total_point (h : Wordy r t) : Search.Total (r.fresh [] n)
    (r.matchTemplate (r.readFraction simplified) Parts.fraction pointTemplate i j) := by
  refine Search.Total.longest none fun pieces mem => ?_
  obtain rfl := List.mem_singleton.1 (show pieces ∈ [_] from mem)
  refine Search.Total.bind ?_ fun _ => .done _
  show Search.Total _ (r.matchElements _ j (.substitution (.quotient .owner) ::
    [.literal (r.foldLiteral " point ".toList), .substitution (.remainder .owner)]) i {})
  rw [Reader.matchElements_split (by simp), overSplits_none]
  · exact .done _
  · intro split
    have away : r.matchLiteral? (r.foldLiteral " point ".toList) split j = none :=
      Option.eq_none_iff_forall_ne_some.2 fun _ => h.not_matchLiteral?_point
    rw [Reader.mayStart, away]
    rfl

/-- A question for anything has an answer if the rule for numbers below zero comes to a result. -/
theorem total_full (h : Wordy r t) (enough : 6 ≤ n)
    (minus : Search.Total (r.fresh [] n)
      (r.matchTemplate (r.readNegative simplified) Parts.negative minusTemplate i j)) :
    ∃ m, r.fresh [] (n + 1) 0 ⟨simplified, .full, i, j⟩ = .ok m := by
  rw [Reader.fresh_succ_zero (List.not_mem_nil)]
  refine Search.Total.longest none fun c mem => ?_
  cases Mode.allows_of_mem mem with
  | negative ht =>
    obtain rfl := Option.some.inj ht
    exact minus
  | @fraction form _ ne ht =>
    cases form with
    | negative => exact absurd rfl ne
    | improper =>
      obtain rfl := Option.some.inj ht
      exact h.total_point
    | proper | whole => cases ht
  | normal suffix =>
    refine total_normal suffix fun b hb _ ge => total_integer ?_
    have top : levels (rule b).divisor ≤ 6 := levels_divisor_le hb ge
    omega

/-! ## Where a text stands -/

end Wordy

/-- The text stands in a longer one, from a place on. -/
def StandsAt (t u : Text) (a : Nat) : Prop := ∃ v w, t = v ++ (u ++ w) ∧ v.length = a

namespace StandsAt

variable {t u v : Text} {a : Nat}

theorem left (h : StandsAt t (u ++ v) a) : StandsAt t u a := by
  obtain ⟨x, y, rfl, rfl⟩ := h
  exact ⟨x, v ++ y, by simp, rfl⟩

theorem right (h : StandsAt t (u ++ v) a) : StandsAt t v (a + u.length) := by
  obtain ⟨x, y, rfl, rfl⟩ := h
  exact ⟨x ++ u, y, by simp, by simp⟩

theorem tail {c : Char} (h : StandsAt t (c :: u) a) : StandsAt t u (a + 1) :=
  right (u := [c]) h

theorem getElem? {c : Char} (h : StandsAt t (c :: u) a) : t[a]? = some c := by
  obtain ⟨x, y, rfl, rfl⟩ := h
  simp

theorem le (h : StandsAt t u a) : a + u.length ≤ t.length := by
  obtain ⟨x, y, rfl, rfl⟩ := h
  simp

theorem slice (h : StandsAt t u a) : t.slice a (a + u.length) = u := by
  obtain ⟨x, y, rfl, rfl⟩ := h
  rw [Text.slice_eq, List.drop_left, Nat.add_sub_cancel_left, List.take_left]

end StandsAt

namespace Wordy

variable {r : Reader} {t l : Text} {b n i j a stop : Nat}

/-- A literal that ends with a letter matches where it stands, and beside. -/
theorem matchLiteral?_of_standsAt (h : Wordy r t) (beside : r.Beside t i a) (stands : StandsAt t l a)
    (plain : ∀ c ∈ l, c ∈ Text.alphabet) (last : l.getLast?.any fun c => !Text.isSeparator c)
    (hstop : a + l.length ≤ stop) (len : stop ≤ t.length) :
    r.matchLiteral? (r.foldLiteral l) i stop = some (a + l.length) := by
  have letters : Text.letters l ≠ [] := by
    obtain ⟨c, hc, letter⟩ := (Option.any_eq_true _ _).1 last
    have mem : c ∈ Text.letters l := List.mem_filter.2 ⟨List.mem_of_getLast? hc, letter⟩
    exact List.ne_nil_of_mem mem
  obtain ⟨j, hj, -, exact'⟩ := h.lettered.exists_matchLiteral? plain letters beside stands.slice
    hstop len
  rw [hj, exact' last]

variable {p q : Phrase}

/-- Where a phrase stands, its words are the letters, from any place beside. -/
theorem letters_of_standsAt (formed : p.Formed) (beside : r.Beside t i a)
    (stands : StandsAt t p.text a) : i ≤ a ∧
      Text.letters (t.slice i (a + p.text.length)) = spell (p.words.map some) := by
  obtain ⟨c, hc, letter⟩ := Phrase.exists_letter formed
  obtain ⟨u, hu⟩ := List.head?_eq_some_iff.1 hc
  have first : t[a]? = some c := StandsAt.getElem? (u := u) (hu ▸ stands)
  have le := beside.le_of_letter first letter
  refine ⟨le, ?_⟩
  rw [beside.letters_slice (by omega) (by omega), stands.slice, Phrase.letters_text formed]

/-- A rule that reads a phrase to its end reads nothing behind it, and reads the value of it. -/
theorem eq_of_reaches (h : Wordy r t) (hb : b ∈ bases) (formed : p.Formed)
    (beside : r.Beside t i a) (stands : StandsAt t p.text a) {below : List Rule}
    {bound : Option Nat} {m : Option Match}
    (hm : (r.matchRung simplified (rule b :: below) bound 0 i (a + p.text.length)).eval
      (r.fresh [] n) = .ok m)
    (reaches : Search.MatchReaches (a + p.text.length) m) :
    m = some ⟨p.value, a + p.text.length⟩ := by
  obtain ⟨⟨v, k⟩, rfl, le⟩ := reaches
  obtain ⟨lo, letters⟩ := letters_of_standsAt formed beside stands
  have yields : (r.matchRung simplified (rule b :: below) bound 0 i (a + p.text.length)).Yields
      (Understood t) (some ⟨v, k⟩) :=
    Search.yields_of_eval (fun _ _ _ ha => Reader.fresh_holds h.closed_understood ha) hm
  have within := Reader.within_matchRung (by omega)
    (yields.mono fun _ _ understood => understood.1)
  have counts := h.counts_of_matchRung hb (by omega) yields
  dsimp only at le within counts
  obtain rfl : k = a + p.text.length := by omega
  rw [letters] at counts
  rw [counts.unique formed]

/-- From `i`, the rule of its greatest word reads the phrase at `a`, up to its end. -/
def RungReads (r : Reader) (n i a : Nat) (p : Phrase) : Prop :=
  ∀ below bound, (r.matchRung simplified (rule p.top :: below) bound 0 i
    (a + p.text.length)).eval (r.fresh [] n) = .ok (some ⟨p.value, a + p.text.length⟩)

/-- The rule of the greatest word of a phrase reads the phrase, if some trail leads to its end. -/
theorem rungReads_of_trail (h : Wordy r t) (formed : p.Formed) (beside : r.Beside t i a)
    (stands : StandsAt t p.text a)
    (ask : 20 ≤ p.top → Answers r n (rule p.top).divisor) {pieces : List Piece}
    (mem : pieces ∈ (template p.top).alternatives) (parts : Parts)
    (trail : ∀ bound forced, Reader.Trail r (Reader.readsAs (r.fresh [] n)
      (r.readNormal simplified (rule p.top) bound 0 forced)) (a + p.text.length)
      (pieces.map r.element) i {} ⟨a + p.text.length, parts⟩) : RungReads r n i a p := by
  intro below bound
  have hb : p.top ∈ bases := Phrase.mem_bases formed _ p.top_mem_words
  obtain ⟨forced, -, eq⟩ := Reader.exists_forced (r := r) simplified (rule p.top) below bound 0
  obtain ⟨m, hm, reaches⟩ := Reader.reaches_matchTemplate (Parts.normal (rule p.top)) mem
    (trail bound forced) (Nat.le_refl _) (total_rule hb ask)
  have hm : (r.matchRung simplified (rule p.top :: below) bound 0 i (a + p.text.length)).eval
      (r.fresh [] n) = .ok m := by
    rw [eq]
    exact hm
  rw [hm, h.eq_of_reaches hb formed beside stands hm reaches]

/-! ## Answers -/

theorem exists_mem_full (hb : b ∈ bases) :
    ∃ below, .normal (rule b) below ∈ simplified.candidates .full := by
  obtain ⟨below, mem⟩ := RuleSet.exists_mem_rungs (rule_mem_ladder hb)
  exact ⟨below, List.mem_append_right _ mem⟩

/-- What a candidate reads to the end of a stretch, the set answers, if the letters of the stretch
    have no other meaning. -/
theorem fresh_of_matchCandidate (h : Wordy r t) (hij : i ≤ stop) {mode : Mode} {c : Candidate}
    {v : Binary64} (mem : c ∈ simplified.candidates mode)
    (read : (r.matchCandidate ⟨simplified, mode, i, stop⟩ c).eval (r.fresh [] n) =
      .ok (some ⟨v, stop⟩))
    (unique : ∀ w, Means mode (Text.letters (t.slice i stop)) w → w = v)
    (answered : ∃ m, r.fresh [] (n + 1) 0 ⟨simplified, mode, i, stop⟩ = .ok m) :
    r.fresh [] (n + 1) 0 ⟨simplified, mode, i, stop⟩ = .ok (some ⟨v, stop⟩) := by
  obtain ⟨m, hm⟩ := answered
  have understood := Reader.fresh_holds h.closed_understood hm
  have search := hm
  rw [Reader.fresh_succ_zero (List.not_mem_nil)] at search
  obtain ⟨⟨w, k⟩, rfl, le⟩ := Search.reaches_longest read ⟨_, rfl, Nat.le_refl _⟩ mem search
  have spans := understood.1 hij _ rfl
  have means := understood.2 rfl hij _ rfl
  dsimp only at le spans means
  obtain rfl : k = stop := by omega
  rw [hm, unique w means]

/-- What the rule of its greatest word reads of a phrase, the set answers, if the mode admits it and
    the letters have no other meaning in it. -/
theorem fresh_of_rungReads (h : Wordy r t) (formed : p.Formed) (beside : r.Beside t i a)
    (stands : StandsAt t p.text a) {mode : Mode} {below : List Rule}
    (mem : .normal (rule p.top) below ∈ simplified.candidates mode) (admits : mode.admits p.value)
    (unique : ∀ v, Means mode (spell (p.words.map some)) v → v = p.value)
    (rung : RungReads r n i a p)
    (answered : ∃ m, r.fresh [] (n + 1) 0 ⟨simplified, mode, i, a + p.text.length⟩ = .ok m) :
    r.fresh [] (n + 1) 0 ⟨simplified, mode, i, a + p.text.length⟩ =
      .ok (some ⟨p.value, a + p.text.length⟩) := by
  obtain ⟨lo, letters⟩ := letters_of_standsAt formed beside stands
  refine h.fresh_of_matchCandidate (by omega) mem ?_ (by rwa [letters]) answered
  refine Search.eval_bind.2 ⟨_, rung _ _, ?_⟩
  rw [Option.filter_some, if_pos admits]
  rfl

/-- A phrase of words below a bound, for a number below it, is read below the bound. -/
theorem fresh_integer (h : Wordy r t) (formed : p.Formed) (beside : r.Beside t i a)
    (stands : StandsAt t p.text a) (small : ∀ w ∈ p.words, w < b) (lt : p.number < b)
    (le : b ≤ 2 ^ 53) (enough : levels b ≤ n + 1)
    (rung : RungReads r n i a p) :
    r.fresh [] (n + 1) 0 ⟨simplified, .integer (some b), i, a + p.text.length⟩ =
      .ok (some ⟨p.value, a + p.text.length⟩) := by
  have top : p.top ∈ p.words := p.top_mem_words
  obtain ⟨below, mem⟩ :=
    RuleSet.exists_mem_candidates (rule_mem_ladder (Phrase.mem_bases formed _ top)) (small _ top) le
  refine h.fresh_of_rungReads formed beside stands mem ?_ (fun v means => means.unique formed)
    rung (total_integer enough _ _)
  rw [Mode.admits_integer]
  exact Phrase.value_lt formed lt le

section Trails

variable {bound : Option Nat} {forced : (start stop : Nat) → Search (Option Match)} {m : Match}

theorem readsAs_quotient
    (hm : r.fresh [] n 0 ⟨simplified, .integer (some (rule b).divisor), i, j⟩ = .ok (some m)) :
    Reader.readsAs (r.fresh [] n) (r.readNormal simplified (rule b) bound 0 forced)
      (.quotient .owner) i j m :=
  Search.eval_ask.trans hm

theorem readsAs_remainder
    (hm : r.fresh [] n 0 ⟨simplified, .integer (some (rule b).divisor), i, j⟩ = .ok (some m))
    (lt : m.value.lt (.ofNat (rule b).divisor)) :
    Reader.readsAs (r.fresh [] n) (r.readNormal simplified (rule b) bound 0 forced)
      (.remainder .owner) i j m := by
  refine Search.eval_bind.2 ⟨some m, Search.eval_ask.trans hm, ?_⟩
  rw [Option.filter_some, if_pos lt]
  rfl

end Trails

theorem mem_alternatives_word (lt : b < 100) : [.literal (word b)] ∈ (template b).alternatives := by
  rcases Nat.lt_or_ge b 20 with lt' | ge
  · simp [alternatives_word lt']
  · simp [alternatives_tens ge lt]

theorem rungReads_word (h : Wordy r t) (formed : (Phrase.word b).Formed) (beside : r.Beside t i a)
    (stands : StandsAt t (Phrase.word b).text a)
    (enough : 20 ≤ b → levels (rule b).divisor ≤ n) : RungReads r n i a (.word b) := by
  refine h.rungReads_of_trail formed beside stands (fun ge => total_integer (enough ge))
    (mem_alternatives_word formed.2) {} fun bound forced => ?_
  exact .literal (h.matchLiteral?_of_standsAt beside stands
    (fun c hc => (plain_word formed.1 c hc).1) (last_letter formed.1 []) (Nat.le_refl _) stands.le) .finish

/-- A separator matches where it stands, and what stands behind it stands beside from there. -/
theorem exists_separator (h : Wordy r t) {c : Char} {u : Text} (stands : StandsAt t (c :: u) a)
    (sep : Text.isSeparator c) (plain : c ∈ Text.alphabet) (hstop : a < stop) :
    ∃ j, r.matchLiteral? (r.foldLiteral [c]) a stop = some j ∧ r.Beside t j (a + 1) ∧ j ≤ stop :=
  h.lettered.exists_matchLiteral?_separator stands.getElem? sep plain hstop

theorem rungReads_compound (h : Wordy r t) {u : Nat} (formed : (Phrase.compound b u).Formed)
    (beside : r.Beside t i a) (stands : StandsAt t (Phrase.compound b u).text a)
    (enough : levels (rule b).divisor ≤ n) : RungReads r n i a (.compound b u) := by
  have ⟨hb, hu, ge, lt, small⟩ := formed
  obtain ⟨ten, -⟩ := divisor_tens hb ge lt
  obtain ⟨n, rfl⟩ := exists_succ enough
  have mem : [.literal (word b), .literal ['-'], .substitution (.remainder .owner)] ∈
      (template b).alternatives := by
    simp [alternatives_tens ge lt]
  refine h.rungReads_of_trail formed beside stands (fun _ => total_integer enough) mem
    (Parts.add {} (.remainder .owner) (Phrase.word u).value) fun bound forced => ?_
  have hyphen : StandsAt t ('-' :: word u) (a + (word b).length) := StandsAt.right stands
  have unit : StandsAt t (Phrase.word u).text (a + (word b).length + 1) := hyphen.tail
  have length : a + (Phrase.compound b u).text.length =
      a + (word b).length + 1 + (Phrase.word u).text.length := by
    simp only [Phrase.text, List.length_append, List.length_cons]
    omega
  have len := stands.le
  rw [length] at len ⊢
  have first := h.matchLiteral?_of_standsAt beside (StandsAt.left stands)
    (fun c hc => (plain_word hb c hc).1) (last_letter hb []) (by omega) len
  have inside : a + (word b).length < a + (word b).length + 1 + (Phrase.word u).text.length := by
    omega
  obtain ⟨j, hj, beside', -⟩ := h.exists_separator hyphen (by decide) (by decide) inside
  have formed' : (Phrase.word u).Formed := ⟨hu, by omega⟩
  have number : (Phrase.word u).number < (rule b).divisor := ten ▸ small
  have le : (rule b).divisor ≤ 2 ^ 53 := by rw [ten]; decide
  have read := h.fresh_integer formed' beside' unit (by simp [Phrase.words, ten, small]) number le
    enough (h.rungReads_word formed' beside' unit fun _ => by omega)
  have below := Phrase.value_lt formed' number le
  generalize Phrase.value (.word u) = v at read below ⊢
  exact .literal first (.literal hj (.last (readsAs_remainder read below)))

/-- Wherever the phrase stands, the rule of its greatest word reads it. -/
def RungReadsAll (r : Reader) (t : Text) (p : Phrase) : Prop :=
  ∀ n i a, (20 ≤ p.top → levels (rule p.top).divisor ≤ n) → r.Beside t i a →
    StandsAt t p.text a → RungReads r n i a p

/-- What a scale counts, and what is left, is read below the scale. -/
theorem fresh_below (h : Wordy r t) (hb : b ∈ bases) (ge : 100 ≤ b) (enough : levels b ≤ n)
    (formed : p.Formed) (reads : RungReadsAll r t p) (small : ∀ w ∈ p.words, w < b)
    (lt : p.number < b) (beside : r.Beside t i a) (stands : StandsAt t p.text a) :
    r.fresh [] n 0 ⟨simplified, .integer (some (rule b).divisor), i, a + p.text.length⟩ =
      .ok (some ⟨p.value, a + p.text.length⟩) := by
  obtain ⟨n, rfl⟩ := exists_succ enough
  rw [divisor_scale hb ge]
  have top : p.top ∈ bases := Phrase.mem_bases formed _ p.top_mem_words
  refine h.fresh_integer formed beside stands small lt (le_of_mem_bases hb) enough
    (reads n i a (fun ge => ?_) beside stands)
  have less := levels_lt (divisor_mem top ge)
    (Nat.lt_of_le_of_lt (divisor_le top ge) (small _ p.top_mem_words))
  omega

/-- A scale is written behind a space. -/
theorem plain_scale (hb : b ∈ bases) : ∀ c ∈ ' ' :: word b, c ∈ Text.alphabet := by
  intro c hc
  rcases List.mem_cons.1 hc with rfl | hc
  · decide
  · exact (plain_word hb c hc).1

theorem covers_self (v : Binary64) (k : Nat) : r.covers ⟨v, k⟩ k := by
  simp [Reader.covers]

/-- What a scale counts is read up to the space before it, and then the scale. -/
theorem trail_scale (h : Wordy r t) (hb : b ∈ bases) (ge : 100 ≤ b) (enough : levels b ≤ n)
    (formed : q.Formed) (reads : RungReadsAll r t q) (small : ∀ w ∈ q.words, w < b)
    (lt : q.number < b) (beside : r.Beside t i a)
    (stands : StandsAt t (q.text ++ ' ' :: word b) a) {rest : List Element} {p : Progress}
    (hstop : a + (q.text ++ ' ' :: word b).length ≤ stop) (len : stop ≤ t.length)
    {bound : Option Nat} {forced : (start stop : Nat) → Search (Option Match)}
    (trail : Reader.Trail r (Reader.readsAs (r.fresh [] n)
      (r.readNormal simplified (rule b) bound 0 forced)) stop rest
      (a + (q.text ++ ' ' :: word b).length) (Parts.add {} (.quotient .owner) q.value) p) :
    Reader.Trail r (Reader.readsAs (r.fresh [] n)
      (r.readNormal simplified (rule b) bound 0 forced)) stop
      (.substitution (.quotient .owner) :: .literal (r.foldLiteral (' ' :: word b)) :: rest) i {}
      p := by
  have read := h.fresh_below hb ge enough formed reads small lt beside stands.left
  obtain ⟨lo, -⟩ := letters_of_standsAt formed beside stands.left
  have scale : StandsAt t (' ' :: word b) (a + q.text.length) := stands.right
  rw [List.length_append, ← Nat.add_assoc] at hstop trail
  have behind := h.matchLiteral?_of_standsAt (.refl ..) scale (plain_scale hb)
    (last_letter hb [' ']) hstop len
  generalize q.value = v at read trail
  exact .split (by simp) (by omega) (by omega) (readsAs_quotient read) (covers_self v _)
    (.literal behind trail)

theorem rungReads_times (h : Wordy r t) {s : Nat} (formed : (Phrase.times q s).Formed)
    (bounded : (Phrase.times q s).Bounded) (reads : RungReadsAll r t q) :
    RungReadsAll r t (.times q s) := by
  intro n i a enough beside stands
  have ⟨hs, ge, formedq, small⟩ := formed
  have enough : levels (rule s).divisor ≤ n := enough (show 20 ≤ s by omega)
  have mem : [.substitution (.quotient .owner), .literal (' ' :: word s)] ∈
      (template s).alternatives := by
    simp [alternatives_scale ge]
  refine h.rungReads_of_trail formed beside stands (fun _ => total_integer enough) mem
    (Parts.add {} (.quotient .owner) q.value) fun bound forced => ?_
  rw [divisor_scale hs ge] at enough
  exact h.trail_scale hs ge enough formedq reads small bounded.2 beside stands (Nat.le_refl _)
    stands.le .finish

theorem rungReads_plus (h : Wordy r t) {s : Nat} {l : Phrase} (formed : (Phrase.plus q s l).Formed)
    (bounded : (Phrase.plus q s l).Bounded) (reads : RungReadsAll r t q)
    (reads' : RungReadsAll r t l) : RungReadsAll r t (.plus q s l) := by
  intro n i a enough beside stands
  have ⟨hs, ge, formedq, small, formedl, small'⟩ := formed
  obtain ⟨-, ltq, -, ltl⟩ := bounded
  have enough : levels (rule s).divisor ≤ n := enough (show 20 ≤ s by omega)
  have mem : [.substitution (.quotient .owner), .literal (' ' :: word s), .literal [' '],
      .substitution (.remainder .owner)] ∈ (template s).alternatives := by
    simp [alternatives_scale ge]
  refine h.rungReads_of_trail formed beside stands (fun _ => total_integer enough) mem
    (Parts.add (Parts.add {} (.quotient .owner) q.value) (.remainder .owner) l.value)
    fun bound forced => ?_
  rw [divisor_scale hs ge] at enough
  have text : (Phrase.plus q s l).text = q.text ++ ' ' :: word s ++ ' ' :: l.text := by
    simp [Phrase.text]
  rw [text] at stands ⊢
  have whole : StandsAt t (q.text ++ ' ' :: word s) a := stands.left
  have space : StandsAt t (' ' :: l.text) (a + (q.text ++ ' ' :: word s).length) := stands.right
  have rest : StandsAt t l.text (a + (q.text ++ ' ' :: word s).length + 1) := space.tail
  have length : a + (q.text ++ ' ' :: word s ++ ' ' :: l.text).length =
      a + (q.text ++ ' ' :: word s).length + 1 + l.text.length := by
    rw [List.length_append, List.length_cons]
    omega
  have len := stands.le
  rw [length] at len ⊢
  have inside : a + (q.text ++ ' ' :: word s).length <
      a + (q.text ++ ' ' :: word s).length + 1 + l.text.length := by
    omega
  obtain ⟨j, hj, beside', -⟩ := h.exists_separator space (by decide) (by decide) inside
  have read := h.fresh_below hs ge enough formedl reads' small' ltl beside' rest
  have below := Phrase.value_lt formedl ltl (le_of_mem_bases hs)
  rw [← divisor_scale hs ge] at below
  refine h.trail_scale hs ge enough formedq reads small ltq beside whole (by omega) len ?_
  generalize l.value = v at read below ⊢
  exact .literal hj (.last (readsAs_remainder read below))

/-- **Wherever a phrase stands, the rule of its greatest word reads it.** -/
theorem rungReads (h : Wordy r t) {p : Phrase} (formed : p.Formed) (bounded : p.Bounded) :
    RungReadsAll r t p := by
  induction p with
  | word b => exact fun _ _ _ enough beside stands => h.rungReads_word formed beside stands enough
  | compound b u =>
    have ⟨_, _, ge, _⟩ := formed
    exact fun _ _ _ enough beside stands => h.rungReads_compound formed beside stands (enough ge)
  | times q s ih =>
    have ⟨_, _, formedq, _⟩ := formed
    exact h.rungReads_times formed bounded (ih formedq bounded.1)
  | plus q s l ihq ihl =>
    have ⟨_, _, formedq, _, formedl, _⟩ := formed
    exact h.rungReads_plus formed bounded (ihq formedq bounded.1) (ihl formedl bounded.2.2.1)

/-! ## The whole set -/

theorem plain_minus : ∀ c ∈ "minus ".toList, c ∈ Text.alphabet :=
  Text.mem_alphabet_of_isPlain (by decide)

theorem letters_minus : Text.letters "minus ".toList = token none := by
  decide

/-- Where a phrase stands, there is no minus sign in words. -/
theorem not_minus_of_standsAt (h : Wordy r t) (formed : p.Formed) (beside : r.Beside t i a)
    (stands : StandsAt t p.text a) :
    r.matchLiteral? (r.foldLiteral "minus ".toList) i (a + p.text.length) = none := by
  refine Option.eq_none_iff_forall_ne_some.2 fun k hk => ?_
  obtain ⟨lo, letters⟩ := letters_of_standsAt formed beside stands
  have within := Reader.within_matchLiteral? hk (by omega)
  have minus := h.lettered.letters_of_matchLiteral? plain_minus hk
  obtain ⟨w, ws, hw⟩ := List.exists_cons_of_ne_nil p.words_ne_nil
  have mem : w ∈ bases := Phrase.mem_bases formed w (by simp [hw])
  rw [Text.letters_slice_append within.1 within.2, minus, letters_minus, hw, List.map_cons,
    spell_cons] at letters
  exact word_append_ne_minus mem _ _ letters.symm

theorem eval_longest_singleton {answer : Nat → Question → Except Error (Option Match)} {α : Type}
    {f : α → Search (Option Match)} {x : α} {m : Option Match}
    (hm : (f x).eval answer = .ok m) : (Search.longest f [x] none).eval answer = .ok m := by
  refine Search.eval_bind.2 ⟨m, hm, ?_⟩
  cases m <;> rfl

/-- **Where a phrase stands, the set reads it.** -/
theorem fresh_full (h : Wordy r t) (formed : p.Formed) (bounded : p.Bounded) (enough : 6 ≤ n)
    (beside : r.Beside t i a) (stands : StandsAt t p.text a) :
    r.fresh [] (n + 1) 0 ⟨simplified, .full, i, a + p.text.length⟩ =
      .ok (some ⟨p.value, a + p.text.length⟩) := by
  have top : p.top ∈ bases := Phrase.mem_bases formed _ p.top_mem_words
  obtain ⟨below, mem⟩ := exists_mem_full top
  have rung : RungReads r n i a p := by
    refine h.rungReads formed bounded n i a (fun ge => ?_) beside stands
    exact Nat.le_trans (levels_divisor_le top ge) enough
  refine h.fresh_of_rungReads formed beside stands mem rfl ?_ rung (h.total_full enough ?_)
  · rintro v ⟨ws, meaning, spelled⟩
    obtain rfl := spell_inj (map_some_mem formed) meaning.mem_vocabulary spelled
    exact meaning.unique (.plain formed)
  · refine ⟨none, eval_longest_singleton (Search.eval_bind.2 ⟨none, ?_, rfl⟩)⟩
    show (r.matchElements _ _ [.literal (r.foldLiteral "minus ".toList),
      .substitution (.remainder .owner)] i {}).eval _ = _
    rw [Reader.matchElements, h.not_minus_of_standsAt formed beside stands]
    rfl

/-- **So it does behind a minus sign in words.** -/
theorem fresh_minus (h : Wordy r t) (formed : p.Formed) (bounded : p.Bounded) (enough : 6 ≤ n)
    (whole : t = "minus ".toList ++ p.text) :
    r.fresh [] (n + 2) 0 ⟨simplified, .full, 0, t.length⟩ =
      .ok (some ⟨p.value.neg, t.length⟩) := by
  have sign : StandsAt t "minus ".toList 0 := ⟨[], p.text, whole, rfl⟩
  have phrase : StandsAt t p.text 6 := ⟨"minus ".toList, [], by simp [whole], by decide⟩
  have length : t.length = 6 + p.text.length := by
    rw [whole, List.length_append]
    rfl
  obtain ⟨j, hj, beside, -⟩ := h.lettered.exists_matchLiteral? plain_minus (by decide)
    (.refl r t 0) sign.slice sign.le (Nat.le_refl _)
  have read := h.fresh_full formed bounded enough (show r.Beside t j 6 from beside) phrase
  rw [← length] at read
  have minus : (r.matchTemplate (r.readNegative simplified) Parts.negative minusTemplate 0
      t.length).eval (r.fresh [] (n + 1)) = .ok (some ⟨p.value.neg, t.length⟩) := by
    generalize p.value = v at read ⊢
    refine eval_longest_singleton (Search.eval_bind.2
      ⟨some ⟨t.length, Parts.add {} (.remainder .owner) v⟩, ?_, rfl⟩)
    show (r.matchElements _ _ [.literal (r.foldLiteral "minus ".toList),
      .substitution (.remainder .owner)] 0 {}).eval _ = _
    rw [Reader.matchElements, hj]
    exact Search.eval_bind.2 ⟨_, Search.eval_ask.trans read, rfl⟩
  refine h.fresh_of_matchCandidate (Nat.zero_le _) (c := .negative minusTemplate) ?_ minus ?_
    (h.total_full (by omega) ⟨_, minus⟩)
  · exact List.mem_append_left _ (List.mem_append_left _ (List.mem_singleton.2 rfl))
  · rintro v ⟨ws, meaning, spelled⟩
    have letters : Text.letters (t.slice 0 t.length) = spell (none :: p.words.map some) := by
      rw [Text.slice_zero, List.take_length, whole, Text.letters_append, letters_minus,
        Phrase.letters_text formed, spell_cons]
    have vocabulary := (Meaning.plain formed).minus.mem_vocabulary
    obtain rfl := spell_inj vocabulary meaning.mem_vocabulary (letters.symm.trans spelled)
    exact meaning.unique (.minus (.plain formed))

end Wordy

end Spellout.English
