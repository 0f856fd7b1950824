/-
  What the rule set of cardinals reads.

  Whatever is read from a text of words is the value of a phrase with just these words, behind minus
  signs in words.  Numerals are not read, since there are no digits, and numbers with a fraction are
  not, since no word has a `p`.

  * `Counts`: letters are those of a phrase, whose value they mean;
  * `Meaning`: the value that words mean, minus signs included; `Meaning.unique`: it is the only one;
  * `closed_understood`: answers have the value that the letters they take up mean.
-/
import Spellout.Proofs.English.Simplified
import Spellout.Proofs.Reading.Soundness

namespace Spellout.English

/-! ## Letters with a meaning -/

/-- The letters are those of a phrase of words below `b`, and the value is its value. -/
def Counts (b : Nat) (u : Text) (v : Binary64) : Prop :=
  ∃ p : Phrase, p.Formed ∧ (∀ w ∈ p.words, w < b) ∧ u = spell (p.words.map some) ∧ v = p.value

/-- The value that words mean. -/
inductive Meaning : List (Option Nat) → Binary64 → Prop
  | plain {p : Phrase} : p.Formed → Meaning (p.words.map some) p.value
  | minus {ws : List (Option Nat)} {v : Binary64} : Meaning ws v → Meaning (none :: ws) v.neg

theorem Counts.meaning {b : Nat} {u : Text} {v : Binary64} (h : Counts b u v) :
    ∃ ws, Meaning ws v ∧ u = spell ws := by
  obtain ⟨p, formed, -, rfl, rfl⟩ := h
  exact ⟨_, .plain formed, rfl⟩

theorem map_some_mem {p : Phrase} (h : p.Formed) : ∀ w ∈ p.words.map some, w ∈ vocabulary := by
  intro w hw
  obtain ⟨b, hb, rfl⟩ := List.mem_map.1 hw
  exact List.mem_cons_of_mem _ (List.mem_map_of_mem (Phrase.mem_bases h b hb))

theorem Meaning.mem_vocabulary {ws : List (Option Nat)} {v : Binary64} (h : Meaning ws v) :
    ∀ w ∈ ws, w ∈ vocabulary := by
  induction h with
  | plain formed => exact map_some_mem formed
  | minus _ ih =>
    intro w hw
    rcases List.mem_cons.1 hw with rfl | hw
    · exact List.mem_cons_self
    · exact ih w hw

/-- **Words have one meaning.** -/
theorem Meaning.unique {ws : List (Option Nat)} {v v' : Binary64} (h : Meaning ws v)
    (h' : Meaning ws v') : v = v' := by
  induction h generalizing v' with
  | @plain p formed =>
    generalize eq : p.words.map some = ws at h'
    cases h' with
    | plain formed' =>
      have words := List.map_injective_iff.2 (fun _ _ h => Option.some.inj h) eq
      rw [Phrase.eq_of_words formed formed' words]
    | minus _ =>
      obtain ⟨b, rest, -, hb, -⟩ := List.map_eq_cons_iff.1 eq
      cases hb
  | @minus ws v _ ih =>
    generalize eq : none :: ws = ws' at h'
    cases h' with
    | plain formed' =>
      obtain ⟨b, rest, -, hb, -⟩ := List.map_eq_cons_iff.1 eq.symm
      cases hb
    | minus h' =>
      obtain rfl := (List.cons.inj eq).2
      rw [ih h']

/-- Letters of a phrase are counted as its value only. -/
theorem Counts.unique {p : Phrase} (h : p.Formed) {b : Nat} {v : Binary64}
    (hv : Counts b (spell (p.words.map some)) v) : v = p.value := by
  obtain ⟨p', formed, -, hs, rfl⟩ := hv
  have words := spell_inj (map_some_mem h) (map_some_mem formed) hs
  exact (Meaning.unique (.plain h) (words ▸ .plain formed)).symm

/-! ## Rules -/

theorem alternatives_word {b : Nat} (lt : b < 20) :
    (template b).alternatives = [[.literal (word b)]] := by
  simp [template, lt, Template.alternatives, Template.extendAll]

theorem alternatives_tens {b : Nat} (ge : 20 ≤ b) (lt : b < 100) :
    (template b).alternatives =
      [[.literal (word b), .literal ['-'], .substitution (.remainder .owner)],
        [.literal (word b)]] := by
  have ge : ¬ b < 20 := by omega
  simp [template, ge, lt, Template.alternatives, Template.extendAll]

theorem alternatives_scale {b : Nat} (ge : 100 ≤ b) :
    (template b).alternatives =
      [[.substitution (.quotient .owner), .literal (' ' :: word b), .literal [' '],
          .substitution (.remainder .owner)],
        [.substitution (.quotient .owner), .literal (' ' :: word b)]] := by
  have ge₁ : ¬ b < 20 := by omega
  have ge₂ : ¬ b < 100 := by omega
  simp [template, ge₁, ge₂, Template.alternatives, Template.extendAll]

/-- The substitutions of a rule read phrases of words below its divisor. -/
def readsBelow (d : Nat) (sub : Substitution) (u : Text) (v : Binary64) : Prop :=
  sub = .quotient .owner ∨ sub = .remainder .owner → Counts d u v

/-- A phrase of words below ten is one of them. -/
theorem eq_word_of_lt {p : Phrase} (h : p.Formed) (lt : ∀ w ∈ p.words, w < 10) :
    ∃ u ∈ bases, u < 10 ∧ p = .word u := by
  cases p with
  | word u => exact ⟨u, h.1, lt u (by simp [Phrase.words]), rfl⟩
  | compound b u =>
    have := lt b (by simp [Phrase.words])
    have := h.2.2.1
    omega
  | times q s =>
    have := lt s (by simp [Phrase.words])
    have := h.2.1
    omega
  | plus q s r =>
    have := lt s (by simp [Phrase.words])
    have := h.2.1
    omega

section Filled

variable {b : Nat} {u : Text} {parts : Parts} {pieces : List Piece}

theorem normal_remainder (r : Rule) (v : Binary64) :
    Parts.normal r (Parts.add {} (.remainder .owner) v) =
      (Binary64.ofNat (r.base - r.base % r.divisor)).add v :=
  rfl

theorem normal_quotient (r : Rule) (v : Binary64) :
    Parts.normal r (Parts.add {} (.quotient .owner) v) = (v.mul (.ofNat r.divisor)).add .zero :=
  rfl

theorem normal_both (r : Rule) (v w : Binary64) :
    Parts.normal r ((Parts.add {} (.quotient .owner) v).add (.remainder .owner) w) =
      (v.mul (.ofNat r.divisor)).add w :=
  rfl

theorem counts_word (hb : b ∈ bases) (lt : b < 100)
    (filled : Reader.Filled (readsBelow (rule b).divisor) [.literal (word b)] u {} parts) :
    Counts (b + 1) u (Parts.normal (rule b) parts) := by
  cases filled with
  | literal filled =>
    cases filled
    refine ⟨.word b, ⟨hb, lt⟩, ?_, ?_, rfl⟩
    · simp [Phrase.words]
    · simp [Phrase.words, token, letters_word hb]

theorem counts_compound (hb : b ∈ bases) (ge : 20 ≤ b) (lt : b < 100)
    (filled : Reader.Filled (readsBelow (rule b).divisor)
      [.literal (word b), .literal ['-'], .substitution (.remainder .owner)] u {} parts) :
    Counts (b + 1) u (Parts.normal (rule b) parts) := by
  obtain ⟨ten, even⟩ := divisor_tens hb ge lt
  cases filled with
  | literal filled =>
  cases filled with
  | literal filled =>
  cases filled with
  | substitution unit filled =>
  cases filled
  obtain ⟨p, formed, small, rfl, rfl⟩ := unit (.inr rfl)
  rw [ten] at small
  obtain ⟨w, hw, lt', rfl⟩ := eq_word_of_lt formed small
  have hyphen : Text.letters ['-'] = [] := rfl
  refine ⟨.compound b w, ⟨hb, hw, ge, lt, lt'⟩, ?_, ?_, ?_⟩
  · simp only [Phrase.words, List.mem_cons, List.not_mem_nil, or_false]
    omega
  · simp [Phrase.words, token, letters_word hb, hyphen]
  · have base : (rule b).base - (rule b).base % (rule b).divisor = b := by
      rw [ten]
      show b - b % 10 = b
      omega
    rw [normal_remainder, base]
    rfl

theorem counts_times (hb : b ∈ bases) (ge : 100 ≤ b)
    (filled : Reader.Filled (readsBelow (rule b).divisor)
      [.substitution (.quotient .owner), .literal (' ' :: word b)] u {} parts) :
    Counts (b + 1) u (Parts.normal (rule b) parts) := by
  have scale := divisor_scale hb ge
  have letters : Text.letters (' ' :: word b) = word b := letters_word hb
  cases filled with
  | substitution quotient filled =>
  cases filled with
  | literal filled =>
  cases filled
  obtain ⟨q, formed, small, rfl, rfl⟩ := quotient (.inl rfl)
  rw [scale] at small
  refine ⟨.times q b, ⟨hb, ge, formed, small⟩, ?_, ?_, ?_⟩
  · rw [Phrase.words, List.forall_mem_append, List.forall_mem_singleton]
    exact ⟨fun w hw => Nat.lt_succ_of_lt (small w hw), Nat.lt_succ_self b⟩
  · simp [Phrase.words, token, letters]
  · rw [normal_quotient, scale]
    rfl

theorem counts_plus (hb : b ∈ bases) (ge : 100 ≤ b)
    (filled : Reader.Filled (readsBelow (rule b).divisor)
      [.substitution (.quotient .owner), .literal (' ' :: word b), .literal [' '],
        .substitution (.remainder .owner)] u {} parts) :
    Counts (b + 1) u (Parts.normal (rule b) parts) := by
  have scale := divisor_scale hb ge
  have letters : Text.letters (' ' :: word b) = word b := letters_word hb
  have space : Text.letters [' '] = [] := rfl
  cases filled with
  | substitution quotient filled =>
  cases filled with
  | literal filled =>
  cases filled with
  | literal filled =>
  cases filled with
  | substitution rest filled =>
  cases filled
  obtain ⟨q, formed, small, rfl, rfl⟩ := quotient (.inl rfl)
  obtain ⟨p, formed', small', rfl, rfl⟩ := rest (.inr rfl)
  rw [scale] at small small'
  refine ⟨.plus q b p, ⟨hb, ge, formed, small, formed', small'⟩, ?_, ?_, ?_⟩
  · rw [Phrase.words, List.forall_mem_append, List.forall_mem_cons]
    exact ⟨fun w hw => Nat.lt_succ_of_lt (small w hw), Nat.lt_succ_self b,
      fun w hw => Nat.lt_succ_of_lt (small' w hw)⟩
  · simp [Phrase.words, token, letters, space]
  · rw [normal_both, scale]
    rfl

/-- **What fills the rule of a word is a phrase of this word and smaller ones.** -/
theorem counts_of_filled (hb : b ∈ bases) (mem : pieces ∈ (template b).alternatives)
    (filled : Reader.Filled (readsBelow (rule b).divisor) pieces u {} parts) :
    Counts (b + 1) u (Parts.normal (rule b) parts) := by
  rcases Nat.lt_or_ge b 20 with lt | ge
  · rw [alternatives_word lt, List.mem_singleton] at mem
    subst mem
    exact counts_word hb (by omega) filled
  rcases Nat.lt_or_ge b 100 with lt | ge'
  · rw [alternatives_tens ge lt] at mem
    simp only [List.mem_cons, List.not_mem_nil, or_false] at mem
    rcases mem with rfl | rfl
    · exact counts_compound hb ge lt filled
    · exact counts_word hb lt filled
  · rw [alternatives_scale ge'] at mem
    simp only [List.mem_cons, List.not_mem_nil, or_false] at mem
    rcases mem with rfl | rfl
    · exact counts_plus hb ge' filled
    · exact counts_times hb ge' filled

end Filled

/-! ## Answers -/

/-- The letters have the value as a mode reads them. -/
def Means (mode : Mode) (u : Text) (v : Binary64) : Prop :=
  match mode with
  | .full => ∃ ws, Meaning ws v ∧ u = spell ws
  | .integer (some b) => Counts b u v
  | .integer none | .denominators => True

/-- The answer lies inside its stretch, and what the set of cardinals answers is what the letters
    mean. -/
def Understood (t : Text) (q : Question) (m : Option Match) : Prop :=
  q.Spans m ∧ (q.set = simplified → q.start ≤ q.stop → ∀ n, m = some n →
    Means q.mode (Text.letters (t.slice q.start n.stop)) n.value)

/-- A text of words, and a reader that can read only these. -/
structure Wordy (r : Reader) (t : Text) : Prop where
  lettered : r.Lettered t
  plain : ∀ c ∈ t, c ∈ Text.alphabet ∧ c ≠ 'p'
  decimal : r.numerals = .decimal

namespace Wordy

variable {r : Reader} {t : Text} {i j k : Nat} {m : Match}

/-- A text without digits is no numeral. -/
theorem readDecimal_eq_none {u : Text} (h : ∀ c ∈ u, c ∈ Text.alphabet) (p : NumeralPattern) :
    NumeralSystem.readDecimal u p = none := by
  have digit : (Text.alphabet.all fun c => !Text.isDecimalDigit c) = true := by decide +kernel
  have body : ((u.drop (NumeralSystem.signPart u).length).head?.any Text.isDecimalDigit) = false := by
    cases hd : (u.drop (NumeralSystem.signPart u).length).head? with
    | none => rfl
    | some c =>
      have mem : c ∈ Text.alphabet := h c (List.mem_of_mem_drop (List.mem_of_mem_head? hd))
      simpa using List.all_eq_true.1 digit c mem
  simp only [NumeralSystem.readDecimal, NumeralSystem.numeralParts?, body, Bool.false_eq_true,
    if_false]

theorem readNumeral?_eq_none (h : Wordy r t) (p : NumeralPattern) : r.readNumeral? p i j = none := by
  have plain : ∀ c ∈ (r.numeralPlaces i j).flatMap r.textAt, c ∈ Text.alphabet := by
    intro c hc
    obtain ⟨k, -, hc⟩ := List.mem_flatMap.1 hc
    rw [h.lettered.textAt] at hc
    exact (h.plain c (List.mem_of_getElem? (Option.mem_toList.1 hc))).1
  have none : r.numerals.read ((r.numeralPlaces i j).flatMap r.textAt) p = none := by
    rw [h.decimal]
    exact readDecimal_eq_none plain p
  simp only [Reader.readNumeral?, none]

/-! ## Rules -/

/-- The literals among the pieces of a template. -/
def literals (pieces : List Piece) : List Text :=
  pieces.filterMap fun
    | .literal l => some l
    | .substitution _ => none

theorem plain_alternatives {b : Nat} (hb : b ∈ bases) {pieces : List Piece}
    (mem : pieces ∈ (template b).alternatives) : Reader.PlainPieces pieces := by
  have all : ∀ b ∈ bases, ∀ pieces ∈ (template b).alternatives, ∀ l ∈ literals pieces,
      l.isPlain := by
    decide +kernel
  intro l hl
  have mem' : l ∈ literals pieces := List.mem_filterMap.2 ⟨.literal l, hl, rfl⟩
  exact Text.mem_alphabet_of_isPlain (all b hb pieces mem l mem')

/-- The quotient and the remainder of a rule of the set are phrases of words below its divisor. -/
theorem readsBelow_of_readNormal {rule : Rule} {bound : Option Nat}
    {forced : (start stop : Nat) → Search (Option Match)} (sub : Substitution) (hij : i ≤ j)
    (hm : (r.readNormal simplified rule bound 0 forced sub i j).Yields (Understood t) (some m)) :
    readsBelow rule.divisor sub (Text.letters (t.slice i m.stop)) m.value := by
  rintro (rfl | rfl)
  · exact (Search.yields_ask.1 hm).2 rfl hij m rfl
  · obtain ⟨found, hfound, hm⟩ := Search.yields_bind.1 hm
    obtain ⟨rfl, -⟩ := Option.filter_eq_some_iff.1 (Search.yields_done.1 hm)
    exact (Search.yields_ask.1 hfound).2 rfl hij m rfl

/-- **The rule of a word reads phrases of this word and smaller ones.** -/
theorem counts_of_matchRung (h : Wordy r t) {b : Nat} (hb : b ∈ bases) {below : List Rule}
    {bound : Option Nat} (hij : i ≤ j)
    (hm : (r.matchRung simplified (rule b :: below) bound 0 i j).Yields (Understood t) (some m)) :
    Counts (b + 1) (Text.letters (t.slice i m.stop)) m.value := by
  obtain ⟨forced, within, eq⟩ := Reader.exists_forced simplified (rule b) below bound 0
  rw [eq] at hm
  obtain ⟨pieces, mem, p, rfl, trail⟩ := Reader.yields_matchTemplate hm
  have inside : Reader.ReadsWithin (r.readNormal simplified (rule b) bound 0 forced) :=
    Reader.readsWithin_readNormal within
  obtain ⟨-, -, filled⟩ := h.lettered.filled_of_trail
    (fun sub i j m hij hm => inside sub i j m hij (hm.mono fun _ _ understood => understood.1))
    (fun sub _ _ _ hij hm => readsBelow_of_readNormal sub hij hm)
    (plain_alternatives hb mem) hij trail
  exact counts_of_filled hb mem filled

theorem not_yields_numeralRule (h : Wordy r t) {below : List Rule} {bound : Option Nat} :
    ¬ (r.matchRung simplified (numeralRule :: below) bound 0 i j).Yields (Understood t)
      (some m) := by
  intro hm
  obtain ⟨forced, -, eq⟩ := Reader.exists_forced simplified numeralRule below bound 0
  rw [eq] at hm
  obtain ⟨pieces, mem, p, rfl, trail⟩ := Reader.yields_matchTemplate hm
  obtain rfl := List.mem_singleton.1 (show pieces ∈ [[numeralPiece]] from mem)
  cases trail with
  | last taken =>
    unfold Reader.readsBy at taken
    rw [Reader.readNormal, Reader.readTarget, h.readNumeral?_eq_none] at taken
    cases taken
  | split ne => exact absurd rfl ne

/-- No word has a `p`, so that nothing is read as a number with a fraction. -/
theorem not_matchLiteral?_point (h : Wordy r t) :
    r.matchLiteral? (r.foldLiteral " point ".toList) i j ≠ some k := by
  intro hl
  have plain := Text.mem_alphabet_of_isPlain (t := " point ".toList) (by decide)
  have letters := h.lettered.letters_of_matchLiteral? plain hl
  have mem : 'p' ∈ Text.letters (t.slice i k) := by
    rw [letters]
    decide
  have mem : 'p' ∈ t := List.mem_of_mem_take (List.mem_of_mem_drop (List.mem_of_mem_filter mem))
  exact (h.plain 'p' mem).2 rfl

theorem not_yields_point (h : Wordy r t) :
    ¬ (r.matchTemplate (r.readFraction simplified) Parts.fraction pointTemplate i j).Yields
      (Understood t) (some m) := by
  intro hm
  obtain ⟨pieces, mem, p, rfl, trail⟩ := Reader.yields_matchTemplate hm
  obtain rfl := List.mem_singleton.1 (show pieces ∈ [_] from mem)
  cases trail with
  | split _ _ _ _ _ trail =>
    cases trail with
    | literal hl => exact h.not_matchLiteral?_point hl

/-- The rule for numbers below zero reads what it stands before. -/
theorem means_of_minus (h : Wordy r t) (hij : i ≤ j)
    (hm : (r.matchTemplate (r.readNegative simplified) Parts.negative minusTemplate i j).Yields
      (Understood t) (some m)) :
    Means .full (Text.letters (t.slice i m.stop)) m.value := by
  obtain ⟨pieces, mem, p, rfl, trail⟩ := Reader.yields_matchTemplate hm
  obtain rfl := List.mem_singleton.1 (show pieces ∈ [_] from mem)
  have plain := Text.mem_alphabet_of_isPlain (t := "minus ".toList) (by decide)
  cases trail with
  | literal hl trail =>
    have lo := Reader.within_matchLiteral? hl hij
    have letters := h.lettered.letters_of_matchLiteral? plain hl
    cases trail with
    | last taken =>
      have understood := Search.yields_ask.1 taken
      have hi := understood.1 lo.2 _ rfl
      obtain ⟨ws, meaning, spelled⟩ := understood.2 rfl lo.2 _ rfl
      refine ⟨none :: ws, .minus meaning, ?_⟩
      rw [Text.letters_slice_append lo.1 hi.1, letters, spelled]
      rfl
    | split ne => exact absurd rfl ne

/-- The rules of the set with base values read phrases, with no word above that of the rule. -/
theorem counts_of_suffix (h : Wordy r t) {rule : Rule} {below : List Rule} {mode : Mode}
    (suffix : (rule :: below) <:+ simplified.ladder) (hij : i ≤ j)
    (hm : (r.matchCandidate ⟨simplified, mode, i, j⟩ (.normal rule below)).Yields (Understood t)
      (some m)) : Counts (rule.base + 1) (Text.letters (t.slice i m.stop)) m.value := by
  obtain ⟨found, hfound, hm⟩ := Search.yields_bind.1 hm
  obtain ⟨rfl, -⟩ := Option.filter_eq_some_iff.1 (Search.yields_done.1 hm)
  have mem : rule ∈ simplified.ladder := suffix.subset (by simp)
  rcases mem_ladder mem with rfl | ⟨b, hb, rfl⟩
  · exact absurd hfound h.not_yields_numeralRule
  · exact h.counts_of_matchRung hb hij hfound

theorem means_of_matchCandidate (h : Wordy r t) {mode : Mode} {c : Candidate} (hij : i ≤ j)
    (mem : c ∈ simplified.candidates mode)
    (hm : (r.matchCandidate ⟨simplified, mode, i, j⟩ c).Yields (Understood t) (some m)) :
    Means mode (Text.letters (t.slice i m.stop)) m.value := by
  cases Mode.allows_of_mem mem with
  | negative ht =>
    obtain rfl := Option.some.inj ht
    exact h.means_of_minus hij hm
  | @fraction form _ ne ht =>
    cases form with
    | negative => exact absurd rfl ne
    | improper =>
      obtain rfl := Option.some.inj ht
      exact absurd hm h.not_yields_point
    | proper | whole => cases ht
  | normal suffix => exact (h.counts_of_suffix suffix hij hm).meaning
  | @bounded _ _ bound suffix below =>
    cases bound with
    | none => trivial
    | some b =>
      obtain ⟨p, formed, small, eq⟩ := h.counts_of_suffix suffix hij hm
      have lt := below b rfl
      exact ⟨p, formed, fun w hw => Nat.lt_of_lt_of_le (small w hw) lt, eq⟩
  | numerator => trivial

/-- **Answers have the value that their letters mean.** -/
theorem closed_understood (h : Wordy r t) : r.Closed (Understood t) where
  none q := ⟨(Reader.closed_spans (r := r)).none q, fun _ _ n hn => by cases hn⟩
  search q m hm := by
    refine ⟨Reader.closed_spans.search q m (hm.mono fun _ _ understood => understood.1),
      fun set hq n hn => ?_⟩
    subst hn
    obtain ⟨s, mode, start, stop⟩ := q
    obtain rfl : s = simplified := set
    rcases Search.yields_longest hm with hm | ⟨c, hc, hm⟩
    · cases hm
    · exact h.means_of_matchCandidate hq hc hm

end Wordy

end Spellout.English
