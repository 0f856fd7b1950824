/-
  What is read strictly is derived.

  An answer is `Derived` if the text of its match derives the value.  The predicate is closed under
  searches, whatever is under way and whatever a memory holds; so it holds of all answers.

  * `Mode.allows_of_mem`: the candidates for a question are rules that its mode allows;
  * `Reader.Strict.pieces_of_trail`: a trail puts the text of its match together of pieces;
  * `Reader.Strict.closed_derived`: answers made of derived answers are derived;
  * `RuleBook.derives_of_parse`: a value that is parsed strictly is derived from the text it takes up.
-/
import Spellout.Proofs.Number.Exact
import Spellout.Proofs.Reading.Derivation
import Spellout.Proofs.Reading.Strict
import Spellout.RuleBook.Conversion

namespace Spellout

/-! ## Rules that a mode allows -/

theorem RuleSet.normal_of_mem_rungs {c : Candidate} : ∀ {ladder : List Rule}, c ∈ rungs ladder →
    ∃ rule below, c = .normal rule below ∧ (rule :: below) <:+ ladder
  | [], h => by cases h
  | rule :: below, h => by
    rcases List.mem_cons.1 h with rfl | h
    · exact ⟨rule, below, rfl, List.suffix_rfl⟩
    · obtain ⟨rule', below', rfl, suffix⟩ := normal_of_mem_rungs h
      exact ⟨rule', below', rfl, suffix.trans (List.suffix_cons ..)⟩

theorem RuleSet.exists_mem_rungs {rule : Rule} : ∀ {ladder : List Rule}, rule ∈ ladder →
    ∃ below, .normal rule below ∈ rungs ladder
  | rule' :: below, h => by
    rcases List.mem_cons.1 h with rfl | h
    · exact ⟨below, List.mem_cons_self⟩
    · obtain ⟨below', mem⟩ := exists_mem_rungs h
      exact ⟨below', List.mem_cons_of_mem _ mem⟩

/-- A candidate for a question is a rule that its mode allows. -/
theorem Mode.allows_of_mem {s : RuleSet} {mode : Mode} {c : Candidate} (h : c ∈ s.candidates mode) :
    mode.Allows s c := by
  cases mode with
  | full =>
    simp only [RuleSet.candidates, List.flatMap_cons, List.flatMap_nil, List.append_nil,
      List.mem_append, List.mem_map, Option.mem_toList] at h
    rcases h with (⟨t, ht, rfl⟩ | ⟨t, ht, rfl⟩ | ⟨t, ht, rfl⟩ | ⟨t, ht, rfl⟩) | h
    · exact .negative ht
    · exact .fraction (by simp) (show s.special .improper = some t from ht)
    · exact .fraction (by simp) (show s.special .proper = some t from ht)
    · exact .fraction (by simp) (show s.special .whole = some t from ht)
    · obtain ⟨rule, below, rfl, suffix⟩ := RuleSet.normal_of_mem_rungs h
      exact .normal suffix
  | integer bound =>
    obtain ⟨h, admitted⟩ := List.mem_filter.1 h
    obtain ⟨rule, below, rfl, suffix⟩ := RuleSet.normal_of_mem_rungs h
    refine .bounded suffix fun b hb => ?_
    subst hb
    exact Binary64.lt_of_ofNat_lt admitted
  | denominators =>
    simp only [RuleSet.candidates, List.mem_map, List.mem_filter, decide_eq_true_eq] at h
    obtain ⟨rule, ⟨mem, pos⟩, rfl⟩ := h
    exact .numerator mem pos

theorem Mode.admits_integer (b : Nat) (v : Binary64) :
    Mode.admits (.integer (some b)) v = v.lt (.ofNat b) :=
  rfl

theorem Mode.admits_ofNat {n b : Nat} (lt : n < b) (le : b ≤ 2 ^ 53) :
    Mode.admits (.integer (some b)) (.ofNat n) := by
  rw [Mode.admits_integer, Binary64.lt_ofNat (by omega) le]
  exact lt

/-- A rule with a base below the bound is a candidate. -/
theorem RuleSet.exists_mem_candidates {s : RuleSet} {rule : Rule} (mem : rule ∈ s.ladder) {b : Nat}
    (lt : rule.base < b) (le : b ≤ 2 ^ 53) :
    ∃ below, .normal rule below ∈ s.candidates (.integer (some b)) := by
  obtain ⟨below, rung⟩ := exists_mem_rungs mem
  exact ⟨below, List.mem_filter.2 ⟨rung, Mode.admits_ofNat lt le⟩⟩

/-! ## Digits -/

namespace Binary64

theorem isDigit_of_finite {negative : Bool} {x : Magnitude} (whole : x.steps % stepsPerUnit = 0)
    (lt : x.floor < 10) (sign : negative → x.steps = 0) :
    (finite negative x).IsDigit x.floor := by
  refine ⟨lt, ?_⟩
  have steps : x.floor * stepsPerUnit = x.steps := Nat.div_mul_cancel (Nat.dvd_of_mod_eq_zero whole)
  rw [place_ofNat (by omega), steps]
  cases negative with
  | false => rfl
  | true => simp [place, signed, sign rfl]

end Binary64

namespace Reader

theorem isDigit_of_digit? {place : Nat} {m : Match} {c : Char} (h : digit? place m = some c) :
    place < m.stop ∧ ∃ n, m.value.IsDigit n ∧ c = Nat.digitChar n := by
  unfold digit? at h
  split at h
  · rename_i lt
    split at h
    · split at h
      · rename_i hv digit
        obtain rfl := Option.some.inj h
        exact ⟨lt, _, hv ▸ Binary64.isDigit_of_finite digit.1 digit.2.1 digit.2.2, rfl⟩
      · cases h
    · cases h
  · cases h

/-! ## Derived answers -/

/-- The match of an answer lies inside its stretch, and its text derives its value. -/
def Derived (r : Reader) (t : Text) (q : Question) (m : Option Match) : Prop :=
  q.Spans m ∧ (q.start ≤ q.stop → q.stop ≤ t.length → ∀ n, m = some n →
    Derives.Set r.book r.numerals q.set q.mode (t.slice q.start n.stop) n.value)

/-- What a substitution of the rule reads in a stretch of the text is derived. -/
def ReadsDerived (r : Reader) (t : Text) (s : RuleSet) (c : Candidate) (bound : Option Nat)
    (read : SubReader) : Prop :=
  ∀ sub i j m, i ≤ j → j ≤ t.length → (read sub i j).Yields (r.Derived t) (some m) →
    Derives.Sub r.book r.numerals s c bound sub (t.slice i m.stop) m.value

theorem ReadsWithin.within {r : Reader} {t : Text} {read : SubReader} (h : ReadsWithin read)
    {sub : Substitution} {i j : Nat} {m : Match} (hij : i ≤ j)
    (hm : (read sub i j).Yields (r.Derived t) (some m)) : i ≤ m.stop ∧ m.stop ≤ j :=
  h sub i j m hij (hm.mono fun _ _ derived => derived.1)

namespace Strict

variable {r : Reader} {t : Text} {s : RuleSet} {c : Candidate} {bound : Option Nat}
  {i j stop : Nat} {m : Match}

/-- **A trail puts the text together** of what the pieces of its alternative derive. -/
theorem pieces_of_trail (h : r.Strict t) {read : SubReader} (within : ReadsWithin read)
    (reads : r.ReadsDerived t s c bound read) (len : stop ≤ t.length) :
    ∀ {pieces : List Piece} {place : Nat} {parts : Parts} {p : Progress}, place ≤ stop →
      Trail r (readsBy (r.Derived t) read) stop (pieces.map r.element) place parts p →
        place ≤ p.place ∧ p.place ≤ stop ∧ Derives.Pieces r.book r.numerals s c bound pieces
          (t.slice place p.place) parts p.parts
  | [], _, _, _, hp, trail => by
    cases trail with
    | finish => exact ⟨Nat.le_refl _, hp, Text.slice_self (t := t) ▸ .nil⟩
  | .literal l :: rest, _, _, _, hp, trail => by
    cases trail with
    | literal hl trail =>
      have next := within_matchLiteral? hl hp
      obtain ⟨lo, hi, pieces⟩ := h.pieces_of_trail within reads len next.2 trail
      refine ⟨by omega, hi, ?_⟩
      rw [← Text.slice_append next.1 lo, h.slice_of_matchLiteral? hl]
      exact .literal pieces
  | .substitution sub :: rest, _, _, _, hp, trail => by
    rcases trail.of_substitution with ⟨m, rfl, rfl, hm⟩ | ⟨split, m, -, lo, hi, hm, hc, trail⟩
    · obtain ⟨lo, hi⟩ := within.within hp hm
      refine ⟨lo, hi, ?_⟩
      rw [← List.append_nil (t.slice _ _)]
      exact .substitution (reads _ _ _ _ hp len hm) .nil
    · obtain ⟨lo', hi', pieces⟩ := h.pieces_of_trail within reads len hi trail
      have covered := h.covers hc
      refine ⟨by omega, hi', ?_⟩
      rw [← Text.slice_append lo lo', ← covered]
      exact .substitution (reads _ _ _ _ lo (by omega) hm) (covered ▸ pieces)

theorem rule_of_matchTemplate (h : r.Strict t) {read : SubReader} (within : ReadsWithin read)
    (reads : r.ReadsDerived t s c bound read) (hi : i ≤ stop) (len : stop ≤ t.length)
    (hm : (r.matchTemplate read c.value c.template i stop).Yields (r.Derived t) (some m)) :
    Derives.Rule r.book r.numerals s c bound (t.slice i m.stop) m.value := by
  obtain ⟨pieces, mem, p, rfl, trail⟩ := yields_matchTemplate hm
  exact .alternative mem (h.pieces_of_trail within reads len hi trail).2.2

/-! ## Substitutions -/

theorem sent_of_readTarget (h : r.Strict t) (starts : r.numerals.ReadsStart) {deeper : Nat}
    {mode : Mode} {target : Target} (hij : i ≤ j) (len : j ≤ t.length)
    (hm : (r.readTarget deeper s mode target i j).Yields (r.Derived t) (some m)) :
    Derives.Sent r.book r.numerals s mode target (t.slice i m.stop) m.value := by
  cases target with
  | owner => exact .owner ((Search.yields_ask.1 hm).2 hij len m rfl)
  | ruleSet name =>
    obtain ⟨s', hs, hm⟩ := Search.yields_bind.1 hm
    exact .ruleSet (RuleBook.find?_of_resolve (Search.yields_ofExcept.1 hs))
      ((Search.yields_ask.1 hm).2 hij len m rfl)
  | numeral p => exact .numeral (h.slice_of_readNumeral? starts hij len (Search.yields_done.1 hm))

theorem readsDerived_readNormal (h : r.Strict t) (starts : r.numerals.ReadsStart) {rule : Rule}
    {below : List Rule} {deeper : Nat} {forced : (start stop : Nat) → Search (Option Match)}
    (hf : ∀ i j m, i ≤ j → j ≤ t.length → (forced i j).Yields (r.Derived t) (some m) →
      Derives.Sub r.book r.numerals s (.normal rule below) bound .forced (t.slice i m.stop) m.value) :
    r.ReadsDerived t s (.normal rule below) bound (r.readNormal s rule bound deeper forced) := by
  intro sub i j m hij len hm
  cases sub with
  | quotient target => exact .normalQuotient (h.sent_of_readTarget starts hij len hm)
  | remainder target =>
    obtain ⟨found, hfound, hm⟩ := Search.yields_bind.1 hm
    obtain ⟨rfl, lt⟩ := Option.filter_eq_some_iff.1 (Search.yields_done.1 hm)
    exact .normalRemainder (h.sent_of_readTarget starts hij len hfound) lt
  | forced => exact hf i j m hij len hm
  | same target => exact .normalSame (h.sent_of_readTarget starts hij len hm)

/-- What stands between digits that are spelled one by one. -/
def separator (spaced : Bool) : Text := if spaced then [' '] else []

theorem slice_of_digitStart? (h : r.Strict t) {spaced : Bool} {place start : Nat}
    (hs : r.digitStart? spaced place stop = some start) :
    t.slice place start = separator spaced := by
  unfold digitStart? at hs
  cases spaced with
  | false =>
    obtain rfl := Option.some.inj hs
    exact Text.slice_self
  | true =>
    simp only [Bool.not_true, Bool.false_eq_true, if_false, h.lenient, Bool.and_eq_true,
      decide_eq_true_eq] at hs
    split at hs
    · rename_i key
      obtain rfl := Option.some.inj hs
      exact Text.slice_succ (h.hasKey key.2)
    · cases hs

/-- Reading on after some digits reads no more, or digits that are derived. -/
theorem digits_of_readDigitsFrom (h : r.Strict t) (len : stop ≤ t.length) {spaced : Bool} :
    ∀ {fuel : Nat} {digits : Text} {place : Nat} {d : Text × Nat}, place ≤ stop →
      (r.readDigitsFrom s spaced stop fuel digits place).Yields (r.Derived t) d →
        d = (digits, place) ∨ ∃ more u, d.1 = more.reverse ++ digits ∧
          t.slice place d.2 = separator (spaced && digits ≠ []) ++ u ∧
          Derives.Digits r.book r.numerals s (separator spaced) u more
  | 0, _, _, _, _, hd => .inl (Search.yields_done.1 hd).symm
  | fuel + 1, digits, place, d, hp, hd => by
    unfold readDigitsFrom at hd
    split at hd
    · exact .inl (Search.yields_done.1 hd).symm
    · rename_i start hs
      have hstart := within_digitStart? hs hp
      obtain ⟨m, hm, hd⟩ := hd
      dsimp only at hd
      split at hd
      · exact .inl (Search.yields_done.1 hd).symm
      · rename_i n
        split at hd
        · exact .inl (Search.yields_done.1 hd).symm
        · rename_i c hc
          obtain ⟨lt, digit, isDigit, rfl⟩ := isDigit_of_digit? hc
          have hn := hm.1 hstart.2 n rfl
          have set := hm.2 hstart.2 len n rfl
          dsimp only at hn set
          have ne : t.slice start n.stop ≠ [] := Text.slice_ne_nil lt (by omega)
          have front : t.slice place n.stop =
              separator (spaced && digits ≠ []) ++ t.slice start n.stop := by
            rw [← h.slice_of_digitStart? hs, Text.slice_append hstart.1 hn.1]
          refine .inr ?_
          rcases h.digits_of_readDigitsFrom len hn.2 hd with rfl | ⟨more, u, hmore, rest, derived⟩
          · exact ⟨[Nat.digitChar digit], _, rfl, front, .last ne set isDigit⟩
          · have hi : n.stop ≤ d.2 :=
              (within_readDigitsFrom hn.2 (hd.mono fun _ _ derived => derived.1)).1
            refine ⟨Nat.digitChar digit :: more, t.slice start n.stop ++ separator spaced ++ u, ?_, ?_,
              .more ne set isDigit derived⟩
            · simp [hmore]
            · rw [← Text.slice_append (by omega) hi, front, rest]
              simp

theorem digits_of_readDigits (h : r.Strict t) {spaced : Bool} (hij : i ≤ j) (len : j ≤ t.length)
    (hm : (r.readDigits s spaced i j).Yields (r.Derived t) (some m)) :
    ∃ digits, m.value = Decimal.nearest false (.ofDigits [] digits) ∧
      Derives.Digits r.book r.numerals s (separator spaced) (t.slice i m.stop) digits := by
  obtain ⟨d, hd, hm⟩ := Search.yields_bind.1 hm
  dsimp only at hm
  split at hm
  · cases hm
  · rename_i ne
    obtain rfl := Option.some.inj (Search.yields_done.1 hm)
    rcases h.digits_of_readDigitsFrom len hij hd with rfl | ⟨digits, u, hdigits, slice, derived⟩
    · exact absurd rfl ne
    · refine ⟨digits, by simp [hdigits], ?_⟩
      dsimp only
      rw [slice]
      simpa [separator] using derived

theorem readsDerived_readFraction (h : r.Strict t) (starts : r.numerals.ReadsStart)
    {template : Template} :
    r.ReadsDerived t s (.fraction template) bound (r.readFraction s) := by
  intro sub i j m hij len hm
  unfold readFraction at hm
  split at hm
  · exact .fractionQuotient (h.sent_of_readTarget starts hij len hm)
  · obtain ⟨digits, value, derived⟩ := h.digits_of_readDigits hij len hm
    exact value ▸ .spacedDigits derived
  · cases h.sent_of_readTarget starts hij len hm with
    | ruleSet hs set => exact .fractionSet hs set
  · obtain ⟨digits, value, derived⟩ := h.digits_of_readDigits hij len hm
    exact value ▸ .closeDigits derived
  · rename_i target owner name
    cases target with
    | owner => exact absurd rfl owner
    | ruleSet name' => exact absurd rfl (name name')
    | numeral p => exact .fractionNumeral (h.sent_of_readTarget starts hij len hm)
  · exact .fractionSame (h.sent_of_readTarget starts hij len hm)

theorem readsDerived_readNegative (h : r.Strict t) (starts : r.numerals.ReadsStart)
    {template : Template} :
    r.ReadsDerived t s (.negative template) bound (r.readNegative s) := by
  intro sub i j m hij len hm
  unfold readNegative at hm
  split at hm
  · cases h.sent_of_readTarget starts hij len hm with
    | owner set => exact .negativeForced set
  · exact .negative (.inl rfl) (h.sent_of_readTarget starts hij len hm)
  · exact .negative (.inr (.inl rfl)) (h.sent_of_readTarget starts hij len hm)
  · exact .negative (.inr (.inr rfl)) (h.sent_of_readTarget starts hij len hm)

theorem readsDerived_readNumerator (h : r.Strict t) (starts : r.numerals.ReadsStart) {rule : Rule} :
    r.ReadsDerived t s (.numerator rule) bound (r.readNumerator s) := by
  intro sub i j m hij len hm
  unfold readNumerator at hm
  split at hm
  · cases h.sent_of_readTarget starts hij len hm with
    | owner set => exact .numeratorQuotient set
  · cases h.sent_of_readTarget starts hij len hm with
    | owner set => exact .numeratorForced set
  · rename_i target owner
    exact .numerator (.inl ⟨rfl, fun ht => owner (ht ▸ rfl)⟩)
      (h.sent_of_readTarget starts hij len hm)
  · exact .numerator (.inr (.inl rfl)) (h.sent_of_readTarget starts hij len hm)
  · exact .numerator (.inr (.inr rfl)) (h.sent_of_readTarget starts hij len hm)

/-! ## Rules -/

/-- Up the ladder: `>>>` derives what the rule below derives. -/
theorem rule_of_matchRung (h : r.Strict t) (starts : r.numerals.ReadsStart) :
    ∀ {rule : Rule} {below : List Rule} {bound : Option Nat} {deeper i j : Nat} {m : Match},
      i ≤ j → j ≤ t.length →
        (r.matchRung s (rule :: below) bound deeper i j).Yields (r.Derived t) (some m) →
          Derives.Rule r.book r.numerals s (.normal rule below) bound (t.slice i m.stop) m.value
  | rule, [], bound, deeper, i, j, m, hij, len, hm => by
    refine h.rule_of_matchTemplate (c := .normal rule [])
      (readsWithin_readNormal fun _ _ _ => within_readTarget)
      (h.readsDerived_readNormal starts fun i j m hij len hm => ?_) hij len hm
    cases h.sent_of_readTarget starts hij len hm with
    | owner set => exact .lowestForced set
  | rule, rule' :: below, bound, deeper, i, j, m, hij, len, hm =>
    h.rule_of_matchTemplate (c := .normal rule (rule' :: below))
      (readsWithin_readNormal fun _ _ _ => within_matchRung)
      (h.readsDerived_readNormal starts fun _ _ _ hij len hm =>
        .normalForced (h.rule_of_matchRung starts hij len hm)) hij len hm

theorem set_of_matchCandidate (h : r.Strict t) (starts : r.numerals.ReadsStart) {q : Question}
    (allowed : q.mode.Allows q.set c) (hq : q.start ≤ q.stop) (len : q.stop ≤ t.length)
    (hm : (r.matchCandidate q c).Yields (r.Derived t) (some m)) :
    Derives.Set r.book r.numerals q.set q.mode (t.slice q.start m.stop) m.value := by
  cases c with
  | negative template =>
    refine .rule allowed (h.rule_of_matchTemplate (readsWithin_readNegative q.set)
      (h.readsDerived_readNegative starts) hq len hm) fun b hb => ?_
    rw [hb] at allowed
    cases allowed
  | fraction template =>
    refine .rule allowed (h.rule_of_matchTemplate (readsWithin_readFraction q.set)
      (h.readsDerived_readFraction starts) hq len hm) fun b hb => ?_
    rw [hb] at allowed
    cases allowed
  | normal rule below =>
    obtain ⟨found, hfound, hm⟩ := Search.yields_bind.1 hm
    obtain ⟨rfl, admitted⟩ := Option.filter_eq_some_iff.1 (Search.yields_done.1 hm)
    refine .rule allowed (h.rule_of_matchRung starts hq len hfound) fun b hb => ?_
    rw [hb] at admitted
    exact admitted
  | numerator rule =>
    refine .rule allowed (h.rule_of_matchTemplate (readsWithin_readNumerator q.set)
      (h.readsDerived_readNumerator starts) hq len hm) fun b hb => ?_
    rw [hb] at allowed
    cases allowed

/-- **Answers made of derived answers are derived.** -/
theorem closed_derived (h : r.Strict t) (starts : r.numerals.ReadsStart) :
    r.Closed (r.Derived t) where
  none q := ⟨(closed_spans (r := r)).none q, fun _ _ n hn => by cases hn⟩
  search q m hm := by
    refine ⟨closed_spans.search q m (hm.mono fun _ _ derived => derived.1), fun hq len n hn => ?_⟩
    subst hn
    rcases Search.yields_longest hm with hm | ⟨c, hc, hm⟩
    · cases hm
    · exact h.set_of_matchCandidate starts (Mode.allows_of_mem hc) hq len hm

/-- What a rule set reads at the start of the text is derived from the text it takes up. -/
theorem derives_of_read (h : r.Strict t) (starts : r.numerals.ReadsStart)
    (distinct : r.book.Distinct) (hs : s ∈ r.book.sets) {v : Binary64} {n : Nat}
    (hr : r.read s = .ok (some (v, n))) :
    ∃ u rest, t = u ++ rest ∧ Text.utf8Size u = n ∧
      Derives.Set r.book r.numerals s .full u v := by
  unfold read at hr
  obtain ⟨⟨found, memo⟩, ha, hr⟩ := bind_eq_ok.1 hr
  obtain ⟨m, hm, value⟩ := Option.map_eq_some_iff.1 (Except.ok.inj hr)
  obtain ⟨rfl, -⟩ := Option.filter_eq_some_iff.1 hm
  obtain ⟨rfl, rfl⟩ := Prod.mk.inj value
  have derived := (answer_holds distinct (h.closed_derived starts)
    (q := ⟨s, .full, 0, r.symbols.size⟩) hs (Memo.holds_empty r) ha).1.2
    (Nat.zero_le _) (Nat.le_of_eq h.size) m rfl
  rw [Text.slice_zero] at derived
  exact ⟨t.take m.stop, t.drop m.stop, (List.take_append_drop ..).symm, (h.bytesBefore _).symm,
    derived⟩

end Strict
end Reader

/-! ## Parsing -/

/-- **What is parsed strictly is derived.**  The value is derived from exactly the text that is
    consumed, with every rule of the set; rule sets may refer to one another in any way. -/
theorem RuleBook.derives_of_parse {description : Text} {book : RuleBook}
    (compiled : ofDescription description = .ok book) {t : Text} {set : Option Text} {limit : Nat}
    {out : Outcome}
    (h : book.parse t set ⟨.decimal⟩ ⟨limit, false⟩ = .ok out) :
    ∃ s, book.entry set = .ok s ∧ ∃ u rest, t = u ++ rest ∧ Text.utf8Size u = out.consumed ∧
      Derives.Set book .decimal s .full u out.value := by
  unfold parse at h
  obtain ⟨s, hs, h⟩ := bind_eq_ok.1 h
  obtain ⟨found, hr, h⟩ := bind_eq_ok.1 h
  refine ⟨s, hs, ?_⟩
  cases found with
  | none => cases h
  | some m =>
    obtain ⟨v, n⟩ := m
    obtain rfl := Except.ok.inj h
    exact (Reader.strict_ofText book .decimal limit t).derives_of_read
      NumeralSystem.readsStart_decimal (distinct_of_ofDescription compiled) (mem_of_entry hs) hr

/-- Two rule sets that refer to one another. -/
def RuleBook.cyclic : RuleBook where
  sets :=
    [{ name := "%few".toList
       ladder :=
        [⟨2, 10, 0, true, [.piece (.substitution (.same (.ruleSet "%many".toList)))]⟩,
         ⟨1, 10, 0, true, [.piece (.literal "one".toList)]⟩,
         ⟨0, 10, 0, true, [.piece (.literal "none".toList)]⟩] },
     { name := "%many".toList
       ladder :=
        [⟨10, 10, 0, false,
          [.piece (.substitution (.quotient (.ruleSet "%few".toList))),
            .piece (.literal "ty".toList),
            .optional [.literal "-".toList, .substitution (.remainder .owner)]]⟩,
         ⟨3, 10, 0, true, [.piece (.substitution (.same (.ruleSet "%few".toList)))]⟩,
         ⟨2, 10, 0, false, [.piece (.literal "two".toList)]⟩] }]
  equivalences := .none

/-- A value is read although the rule sets ask one another without end. -/
theorem RuleBook.derives_of_parse_cyclic :
    ofDescription "%few: none; one; =%many=; %many: 2: two; =%few=; 10: <%few<ty[->>];".toList =
        .ok cyclic ∧
      cyclic.parse "twoty-one!".toList none ⟨.decimal⟩ ⟨64, false⟩ = .ok ⟨.ofNat 21, 9⟩ ∧
      ∃ s, cyclic.entry none = .ok s ∧ ∃ u rest, "twoty-one!".toList = u ++ rest ∧
        Text.utf8Size u = 9 ∧ Derives.Set cyclic .decimal s .full u (.ofNat 21) := by
  have compiled : ofDescription
      "%few: none; one; =%many=; %many: 2: two; =%few=; 10: <%few<ty[->>];".toList = .ok cyclic := by
    decide +kernel
  have parsed : cyclic.parse "twoty-one!".toList none ⟨.decimal⟩ ⟨64, false⟩ =
      .ok ⟨.ofNat 21, 9⟩ := by
    decide +kernel
  obtain ⟨s, entry, u, rest, split, size, derived⟩ := derives_of_parse compiled parsed
  dsimp only at size derived
  exact ⟨compiled, parsed, s, entry, u, rest, split, size, derived⟩

end Spellout
