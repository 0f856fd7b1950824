/-
  Cardinals in American English are read as they were written.

  * `read_integerText`: what is written for an integer is read as this integer, all of it;
  * `parse_format_usEnglish`: so a text that the sample formats, it parses.
-/
import Spellout.Proofs.English.Reading
import Spellout.Proofs.English.Writing

namespace Spellout.English

variable {book : RuleBook}

/-- What American English compiles to. -/
theorem exists_usEnglish : ∃ book, RuleBook.ofDescription Samples.usEnglish.toList = .ok book ∧
    book.find? simplified.name = some simplified ∧ book.equivalences = .spaceComma := by
  have compiled := find?_usEnglish
  cases hb : RuleBook.ofDescription Samples.usEnglish.toList with
  | error e =>
    rw [hb] at compiled
    cases compiled
  | ok book =>
    rw [hb] at compiled
    obtain ⟨set, equivalences⟩ := Prod.mk.inj (Except.ok.inj compiled)
    exact ⟨book, rfl, set, equivalences⟩

theorem entry_simplified (h : book.find? simplified.name = some simplified) :
    book.entry (some simplified.name) = .ok simplified := by
  have isPublic : simplified.isPublic = true := by decide +kernel
  simp only [RuleBook.entry, RuleBook.resolve, h, bind, Except.bind, isPublic, if_true]

theorem plain_integerText {v : Int} {p : Phrase} (formed : p.Formed) :
    ∀ c ∈ integerText v p, c ∈ Text.alphabet ∧ c ≠ 'p' := by
  have minus : ("minus ".toList.all fun c => Text.alphabet.contains c && c != 'p') = true := by
    decide
  intro c hc
  unfold integerText at hc
  split at hc
  · rcases List.mem_append.1 hc with hc | hc
    · simpa using List.all_eq_true.1 minus c hc
    · exact Phrase.mem_alphabet formed c hc
  · exact Phrase.mem_alphabet formed c hc

/-- What is written for an integer is read as this integer, to the end. -/
theorem fresh_integerText {r : Reader} {v : Int} {p : Phrase} (h : Wordy r (integerText v p))
    (names : p.Names v.natAbs) (small : v.natAbs ≤ 2 ^ 53) :
    r.fresh [] 8 0 ⟨simplified, .full, 0, (integerText v p).length⟩ =
      .ok (some ⟨.ofInt v, (integerText v p).length⟩) := by
  have value : p.value = .ofNat v.natAbs := by
    rw [Phrase.value_eq names.formed (by rw [names.number]; exact small), names.number]
  by_cases neg : v < 0
  · have text : integerText v p = "minus ".toList ++ p.text := if_pos neg
    have read := h.fresh_minus names.formed names.bounded (Nat.le_refl 6) text
    rwa [value, ← show Binary64.ofInt v = (Binary64.ofNat v.natAbs).neg from if_pos neg] at read
  · have text : integerText v p = p.text := if_neg neg
    have read := h.fresh_full names.formed names.bounded (show 6 ≤ 7 by decide) (.refl r _ 0)
      ⟨[], [], by simp [text], rfl⟩
    rwa [value, ← show Binary64.ofInt v = Binary64.ofNat v.natAbs from if_neg neg, Nat.zero_add,
      ← text] at read

/-- **What is written for an integer is read as this integer,** all of it, leniently too. -/
theorem read_integerText (distinct : book.Distinct) (mem : simplified ∈ book.sets)
    (equivalences : book.equivalences = .spaceComma) (lenient : Bool) {limit : Nat}
    (levels : 7 ≤ limit) {v : Int} {p : Phrase} (names : p.Names v.natAbs)
    (small : v.natAbs ≤ 2 ^ 53) :
    (Reader.ofText book .decimal lenient limit (integerText v p)).read simplified =
      .ok (some (.ofInt v, Text.utf8Size (integerText v p))) := by
  have plain := plain_integerText (v := v) names.formed
  have lettered := Reader.lettered_ofText equivalences .decimal lenient limit
    fun c hc => (plain c hc).1
  have fresh := fresh_integerText ⟨lettered, plain, rfl⟩ names small
  have pos : 0 < (integerText v p).length := by
    obtain ⟨c, hc, -⟩ := Phrase.exists_letter names.formed
    obtain ⟨u, hu⟩ := List.head?_eq_some_iff.1 hc
    unfold integerText
    split <;> simp [hu]
  have bytes := lettered.bytesBefore (integerText v p).length
  rw [List.take_length] at bytes
  rw [← bytes]
  refine Reader.read_of_fresh distinct mem ?_ (show 8 ≤ limit + 1 by omega) pos
  rw [lettered.size]
  exact fresh

/-- **Cardinals that the sample formats, it parses:** every integer of up to fifteen digits is spelled
    out, and the text is read as this integer to its last byte, strictly and leniently. -/
theorem parse_format_usEnglish (v : Int) (h : v.natAbs < 10 ^ 15) :
    ∃ book, RuleBook.ofDescription Samples.usEnglish.toList = .ok book ∧
      ∃ t, book.format (.ofInt v) (some "%simplified".toList) {} {} = .ok t ∧
        ∀ lenient, book.parse t (some "%simplified".toList) {} { lenient } =
          .ok ⟨.ofInt v, Text.utf8Size t⟩ := by
  obtain ⟨book, compiled, set, equivalences⟩ := exists_usEnglish
  have entry : book.entry (some "%simplified".toList) = .ok simplified := entry_simplified set
  have distinct := RuleBook.distinct_of_ofDescription compiled
  have mem : simplified ∈ book.sets := List.mem_of_find?_eq_some set
  have small : v.natAbs ≤ 2 ^ 53 := exact_of_lt h
  obtain ⟨p, names, s, hs, text⟩ :=
    exists_format_ofInt ⟨book, .decimal, 64⟩ (show 7 ≤ 64 by decide) v h
  refine ⟨book, compiled, integerText v p, ?_, fun lenient => ?_⟩
  · simp only [RuleBook.format, RuleBook.formatVerbose, entry, bind, Except.bind, hs, pure,
      Except.pure, text]
  · have read := read_integerText distinct mem equivalences lenient (show 7 ≤ 64 by decide) names
      small
    simp only [RuleBook.parse, entry, bind, Except.bind, read, pure, Except.pure]

/-- A value below zero, with a remainder behind each scale. -/
theorem parse_format_usEnglish_minus : Int.natAbs (-1980) < 10 ^ 15 ∧
    ∃ book, RuleBook.ofDescription Samples.usEnglish.toList = .ok book ∧
      ∃ t, book.format (.ofInt (-1980)) (some "%simplified".toList) {} {} = .ok t ∧
        ∀ lenient, book.parse t (some "%simplified".toList) {} { lenient } =
          .ok ⟨.ofInt (-1980), Text.utf8Size t⟩ :=
  ⟨by decide, parse_format_usEnglish (-1980) (by decide)⟩

end Spellout.English
