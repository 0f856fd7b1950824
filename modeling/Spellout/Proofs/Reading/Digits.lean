/-
  Digits that are spelled out one by one, and read back.

  The digits of a fraction are written as the words for them, with a blank between them or nothing.
  They are read by asking for a number below ten at every place where a digit may start.  If no word
  is the start of another one, the number that is found is the one that was written, and the next
  digit starts where its word ends.

  * `Reader.AwaitsDigits`: no digit is under way in a memory;
  * `Reader.Strict.run_digit`, `Reader.Strict.run_digits`: one digit is read, and all of a stretch are;
  * `RuleBook.readDigits_spellDigits`: digits that are spelled out are read back as the value nearest
    to the fraction with these digits.
-/
import Mathlib.Data.List.Induction
import Mathlib.Data.Nat.Digits.Defs
import Spellout.Proofs.Number.Nearest
import Spellout.Proofs.Numeral.RoundTrip
import Spellout.Proofs.Reading.Memory
import Spellout.Proofs.Reading.Words

namespace Spellout

/-- Of words with separators between them all but the first have one before them. -/
theorem intercalate_map_cons (sep : Text) (w : Nat → Text) (d : Nat) (ds : List Nat) :
    sep.intercalate ((d :: ds).map w) = w d ++ ds.flatMap fun e => sep ++ w e := by
  induction ds generalizing d with
  | nil => simp
  | cons e ds ih =>
    rw [List.map_cons, List.map_cons, List.intercalate_cons_cons, ← List.map_cons, ih,
      List.flatMap_cons]
    simp

namespace Reader

variable {r : Reader} {s : RuleSet} {m : Option Match} {memo : Memo} {w : Nat → Text} {t u : Text}
  {spaced : Bool} {levels d place start stop fuel : Nat} {digits : Text}

/-! ## Digits -/

/-- The memory may come about in reading, and no digit of the set is under way in it. -/
structure AwaitsDigits (r : Reader) (s : RuleSet) (memo : Memo) : Prop where
  arises : r.Arises memo
  idle : ∀ i j, memo.find? ⟨s, .integer (some 10), i, j⟩ ≠ some .pending

theorem awaitsDigits_empty (r : Reader) (s : RuleSet) : r.AwaitsDigits s .empty :=
  ⟨.empty, fun _ _ => by simp⟩

theorem AwaitsDigits.exists_answer (awaits : r.AwaitsDigits s memo) (distinct : r.book.Distinct)
    (hs : s ∈ r.book.sets) (done : r.search ⟨s, .integer (some 10), start, stop⟩ = .done m)
    (levels : Nat) : ∃ memo', r.AwaitsDigits s memo' ∧
      r.answer (levels + 1) 0 ⟨s, .integer (some 10), start, stop⟩ memo = .ok (m, memo') := by
  have inBook : r.InBook ⟨s, .integer (some 10), start, stop⟩ := hs
  obtain ⟨memo', answered, arises, under⟩ :=
    exists_answer_of_done distinct inBook done awaits.arises (awaits.idle start stop) levels
  exact ⟨memo', ⟨arises, fun i j pending => awaits.idle i j (under _ pending)⟩, answered⟩

theorem digit?_ofNat (hd : d < 10) (lt : place < stop) :
    digit? place ⟨.ofNat d, stop⟩ = some (Nat.digitChar d) := by
  have small : d ≤ 2 ^ 53 := Nat.le_trans (Nat.le_of_lt hd) (by decide)
  have floor := Binary64.floor_ofNat small
  have whole : d * Binary64.stepsPerUnit % Binary64.stepsPerUnit = 0 :=
    Nat.mul_mod_left d Binary64.stepsPerUnit
  rw [digit?, if_pos lt, Binary64.ofNat_of_le small]
  dsimp only
  rw [floor, if_pos ⟨whole, hd, fun sign => absurd sign Bool.false_ne_true⟩]

namespace Strict

/-- Behind a separator that stands there a digit may start. -/
theorem digitStart?_of_stands (h : r.Strict t) (stands : separator spaced ++ u <+: t.drop place)
    (le : place + (separator spaced).length ≤ stop) :
    r.digitStart? spaced place stop = some (place + (separator spaced).length) := by
  cases spaced with
  | false => rfl
  | true =>
    obtain ⟨rest, hrest⟩ := stands
    have blank : t[place]? = some ' ' := by
      rw [← List.head?_drop, ← hrest]
      rfl
    have lt : place < stop := le
    simp only [digitStart?, Bool.not_true, Bool.false_eq_true, if_false, h.lenient, lt,
      h.hasKey_of_getElem? blank, decide_true, Bool.and_self, if_true]
    rfl

variable (h : r.Strict t) (words : s.Distinguishes 10 w) (distinct : r.book.Distinct)
  (hs : s ∈ r.book.sets) (hstop : stop ≤ t.length)
include h words distinct hs hstop

/-- A digit whose word stands behind a separator is read. -/
theorem run_digit (levels : Nat) (awaits : r.AwaitsDigits s memo) (hd : d < 10)
    (begins : r.digitStart? (spaced && digits ≠ []) place stop = some start)
    (stands : w d <+: t.drop start) (le : start + (w d).length ≤ stop) :
    ∃ memo', r.AwaitsDigits s memo' ∧
      (r.readDigitsFrom s spaced stop (fuel + 1) digits place).run (r.answer (levels + 1)) memo =
        (r.readDigitsFrom s spaced stop fuel (Nat.digitChar d :: digits)
          (start + (w d).length)).run (r.answer (levels + 1)) memo' := by
  have pos := List.length_pos_of_ne_nil (words.code.ne_nil d hd)
  obtain ⟨memo', awaits', answered⟩ := awaits.exists_answer distinct hs
    (h.search_word words hd hstop stands le) levels
  refine ⟨memo', awaits', ?_⟩
  simp only [readDigitsFrom, begins, Search.run, answered, bind, Except.bind,
    digit?_ofNat hd (show start < start + (w d).length by omega)]

/-- At the end no more digits are read. -/
theorem run_end (awaits : r.AwaitsDigits s memo) (ne : digits ≠ []) :
    ∃ memo', (r.readDigitsFrom s spaced stop fuel digits stop).run (r.answer (levels + 1)) memo =
      .ok ((digits, stop), memo') := by
  cases fuel with
  | zero => exact ⟨memo, rfl⟩
  | succ fuel =>
    cases spaced with
    | true =>
      refine ⟨memo, ?_⟩
      simp [readDigitsFrom, digitStart?, ne, h.lenient, Search.run]
    | false =>
      obtain ⟨memo', -, answered⟩ :=
        awaits.exists_answer distinct hs (h.search_end words hstop) levels
      refine ⟨memo', ?_⟩
      simp [readDigitsFrom, digitStart?, Search.run, answered, bind, Except.bind]

/-- **Words with separators before them are read digit by digit,** to the end of the stretch. -/
theorem run_digits : ∀ {ds : List Nat} {fuel place : Nat} {digits : Text} {memo : Memo},
    r.AwaitsDigits s memo → (∀ d ∈ ds, d < 10) → digits ≠ [] →
      (ds.flatMap fun d => separator spaced ++ w d) <+: t.drop place →
      stop = place + (ds.flatMap fun d => separator spaced ++ w d).length → stop < place + fuel →
        ∃ memo', (r.readDigitsFrom s spaced stop fuel digits place).run (r.answer (levels + 1)) memo =
          .ok (((ds.map Nat.digitChar).reverse ++ digits, stop), memo')
  | [], fuel, place, digits, memo, awaits, _, ne, _, ends, _ => by
    obtain rfl : stop = place := ends
    exact h.run_end words distinct hs hstop awaits ne
  | d :: ds, 0, place, digits, memo, _, _, _, _, ends, enough => by omega
  | d :: ds, fuel + 1, place, digits, memo, awaits, small, ne, stands, ends, enough => by
    rw [List.flatMap_cons, List.append_assoc] at stands ends
    simp only [List.length_append] at ends
    have hd := small d List.mem_cons_self
    have pos := List.length_pos_of_ne_nil (words.code.ne_nil d hd)
    have begins : r.digitStart? (spaced && digits ≠ []) place stop =
        some (place + (separator spaced).length) := by
      simpa [ne] using h.digitStart?_of_stands stands (by omega)
    have word := Text.stands_behind stands
    have first := (List.prefix_append ..).trans word
    obtain ⟨memo₁, awaits₁, step⟩ :=
      h.run_digit words distinct hs hstop levels awaits hd begins first (by omega)
    have left : stop < place + (separator spaced).length + (w d).length + fuel := by omega
    obtain ⟨memo', run⟩ := run_digits awaits₁ (fun e he => small e (List.mem_cons_of_mem d he))
      (List.cons_ne_nil (Nat.digitChar d) digits) (Text.stands_behind word) (by omega) left
    refine ⟨memo', ?_⟩
    rw [step, run, List.map_cons, List.reverse_cons, List.append_assoc]
    rfl

/-- **Digits that are spelled out one by one are read back,** to the end of the stretch. -/
theorem run_readDigits (awaits : r.AwaitsDigits s memo) {ds : List Nat} (ne : ds ≠ [])
    (small : ∀ d ∈ ds, d < 10)
    (stands : (separator spaced).intercalate (ds.map w) <+: t.drop start)
    (ends : stop = start + ((separator spaced).intercalate (ds.map w)).length) :
    ∃ memo', (r.readDigits s spaced start stop).run (r.answer (levels + 1)) memo =
      .ok (some ⟨Decimal.nearest false (.ofDigits [] (ds.map Nat.digitChar)), stop⟩, memo') := by
  cases ds with
  | nil => exact absurd rfl ne
  | cons d ds =>
    rw [intercalate_map_cons] at stands ends
    rw [List.length_append] at ends
    have hd := small d List.mem_cons_self
    have pos := List.length_pos_of_ne_nil (words.code.ne_nil d hd)
    -- no separator stands before the first digit
    have begins : r.digitStart? (spaced && decide (([] : Text) ≠ [])) start stop = some start := by
      cases spaced <;> rfl
    obtain ⟨memo₁, awaits₁, step⟩ := h.run_digit words distinct hs hstop levels awaits hd
      begins ((List.prefix_append ..).trans stands) (by omega)
    have left : stop < start + (w d).length + (stop - start) := by omega
    obtain ⟨memo', run⟩ := h.run_digits words distinct hs hstop awaits₁
      (fun e he => small e (List.mem_cons_of_mem d he)) (List.cons_ne_nil (Nat.digitChar d) [])
      (Text.stands_behind stands) (by omega) left
    refine ⟨memo', Search.run_bind.2 ⟨_, _, step.trans run, ?_⟩⟩
    simp [Search.run]

end Strict
end Reader

/-! ## Values -/

namespace Decimal

/-- The number that is written by the characters for some digits. -/
theorem numberOfDigits_map_digitChar {ds : List Nat} (small : ∀ d ∈ ds, d < 10) :
    numberOfDigits (ds.map Nat.digitChar) = Nat.ofDigits 10 ds.reverse := by
  induction ds using List.reverseRecOn with
  | nil => rfl
  | append_singleton ds d ih =>
    have last : numberOfDigits [Nat.digitChar d] = d := by
      have digits : ∀ d < 10, numberOfDigits [Nat.digitChar d] = d := by decide
      exact digits d (small d (by simp))
    rw [List.map_append, numberOfDigits_append, ih fun e he => small e (List.mem_append_left _ he),
      List.map_singleton, last, List.reverse_concat, Nat.ofDigits_cons]
    simp [Nat.add_comm]

/-- The fraction that is written by the characters for some digits behind the point. -/
theorem ofDigits_map_digitChar {ds : List Nat} (small : ∀ d ∈ ds, d < 10) :
    ofDigits [] (ds.map Nat.digitChar) = ⟨Nat.ofDigits 10 ds.reverse, ds.length⟩ := by
  rw [ofDigits, List.nil_append, numberOfDigits_map_digitChar small, List.length_map]

end Decimal

namespace RuleBook

/-- **The spelled digits of a fraction are read back.**  The words for the digits are those of the set
    for the numbers below ten, and none of them is the start of another one.  The digits behind the
    point of a value are spelled out so.  Nothing is asked of the text around the digits, nor of the
    memory but that no digit is under way in it; one level is enough. -/
theorem readDigits_spellDigits {description : Text} {book : RuleBook}
    (compiled : ofDescription description = .ok book) {s : RuleSet} (hs : s ∈ book.sets)
    {w : Nat → Text} (spells : s.Spells 10 w) (code : PrefixCode 10 w) {ds : List Nat} (ne : ds ≠ [])
    (small : ∀ d ∈ ds, d < 10) (spaced : Bool) (numerals : NumeralSystem)
    (limit fuel depth levels : Nat) :
    ∃ spelled, Speller.spellDigits (Speller.spell ⟨book, numerals, limit⟩ (fuel + 1) depth) s
        (Reader.Strict.separator spaced) ds = .ok spelled ∧
      (∀ v : Binary64, v.fractionDigits = ds →
        Speller.insert ⟨book, numerals, limit⟩
            (Speller.spell ⟨book, numerals, limit⟩ (fuel + 1) depth)
            (.digits s v (Reader.Strict.separator spaced)) = .ok spelled) ∧
      spelled.text = (Reader.Strict.separator spaced).intercalate (ds.map w) ∧
      ∀ (r : Reader) (before after : Text) (memo : Memo), r.book = book →
        r.Strict (before ++ (spelled.text ++ after)) → r.AwaitsDigits s memo →
          ∃ v memo', Decimal.IsNearest false ⟨Nat.ofDigits 10 ds.reverse, ds.length⟩ v ∧
            (r.readDigits s spaced before.length (before.length + spelled.text.length)).run
                (r.answer (levels + 1)) memo =
              .ok (some ⟨v, before.length + spelled.text.length⟩, memo') := by
  have ordered := ordered_of_ofDescription compiled s hs
  have words : s.Distinguishes 10 w := ⟨ordered, spells, code, by decide⟩
  obtain ⟨spelled, eq, text⟩ := spells.spellDigits ordered ⟨book, numerals, limit⟩ fuel depth
    (Reader.Strict.separator spaced) small
  have inserted (v : Binary64) (digits : v.fractionDigits = ds) :
      Speller.insert ⟨book, numerals, limit⟩ (Speller.spell ⟨book, numerals, limit⟩ (fuel + 1) depth)
        (.digits s v (Reader.Strict.separator spaced)) = .ok spelled := by
    rw [Speller.insert_digits, digits, eq]
  refine ⟨spelled, eq, inserted, text, fun r before after memo same strict awaits => ?_⟩
  subst same
  have stands : (Reader.Strict.separator spaced).intercalate (ds.map w) <+:
      (before ++ (spelled.text ++ after)).drop before.length := by
    rw [← text, List.drop_left]
    exact List.prefix_append ..
  have inside : before.length + spelled.text.length ≤ (before ++ (spelled.text ++ after)).length := by
    simp
  obtain ⟨memo', run⟩ := strict.run_readDigits words (distinct_of_ofDescription compiled) hs inside
    awaits ne small stands (by rw [text])
  rw [Decimal.ofDigits_map_digitChar small] at run
  exact ⟨_, memo', Decimal.isNearest_nearest false _, run⟩

/-- The words for the digits, one of them with a blank, and a rule for larger numbers. -/
def digitNames : RuleSet where
  name := "%digits".toList
  ladder :=
    [⟨10, 10, 0, false,
        [.piece (.substitution (.quotient .owner)), .piece (.literal "ty".toList),
          .optional [.literal "-".toList, .substitution (.remainder .owner)]]⟩,
      ⟨9, 10, 0, true, [.piece (.literal "nine".toList)]⟩,
      ⟨8, 10, 0, true, [.piece (.literal "eight".toList)]⟩,
      ⟨7, 10, 0, true, [.piece (.literal "sev en".toList)]⟩,
      ⟨6, 10, 0, true, [.piece (.literal "six".toList)]⟩,
      ⟨5, 10, 0, true, [.piece (.literal "five".toList)]⟩,
      ⟨4, 10, 0, true, [.piece (.literal "four".toList)]⟩,
      ⟨3, 10, 0, true, [.piece (.literal "three".toList)]⟩,
      ⟨2, 10, 0, true, [.piece (.literal "two".toList)]⟩,
      ⟨1, 10, 0, true, [.piece (.literal "one".toList)]⟩,
      ⟨0, 10, 0, true, [.piece (.literal "nought".toList)]⟩]

/-- The zeros at the end of a fraction are read back, too, and what follows it is left alone.  The digits
    behind the point of three quarters are spelled out in this way. -/
theorem readDigits_spellDigits_names :
    ∃ w : Nat → Text, w 0 = "nought".toList ∧ w 7 = "sev en".toList ∧
      ofDescription ("%digits: nought; one; two; three; four; five; six; sev en; eight; nine; " ++
        "10: <<ty[->>];").toList = .ok ⟨[digitNames], .none⟩ ∧
      digitNames.Spells 10 w ∧ PrefixCode 10 w ∧
      (∃ spelled, Speller.spellDigits (Speller.spell ⟨⟨[digitNames], .none⟩, .decimal, 64⟩ 1 63)
          digitNames [' '] [7, 0, 0] = .ok spelled ∧
        spelled.text = "sev en nought nought".toList ∧
        ∃ v memo, Decimal.IsNearest false ⟨700, 3⟩ v ∧
          ((Reader.ofText ⟨[digitNames], .none⟩ .decimal false 64
              "one point sev en nought nought one".toList).readDigits digitNames true 10 30).run
              ((Reader.ofText ⟨[digitNames], .none⟩ .decimal false 64
                "one point sev en nought nought one".toList).answer 1) .empty =
            .ok (some ⟨v, 30⟩, memo)) ∧
      ∃ quarters, Speller.insert ⟨⟨[digitNames], .none⟩, .decimal, 64⟩
          (Speller.spell ⟨⟨[digitNames], .none⟩, .decimal, 64⟩ 1 63)
          (.digits digitNames (.ofRatio false 3 4) [' ']) = .ok quarters ∧
        quarters.text = "sev en five".toList := by
  let w (d : Nat) : Text := (["nought", "one", "two", "three", "four", "five", "six", "sev en",
    "eight", "nine"].getD d "").toList
  have compiled : ofDescription ("%digits: nought; one; two; three; four; five; six; sev en; " ++
      "eight; nine; 10: <<ty[->>];").toList = .ok ⟨[digitNames], .none⟩ := by decide +kernel
  have spells : digitNames.Spells 10 w := by decide
  have code : PrefixCode 10 w := ⟨by decide, by decide⟩
  obtain ⟨spelled, eq, -, text, reads⟩ := readDigits_spellDigits compiled List.mem_cons_self spells
    code (show [7, 0, 0] ≠ [] by decide) (by decide) true .decimal 64 0 63 0
  obtain ⟨quarters, -, inserted, text', -⟩ := readDigits_spellDigits compiled List.mem_cons_self spells
    code (show [7, 5] ≠ [] by decide) (by decide) true .decimal 64 0 63 0
  have words : spelled.text = "sev en nought nought".toList := text.trans (by decide)
  rw [words] at reads
  obtain ⟨v, memo, near, run⟩ := reads _ "one point ".toList " one".toList .empty rfl
    (Reader.strict_ofText ..) (Reader.awaitsDigits_empty ..)
  exact ⟨w, rfl, rfl, compiled, spells, code, ⟨spelled, eq, words, v, memo, near, run⟩, quarters,
    inserted _ (by decide +kernel), text'.trans (by decide)⟩

end RuleBook
end Spellout
