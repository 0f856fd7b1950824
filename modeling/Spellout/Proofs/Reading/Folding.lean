/-
  Lenient reading sees a text through its folding only.

  Of an ignorable symbol a lenient reader sees nothing but that it is one; of any other symbol it sees
  the key, and the text if there are numerals to be read.  So texts that fold alike are read alike.

  * `Symbol.Alike`: two symbols look the same;
  * `Symbol.alike_of_ignorable`, `Equivalences.alike_member`, `Equivalences.alike_case`: ignorable
    symbols do, declared texts of one group, and characters that differ in case;
  * `Reader.KeysAlike`: two lenient readers, the symbols of which look the same but for their texts;
  * `Reader.FoldsAlike`: two lenient readers of texts with symbols that look the same;
  * `Reader.FoldsAlike.agrees`, `Reader.FoldsAlike.found`: they see the same and find the same matches;
  * `RuleBook.parse_of_alike`: so the texts have one value, read from as many symbols, or one error.
-/
import Spellout.Proofs.Reading.Agreement
import Spellout.Proofs.Reading.Span
import Spellout.RuleBook.Conversion

namespace Spellout

/-! ## Symbols -/

/-- Two symbols look the same to a lenient reader; `numerals` says whether it reads any. -/
structure Symbol.Alike (numerals : Prop) (a b : Symbol) : Prop where
  ignorable : b.ignorable = a.ignorable
  key : a.ignorable = false → b.key = a.key
  text : numerals → a.ignorable = false → b.text = a.text

namespace Symbol

variable {numerals : Prop} {a b : Symbol}

instance [Decidable numerals] : Decidable (a.Alike numerals b) :=
  decidable_of_iff (b.ignorable = a.ignorable ∧ (a.ignorable = false → b.key = a.key) ∧
      (numerals → a.ignorable = false → b.text = a.text))
    ⟨fun h => ⟨h.1, h.2.1, h.2.2⟩, fun h => ⟨h.1, h.2, h.3⟩⟩

theorem alike_of_ignorable (ha : a.ignorable) (hb : b.ignorable) : a.Alike numerals b where
  ignorable := hb.trans ha.symm
  key h := by simp [ha] at h
  text _ h := by simp [ha] at h

end Symbol

namespace Equivalences

variable {e : Equivalences} {members : List (Text × Nat)} {c c' : Char} {rest rest' : Text}

/-- Declared texts of one group look the same, if no numerals are read. -/
theorem alike_member {t t' : Text} {index : Nat}
    (h : longest? (c :: rest) members = some (t, index))
    (h' : longest? (c' :: rest') members = some (t', index)) :
    (e.symbolAt members c rest).Alike False (e.symbolAt members c' rest') := by
  simp only [symbolAt, h, h']
  exact ⟨rfl, fun _ => rfl, False.elim⟩

/-- Characters with one lower case look the same, if no numerals are read. -/
theorem alike_case (h : longest? (c :: rest) members = Option.none)
    (h' : longest? (c' :: rest') members = Option.none) (lower : Text.toLower c' = Text.toLower c)
    (ignorable : Symbol.isIgnorable c' = Symbol.isIgnorable c) :
    (e.symbolAt members c rest).Alike False (e.symbolAt members c' rest') := by
  simp only [symbolAt, h, h', lower]
  exact ⟨ignorable, fun _ => rfl, False.elim⟩

end Equivalences

/-! ## Readers -/

namespace Reader

/-- If there are places left behind the symbols that are skipped, the first one is not ignorable. -/
theorem ignorableAt_skip (r : Reader) : ∀ {n i : Nat}, r.skip n i < i + n →
    r.ignorableAt (r.skip n i) = false
  | 0, i, lt => by simp [skip] at lt
  | n + 1, i, lt => by
    unfold skip at lt ⊢
    split
    · rename_i ignorable
      rw [if_pos ignorable] at lt
      exact ignorableAt_skip r (by omega)
    · rename_i ignorable
      exact Bool.eq_false_iff.2 ignorable

/-- Symbols are counted by the bytes of their texts. -/
theorem placeBehind?_congr {r r' : Reader} {places : List Nat}
    (same : ∀ i ∈ places, Text.utf8Size (r'.textAt i) = Text.utf8Size (r.textAt i)) (bytes : Nat) :
    r'.placeBehind? bytes places = r.placeBehind? bytes places := by
  induction places generalizing bytes with
  | nil => rfl
  | cons i places ih =>
    simp only [placeBehind?, same i (by simp), ih fun j hj => same j (by simp [hj])]

/-- Symbols that are related one by one are so at every place. -/
theorem getElem?_of_forall₂ {r r' : Reader} {R : Symbol → Symbol → Prop}
    (h : List.Forall₂ R r.symbols.toList r'.symbols.toList) (i : Nat) :
    (r.symbols[i]? = none ∧ r'.symbols[i]? = none) ∨
      ∃ a b, r.symbols[i]? = some a ∧ r'.symbols[i]? = some b ∧ R a b := by
  have size : r.symbols.size = r'.symbols.size := h.length_eq
  by_cases lt : i < r.symbols.size
  · have lt' : i < r'.symbols.size := size ▸ lt
    exact .inr ⟨r.symbols[i], r'.symbols[i], Array.getElem?_eq_getElem lt,
      Array.getElem?_eq_getElem lt', (List.forall₂_iff_get.1 h).2 i lt lt'⟩
  · exact .inl ⟨Array.getElem?_eq_none (by omega), Array.getElem?_eq_none (by omega)⟩

/-- The match that a set finds at the start of the text. -/
def found (r : Reader) (s : RuleSet) : Except Error (Option Match) := do
  let (found, _) ← r.answer (r.limit + 1) 0 ⟨s, .full, 0, r.symbols.size⟩ Memo.empty
  return found.filter fun m => 0 < m.stop

/-- To read is to find a match and count its bytes. -/
theorem read_eq_found (r : Reader) (s : RuleSet) :
    r.read s = do
      return (← r.found s).map fun m => (m.value, r.bytesBefore m.stop) := by
  unfold read found
  cases r.answer (r.limit + 1) 0 ⟨s, .full, 0, r.symbols.size⟩ Memo.empty <;> rfl

theorem within_found {r : Reader} (distinct : r.book.Distinct) {s : RuleSet} (hs : s ∈ r.book.sets)
    {m : Match} (h : r.found s = .ok (some m)) : 0 < m.stop ∧ m.stop ≤ r.symbols.size := by
  obtain ⟨⟨found, memo⟩, ha, h⟩ := bind_eq_ok.1 h
  obtain ⟨rfl, pos⟩ := Option.filter_eq_some_iff.1 (Except.ok.inj h)
  have spans := (answer_holds distinct closed_spans (q := ⟨s, .full, 0, r.symbols.size⟩) hs
    (Memo.holds_empty r) ha).1
  exact ⟨of_decide_eq_true pos, (spans (Nat.zero_le _) m rfl).2⟩

/-- Readers that see the same in texts of one length find the same matches. -/
theorem Agrees.found {r r' : Reader} (h : r.Agrees r' (· ∈ r.book.patterns))
    (limit : r'.limit = r.limit) (size : r'.symbols.size = r.symbols.size) {s : RuleSet}
    (hs : s ∈ r.book.sets) : r'.found s = r.found s := by
  simp only [Reader.found, limit, size]
  rw [h.answer limit (r.limit + 1) 0 (q := ⟨s, .full, 0, r.symbols.size⟩) Memo.empty hs]

/-! ## Keys -/

/-- Two lenient readers with one rule book, the symbols of which look the same but for their texts. -/
structure KeysAlike (r r' : Reader) : Prop where
  book : r'.book = r.book
  lenient : r.lenient
  lenient' : r'.lenient
  symbols : List.Forall₂ (Symbol.Alike False) r.symbols.toList r'.symbols.toList

namespace KeysAlike

variable {r r' : Reader} (h : r.KeysAlike r')
include h

theorem ignorableAt (i : Nat) : r'.ignorableAt i = r.ignorableAt i := by
  rcases getElem?_of_forall₂ h.symbols i with ⟨ha, hb⟩ | ⟨a, b, ha, hb, alike⟩
  · simp only [Reader.ignorableAt, ha, hb]
  · simp only [Reader.ignorableAt, ha, hb, Option.any_some, alike.ignorable]

theorem hasKey {i : Nat} (hi : r.ignorableAt i = false) (k : SymbolKey) :
    r'.hasKey i k = r.hasKey i k := by
  rcases getElem?_of_forall₂ h.symbols i with ⟨ha, hb⟩ | ⟨a, b, ha, hb, alike⟩
  · simp only [Reader.hasKey, ha, hb]
  · simp only [Reader.ignorableAt, ha, Option.any_some] at hi
    simp only [Reader.hasKey, ha, hb, Option.any_some, alike.key hi]

theorem skip (n i : Nat) : r'.skip n i = r.skip n i := by
  induction n generalizing i with
  | zero => rfl
  | succ n ih => simp only [Reader.skip, h.ignorableAt, ih]

/-- A key is looked for behind ignorable symbols only. -/
theorem matchKeys? (stop : Nat) (keys : List SymbolKey) (i : Nat) :
    r'.matchKeys? stop keys i = r.matchKeys? stop keys i := by
  induction keys generalizing i with
  | nil => rfl
  | cons k keys ih =>
    simp only [Reader.matchKeys?, h.lenient, h.lenient', if_true, h.skip, ih]
    by_cases lt : r.skip (stop - i) i < stop
    · have within := (within_skip (r := r) (stop - i) i).1
      rw [h.hasKey (ignorableAt_skip r (by omega))]
    · simp only [lt, decide_false, Bool.false_and]

theorem matchLiteral? (l : Literal) (i stop : Nat) :
    r'.matchLiteral? l i stop = r.matchLiteral? l i stop := by
  simp only [Reader.matchLiteral?, h.skip, h.matchKeys?]

theorem numeralPlaces (i j : Nat) : r'.numeralPlaces i j = r.numeralPlaces i j := by
  simp only [Reader.numeralPlaces, h.lenient, h.lenient', h.ignorableAt]

theorem digitStart? (separated : Bool) (i stop : Nat) :
    r'.digitStart? separated i stop = r.digitStart? separated i stop := by
  simp only [Reader.digitStart?, h.lenient, h.lenient', h.skip, if_true]

/-- **They see the same, if they see the same numerals.** -/
theorem agrees (numeral : ∀ p ∈ r.book.patterns, ∀ i j, r'.readNumeral? p i j = r.readNumeral? p i j) :
    r.Agrees r' (· ∈ r.book.patterns) where
  book := h.book
  lenient := h.lenient'.trans h.lenient.symm
  ignorable := h.ignorableAt
  literal := h.matchLiteral?
  numeral := numeral
  digitStart := h.digitStart?

end KeysAlike

/-! ## Keys and numerals -/

/-- Two lenient readers that differ in their texts only, the symbols of which look the same. -/
structure FoldsAlike (r r' : Reader) : Prop where
  book : r'.book = r.book
  numerals : r'.numerals = r.numerals
  limit : r'.limit = r.limit
  lenient : r.lenient
  lenient' : r'.lenient
  symbols : List.Forall₂ (Symbol.Alike (r.book.patterns ≠ [])) r.symbols.toList r'.symbols.toList

namespace FoldsAlike

variable {r r' : Reader} (h : r.FoldsAlike r')
include h

theorem keys : r.KeysAlike r' where
  book := h.book
  lenient := h.lenient
  lenient' := h.lenient'
  symbols := h.symbols.imp fun _ _ alike => ⟨alike.ignorable, alike.key, False.elim⟩

theorem textAt (numerals : r.book.patterns ≠ []) {i : Nat} (hi : r.ignorableAt i = false) :
    r'.textAt i = r.textAt i := by
  rcases getElem?_of_forall₂ h.symbols i with ⟨ha, hb⟩ | ⟨a, b, ha, hb, alike⟩
  · simp only [Reader.textAt, ha, hb]
  · simp only [Reader.ignorableAt, ha, Option.any_some] at hi
    simp only [Reader.textAt, ha, hb, Option.map_some, alike.text numerals hi]

/-- The text of a numeral is put together of symbols that cannot be ignored. -/
theorem readNumeral? (numerals : r.book.patterns ≠ []) (p : NumeralPattern) (i j : Nat) :
    r'.readNumeral? p i j = r.readNumeral? p i j := by
  have same : ∀ k ∈ r.numeralPlaces i j, r'.textAt k = r.textAt k := by
    intro k hk
    refine h.textAt numerals ?_
    simpa [h.lenient] using (List.mem_filter.1 hk).2
  have text : (r.numeralPlaces i j).flatMap r'.textAt = (r.numeralPlaces i j).flatMap r.textAt :=
    List.flatMap_congr same
  have sizes := placeBehind?_congr fun k hk => congrArg Text.utf8Size (same k hk)
  simp only [Reader.readNumeral?, h.keys.numeralPlaces, h.numerals, text, sizes]

/-- **Readers of texts that fold alike see the same.** -/
theorem agrees : r.Agrees r' (· ∈ r.book.patterns) :=
  h.keys.agrees fun _ hp => h.readNumeral? (List.ne_nil_of_mem hp) _

/-- They find the same matches. -/
theorem found {s : RuleSet} (hs : s ∈ r.book.sets) : r'.found s = r.found s :=
  h.agrees.found h.limit h.symbols.length_eq.symm hs

end FoldsAlike

theorem foldsAlike_ofText {book : RuleBook} {t t' : Text}
    (alike : List.Forall₂ (Symbol.Alike (book.patterns ≠ [])) (book.equivalences.fold t)
      (book.equivalences.fold t')) (numerals : NumeralSystem) (limit : Nat) :
    (ofText book numerals true limit t).FoldsAlike (ofText book numerals true limit t') where
  book := rfl
  numerals := rfl
  limit := rfl
  lenient := rfl
  lenient' := rfl
  symbols := alike

end Reader

/-! ## Parsing -/

namespace RuleBook

/-- To parse is to find a match and count its bytes; without a match there is an error. -/
theorem parse_eq_found {book : RuleBook} {set : Option Text} {s : RuleSet}
    (hs : book.entry set = .ok s) (t : Text) (context : Context) (options : Options) :
    book.parse t set context options = (do
      let r := Reader.ofText book context.numerals options.lenient options.maxDepth t
      match ← r.found s with
      | some m => return ⟨m.value, r.bytesBefore m.stop⟩
      | none => .error (.noMatch s.name)) := by
  simp only [parse, hs, Reader.read_eq_found, bind, Except.bind]
  cases (Reader.ofText book context.numerals options.lenient options.maxDepth t).found s with
  | error e => rfl
  | ok m => cases m <;> rfl

/-- **Lenient parsing sees a text through its folding only.**  Of two texts with symbols that look the
    same, both have one value, read from as many symbols, or both lead to one error. -/
theorem parse_of_alike {description : Text} {book : RuleBook}
    (compiled : ofDescription description = .ok book) (set : Option Text) (context : Context)
    (maxDepth : Nat) {t t' : Text}
    (alike : List.Forall₂ (Symbol.Alike (book.patterns ≠ [])) (book.equivalences.fold t)
      (book.equivalences.fold t')) :
    (∃ e, book.parse t set context ⟨maxDepth, true⟩ = .error e ∧
        book.parse t' set context ⟨maxDepth, true⟩ = .error e) ∨
      ∃ v k, 0 < k ∧ k ≤ (book.equivalences.fold t).length ∧
        book.parse t set context ⟨maxDepth, true⟩ =
          .ok ⟨v, Text.utf8Size (((book.equivalences.fold t).take k).flatMap Symbol.text)⟩ ∧
        book.parse t' set context ⟨maxDepth, true⟩ =
          .ok ⟨v, Text.utf8Size (((book.equivalences.fold t').take k).flatMap Symbol.text)⟩ := by
  cases hs : book.entry set with
  | error e => exact .inl ⟨e, by simp only [parse, hs]; rfl, by simp only [parse, hs]; rfl⟩
  | ok s =>
    have mem := mem_of_entry hs
    have found := (Reader.foldsAlike_ofText alike context.numerals maxDepth).found mem
    simp only [parse_eq_found hs, found]
    cases hf : (Reader.ofText book context.numerals true maxDepth t).found s with
    | error e => exact .inl ⟨e, rfl, rfl⟩
    | ok m =>
      cases m with
      | none => exact .inl ⟨.noMatch s.name, rfl, rfl⟩
      | some m =>
        have within := Reader.within_found (distinct_of_ofDescription compiled) mem hf
        exact .inr ⟨m.value, m.stop, within.1, within.2, rfl, rfl⟩

/-- The rule book `cyclic`, where `one` may be written `a`. -/
def cyclicArticle : RuleBook := { cyclic with equivalences := ⟨[["one".toList, "a".toList]]⟩ }

/-- Capital letters, another separator and a declared text change the number of bytes only. -/
theorem parse_of_alike_article :
    ofDescription ("%few: none; one; =%many=; %many: 2: two; =%few=; 10: <%few<ty[->>];" ++
        "%%lenient-parse: & 'one' , 'a' ;").toList = .ok cyclicArticle ∧
      List.Forall₂ (Symbol.Alike (cyclicArticle.patterns ≠ []))
        (cyclicArticle.equivalences.fold "twoty-one!".toList)
        (cyclicArticle.equivalences.fold "TWOTY a!".toList) ∧
      cyclicArticle.parse "twoty-one!".toList none {} ⟨64, true⟩ = .ok ⟨.ofNat 21, 9⟩ ∧
      ∃ k, cyclicArticle.parse "TWOTY a!".toList none {} ⟨64, true⟩ = .ok ⟨.ofNat 21,
        Text.utf8Size (((cyclicArticle.equivalences.fold "TWOTY a!".toList).take k).flatMap
          Symbol.text)⟩ := by
  have compiled : ofDescription
      ("%few: none; one; =%many=; %many: 2: two; =%few=; 10: <%few<ty[->>];" ++
        "%%lenient-parse: & 'one' , 'a' ;").toList = .ok cyclicArticle := by
    decide +kernel
  have alike : List.Forall₂ (Symbol.Alike (cyclicArticle.patterns ≠ []))
      (cyclicArticle.equivalences.fold "twoty-one!".toList)
      (cyclicArticle.equivalences.fold "TWOTY a!".toList) := by
    decide +kernel
  have parsed : cyclicArticle.parse "twoty-one!".toList none {} ⟨64, true⟩ =
      .ok ⟨.ofNat 21, 9⟩ := by
    decide +kernel
  refine ⟨compiled, alike, parsed, ?_⟩
  rcases parse_of_alike compiled none {} 64 alike with ⟨e, h, -⟩ | ⟨v, k, -, -, h, h'⟩
  · rw [parsed] at h
    cases h
  · rw [parsed] at h
    have value := (Outcome.mk.inj (Except.ok.inj h)).1
    rw [← value] at h'
    exact ⟨k, h'⟩

end RuleBook
end Spellout
