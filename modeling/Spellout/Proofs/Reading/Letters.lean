/-
  Reading lower-case words.

  In a text of lower-case letters, spaces and hyphens every symbol is one character, in lenient mode
  too, where spaces and hyphens may be passed over.  In both modes a literal matches its letters and
  nothing else.

  * `Text.letters` are the letters of a text;
  * `Reader.Lettered`: the symbols of a reader are the characters of such a text;
  * `Reader.Lettered.letters_of_matchLiteral?`: a literal matches a stretch with its letters;
  * `Reader.Lettered.exists_matchLiteral?`: it matches where it stands, and as well from places that
    have no letter in between;
  * `Reader.Lettered.filled_of_trail`: a trail leads over the letters of what its pieces read.
-/
import Spellout.Proofs.Reading.Strict

namespace Spellout

/-! ## Letters -/

namespace Text

/-- A character that stands between words. -/
def isSeparator (c : Char) : Bool := c = ' ' || c = '-'

/-- The text without spaces and hyphens. -/
def letters (t : Text) : Text := t.filter fun c => !isSeparator c

/-- The characters of words and what stands between them. -/
def alphabet : Text := " -abcdefghijklmnopqrstuvwxyz".toList

/-- The text is made of such characters. -/
def isPlain (t : Text) : Bool := t.all fun c => alphabet.contains c

theorem mem_alphabet_of_isPlain {t : Text} (h : t.isPlain) : ∀ c ∈ t, c ∈ alphabet := by
  intro c hc
  simpa using List.all_eq_true.1 h c hc

@[simp] theorem letters_nil : letters [] = [] := rfl

@[simp] theorem letters_append (t u : Text) : letters (t ++ u) = letters t ++ letters u :=
  List.filter_append ..

theorem letters_cons (c : Char) (t : Text) :
    letters (c :: t) = if isSeparator c then letters t else c :: letters t := by
  cases h : isSeparator c <;> simp [letters, h]

theorem letters_slice_append {t : Text} {i j k : Nat} (hij : i ≤ j) (hjk : j ≤ k) :
    letters (t.slice i k) = letters (t.slice i j) ++ letters (t.slice j k) := by
  rw [← slice_append hij hjk, letters_append]

end Text

/-- The symbol that a character makes. -/
def Symbol.ofChar (lenient : Bool) (c : Char) : Symbol :=
  if lenient && Text.isSeparator c then ⟨if c = ' ' then .group 0 else .char c, [c], true⟩
  else ⟨.char c, [c], false⟩

@[simp] theorem Symbol.text_ofChar (lenient : Bool) (c : Char) :
    (Symbol.ofChar lenient c).text = [c] := by
  unfold ofChar
  split <;> rfl

@[simp] theorem Symbol.ignorable_ofChar (lenient : Bool) (c : Char) :
    (Symbol.ofChar lenient c).ignorable = (lenient && Text.isSeparator c) := by
  unfold ofChar
  split <;> simp_all

theorem Symbol.eq_of_key_ofChar {lenient : Bool} {c d : Char}
    (h : (Symbol.ofChar lenient c).key = .char d) : c = d := by
  unfold ofChar at h
  split at h
  · dsimp only at h
    split at h
    · cases h
    · exact SymbolKey.char.inj h
  · exact SymbolKey.char.inj h

/-! ## Folding -/

/-- The texts that English descriptions take as equal. -/
def Equivalences.spaceComma : Equivalences := ⟨[[[' '], [',']]]⟩

theorem Equivalences.symbolAt_spaceComma {c : Char} (h : c ∈ Text.alphabet) (rest : Text) :
    spaceComma.symbolAt spaceComma.members c rest = Symbol.ofChar true c := by
  have char : c ≠ ',' ∧ Text.toLower c = c ∧ Symbol.isIgnorable c = Text.isSeparator c := by
    have all : (Text.alphabet.all fun c =>
        c ≠ ',' ∧ Text.toLower c = c ∧ Symbol.isIgnorable c = Text.isSeparator c) = true := by
      decide +kernel
    exact of_decide_eq_true (List.all_eq_true.1 all c h)
  have members : spaceComma.members = [([' '], 0), ([','], 0)] := rfl
  by_cases hc : c = ' '
  · subst hc
    rw [members]
    simp [symbolAt, longest?, Symbol.ofChar, Text.isSeparator]
    decide
  · have new : longest? (c :: rest) [([' '], 0), ([','], 0)] = Option.none := by
      simp [longest?, Ne.symm hc, Ne.symm char.1]
    simp only [members, symbolAt, new, char.2.1, char.2.2, Symbol.ofChar, Bool.true_and, hc,
      if_false]
    cases Text.isSeparator c <;> rfl

theorem Equivalences.fold_spaceComma : ∀ {t : Text}, (∀ c ∈ t, c ∈ Text.alphabet) →
    spaceComma.fold t = t.map (Symbol.ofChar true)
  | [], _ => rfl
  | c :: rest, h => by
    have ih := fold_spaceComma (t := rest) fun d hd => h d (by simp [hd])
    rw [fold, foldFrom]
    simp only [symbolAt_spaceComma (h c (by simp)), Symbol.text_ofChar]
    simpa [fold] using ih

namespace Reader

/-- The symbols of the reader are the characters of the text, and so are those of literals. -/
structure Lettered (r : Reader) (t : Text) : Prop where
  symbols : r.symbols = (t.map (Symbol.ofChar r.lenient)).toArray
  literals : ∀ l : Text, (∀ c ∈ l, c ∈ Text.alphabet) →
    symbolsOf r.book r.lenient l = l.map (Symbol.ofChar r.lenient)

theorem lettered_ofText {book : RuleBook} (h : book.equivalences = .spaceComma)
    (ns : NumeralSystem) (lenient : Bool) (limit : Nat) {t : Text}
    (ht : ∀ c ∈ t, c ∈ Text.alphabet) : (ofText book ns lenient limit t).Lettered t := by
  have symbols : ∀ l : Text, (∀ c ∈ l, c ∈ Text.alphabet) →
      symbolsOf book lenient l = l.map (Symbol.ofChar lenient) := by
    intro l hl
    cases lenient with
    | false => simp [symbolsOf, Symbol.exact, Symbol.ofChar]
    | true => simp [symbolsOf, h, Equivalences.fold_spaceComma hl]
  exact ⟨congrArg List.toArray (symbols t ht), symbols⟩

namespace Lettered

variable {r : Reader} {t : Text} {i j stop : Nat}

/-! ## Symbols -/

theorem size (h : r.Lettered t) : r.symbols.size = t.length := by
  simp [h.symbols]

theorem getElem? (h : r.Lettered t) (i : Nat) :
    r.symbols[i]? = t[i]?.map (Symbol.ofChar r.lenient) := by
  simp [h.symbols]

theorem hasKey (h : r.Lettered t) {c : Char} (hk : r.hasKey i (.char c)) : t[i]? = some c := by
  rw [Reader.hasKey, h.getElem?] at hk
  cases hc : t[i]? with
  | none => simp [hc] at hk
  | some d =>
    rw [hc] at hk
    have key : (Symbol.ofChar r.lenient d).key = .char c := by simpa using hk
    rw [Symbol.eq_of_key_ofChar key]

theorem hasKey_of_letter (h : r.Lettered t) {c : Char} (hc : t[i]? = some c)
    (letter : Text.isSeparator c = false) : r.hasKey i (.char c) := by
  rw [Reader.hasKey, h.getElem?, hc]
  simp [Symbol.ofChar, letter]

theorem ignorableAt (h : r.Lettered t) {c : Char} (hc : t[i]? = some c) :
    r.ignorableAt i = (r.lenient && Text.isSeparator c) := by
  rw [Reader.ignorableAt, h.getElem?, hc]
  simp

theorem letters_of_ignorableAt (h : r.Lettered t) (hi : r.ignorableAt i) :
    Text.letters (t.slice i (i + 1)) = [] := by
  cases hc : t[i]? with
  | none =>
    rw [Reader.ignorableAt, h.getElem?, hc] at hi
    cases hi
  | some c =>
    rw [h.ignorableAt hc, Bool.and_eq_true] at hi
    rw [Text.slice_succ hc, Text.letters_cons, if_pos hi.2, Text.letters_nil]

theorem textAt (h : r.Lettered t) (i : Nat) : r.textAt i = t[i]?.toList := by
  rw [Reader.textAt, h.getElem?]
  cases t[i]? <;> simp

theorem bytesBefore (h : r.Lettered t) (i : Nat) : r.bytesBefore i = Text.utf8Size (t.take i) := by
  have texts : ∀ u : Text, (u.map (Symbol.ofChar r.lenient)).flatMap Symbol.text = u := by
    intro u
    induction u with
    | nil => rfl
    | cons c u ih => simpa using ih
  simp only [Reader.bytesBefore, h.symbols, ← List.map_take, texts]

/-! ## What is passed over -/

theorem letters_skip (h : r.Lettered t) : ∀ n i : Nat, Text.letters (t.slice i (r.skip n i)) = []
  | 0, i => by simp [skip]
  | n + 1, i => by
    unfold skip
    split
    · rename_i hi
      have := within_skip (r := r) n (i + 1)
      rw [Text.letters_slice_append (Nat.le_succ i) this.1, h.letters_of_ignorableAt hi,
        h.letters_skip n (i + 1), List.nil_append]
    · simp

theorem letters_of_all_ignorableAt (h : r.Lettered t) : ∀ {n i : Nat},
    (List.range' i n).all r.ignorableAt → Text.letters (t.slice i (i + n)) = []
  | 0, i, _ => by simp
  | n + 1, i, all => by
    rw [List.range'_succ, List.all_cons, Bool.and_eq_true] at all
    have rest := h.letters_of_all_ignorableAt all.2
    rw [Nat.add_assoc, Nat.add_comm 1 n] at rest
    rw [Text.letters_slice_append (Nat.le_succ i) (by omega), h.letters_of_ignorableAt all.1, rest,
      List.nil_append]

/-- Behind a match that covers its stretch there is no letter. -/
theorem letters_of_covers (h : r.Lettered t) {m : Match} (hc : r.covers m stop) :
    m.stop ≤ stop ∧ Text.letters (t.slice m.stop stop) = [] := by
  simp only [Reader.covers, Bool.or_eq_true, decide_eq_true_eq, Bool.and_eq_true] at hc
  rcases hc with eq | ⟨⟨-, lt⟩, all⟩
  · rw [eq]
    simp
  · have := h.letters_of_all_ignorableAt all
    rw [Nat.add_sub_cancel' (Nat.le_of_lt lt)] at this
    exact ⟨Nat.le_of_lt lt, this⟩

/-! ## What literals match -/

theorem keys_foldLiteral (h : r.Lettered t) {l : Text} (hl : ∀ c ∈ l, c ∈ Text.alphabet) :
    (r.foldLiteral l).keys = (if r.lenient then Text.letters l else l).map .char := by
  simp only [foldLiteral, h.literals l hl]
  cases r.lenient with
  | false => simp [Symbol.ofChar, List.filter_map, Function.comp_def]
  | true =>
    rw [if_pos rfl, Text.letters]
    induction l with
    | nil => rfl
    | cons c l ih =>
      have ih := ih fun d hd => hl d (by simp [hd])
      cases hc : Text.isSeparator c <;> simp_all [Symbol.ofChar]

theorem letters_of_matchKeys? (h : r.Lettered t) : ∀ {l : Text} {i j : Nat},
    r.matchKeys? stop (l.map .char) i = some j → i ≤ j ∧ Text.letters (t.slice i j) = Text.letters l
  | [], i, j, hm => by
    obtain rfl := Option.some.inj hm
    simp
  | c :: l, i, j, hm => by
    rw [List.map_cons, matchKeys?] at hm
    generalize hi : (if r.lenient then r.skip (stop - i) i else i) = i' at hm
    have passed : i ≤ i' ∧ Text.letters (t.slice i i') = [] := by
      rw [← hi]
      split
      · exact ⟨(within_skip ..).1, h.letters_skip ..⟩
      · simp
    split at hm
    · rename_i key
      simp only [Bool.and_eq_true, decide_eq_true_eq] at key
      obtain ⟨le, rest⟩ := h.letters_of_matchKeys? hm
      have first : Text.letters (t.slice i' (i' + 1)) = Text.letters [c] := by
        rw [Text.slice_succ (h.hasKey key.2)]
      refine ⟨by omega, ?_⟩
      rw [Text.letters_slice_append passed.1 (by omega), passed.2, List.nil_append,
        Text.letters_slice_append (Nat.le_succ i') le, first, rest, ← Text.letters_append]
      rfl
    · cases hm

theorem letters_keys (l : Text) : Text.letters (if r.lenient then Text.letters l else l) =
    Text.letters l := by
  split
  · simp [Text.letters]
  · rfl

/-- A literal matches a stretch with its letters. -/
theorem letters_of_matchLiteral? (h : r.Lettered t) {l : Text} (hl : ∀ c ∈ l, c ∈ Text.alphabet)
    (hm : r.matchLiteral? (r.foldLiteral l) i stop = some j) :
    Text.letters (t.slice i j) = Text.letters l := by
  have keys := h.keys_foldLiteral hl
  unfold matchLiteral? at hm
  by_cases blank : (r.foldLiteral l).keys = [] ∧ (r.foldLiteral l).blank = true
  · rw [if_pos blank] at hm
    dsimp only at hm
    split at hm
    · cases hm
      have none : (if r.lenient then Text.letters l else l) = [] :=
        List.map_eq_nil_iff.1 (keys ▸ blank.1)
      rw [h.letters_skip, ← letters_keys (r := r) l, none, Text.letters_nil]
    · cases hm
  · rw [if_neg blank, keys] at hm
    rw [(h.letters_of_matchKeys? hm).2, letters_keys]

end Lettered

/-! ## Where literals match -/

/-- Reading from one place is like reading from the other: it is the same place, or spaces and
    hyphens are passed over and nothing else is in between. -/
def Beside (r : Reader) (t : Text) (i a : Nat) : Prop :=
  i = a ∨ (r.lenient ∧ Text.letters (t.take i) = Text.letters (t.take a))

variable {r : Reader} {t : Text} {i a j stop : Nat}

namespace Beside

theorem refl (r : Reader) (t : Text) (i : Nat) : r.Beside t i i := .inl rfl

theorem letters_take (h : r.Beside t i a) : Text.letters (t.take i) = Text.letters (t.take a) := by
  rcases h with rfl | ⟨-, h⟩
  · rfl
  · exact h

theorem letters_slice (h : r.Beside t i a) (hi : i ≤ j) (ha : a ≤ j) :
    Text.letters (t.slice i j) = Text.letters (t.slice a j) := by
  have split : ∀ {k : Nat}, k ≤ j →
      Text.letters (t.take j) = Text.letters (t.take k) ++ Text.letters (t.slice k j) := by
    intro k hk
    rw [← Text.slice_zero, ← Text.slice_zero, Text.letters_slice_append (Nat.zero_le k) hk]
  have eq := (split hi).symm.trans (split ha)
  rw [h.letters_take] at eq
  exact List.append_cancel_left eq

/-- What is beside a letter is not behind it. -/
theorem le_of_letter (h : r.Beside t i a) {c : Char} (hc : t[a]? = some c)
    (letter : Text.isSeparator c = false) : i ≤ a := by
  rcases Nat.lt_or_ge a i with lt | le
  · have eq := h.letters_take
    rw [← Text.slice_zero, ← Text.slice_zero, Text.letters_slice_append (Nat.zero_le a)
      (Nat.le_of_lt lt), ← Text.cons_slice hc lt, Text.letters_cons, letter] at eq
    simp at eq
  · exact le

theorem letters_slice_eq_nil (h : r.Beside t i a) (hi : i ≤ a) :
    Text.letters (t.slice i a) = [] := by
  rw [h.letters_slice hi (Nat.le_refl a), Text.slice_self, Text.letters_nil]

/-- Behind a separator. -/
theorem succ (h : r.Beside t i a) (lenient : r.lenient) {c : Char} (hc : t[a]? = some c)
    (sep : Text.isSeparator c) : r.Beside t i (a + 1) := by
  refine .inr ⟨lenient, ?_⟩
  rw [h.letters_take, ← Text.slice_zero, ← Text.slice_zero,
    Text.letters_slice_append (Nat.zero_le a) (Nat.le_succ a), Text.slice_succ hc,
    Text.letters_cons, if_pos sep, Text.letters_nil, List.append_nil]

end Beside

namespace Lettered

theorem skip_eq (h : r.Lettered t) (lenient : r.lenient) {c : Char} (hc : t[a]? = some c)
    (letter : Text.isSeparator c = false) : ∀ {n i : Nat}, i ≤ a → a ≤ i + n →
      Text.letters (t.slice i a) = [] → r.skip n i = a
  | 0, i, hi, hn, _ => by
    rw [skip]
    omega
  | n + 1, i, hi, hn, gone => by
    rw [skip]
    rcases Nat.lt_or_eq_of_le hi with lt | rfl
    · have len := (List.getElem?_eq_some_iff.1 hc).1
      obtain ⟨d, hd⟩ : ∃ d, t[i]? = some d := ⟨_, List.getElem?_eq_getElem (by omega)⟩
      rw [← Text.cons_slice hd lt, Text.letters_cons] at gone
      cases sep : Text.isSeparator d with
      | false => simp [sep] at gone
      | true =>
        rw [sep, if_pos rfl] at gone
        rw [h.ignorableAt hd, lenient, sep, Bool.and_true, if_pos rfl]
        exact h.skip_eq lenient hc letter lt (by omega) gone
    · rw [h.ignorableAt hc, letter, Bool.and_false, if_neg (by simp)]

theorem matchKeys?_letter (h : r.Lettered t) (beside : r.Beside t i a) {c : Char}
    (hc : t[a]? = some c) (letter : Text.isSeparator c = false) (ha : a < stop)
    (keys : List SymbolKey) :
    r.matchKeys? stop (.char c :: keys) i = r.matchKeys? stop keys (a + 1) := by
  have place : (if r.lenient then r.skip (stop - i) i else i) = a := by
    have le := beside.le_of_letter hc letter
    split
    · rename_i lenient
      exact h.skip_eq lenient hc letter le (by omega) (beside.letters_slice_eq_nil le)
    · rename_i strict
      rcases beside with rfl | ⟨lenient, -⟩
      · rfl
      · exact absurd lenient strict
  rw [matchKeys?, place]
  simp [ha, h.hasKey_of_letter hc letter]

/-- The first character of a text stands where the text does, and the others behind it. -/
theorem stands_cons {c : Char} {l : Text} {a : Nat} (len : stop ≤ t.length)
    (hs : t.slice a (a + (c :: l).length) = c :: l) (hstop : a + (c :: l).length ≤ stop) :
    t[a]? = some c ∧ t.slice (a + 1) (a + 1 + l.length) = l ∧ a + 1 + l.length ≤ stop := by
  have add : a + (c :: l).length = a + 1 + l.length := by rw [List.length_cons]; omega
  rw [add] at hs hstop
  obtain ⟨d, hd⟩ : ∃ d, t[a]? = some d := ⟨_, List.getElem?_eq_getElem (by omega)⟩
  rw [← Text.cons_slice hd (by omega), List.cons.injEq] at hs
  obtain ⟨rfl, hs⟩ := hs
  exact ⟨hd, hs, hstop⟩

/-- Leniently, the letters of a text that stands beside a place match from there on. -/
theorem exists_matchKeys? (h : r.Lettered t) (lenient : r.lenient) : ∀ {l : Text} {i a : Nat},
    r.Beside t i a → t.slice a (a + l.length) = l → a + l.length ≤ stop → stop ≤ t.length →
      ∃ j, r.matchKeys? stop ((Text.letters l).map .char) i = some j ∧
        r.Beside t j (a + l.length) ∧
          (l.getLast?.any (fun c => !Text.isSeparator c) → j = a + l.length)
  | [], i, a, beside, _, _, _ => ⟨i, rfl, beside, by simp⟩
  | c :: l, i, a, beside, hs, hstop, len => by
    obtain ⟨hd, hs, hstop⟩ := stands_cons len hs hstop
    have add : a + (c :: l).length = a + 1 + l.length := by rw [List.length_cons]; omega
    rw [add]
    cases sep : Text.isSeparator c with
    | true =>
      obtain ⟨j, hj, beside', last⟩ :=
        h.exists_matchKeys? lenient (beside.succ lenient hd sep) hs hstop len
      rw [Text.letters_cons, if_pos sep]
      refine ⟨j, hj, beside', ?_⟩
      cases l with
      | nil => simp [sep]
      | cons e l => simpa using last
    | false =>
      obtain ⟨j, hj, beside', last⟩ := h.exists_matchKeys? lenient (.refl r t (a + 1)) hs hstop len
      rw [Text.letters_cons, sep, if_neg (by simp), List.map_cons,
        h.matchKeys?_letter beside hd sep (by omega)]
      refine ⟨j, hj, beside', ?_⟩
      cases l with
      | nil =>
        obtain rfl := Option.some.inj hj
        simp
      | cons e l => simpa using last

theorem matchKeys?_strict (h : r.Lettered t) (strict : r.lenient = false) : ∀ {l : Text} {a : Nat},
    t.slice a (a + l.length) = l → a + l.length ≤ stop → stop ≤ t.length →
      r.matchKeys? stop (l.map .char) a = some (a + l.length)
  | [], _, _, _, _ => rfl
  | c :: l, a, hs, hstop, len => by
    obtain ⟨hd, hs, hstop⟩ := stands_cons len hs hstop
    have add : a + (c :: l).length = a + 1 + l.length := by rw [List.length_cons]; omega
    have key : r.hasKey a (.char c) := by
      rw [Reader.hasKey, h.getElem?, hd]
      simp [Symbol.ofChar, strict]
    rw [add]
    simp only [List.map_cons, matchKeys?, strict, Bool.false_eq_true, if_false, key, Bool.and_true,
      decide_eq_true_eq]
    rw [if_pos (by omega)]
    exact h.matchKeys?_strict strict hs hstop len

/-- **A literal with a letter matches where it stands,** and beside. -/
theorem exists_matchLiteral? (h : r.Lettered t) {l : Text} (hl : ∀ c ∈ l, c ∈ Text.alphabet)
    (letter : Text.letters l ≠ []) (beside : r.Beside t i a) (hs : t.slice a (a + l.length) = l)
    (hstop : a + l.length ≤ stop) (len : stop ≤ t.length) :
    ∃ j, r.matchLiteral? (r.foldLiteral l) i stop = some j ∧ r.Beside t j (a + l.length) ∧
      (l.getLast?.any (fun c => !Text.isSeparator c) → j = a + l.length) := by
  have keys := h.keys_foldLiteral hl
  have ne : ¬ ((r.foldLiteral l).keys = [] ∧ (r.foldLiteral l).blank = true) := by
    rintro ⟨none, -⟩
    rw [keys, List.map_eq_nil_iff] at none
    rw [← letters_keys (r := r), none] at letter
    exact letter rfl
  rw [matchLiteral?, if_neg ne, keys]
  cases lenient : r.lenient with
  | true => exact h.exists_matchKeys? lenient beside hs hstop len
  | false =>
    rcases beside with rfl | ⟨lenient', -⟩
    · exact ⟨_, h.matchKeys?_strict lenient hs hstop len, .refl .., fun _ => rfl⟩
    · simp [lenient] at lenient'

theorem beside_of_letters_slice (lenient : r.lenient) (hij : i ≤ j)
    (none : Text.letters (t.slice i j) = []) : r.Beside t j i := by
  refine .inr ⟨lenient, ?_⟩
  rw [← Text.slice_zero, ← Text.slice_zero, Text.letters_slice_append (Nat.zero_le i) hij, none,
    List.append_nil]

/-- A space or a hyphen matches where it stands; leniently, those behind it are passed over too. -/
theorem exists_matchLiteral?_separator (h : r.Lettered t) {c : Char} (hc : t[i]? = some c)
    (sep : Text.isSeparator c) (plain : c ∈ Text.alphabet) (hi : i < stop) :
    ∃ j, r.matchLiteral? (r.foldLiteral [c]) i stop = some j ∧ r.Beside t j (i + 1) ∧ j ≤ stop := by
  have plain : ∀ d ∈ [c], d ∈ Text.alphabet := fun d hd => List.mem_singleton.1 hd ▸ plain
  have keys := h.keys_foldLiteral plain
  have symbols := h.literals [c] plain
  cases lenient : r.lenient with
  | false =>
    have key : r.hasKey i (.char c) := by
      rw [Reader.hasKey, h.getElem?, hc]
      simp [Symbol.ofChar, lenient]
    refine ⟨i + 1, ?_, .refl .., hi⟩
    rw [matchLiteral?, keys, lenient, if_neg (by simp)]
    simp [matchKeys?, lenient, key, hi]
  | true =>
    have blank : (r.foldLiteral [c]).blank = true := by
      simp only [foldLiteral, symbols]
      simp [lenient, sep]
    have none : (r.foldLiteral [c]).keys = [] := by
      simp [keys, lenient, Text.letters_cons, sep]
    have next : r.skip (stop - i) i = r.skip (stop - i - 1) (i + 1) := by
      obtain ⟨n, hn⟩ : ∃ n, stop - i = n + 1 := ⟨stop - i - 1, by omega⟩
      rw [hn, skip, h.ignorableAt hc, lenient, sep]
      rfl
    have within := within_skip (r := r) (stop - i - 1) (i + 1)
    refine ⟨r.skip (stop - i) i, ?_, ?_, ?_⟩
    · rw [matchLiteral?, if_pos ⟨none, blank⟩]
      dsimp only
      rw [if_pos (by omega)]
    · rw [next]
      exact beside_of_letters_slice lenient within.1 (h.letters_skip ..)
    · omega

/-! ## Trails -/

end Lettered

/-- The letters are put together of those of the pieces, where `reads` says which letters a
    substitution may read as which value; on the way the parts that have been read grow. -/
inductive Filled (reads : Substitution → Text → Binary64 → Prop) :
    List Piece → Text → Parts → Parts → Prop
  | nil {parts : Parts} : Filled reads [] [] parts parts
  | literal {l : Text} {rest : List Piece} {u : Text} {parts parts' : Parts} :
      Filled reads rest u parts parts' →
        Filled reads (.literal l :: rest) (Text.letters l ++ u) parts parts'
  | substitution {sub : Substitution} {rest : List Piece} {u u' : Text} {v : Binary64}
      {parts parts' : Parts} : reads sub u v → Filled reads rest u' (parts.add sub v) parts' →
        Filled reads (.substitution sub :: rest) (u ++ u') parts parts'

/-- The literals of the pieces are made of the characters of words and of separators. -/
def PlainPieces (pieces : List Piece) : Prop :=
  ∀ l, .literal l ∈ pieces → ∀ c ∈ l, c ∈ Text.alphabet

theorem PlainPieces.tail {p : Piece} {pieces : List Piece} (h : PlainPieces (p :: pieces)) :
    PlainPieces pieces :=
  fun l hl => h l (by simp [hl])

/-- **A trail leads over the letters of what its pieces read.** -/
theorem Lettered.filled_of_trail (h : r.Lettered t)
    {taken : Substitution → (start stop : Nat) → Match → Prop}
    {reads : Substitution → Text → Binary64 → Prop}
    (within : ∀ sub i j m, i ≤ j → taken sub i j m → i ≤ m.stop ∧ m.stop ≤ j)
    (sound : ∀ sub i j m, i ≤ j → taken sub i j m →
      reads sub (Text.letters (t.slice i m.stop)) m.value) :
    ∀ {pieces : List Piece} {place : Nat} {parts : Parts} {p : Progress}, PlainPieces pieces →
      place ≤ stop → Trail r taken stop (pieces.map r.element) place parts p →
        place ≤ p.place ∧ p.place ≤ stop ∧
          Filled reads pieces (Text.letters (t.slice place p.place)) parts p.parts
  | [], _, _, _, _, hp, trail => by
    cases trail with
    | finish => exact ⟨Nat.le_refl _, hp, Text.slice_self (t := t) ▸ .nil⟩
  | .literal l :: rest, _, _, _, plain, hp, trail => by
    cases trail with
    | literal hl trail =>
      have next := within_matchLiteral? hl hp
      obtain ⟨lo, hi, filled⟩ := h.filled_of_trail within sound plain.tail next.2 trail
      refine ⟨by omega, hi, ?_⟩
      rw [Text.letters_slice_append next.1 lo, h.letters_of_matchLiteral? (plain l (by simp)) hl]
      exact .literal filled
  | .substitution sub :: rest, _, _, _, plain, hp, trail => by
    rcases trail.of_substitution with ⟨m, rfl, rfl, hm⟩ | ⟨split, m, -, lo, hi, hm, hc, trail⟩
    · obtain ⟨lo, hi⟩ := within _ _ _ _ hp hm
      refine ⟨lo, hi, ?_⟩
      rw [← List.append_nil (Text.letters _)]
      exact .substitution (sound _ _ _ _ hp hm) .nil
    · obtain ⟨lo', hi', filled⟩ := h.filled_of_trail within sound plain.tail hi trail
      obtain ⟨lo'', -⟩ := within _ _ _ _ lo hm
      -- what the match leaves of its stretch has no letter
      obtain ⟨le, gone⟩ := h.letters_of_covers hc
      refine ⟨by omega, hi', ?_⟩
      rw [Text.letters_slice_append lo lo', Text.letters_slice_append lo'' le, gone,
        List.append_nil]
      exact .substitution (sound _ _ _ _ lo hm) filled

end Reader
end Spellout
