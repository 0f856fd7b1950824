/-
  Strict reading, character by character.

  When reading is not lenient every symbol is one character of the text, so that places count
  characters.

  * `Text.slice` is the text between two places;
  * `Reader.Strict.matchLiteral?_eq_some`: a literal matches where it stands, and itself only;
  * `Reader.slice_of_readNumeral?`: a numeral is read from exactly the text it takes up, if the system
    reads what it takes up (`NumeralSystem.ReadsStart`), as decimal numerals do.
-/
import Spellout.Proofs.Numeral.Reading
import Spellout.Proofs.Reading.Span

namespace Spellout

/-! ## Slices -/

namespace Text

/-- The text from one place to another. -/
def slice (t : Text) (i j : Nat) : Text := (t.take j).drop i

variable {t : Text} {i j k : Nat}

@[simp] theorem slice_self : t.slice i i = [] := by
  simp [slice]

theorem slice_zero : t.slice 0 j = t.take j := by
  simp [slice]

theorem slice_eq : t.slice i j = (t.drop i).take (j - i) := by
  rw [slice, List.drop_take]

theorem length_slice (hj : j ≤ t.length) : (t.slice i j).length = j - i := by
  rw [slice, List.length_drop, List.length_take, Nat.min_eq_left hj]

theorem slice_append (hij : i ≤ j) (hjk : j ≤ k) : t.slice i j ++ t.slice j k = t.slice i k := by
  have split : t.drop j = (t.drop i).drop (j - i) := by
    rw [List.drop_drop, Nat.add_sub_cancel' hij]
  have add : k - i = (j - i) + (k - j) := by omega
  rw [slice_eq, slice_eq, slice_eq, split, add, List.take_add]

theorem slice_ne_nil (hij : i < j) (hj : j ≤ t.length) : t.slice i j ≠ [] := by
  intro h
  have := length_slice (t := t) (i := i) hj
  rw [h, List.length_nil] at this
  omega

theorem slice_succ {c : Char} (h : t[i]? = some c) : t.slice i (i + 1) = [c] := by
  have hi := (List.getElem?_eq_some_iff.1 h).1
  rw [slice_eq, Nat.add_sub_cancel_left, List.take_one, List.head?_drop, h]
  rfl

theorem cons_slice {c : Char} (h : t[i]? = some c) (hj : i + 1 ≤ j) :
    c :: t.slice (i + 1) j = t.slice i j := by
  rw [← slice_append (Nat.le_succ i) hj, slice_succ h]
  rfl

/-- Behind a text that stands at a place stands what follows it. -/
theorem stands_behind {u v : Text} (stands : u ++ v <+: t.drop i) :
    v <+: t.drop (i + u.length) := by
  obtain ⟨rest, hrest⟩ := stands
  refine ⟨rest, ?_⟩
  rw [← List.drop_drop, ← hrest, List.append_assoc, List.drop_left]

end Text

/-- A numeral that is read from a text is read from the start of it that the numeral takes up, and
    it takes up something. -/
def NumeralSystem.ReadsStart (ns : NumeralSystem) : Prop :=
  ∀ t p v n, ns.read t p = some (v, n) →
    ∃ s, s <+: t ∧ s ≠ [] ∧ Text.utf8Size s = n ∧ ns.read s p = some (v, n)

theorem NumeralSystem.readsStart_decimal : decimal.ReadsStart :=
  fun _ _ _ _ h => exists_prefix_of_readDecimal h

namespace Reader

/-! ## Symbols -/

/-- The reader reads the text character by character. -/
structure Strict (r : Reader) (t : Text) : Prop where
  lenient : r.lenient = false
  symbols : r.symbols = (Symbol.exact t).toArray

theorem strict_ofText (book : RuleBook) (ns : NumeralSystem) (limit : Nat) (t : Text) :
    (ofText book ns false limit t).Strict t := ⟨rfl, rfl⟩

variable {r : Reader} {t : Text} {i j stop : Nat}

namespace Strict

theorem size (h : r.Strict t) : r.symbols.size = t.length := by
  simp [h.symbols, Symbol.exact]

theorem getElem? (h : r.Strict t) (i : Nat) :
    r.symbols[i]? = t[i]?.map fun c => ⟨.char c, [c], false⟩ := by
  simp [h.symbols, Symbol.exact]

theorem hasKey (h : r.Strict t) {c : Char} (hk : r.hasKey i (.char c)) : t[i]? = some c := by
  rw [Reader.hasKey, h.getElem?] at hk
  cases hc : t[i]? with
  | none => simp [hc] at hk
  | some d =>
    rw [hc] at hk
    have : d = c := by simpa using hk
    rw [this]

theorem hasKey_of_getElem? (h : r.Strict t) {c : Char} (hc : t[i]? = some c) :
    r.hasKey i (.char c) := by
  simp [Reader.hasKey, h.getElem?, hc]

theorem textAt (h : r.Strict t) (i : Nat) : r.textAt i = t[i]?.toList := by
  rw [Reader.textAt, h.getElem?]
  cases t[i]? <;> rfl

theorem bytesBefore (h : r.Strict t) (i : Nat) : r.bytesBefore i = Text.utf8Size (t.take i) := by
  have texts : ∀ u : Text, (Symbol.exact u).flatMap Symbol.text = u := by
    intro u
    induction u with
    | nil => rfl
    | cons c u ih => simpa [Symbol.exact] using ih
  have take : (Symbol.exact t).take i = Symbol.exact (t.take i) := by
    simp [Symbol.exact, List.map_take]
  simp only [Reader.bytesBefore, h.symbols, take, texts]

theorem covers (h : r.Strict t) {m : Match} (hc : r.covers m stop) : m.stop = stop := by
  simpa [Reader.covers, h.lenient] using hc

/-! ## Literals -/

theorem slice_of_matchKeys? (h : r.Strict t) : ∀ {l : Text} {i j : Nat},
    r.matchKeys? stop (l.map .char) i = some j → i ≤ j ∧ t.slice i j = l
  | [], i, j, hm => by
    obtain rfl := Option.some.inj hm
    exact ⟨Nat.le_refl _, Text.slice_self⟩
  | c :: l, i, j, hm => by
    simp only [List.map_cons, matchKeys?, h.lenient, Bool.false_eq_true, if_false,
      Bool.and_eq_true, decide_eq_true_eq] at hm
    split at hm
    · rename_i key
      obtain ⟨le, rest⟩ := h.slice_of_matchKeys? hm
      exact ⟨by omega, by rw [← Text.cons_slice (h.hasKey key.2) le, rest]⟩
    · cases hm

theorem matchKeys?_of_stands (h : r.Strict t) : ∀ {l : Text} {i : Nat}, l <+: t.drop i →
    i + l.length ≤ stop → r.matchKeys? stop (l.map .char) i = some (i + l.length)
  | [], i, _, _ => rfl
  | c :: l, i, start, le => by
    obtain ⟨u, hu⟩ := start
    have first : t[i]? = some c := by
      rw [← List.head?_drop, ← hu]
      rfl
    have behind : l <+: t.drop (i + 1) := ⟨u, by rw [← List.tail_drop, ← hu]; rfl⟩
    rw [List.length_cons] at le
    have matched := h.matchKeys?_of_stands behind (show i + 1 + l.length ≤ stop by omega)
    have key : i < stop ∧ r.hasKey i (.char c) := ⟨by omega, h.hasKey_of_getElem? first⟩
    simp only [List.map_cons, matchKeys?, h.lenient, Bool.false_eq_true, if_false, Bool.and_eq_true,
      decide_eq_true_eq]
    rw [if_pos key, matched, List.length_cons, Nat.add_right_comm, Nat.add_assoc]

theorem foldLiteral_eq (h : r.Strict t) (l : Text) : r.foldLiteral l = ⟨l.map .char, false⟩ := by
  have symbols : symbolsOf r.book r.lenient l = Symbol.exact l := by
    rw [symbolsOf, h.lenient]
    rfl
  have keys : (r.foldLiteral l).keys = l.map .char := by
    simp [foldLiteral, symbols, Symbol.exact, List.filter_map, Function.comp_def]
  have blank : (r.foldLiteral l).blank = false := by
    cases l <;> simp [foldLiteral, symbols, Symbol.exact]
  rw [← keys, ← blank]

theorem matchLiteral?_eq (h : r.Strict t) (l : Text) :
    r.matchLiteral? (r.foldLiteral l) i stop = r.matchKeys? stop (l.map .char) i := by
  rw [h.foldLiteral_eq, matchLiteral?, if_neg (by simp)]

/-- A literal matches itself only. -/
theorem slice_of_matchLiteral? (h : r.Strict t) {l : Text}
    (hm : r.matchLiteral? (r.foldLiteral l) i stop = some j) : t.slice i j = l := by
  rw [h.matchLiteral?_eq] at hm
  exact (h.slice_of_matchKeys? hm).2

/-- **A literal matches where it stands,** and only there. -/
theorem matchLiteral?_eq_some (h : r.Strict t) {l : Text} (hi : i ≤ stop) (hstop : stop ≤ t.length) :
    r.matchLiteral? (r.foldLiteral l) i stop = some j ↔
      l <+: t.drop i ∧ j = i + l.length ∧ j ≤ stop := by
  constructor
  · intro hm
    have slice := h.slice_of_matchLiteral? hm
    have within := within_matchLiteral? hm hi
    have length := Text.length_slice (t := t) (i := i) (show j ≤ t.length by omega)
    rw [slice] at length
    refine ⟨?_, by omega, within.2⟩
    rw [← slice, Text.slice_eq]
    exact List.take_prefix ..
  · rintro ⟨start, rfl, le⟩
    rw [h.matchLiteral?_eq]
    exact h.matchKeys?_of_stands start le

/-! ## Numerals -/

theorem numeralPlaces (h : r.Strict t) (i j : Nat) :
    r.numeralPlaces i j = List.range' i (j - i) := by
  simp [Reader.numeralPlaces, h.lenient]

theorem flatMap_textAt (h : r.Strict t) : ∀ n i : Nat,
    (List.range' i n).flatMap r.textAt = t.slice i (i + n)
  | 0, i => by simp
  | n + 1, i => by
    rw [List.range'_succ, List.flatMap_cons, h.flatMap_textAt n (i + 1), h.textAt]
    cases hc : t[i]? with
    | some c =>
      rw [← Text.cons_slice hc (by omega), Nat.add_right_comm, Nat.add_assoc]
      rfl
    | none =>
      have len := List.getElem?_eq_none_iff.1 hc
      simp [Text.slice_eq, List.drop_eq_nil_of_le, len, Nat.le_succ_of_le len]

/-- The place behind a text that takes up some bytes. -/
theorem placeBehind?_eq (h : r.Strict t) : ∀ {u : Text} {i j n : Nat}, j = i + n → j ≤ t.length →
    u ≠ [] → u <+: t.slice i j →
      r.placeBehind? (Text.utf8Size u) (List.range' i n) = some (i + u.length)
  | [], _, _, _, _, _, ne, _ => absurd rfl ne
  | c :: u, i, j, 0, hj, _, _, start => by
    subst hj
    simp at start
  | c :: u, i, j, n + 1, hj, len, _, start => by
    obtain ⟨d, hd⟩ : ∃ d, t[i]? = some d := ⟨_, List.getElem?_eq_getElem (by omega)⟩
    rw [← Text.cons_slice hd (by omega), List.cons_prefix_cons] at start
    obtain ⟨rfl, start⟩ := start
    have text : r.textAt i = [c] := by
      rw [h.textAt, hd]
      rfl
    rw [List.range'_succ, placeBehind?]
    simp only [text, Text.utf8Size_cons, Text.utf8Size_nil, Nat.add_zero, Nat.add_sub_cancel_left,
      Nat.le_add_right, if_true]
    by_cases ne : u = []
    · subst ne
      cases n with
      | zero => rfl
      | succ n =>
        -- behind the text every symbol takes up more than is left
        have pos := Text.utf8Size_pos (t := r.textAt (i + 1)) (by
          rw [h.textAt, List.getElem?_eq_getElem (by omega)]
          simp)
        simp only [List.range'_succ, placeBehind?, Text.utf8Size_nil, Nat.le_zero]
        rw [if_neg (by omega)]
        rfl
    · rw [h.placeBehind?_eq (by omega) len ne start]
      simp only [Option.getD_some, List.length_cons]
      congr 1
      omega

/-- A numeral is read from exactly the text it takes up. -/
theorem slice_of_readNumeral? (h : r.Strict t) (reads : r.numerals.ReadsStart) {p : NumeralPattern}
    {m : Match} (hij : i ≤ j) (hj : j ≤ t.length) (hm : r.readNumeral? p i j = some m) :
    r.numerals.read (t.slice i m.stop) p =
      some (m.value, Text.utf8Size (t.slice i m.stop)) := by
  unfold readNumeral? at hm
  dsimp only at hm
  rw [h.numeralPlaces, h.flatMap_textAt, Nat.add_sub_cancel' hij] at hm
  split at hm
  · rename_i value bytes hr
    obtain ⟨u, start, ne, size, again⟩ := reads _ _ _ _ hr
    rw [← size, h.placeBehind?_eq (by omega) hj ne start] at hm
    obtain rfl := Option.some.inj hm
    have len := start.length_le
    rw [Text.length_slice hj] at len
    have taken : t.slice i (i + u.length) = u := by
      calc t.slice i (i + u.length) = (t.slice i j).take u.length := by
            rw [Text.slice_eq, Text.slice_eq, List.take_take, Nat.add_sub_cancel_left,
              Nat.min_eq_left len]
        _ = u := (List.prefix_iff_eq_take.1 start).symm
    rw [taken, again, size]
  · cases hm

end Strict
end Reader
end Spellout
