/-
  The symbols that a numeral takes up.

  The numeral system counts bytes, a reader places of symbols.  A match ends behind the last symbol
  whose text lies inside the numeral, but its value is that of the whole numeral.  So the value is
  that of the symbols which the match takes up if the numeral ends where a symbol ends, and may be
  another one if it ends inside a symbol.

  * `Reader.EndsSymbol`: the numeral at the start of a stretch ends where a symbol ends;
  * `NumeralSystem.isDecimalDigit_of_readDecimal`: a decimal numeral ends with a digit;
  * `Reader.endsSymbol_of_digits`: so it ends where a symbol ends, if symbols have digits at most at
    their ends;
  * `Reader.read_numeralText`: the value of a match is read from the symbols it takes up;
  * `Reader.not_read_numeralText`: it need not be if the numeral ends inside a symbol.
-/
import Mathlib.Data.List.Infix
import Mathlib.Data.List.Range
import Spellout.Proofs.Reading.Strict
import Spellout.Proofs.Reading.Tiles
import Spellout.RuleBook.Conversion

namespace Spellout

/-! ## Starts of a text -/

/-- A start of a text is known by its size. -/
theorem Text.eq_of_prefix {s u t : Text} (hs : s <+: t) (hu : u <+: t)
    (size : Text.utf8Size s = Text.utf8Size u) : s = u := by
  induction t generalizing s u with
  | nil => rw [List.prefix_nil.1 hs, List.prefix_nil.1 hu]
  | cons c t ih =>
    cases s with
    | nil =>
      cases u with
      | nil => rfl
      | cons d u => exact absurd size (Nat.ne_of_lt (Text.utf8Size_pos (List.cons_ne_nil d u)))
    | cons d s =>
      cases u with
      | nil => exact absurd size (Nat.ne_of_gt (Text.utf8Size_pos (List.cons_ne_nil d s)))
      | cons e u =>
        rw [List.cons_prefix_cons] at hs hu
        obtain ⟨rfl, hs⟩ := hs
        obtain ⟨rfl, hu⟩ := hu
        rw [Text.utf8Size_cons, Text.utf8Size_cons] at size
        rw [ih hs hu (Nat.add_left_cancel size)]

/-- A start of joined texts joins the first ones, or ends inside the next one. -/
theorem exists_of_prefix_flatMap {α : Type} {f : α → Text} {u : Text} {l : List α}
    (h : u <+: l.flatMap f) : (∃ pre : List α, pre <+: l ∧ u = pre.flatMap f) ∨
      ∃ (pre : List α) (a : α) (w : Text), a ∈ l ∧ w <+: f a ∧ w ≠ [] ∧ w ≠ f a ∧
        u = pre.flatMap f ++ w := by
  induction l generalizing u with
  | nil => exact .inl ⟨[], List.nil_prefix, List.prefix_nil.1 h⟩
  | cons a l ih =>
    rw [List.flatMap_cons] at h
    rcases List.prefix_or_prefix_of_prefix h (List.prefix_append (f a) _) with inside | ⟨u', rfl⟩
    · by_cases none : u = []
      · exact .inl ⟨[], List.nil_prefix, none⟩
      · by_cases all : u = f a
        · exact .inl ⟨[a], (List.prefix_append [a] l), by simpa using all⟩
        · exact .inr ⟨[], a, u, List.mem_cons_self, inside, none, all, rfl⟩
    · rcases ih ((List.prefix_append_right_inj _).1 h) with
        ⟨pre, start, rfl⟩ | ⟨pre, b, w, mem, start, some, part, rfl⟩
      · exact .inl ⟨a :: pre, (List.prefix_cons_inj a).2 start, rfl⟩
      · refine .inr ⟨a :: pre, b, w, List.mem_cons_of_mem a mem, start, some, part, ?_⟩
        rw [List.flatMap_cons, List.append_assoc]

/-- The last character of a part of a text that is not all of it stands before its last one. -/
theorem Text.mem_dropLast_of_prefix {w t : Text} (start : w <+: t) (ne : w ≠ t) {c : Char}
    (h : c ∈ w) : c ∈ t.dropLast := by
  obtain ⟨rest, rfl⟩ := start
  have more : rest ≠ [] := by
    rintro rfl
    exact ne (List.append_nil w).symm
  rw [List.dropLast_append_of_ne_nil more]
  exact List.mem_append_left _ h

/-! ## The end of a numeral -/

namespace NumeralSystem

theorem isDecimalDigit_of_getLast?_wholePart {commas : Bool} : ∀ {t : Text} {c : Char},
    (wholePart commas t).getLast? = some c → Text.isDecimalDigit c
  | [], _, h => by cases h
  | d :: t, c, h => by
    unfold wholePart at h
    split at h
    · rename_i digit
      cases rest : wholePart commas t with
      | nil =>
        rw [rest] at h
        obtain rfl : d = c := by simpa using h
        exact digit
      | cons e whole =>
        rw [rest, List.getLast?_cons_cons, ← rest] at h
        exact isDecimalDigit_of_getLast?_wholePart h
    · split at h
      · rename_i comma
        -- a comma is followed by a digit, which is not the end of the whole part before it
        simp only [Bool.and_eq_true] at comma
        cases rest : wholePart commas t with
        | nil => exact absurd rest (wholePart_ne_nil comma.2)
        | cons e whole =>
          rw [rest, List.getLast?_cons_cons, ← rest] at h
          exact isDecimalDigit_of_getLast?_wholePart h
      · cases h

theorem isDecimalDigit_of_getLast?_keptFraction {keep : Bool} {t : Text} {c : Char}
    (h : (keptFraction keep t).getLast? = some c) : Text.isDecimalDigit c := by
  cases keep with
  | false => cases h
  | true =>
    rcases fractionPart_eq t with none | ⟨digits, ne, all, eq⟩
    · rw [keptFraction, if_pos rfl, none] at h
      cases h
    · rw [keptFraction, if_pos rfl, eq, List.getLast?_cons_of_ne_nil ne] at h
      exact List.takeWhile_eq_self_iff.1 all c (List.mem_of_getLast? h)

/-- **A decimal numeral ends with a digit.** -/
theorem isDecimalDigit_of_readDecimal {t u : Text} {p : NumeralPattern} {v : Binary64} {n : Nat}
    (h : readDecimal t p = some (v, n)) (start : u <+: t) (size : Text.utf8Size u = n) {c : Char}
    (last : u.getLast? = some c) : Text.isDecimalDigit c := by
  unfold readDecimal at h
  split at h
  · cases h
  · rename_i sign whole fraction parts
    dsimp only at h
    split at h
    · obtain ⟨begins, ne, -⟩ := numeralParts?_append parts
      obtain ⟨-, -, hw, hf⟩ := numeralParts?_eq_some.1 parts
      have taken : u = sign ++ whole ++ fraction :=
        Text.eq_of_prefix start begins (size.trans (Prod.mk.inj (Option.some.inj h)).2.symm)
      rw [taken, List.getLast?_append] at last
      cases hl : fraction.getLast? with
      | some d =>
        rw [hl, Option.some_or] at last
        obtain rfl := Option.some.inj last
        rw [← hf] at hl
        exact isDecimalDigit_of_getLast?_keptFraction hl
      | none =>
        rw [hl, Option.none_or, List.getLast?_append, List.getLast?_eq_some_getLast ne,
          Option.some_or, ← List.getLast?_eq_some_getLast ne, ← hw] at last
        exact isDecimalDigit_of_getLast?_wholePart last
    · cases h

end NumeralSystem

namespace Reader

variable {r : Reader} {p : NumeralPattern} {i j : Nat}

/-! ## Places of a numeral -/

/-- The text of a stretch, without the symbols that do not belong to a numeral. -/
def numeralText (r : Reader) (i j : Nat) : Text := (r.numeralPlaces i j).flatMap r.textAt

/-- The numeral at the start of a stretch ends where a symbol ends. -/
def EndsSymbol (r : Reader) (p : NumeralPattern) (i j : Nat) : Prop :=
  ∀ v bytes, r.numerals.read (r.numeralText i j) p = some (v, bytes) →
    ∃ places, places <+: r.numeralPlaces i j ∧ Text.utf8Size (places.flatMap r.textAt) = bytes

/-- A decimal numeral ends where a symbol ends, if symbols have digits at most at their ends. -/
theorem endsSymbol_of_digits (decimal : r.numerals = .decimal)
    (ends : ∀ k, ∀ c ∈ (r.textAt k).dropLast, Text.isDecimalDigit c = false) :
    r.EndsSymbol p i j := by
  intro v bytes h
  rw [decimal] at h
  obtain ⟨u, start, -, size, -⟩ := NumeralSystem.exists_prefix_of_readDecimal h
  rcases exists_of_prefix_flatMap start with ⟨places, begins, rfl⟩ | ⟨pre, k, w, -, part, some, ne, rfl⟩
  · exact ⟨places, begins, size⟩
  · obtain ⟨c, last⟩ : ∃ c, w.getLast? = Option.some c :=
      ⟨_, List.getLast?_eq_some_getLast some⟩
    have digit : Text.isDecimalDigit c := by
      refine NumeralSystem.isDecimalDigit_of_readDecimal h start size ?_
      rw [List.getLast?_append, last, Option.some_or]
    have inside : c ∈ (r.textAt k).dropLast :=
      Text.mem_dropLast_of_prefix part ne (List.mem_of_getLast? last)
    rw [ends k c inside] at digit
    cases digit

theorem numeralPlaces_cons {k : Nat} (hi : i ≤ k) (hj : k < j)
    (kept : (r.lenient && r.ignorableAt k) = false) :
    r.numeralPlaces i j = r.numeralPlaces i k ++ k :: r.numeralPlaces (k + 1) j := by
  have range : List.range' i (j - i) =
      List.range' i (k - i) ++ k :: List.range' (k + 1) (j - (k + 1)) := by
    have count : j - i = (k - i) + ((j - (k + 1)) + 1) := by omega
    rw [count, ← List.range'_append_1, Nat.add_sub_cancel' hi, List.range'_succ]
  rw [numeralPlaces, range, List.filter_append, List.filter_cons_of_pos (by simp [kept])]
  rfl

theorem mem_numeralPlaces {k : Nat} : k ∈ r.numeralPlaces i j ↔
    i ≤ k ∧ k < j ∧ (r.lenient && r.ignorableAt k) = false := by
  rw [numeralPlaces, List.mem_filter, List.mem_range'_1, Bool.not_eq_true', and_assoc]
  refine and_congr_right fun hi => and_congr_left' ?_
  omega

/-- The places of a stretch up to one of them are those of the stretch that ends behind it. -/
theorem numeralPlaces_of_mem {k : Nat} {pre rest : List Nat}
    (h : r.numeralPlaces i j = pre ++ k :: rest) : r.numeralPlaces i (k + 1) = pre ++ [k] := by
  obtain ⟨hi, hj, kept⟩ : i ≤ k ∧ k < j ∧ (r.lenient && r.ignorableAt k) = false :=
    mem_numeralPlaces.1 (by simp [h])
  have before : k ∉ r.numeralPlaces i k := fun mem => by
    have := mem_numeralPlaces.1 mem
    omega
  have behind : k ∉ r.numeralPlaces (k + 1) j := fun mem => by
    have := mem_numeralPlaces.1 mem
    omega
  have nothing : r.numeralPlaces (k + 1) (k + 1) = [] := by
    simp [numeralPlaces]
  rw [numeralPlaces_cons hi hj kept, List.append_cons_inj_of_notMem before behind] at h
  rw [numeralPlaces_cons hi (Nat.lt_succ_self k) kept, h.1, nothing]

theorem lt_of_placeBehind?_eq_none {places more : List Nat} {bytes : Nat}
    (h : r.placeBehind? bytes places = none) (some : more ≠ []) (start : more <+: places) :
    bytes < Text.utf8Size (more.flatMap r.textAt) := by
  cases places with
  | nil => exact absurd (List.prefix_nil.1 start) some
  | cons k places =>
    cases more with
    | nil => exact absurd rfl some
    | cons k' more =>
      obtain ⟨rfl, -⟩ := List.cons_prefix_cons.1 start
      unfold placeBehind? at h
      dsimp only at h
      split at h
      · cases h
      · rw [List.flatMap_cons, Text.utf8Size_append]
        omega

/-- The place behind a number of bytes is behind the last symbol that they hold all of. -/
theorem exists_of_placeBehind? {places : List Nat} {bytes stop : Nat}
    (h : r.placeBehind? bytes places = some stop) :
    ∃ pre k rest, places = pre ++ k :: rest ∧ stop = k + 1 ∧
      Text.utf8Size ((pre ++ [k]).flatMap r.textAt) ≤ bytes ∧
        ∀ more, more ≠ [] → more <+: rest →
          bytes < Text.utf8Size ((pre ++ k :: more).flatMap r.textAt) := by
  induction places generalizing bytes with
  | nil => cases h
  | cons k places ih =>
    unfold placeBehind? at h
    dsimp only at h
    split at h
    · rename_i fits
      cases hr : r.placeBehind? (bytes - Text.utf8Size (r.textAt k)) places with
      | none =>
        rw [hr] at h
        refine ⟨[], k, places, rfl, (Option.some.inj h).symm, by simpa using fits, ?_⟩
        intro more some start
        have := lt_of_placeBehind?_eq_none hr some start
        rw [List.nil_append, List.flatMap_cons, Text.utf8Size_append]
        omega
      | some last =>
        rw [hr] at h
        obtain rfl := Option.some.inj h
        obtain ⟨pre, k', rest, rfl, stop, le, behind⟩ := ih hr
        refine ⟨k :: pre, k', rest, rfl, stop, ?_, fun more some start => ?_⟩
        · rw [List.cons_append, List.flatMap_cons, Text.utf8Size_append]
          omega
        · have := behind more some start
          rw [List.cons_append, List.flatMap_cons, Text.utf8Size_append]
          omega
    · cases h

/-- The value of a match is read from the symbols that it takes up, if the numeral ends where a symbol
    ends. -/
theorem read_of_endsSymbol (reads : r.numerals.ReadsStart) (ends : r.EndsSymbol p i j) {m : Match}
    (h : r.readNumeral? p i j = some m) :
    r.numerals.read (r.numeralText i m.stop) p =
      some (m.value, Text.utf8Size (r.numeralText i m.stop)) := by
  unfold readNumeral? at h
  dsimp only at h
  split at h
  · rename_i value bytes hr
    obtain ⟨stop, hs, rfl⟩ := Option.map_eq_some_iff.1 h
    obtain ⟨u, start, -, size, again⟩ := reads _ _ _ _ hr
    obtain ⟨places, begins, whole⟩ := ends _ _ hr
    obtain ⟨pre, k, rest, split, rfl, le, behind⟩ := exists_of_placeBehind? hs
    have taken : (pre ++ [k]) <+: r.numeralPlaces i j := by
      rw [split, List.append_cons pre k rest]
      exact List.prefix_append ..
    -- the numeral takes up no symbol behind the place `k`, and all before it
    have short : places <+: pre ++ [k] := by
      rcases List.prefix_or_prefix_of_prefix begins taken with short | ⟨more, rfl⟩
      · exact short
      · by_cases none : more = []
        · exact ⟨[], by rw [none, List.append_nil, List.append_nil]⟩
        · have start : more <+: rest := by
            rw [split, List.append_cons pre k rest] at begins
            exact (List.prefix_append_right_inj _).1 begins
          have := behind more none start
          rw [List.append_cons] at this
          omega
    have text : (pre ++ [k]).flatMap r.textAt = u := by
      have shorter := short.flatMap r.textAt
      refine Text.eq_of_prefix (taken.flatMap r.textAt) start ?_
      obtain ⟨rest, hrest⟩ := shorter
      rw [← hrest, Text.utf8Size_append] at le ⊢
      omega
    rw [numeralText, numeralPlaces_of_mem split, text, again, size]
  · cases h

/-! ## Texts -/

/-- Strictly read, a decimal numeral ends where a symbol ends; leniently read it does if no declared
    text has a digit before its last character. -/
theorem endsSymbol_ofText {book : RuleBook} {lenient : Bool} {limit : Nat} {t : Text}
    (declared : lenient → ∀ m ∈ book.equivalences.members, ∀ c ∈ m.1.dropLast,
      Text.isDecimalDigit c = false) :
    (ofText book .decimal lenient limit t).EndsSymbol p i j := by
  refine endsSymbol_of_digits rfl fun k c hc => ?_
  unfold textAt at hc
  cases hs : (ofText book .decimal lenient limit t).symbols[k]? with
  | none =>
    rw [hs] at hc
    cases hc
  | some s =>
    rw [hs] at hc
    have mem : s ∈ symbolsOf book lenient t := List.mem_of_getElem? (by simpa [ofText] using hs)
    have text : c ∈ s.text.dropLast := hc
    rcases mem_symbolsOf mem with ⟨leniently, index, member⟩ | ⟨d, one⟩
    · exact declared leniently _ member c text
    · rw [one] at text
      cases text

/-- **A numeral has the value that the symbols it takes up have**, in strict mode always, in lenient
    mode if it ends where a symbol ends. -/
theorem read_numeralText (book : RuleBook) (lenient : Bool) (limit : Nat) (t : Text) {m : Match}
    (ends : lenient → (ofText book .decimal lenient limit t).EndsSymbol p i j)
    (h : (ofText book .decimal lenient limit t).readNumeral? p i j = some m) :
    NumeralSystem.decimal.read ((ofText book .decimal lenient limit t).numeralText i m.stop) p =
      some (m.value,
        Text.utf8Size ((ofText book .decimal lenient limit t).numeralText i m.stop)) := by
  have ends : (ofText book .decimal lenient limit t).EndsSymbol p i j := by
    cases lenient with
    | true => exact ends rfl
    | false => exact endsSymbol_ofText nofun
  exact read_of_endsSymbol NumeralSystem.readsStart_decimal ends h

/-- The rule book of `%main: =#,##0=;` with blanks that stand for commas. -/
def spaced : RuleBook where
  sets :=
    [{ name := "%main".toList
       ladder := [⟨0, 10, 0, true,
         [.piece (.substitution (.same (.numeral ⟨"#,##0".toList, 1, some 3, 0, 0⟩)))]⟩] }]
  equivalences := ⟨[[" ".toList, ",".toList]]⟩

/-- The blank in `1 234` is left out: the numeral is `1234`, and takes up all five symbols. -/
theorem read_numeralText_spaced :
    let r := ofText spaced .decimal true 64 "1 234 km".toList
    let p : NumeralPattern := ⟨"#,##0".toList, 1, some 3, 0, 0⟩
    RuleBook.ofDescription "%main: =#,##0=;\n%%lenient-parse: & ' ' , ',' ;".toList = .ok spaced ∧
      r.readNumeral? p 0 8 = some ⟨.ofNat 1234, 5⟩ ∧ r.EndsSymbol p 0 8 ∧
      r.numeralText 0 5 = "1234".toList ∧
      NumeralSystem.decimal.read "1234".toList p = some (.ofNat 1234, 4) := by
  intro r p
  have found : r.readNumeral? p 0 8 = some ⟨.ofNat 1234, 5⟩ := by decide +kernel
  have single : ∀ m ∈ spaced.equivalences.members, m.1.dropLast = [] := by decide
  have ends : r.EndsSymbol p 0 8 := endsSymbol_ofText fun _ m mem c hc => by
    rw [single m mem] at hc
    cases hc
  have text : r.numeralText 0 5 = "1234".toList := by decide +kernel
  have size : Text.utf8Size "1234".toList = 4 := by decide
  have read := read_numeralText spaced true 64 "1 234 km".toList (fun _ => ends) found
  rw [text, size] at read
  dsimp only at read
  exact ⟨by decide +kernel, found, ends, text, read⟩

/-- The rule book of `%a: =0=;` with `2k` as a declared text. -/
def abbreviated : RuleBook where
  sets :=
    [{ name := "%a".toList
       ladder := [⟨0, 10, 0, true, [.piece (.substitution (.same (.numeral ⟨['0'], 1, none, 0, 0⟩)))]⟩] }]
  equivalences := ⟨[["2k".toList, "y".toList]]⟩

/-- The numeral `12` at the start of `12k` ends inside the symbol `2k`: the match takes up `1`, but has
    the value 12. -/
theorem not_read_numeralText :
    let r := ofText abbreviated .decimal true 64 "12k".toList
    let p : NumeralPattern := ⟨['0'], 1, none, 0, 0⟩
    RuleBook.ofDescription "%a: =0=;\n%%lenient-parse: & '2k' , 'y' ;".toList = .ok abbreviated ∧
      r.readNumeral? p 0 2 = some ⟨.ofNat 12, 1⟩ ∧
      r.numeralText 0 1 = "1".toList ∧
      NumeralSystem.decimal.read "1".toList p = some (.ofNat 1, 1) ∧
      abbreviated.parse "12k".toList none {} ⟨64, true⟩ = .ok ⟨.ofNat 12, 1⟩ := by
  refine ⟨?_, ?_, ?_, ?_, ?_⟩ <;> decide +kernel

end Reader
end Spellout
