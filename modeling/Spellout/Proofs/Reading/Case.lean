/-
  Lenient reading and the case of letters.

  A character that is not part of a declared text is folded to lower case.  Declared texts are looked
  for as they are declared, before that; so case makes no difference if each group of them holds its
  texts in every case.

  * `Equivalences.CaseClosed`: the declared groups do;
  * `Equivalences.longest?_sameLetters`: then declared texts of one group stand at the same places;
  * `Equivalences.fold_sameLetters`: so the symbols of a text in another case have the same keys;
  * `Reader.CaseAlike`: two lenient readers of such texts;
  * `RuleBook.parse_of_sameLetters`: case makes no difference to lenient parsing;
  * `RuleBook.not_parse_of_sameLetters`: it does if a declared text has letters of one case only.
-/
import Spellout.Proofs.Reading.Folding
import Spellout.Proofs.Text.Case

namespace Spellout

open Text (SameLetter SameLetters)

/-! ## Declared texts -/

namespace Equivalences

/-- With each text, a group of declared texts holds all texts with the same letters. -/
def CaseClosed (e : Equivalences) : Prop :=
  ∀ g ∈ e.groups, ∀ m ∈ g, ∀ m', SameLetters m m' → m' ∈ g

instance (e : Equivalences) : Decidable e.CaseClosed :=
  decidable_of_iff (∀ g ∈ e.groups, ∀ m ∈ g, ∀ m' ∈ Text.spellings m, m' ∈ g) <| by
    simp only [CaseClosed, Text.mem_spellings]

/-- A declared text belongs to the group at its place. -/
theorem mem_members {e : Equivalences} {m : Text} {index : Nat} :
    (m, index) ∈ e.members ↔ ∃ g, e.groups[index]? = some g ∧ m ∈ g := by
  simp [members, List.mem_zipIdx_iff_getElem?]

/-- Groups are declared in order. -/
theorem members_ordered (e : Equivalences) : e.members.Pairwise fun m n => m.2 ≤ n.2 := by
  have places : e.groups.zipIdx.Pairwise fun a b => a.2 ≤ b.2 := by
    refine List.pairwise_map.1 ?_
    rw [List.zipIdx_map_snd]
    exact List.pairwise_le_range'
  refine List.pairwise_flatMap.2 ⟨fun a _ => ?_, places.imp fun {a b} le m hm n hn => ?_⟩
  · exact List.pairwise_map.2 (List.pairwise_of_forall fun _ _ => Nat.le_refl a.2)
  · obtain ⟨_, -, rfl⟩ := List.mem_map.1 hm
    obtain ⟨_, -, rfl⟩ := List.mem_map.1 hn
    exact le

/-- There is no declared text at a place only if none stands there. -/
theorem longest?_eq_none {t : Text} : ∀ {l : List (Text × Nat)},
    longest? t l = Option.none → ∀ m ∈ l, ¬ m.1 <+: t
  | [], _ => by simp
  | a :: l, h => by
    unfold longest? at h
    split at h
    · split at h
      · split at h <;> cases h
      · cases h
    · rename_i other
      intro m hm
      rcases List.mem_cons.1 hm with rfl | hm
      · exact fun here => other (List.isPrefixOf_iff_prefix.2 here)
      · exact longest?_eq_none h m hm

/-- A text that stands at a place, and the first one of the longest that do. -/
structure IsLongest (t : Text) (l : List (Text × Nat)) (m : Text × Nat) : Prop where
  mem : m ∈ l
  stands : m.1 <+: t
  best : ∀ n ∈ l, n.1 <+: t → n.1.length < m.1.length ∨ n.1.length = m.1.length ∧ m.2 ≤ n.2

/-- A text in front of the others is still not better. -/
theorem IsLongest.cons {t : Text} {l : List (Text × Nat)} {a m : Text × Nat}
    (h : IsLongest t l m) (ha : a.1 <+: t → a.1.length < m.1.length) : IsLongest t (a :: l) m where
  mem := List.mem_cons_of_mem _ h.mem
  stands := h.stands
  best n hn stands := by
    rcases List.mem_cons.1 hn with rfl | hn
    · exact .inl (ha stands)
    · exact h.best n hn stands

theorem isLongest_of_longest? {t : Text} : ∀ {l : List (Text × Nat)} {m : Text × Nat},
    l.Pairwise (fun m n => m.2 ≤ n.2) → longest? t l = some m → IsLongest t l m
  | [], _, _, h => by cases h
  | a :: l, m, ordered, h => by
    obtain ⟨first, ordered⟩ := List.pairwise_cons.1 ordered
    unfold longest? at h
    split at h
    · rename_i here
      have here := List.isPrefixOf_iff_prefix.1 here
      -- the first text is taken, unless a longer one follows
      have taken (best : ∀ n ∈ l, n.1 <+: t → n.1.length ≤ a.1.length) : IsLongest t (a :: l) a := by
        refine ⟨List.mem_cons_self, here, fun n hn stands => ?_⟩
        rcases List.mem_cons.1 hn with rfl | hn
        · exact .inr ⟨rfl, Nat.le_refl _⟩
        · have := best n hn stands
          have := first n hn
          omega
      split at h
      · rename_i n hn
        have longest := isLongest_of_longest? ordered hn
        split at h <;> obtain rfl := Option.some.inj h
        · rename_i longer
          exact longest.cons fun _ => longer
        · rename_i longer
          refine taken fun k hk stands => ?_
          rcases longest.best k hk stands with lt | ⟨eq, -⟩ <;> omega
      · rename_i none
        obtain rfl := Option.some.inj h
        exact taken fun k hk stands => absurd stands (longest?_eq_none none k hk)
    · rename_i other
      exact (isLongest_of_longest? ordered h).cons fun stands =>
        absurd (List.isPrefixOf_iff_prefix.2 stands) other

variable {e : Equivalences} {t t' : Text}

/-- A declared text stands in another case at the same place of the other text. -/
theorem CaseClosed.exists_member (closed : e.CaseClosed) (h : SameLetters t t') {m : Text}
    {index : Nat} (mem : (m, index) ∈ e.members) (stands : m <+: t) :
    ∃ m', SameLetters m m' ∧ (m', index) ∈ e.members ∧ m' <+: t' := by
  obtain ⟨g, hg, hm⟩ := mem_members.1 mem
  have same : SameLetters m (t'.take m.length) := by
    have take := List.forall₂_take m.length h
    rwa [← List.prefix_iff_eq_take.1 stands] at take
  exact ⟨_, same, mem_members.2 ⟨g, hg, closed g (List.mem_of_getElem? hg) m hm _ same⟩,
    List.take_prefix ..⟩

/-- **In texts that differ in case, declared texts of one group stand at the same places.** -/
theorem longest?_sameLetters (closed : e.CaseClosed) (h : SameLetters t t') :
    (longest? t e.members = Option.none ∧ longest? t' e.members = Option.none) ∨
      ∃ m m' index, longest? t e.members = some (m, index) ∧
        longest? t' e.members = some (m', index) ∧ SameLetters m m' := by
  cases hm : longest? t e.members with
  | none =>
    cases hm' : longest? t' e.members with
    | none => exact .inl ⟨rfl, rfl⟩
    | some m' =>
      have longest' := isLongest_of_longest? e.members_ordered hm'
      obtain ⟨m, -, mem, stands⟩ := closed.exists_member h.symm longest'.mem longest'.stands
      exact absurd stands (longest?_eq_none hm _ mem)
  | some m =>
    obtain ⟨m, index⟩ := m
    have longest := isLongest_of_longest? e.members_ordered hm
    obtain ⟨n', hn', mem', stands'⟩ := closed.exists_member h longest.mem longest.stands
    cases hm' : longest? t' e.members with
    | none => exact absurd stands' (longest?_eq_none hm' _ mem')
    | some m' =>
      obtain ⟨m', index'⟩ := m'
      have longest' := isLongest_of_longest? e.members_ordered hm'
      obtain ⟨n, hn, mem, stands⟩ := closed.exists_member h.symm longest'.mem longest'.stands
      -- each is the best one at its place, so neither is longer or declared before the other
      have le : n.length < m.length ∨ n.length = m.length ∧ index ≤ index' :=
        longest.best _ mem stands
      have le' : n'.length < m'.length ∨ n'.length = m'.length ∧ index' ≤ index :=
        longest'.best _ mem' stands'
      have length : n.length = m'.length := hn.length_eq.symm
      have length' : n'.length = m.length := hn'.length_eq.symm
      obtain rfl : index = index' := by omega
      refine .inr ⟨m, m', index, rfl, rfl, ?_⟩
      have same := List.forall₂_take m.length h
      rw [← List.prefix_iff_eq_take.1 longest.stands, show m.length = m'.length by omega,
        ← List.prefix_iff_eq_take.1 longest'.stands] at same
      exact same

end Equivalences

/-! ## Symbols -/

/-- Two symbols differ in the case of their texts only. -/
structure Symbol.CaseAlike (a b : Symbol) : Prop where
  key : b.key = a.key
  text : SameLetters a.text b.text
  ignorable : b.ignorable = a.ignorable

namespace Equivalences

variable {e : Equivalences}

theorem symbolAt_sameLetters (closed : e.CaseClosed) {c c' : Char} (hc : SameLetter c c')
    {t t' : Text} (h : SameLetters t t') :
    (e.symbolAt e.members c t).CaseAlike (e.symbolAt e.members c' t') := by
  rcases longest?_sameLetters closed (.cons hc h) with
    ⟨none, none'⟩ | ⟨m, m', index, some, some', same⟩
  · have ignorable : Symbol.isIgnorable c' = Symbol.isIgnorable c :=
      hc.congr fun _ alpha => Text.of_isAlpha (P := fun c => Symbol.isIgnorable c = false) (by decide)
        alpha
    simp only [symbolAt, none, none', hc.toLower_eq, ignorable]
    exact ⟨rfl, .cons hc .nil, rfl⟩
  · simp only [symbolAt, some, some']
    exact ⟨rfl, same, rfl⟩

theorem foldFrom_sameLetters (closed : e.CaseClosed) : ∀ (skip : Nat) {t t' : Text},
    SameLetters t t' →
      List.Forall₂ Symbol.CaseAlike (e.foldFrom e.members skip t) (e.foldFrom e.members skip t')
  | _, [], _, .nil => .nil
  | 0, _ :: _, _, .cons hc h => by
    have alike := symbolAt_sameLetters closed hc h
    simp only [foldFrom, ← alike.text.length_eq]
    exact .cons alike (foldFrom_sameLetters closed _ h)
  | skip + 1, _ :: _, _, .cons _ h => foldFrom_sameLetters closed skip h

/-- **The symbols of a text in another case differ in the case of their texts only.** -/
theorem fold_sameLetters (closed : e.CaseClosed) {t t' : Text} (h : SameLetters t t') :
    List.Forall₂ Symbol.CaseAlike (e.fold t) (e.fold t') :=
  foldFrom_sameLetters closed 0 h

end Equivalences

theorem Symbol.sameLetters_flatMap {l l' : List Symbol} (h : List.Forall₂ CaseAlike l l') :
    SameLetters (l.flatMap text) (l'.flatMap text) := by
  induction h with
  | nil => exact .nil
  | cons ha _ ih => exact List.rel_append ha.text ih

/-! ## Readers -/

namespace Reader

/-- Two lenient readers that differ in the case of their texts only, and whose numeral system does not
    tell case apart. -/
structure CaseAlike (r r' : Reader) : Prop where
  book : r'.book = r.book
  numerals : r'.numerals = r.numerals
  limit : r'.limit = r.limit
  lenient : r.lenient
  lenient' : r'.lenient
  symbols : List.Forall₂ Symbol.CaseAlike r.symbols.toList r'.symbols.toList
  reads : ∀ t t' p, SameLetters t t' → r.numerals.read t' p = r.numerals.read t p

namespace CaseAlike

variable {r r' : Reader} (h : r.CaseAlike r')
include h

theorem keys : r.KeysAlike r' where
  book := h.book
  lenient := h.lenient
  lenient' := h.lenient'
  symbols := h.symbols.imp fun _ _ alike => ⟨alike.ignorable, fun _ => alike.key, False.elim⟩

theorem textAt (i : Nat) : SameLetters (r.textAt i) (r'.textAt i) := by
  rcases getElem?_of_forall₂ h.symbols i with ⟨ha, hb⟩ | ⟨a, b, ha, hb, alike⟩
  · simp only [Reader.textAt, ha, hb]
    exact .nil
  · simp only [Reader.textAt, ha, hb]
    exact alike.text

theorem flatMap_textAt : ∀ places : List Nat,
    SameLetters (places.flatMap r.textAt) (places.flatMap r'.textAt)
  | [] => .nil
  | i :: places => List.rel_append (h.textAt i) (flatMap_textAt places)

theorem readNumeral? (p : NumeralPattern) (i j : Nat) :
    r'.readNumeral? p i j = r.readNumeral? p i j := by
  have sizes (places : List Nat) : ∀ bytes, r'.placeBehind? bytes places = r.placeBehind? bytes places :=
    placeBehind?_congr fun k _ => (h.textAt k).utf8Size_eq
  simp only [Reader.readNumeral?, h.keys.numeralPlaces, h.numerals, sizes,
    h.reads _ _ p (h.flatMap_textAt _)]

/-- They find the same matches. -/
theorem found {s : RuleSet} (hs : s ∈ r.book.sets) : r'.found s = r.found s :=
  (h.keys.agrees fun p _ => h.readNumeral? p).found h.limit h.symbols.length_eq.symm hs

/-- Their texts take up as many bytes. -/
theorem bytesBefore (i : Nat) : r'.bytesBefore i = r.bytesBefore i :=
  (Symbol.sameLetters_flatMap (List.forall₂_take i h.symbols)).utf8Size_eq

end CaseAlike
end Reader

/-! ## Parsing -/

namespace RuleBook

/-- **Case makes no difference to lenient parsing,** if no declared text has letters of one case only:
    texts that differ in the case of ASCII letters have one value, read from as many bytes, or lead to
    one error. -/
theorem parse_of_sameLetters {book : RuleBook} (closed : book.equivalences.CaseClosed) {t t' : Text}
    (h : SameLetters t t') (set : Option Text) (maxDepth : Nat) :
    book.parse t' set {} ⟨maxDepth, true⟩ = book.parse t set {} ⟨maxDepth, true⟩ := by
  cases hs : book.entry set with
  | error e =>
    simp only [parse, hs]
    rfl
  | ok s =>
    have alike : (Reader.ofText book .decimal true maxDepth t).CaseAlike
        (.ofText book .decimal true maxDepth t') :=
      { book := rfl
        numerals := rfl
        limit := rfl
        lenient := rfl
        lenient' := rfl
        symbols := Equivalences.fold_sameLetters closed h
        reads := fun _ _ p h => NumeralSystem.readDecimal_of_sameLetters h p }
    simp only [parse_eq_found hs, alike.found (mem_of_entry hs), alike.bytesBefore]

/-- A rule book with an article that may be written in either case, or left to a star. -/
def article : RuleBook where
  sets :=
    [{ name := "%say".toList
       ladder :=
         [⟨2, 10, 0, false,
            [.piece (.substitution (.same (.numeral ⟨"#,##0".toList, 1, some 3, 0, 0⟩)))]⟩,
          ⟨1, 10, 0, true, [.piece (.literal "a one".toList)]⟩,
          ⟨0, 10, 0, true, [.piece (.literal "none".toList)]⟩] }]
  equivalences := ⟨[["a".toList, "A".toList, "*".toList]]⟩

/-- Capital letters are read as small ones are, be they part of a declared text or not. -/
theorem parse_of_sameLetters_article :
    ofDescription
        "%say: none; a one; 2: =#,##0=; %%lenient-parse: & 'a' , 'A' , '*' ;".toList = .ok article ∧
      article.equivalences.CaseClosed ∧ SameLetters "a one".toList "A oNE".toList ∧
      article.parse "a one".toList none {} ⟨64, true⟩ = .ok ⟨.ofNat 1, 5⟩ ∧
      article.parse "A oNE".toList none {} ⟨64, true⟩ = .ok ⟨.ofNat 1, 5⟩ := by
  have closed : article.equivalences.CaseClosed := by decide
  have same : SameLetters "a one".toList "A oNE".toList := by decide
  have parsed : article.parse "a one".toList none {} ⟨64, true⟩ = .ok ⟨.ofNat 1, 5⟩ := by
    decide +kernel
  exact ⟨by decide +kernel, closed, same, parsed, (parse_of_sameLetters closed same none 64).trans parsed⟩

/-- **A declared text is found in its own case only.**  If `one` is declared, `ONE` is not read. -/
theorem not_parse_of_sameLetters :
    ∃ book, ofDescription "%say: none; one; %%lenient-parse: & 'one' , 'a' ;".toList = .ok book ∧
      SameLetters "one".toList "ONE".toList ∧
      book.parse "one".toList none {} ⟨64, true⟩ = .ok ⟨.ofNat 1, 3⟩ ∧
      book.parse "ONE".toList none {} ⟨64, true⟩ = .error (.noMatch "%say".toList) := by
  refine ⟨⟨[{ name := "%say".toList
              ladder :=
                [⟨1, 10, 0, true, [.piece (.literal "one".toList)]⟩,
                 ⟨0, 10, 0, true, [.piece (.literal "none".toList)]⟩] }],
      ⟨[["one".toList, "a".toList]]⟩⟩, by decide +kernel, by decide, ?_⟩
  exact ⟨by decide +kernel, by decide +kernel⟩

end RuleBook
end Spellout
