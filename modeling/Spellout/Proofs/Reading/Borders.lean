/-
  Borders between folded symbols.

  Where a declared text stands, folding makes one symbol of several characters.  Places in the text
  that lie between two symbols are borders.  Folding looks ahead for the longest declared text, but
  not beyond a border: a stretch between borders is folded as if it stood alone.

  * `Equivalences.drop_fold`, `Equivalences.take_fold`: a text is folded part by part, if the parts
    meet at a border;
  * `Reader.Folded`: a reader of the folded symbols of a text, `Reader.Border`: its borders;
  * `Reader.Near`: to read from one place is to read from the other, but for ignorable symbols;
  * `Reader.Apart`: a literal has a border at its end wherever it stands;
  * `Reader.Folded.exists_matchLiteral?`: such a literal is matched where it stands.
-/
import Spellout.Proofs.Reading.Case
import Spellout.Proofs.Reading.Strict

namespace Spellout

/-! ## Folding -/

/-- The number of characters that folding makes a symbol of. -/
def Symbol.width (s : Symbol) : Nat := s.text.length - 1 + 1

/-- The number of characters that folding makes some symbols of. -/
def Symbol.widths : List Symbol → Nat
  | [] => 0
  | s :: l => s.width + Symbol.widths l

@[simp] theorem Symbol.widths_nil : Symbol.widths [] = 0 := rfl

@[simp] theorem Symbol.widths_cons (s : Symbol) (l : List Symbol) :
    Symbol.widths (s :: l) = s.width + Symbol.widths l := rfl

@[simp] theorem Symbol.widths_append (l l' : List Symbol) :
    Symbol.widths (l ++ l') = Symbol.widths l + Symbol.widths l' := by
  induction l with
  | nil => simp
  | cons s l ih => simp [ih, Nat.add_assoc]

theorem Symbol.width_pos (s : Symbol) : 0 < s.width := Nat.succ_pos _

namespace Equivalences

variable {e : Equivalences} {members : List (Text × Nat)} {u v : Text}

/-- What follows a text makes no difference to a declared text that does not reach into it. -/
theorem longest?_append : ∀ {l : List (Text × Nat)},
    (∀ m, longest? (u ++ v) l = some m → m.1.length ≤ u.length) →
      longest? u l = longest? (u ++ v) l
  | [], _ => rfl
  | m :: rest, h => by
    by_cases here : m.1 <+: u ++ v
    · have here' := List.isPrefixOf_iff_prefix.2 here
      rw [longest?, if_pos here'] at h
      rw [longest?, longest?, if_pos here']
      -- whichever of the two is taken, neither reaches into what follows
      have fits : m.1.length ≤ u.length ∧
          ∀ n, longest? (u ++ v) rest = some n → n.1.length ≤ u.length := by
        cases hn : longest? (u ++ v) rest with
        | none => exact ⟨h m (by simp only [hn]), by simp⟩
        | some n =>
          simp only [hn] at h
          by_cases longer : m.1.length < n.1.length
          · have := h n (by rw [if_pos longer])
            simp only [Option.some.injEq, forall_eq']
            omega
          · have := h m (by rw [if_neg longer])
            simp only [Option.some.injEq, forall_eq']
            omega
      have short := List.prefix_of_prefix_length_le here (List.prefix_append u v) fits.1
      rw [if_pos (List.isPrefixOf_iff_prefix.2 short), longest?_append fits.2]
    · have other : ¬ m.1 <+: u := fun short => here (short.trans (List.prefix_append u v))
      rw [longest?, if_neg (mt List.isPrefixOf_iff_prefix.1 here)] at h
      rw [longest?, longest?, if_neg (mt List.isPrefixOf_iff_prefix.1 here),
        if_neg (mt List.isPrefixOf_iff_prefix.1 other), longest?_append h]

theorem width_symbolAt_le (e : Equivalences) (c : Char) (rest : Text) :
    (e.symbolAt e.members c rest).width ≤ rest.length + 1 := by
  unfold symbolAt
  split
  · rename_i t index h
    have := (isLongest_of_longest? e.members_ordered h).stands.length_le
    simp only [Symbol.width, List.length_cons] at this ⊢
    omega
  · simp [Symbol.width]

/-- What follows a text makes no difference to a symbol that does not reach into it. -/
theorem symbolAt_append {c : Char} (h : (e.symbolAt members c (u ++ v)).width ≤ u.length + 1) :
    e.symbolAt members c u = e.symbolAt members c (u ++ v) := by
  have same : longest? (c :: u) members = longest? (c :: u ++ v) members := by
    refine longest?_append fun m hm => ?_
    simp only [symbolAt, ← List.cons_append, hm, Symbol.width] at h
    simp only [List.length_cons]
    omega
  simp only [symbolAt, same, List.cons_append]

theorem foldFrom_eq_drop : ∀ (n : Nat) (t : Text),
    e.foldFrom members n t = e.foldFrom members 0 (t.drop n)
  | 0, t => by rw [List.drop_zero]
  | n + 1, [] => by simp [foldFrom]
  | n + 1, c :: rest => by rw [foldFrom, List.drop_succ_cons, foldFrom_eq_drop n rest]

@[simp] theorem fold_nil (e : Equivalences) : e.fold [] = [] := rfl

theorem fold_cons (e : Equivalences) (c : Char) (rest : Text) :
    e.fold (c :: rest) = e.symbolAt e.members c rest ::
      e.fold ((c :: rest).drop (e.symbolAt e.members c rest).width) := by
  rw [fold, foldFrom, foldFrom_eq_drop, Symbol.width, List.drop_succ_cons, fold]

theorem widths_fold (e : Equivalences) (t : Text) : Symbol.widths (e.fold t) = t.length := by
  induction hn : t.length using Nat.strongRecOn generalizing t with
  | ind n ih =>
    cases t with
    | nil => simpa using hn
    | cons c rest =>
      have le := width_symbolAt_le e c rest
      have pos := (e.symbolAt e.members c rest).width_pos
      rw [List.length_cons] at hn
      rw [fold_cons, Symbol.widths_cons, ih _ _ _ rfl] <;>
        rw [List.length_drop, List.length_cons] <;> omega

/-- The symbols behind a border are those of the text behind it. -/
theorem drop_fold (e : Equivalences) : ∀ (a : Nat) (t : Text),
    (e.fold t).drop a = e.fold (t.drop (Symbol.widths ((e.fold t).take a)))
  | 0, t => by simp
  | a + 1, [] => by simp
  | a + 1, c :: rest => by
    rw [fold_cons, List.drop_succ_cons, List.take_succ_cons, Symbol.widths_cons, drop_fold e a,
      List.drop_drop]

/-- The symbols before a border are those of the text before it. -/
theorem take_fold (e : Equivalences) : ∀ (b : Nat) (u v : Text),
    Symbol.widths ((e.fold (u ++ v)).take b) = u.length → (e.fold (u ++ v)).take b = e.fold u
  | 0, u, v, h => by
    obtain rfl := List.length_eq_zero_iff.1 (by simpa using h.symm)
    rfl
  | b + 1, [], v, h => by
    cases v with
    | nil => rfl
    | cons c rest =>
      rw [List.nil_append, fold_cons, List.take_succ_cons, Symbol.widths_cons] at h
      have := (e.symbolAt e.members c rest).width_pos
      simp at h
      omega
  | b + 1, c :: u, v, h => by
    rw [List.cons_append, fold_cons, List.take_succ_cons, Symbol.widths_cons, List.length_cons] at h
    have same : e.symbolAt e.members c u = e.symbolAt e.members c (u ++ v) :=
      symbolAt_append (by omega)
    rw [List.cons_append, fold_cons, List.take_succ_cons, fold_cons e c u, same]
    generalize e.symbolAt e.members c (u ++ v) = s at h ⊢
    have drop : (c :: (u ++ v)).drop s.width = (c :: u).drop s.width ++ v := by
      rw [← List.cons_append, List.drop_append_of_le_length (by rw [List.length_cons]; omega)]
    rw [drop] at h ⊢
    rw [take_fold e b _ v (by rw [List.length_drop, List.length_cons]; omega)]

/-- A character that can be ignored is folded to a symbol that can be. -/
theorem ignorable_symbolAt (e : Equivalences) {c : Char} (h : Symbol.isIgnorable c) :
    (e.symbolAt e.members c []).ignorable := by
  unfold symbolAt
  split
  · rename_i m index hm
    have longest := isLongest_of_longest? e.members_ordered hm
    obtain ⟨g, hg, mem⟩ := mem_members.1 longest.mem
    have all : m.all Symbol.isIgnorable := by
      refine List.all_eq_true.2 fun d hd => ?_
      obtain rfl := List.mem_singleton.1 (longest.stands.subset hd)
      exact h
    simpa [groupIgnorable, hg] using ⟨m, mem, List.all_eq_true.1 all⟩
  · exact h

theorem fold_ne_nil {t : Text} (h : t ≠ []) : e.fold t ≠ [] := by
  cases t with
  | nil => exact absurd rfl h
  | cons c rest =>
    rw [fold_cons]
    exact List.cons_ne_nil _ _

theorem fold_singleton (e : Equivalences) (c : Char) :
    e.fold [c] = [e.symbolAt e.members c []] := by
  rw [fold_cons, Symbol.width, List.drop_succ_cons, List.drop_nil, fold_nil]

end Equivalences

/-! ## Borders -/

namespace Reader

/-- The reader reads the folded symbols of the text. -/
structure Folded (r : Reader) (t : Text) : Prop where
  lenient : r.lenient
  symbols : r.symbols = (r.book.equivalences.fold t).toArray

theorem folded_ofText (book : RuleBook) (ns : NumeralSystem) (limit : Nat) (t : Text) :
    (ofText book ns true limit t).Folded t := ⟨rfl, rfl⟩

/-- The number of characters of the text before a symbol. -/
def charsBefore (r : Reader) (a : Nat) : Nat := Symbol.widths (r.symbols.toList.take a)

/-- The place `a` among the symbols is the place `i` among the characters. -/
structure Border (r : Reader) (a i : Nat) : Prop where
  le : a ≤ r.symbols.size
  chars : r.charsBefore a = i

/-- The symbols from one place to another can be ignored. -/
def Skips (r : Reader) (a b : Nat) : Prop := ∀ k, a ≤ k → k < b → r.ignorableAt k

/-- To read symbols from `a` on is to read characters from `i` on, but for ignorable symbols that
    are still to come. -/
def Near (r : Reader) (a i : Nat) : Prop := ∃ b, r.Border b i ∧ a ≤ b ∧ r.Skips a b

/-- The place `a` among the symbols is as far as the place `i` among the characters, but for
    ignorable symbols. -/
def Passes (r : Reader) (a i : Nat) : Prop := ∃ b, r.Border b i ∧ r.Skips a b

variable {r : Reader} {t l : Text} {a b c i j : Nat}

theorem charsBefore_add (r : Reader) (a n : Nat) :
    r.charsBefore (a + n) = r.charsBefore a + Symbol.widths ((r.symbols.toList.drop a).take n) := by
  rw [charsBefore, List.take_add, Symbol.widths_append, charsBefore]

theorem charsBefore_lt (lt : a < b) (hb : b ≤ r.symbols.size) :
    r.charsBefore a < r.charsBefore b := by
  obtain ⟨n, rfl⟩ := Nat.exists_eq_add_of_lt lt
  have ha : a < r.symbols.toList.length := by
    rw [Array.length_toList]
    omega
  rw [Nat.add_assoc, charsBefore_add, List.drop_eq_getElem_cons ha, List.take_succ_cons,
    Symbol.widths_cons]
  have := (r.symbols.toList[a]).width_pos
  omega

namespace Border

theorem lt_iff (h : r.Border a i) (h' : r.Border b j) : a < b ↔ i < j := by
  rw [← h.chars, ← h'.chars]
  rcases Nat.lt_trichotomy a b with lt | rfl | lt
  · exact iff_of_true lt (charsBefore_lt lt h'.le)
  · simp
  · have := charsBefore_lt lt h.le
    omega

theorem le_iff (h : r.Border a i) (h' : r.Border b j) : a ≤ b ↔ i ≤ j := by
  have := h'.lt_iff h
  omega

theorem unique (h : r.Border a i) (h' : r.Border b i) : a = b :=
  Nat.le_antisymm ((h.le_iff h').2 (Nat.le_refl i)) ((h'.le_iff h).2 (Nat.le_refl i))

theorem near (h : r.Border a i) : r.Near a i := ⟨a, h, Nat.le_refl a, fun k _ _ => by omega⟩

end Border

theorem border_zero (r : Reader) : r.Border 0 0 := ⟨Nat.zero_le _, by simp [charsBefore]⟩

theorem Folded.border_size (h : r.Folded t) : r.Border r.symbols.size t.length := by
  refine ⟨Nat.le_refl _, ?_⟩
  simp [charsBefore, h.symbols, Equivalences.widths_fold]

theorem Skips.trans (h : r.Skips a b) (h' : r.Skips b c) : r.Skips a c := fun k lo hi =>
  (Nat.lt_or_ge k b).elim (h k lo) fun le => h' k le hi

theorem Near.border (h : r.Near a i) : ∃ b, r.Border b i :=
  let ⟨b, border, _⟩ := h
  ⟨b, border⟩

theorem Near.le (h : r.Near a i) (border : r.Border b j) (le : i ≤ j) : a ≤ b :=
  let ⟨_, first, near, _⟩ := h
  Nat.le_trans near ((first.le_iff border).2 le)

theorem Near.lt (h : r.Near a i) (border : r.Border b j) (lt : i < j) : a < b :=
  let ⟨_, first, near, _⟩ := h
  Nat.lt_of_le_of_lt near ((first.lt_iff border).2 lt)

theorem Near.passes (h : r.Near a i) : r.Passes a i :=
  let ⟨b, border, _, skips⟩ := h
  ⟨b, border, skips⟩

theorem Passes.mono (h : r.Passes a i) (le : a ≤ b) : r.Passes b i :=
  let ⟨e, border, skips⟩ := h
  ⟨e, border, fun k lo hi => skips k (by omega) hi⟩

/-- What is as far as a place, and not farther, is near it. -/
theorem Passes.near (h : r.Passes a i) (le : r.charsBefore a ≤ i) (ha : a ≤ r.symbols.size) :
    r.Near a i := by
  obtain ⟨b, border, skips⟩ := h
  exact ⟨b, border, ((Border.mk ha rfl).le_iff border).2 le, skips⟩

theorem Folded.covers_of_skips (h : r.Folded t) {m : Match} (le : m.stop ≤ b)
    (skips : r.Skips m.stop b) : r.covers m b := by
  have all : (List.range' m.stop (b - m.stop)).all r.ignorableAt := by
    refine List.all_eq_true.2 fun k hk => ?_
    have := List.mem_range'_1.1 hk
    exact skips k this.1 (by omega)
  rcases Nat.lt_or_eq_of_le le with lt | eq
  · simp [covers, h.lenient, lt, all]
  · simp [covers, eq]

/-! ## Literals -/

theorem skip_eq : ∀ {n a : Nat}, a ≤ b → b ≤ a + n → r.Skips a b →
    (b < a + n → r.ignorableAt b = false) → r.skip n a = b
  | 0, a, lo, hi, _, _ => by
    rw [skip]
    omega
  | n + 1, a, lo, hi, skips, last => by
    rw [skip]
    rcases Nat.lt_or_eq_of_le lo with lt | rfl
    · rw [if_pos (skips a (Nat.le_refl a) lt)]
      exact skip_eq lt (by omega) (fun k lo hi => skips k (by omega) hi) fun lt => last (by omega)
    · rw [if_neg (by simp [last (by omega)])]

/-- The literal stands in the text between borders only, if it starts at one; and if it can be
    ignored as a whole, no symbol that can be ignored follows. -/
def Apart (r : Reader) (t l : Text) : Prop :=
  ∀ a i, r.Border a i → l <+: t.drop i →
    ∃ b, r.Border b (i + l.length) ∧ ((r.foldLiteral l).blank → r.ignorableAt b = false)

theorem apart_iff : r.Apart t l ↔ ∀ a ≤ r.symbols.size, l <+: t.drop (r.charsBefore a) →
    ∃ b ≤ r.symbols.size, r.charsBefore b = r.charsBefore a + l.length ∧
      ((r.foldLiteral l).blank → r.ignorableAt b = false) := by
  constructor
  · intro h a ha stands
    obtain ⟨b, border, alone⟩ := h a _ ⟨ha, rfl⟩ stands
    exact ⟨b, border.le, border.chars, alone⟩
  · intro h a i border stands
    obtain ⟨b, hb, chars, alone⟩ := h a border.le (by rwa [border.chars])
    exact ⟨b, ⟨hb, by rw [chars, border.chars]⟩, alone⟩

instance (r : Reader) (t l : Text) : Decidable (r.Apart t l) :=
  decidable_of_iff' _ apart_iff

theorem getElem?_of_prefix {ls : List Symbol} (h : ls <+: r.symbols.toList.drop b) {n : Nat}
    (hn : n < ls.length) : r.symbols[b + n]? = some ls[n] := by
  obtain ⟨rest, stand⟩ := h
  rw [← Array.getElem?_toList, ← List.getElem?_drop, ← stand, List.getElem?_append_left hn,
    List.getElem?_eq_getElem hn]

theorem skips_of_prefix {ls : List Symbol} (h : ls <+: r.symbols.toList.drop b)
    (all : ls.all Symbol.ignorable) : r.Skips b (b + ls.length) := by
  intro k lo hi
  obtain ⟨n, rfl⟩ := Nat.exists_eq_add_of_le lo
  have hn : n < ls.length := by omega
  simpa [ignorableAt, getElem?_of_prefix h hn] using
    List.all_eq_true.1 all _ (List.getElem_mem hn)

/-- Keys of symbols are matched where the symbols stand, and before that where there are ignorable
    ones in between. -/
theorem exists_matchKeys? (lenient : r.lenient) {stop : Nat} : ∀ {ls : List Symbol} {a b : Nat},
    a ≤ b → r.Skips a b → ls <+: r.symbols.toList.drop b → b + ls.length ≤ stop →
      ∃ a', r.matchKeys? stop ((ls.filter fun s => !s.ignorable).map Symbol.key) a = some a' ∧
        a ≤ a' ∧ a' ≤ b + ls.length ∧ r.Skips a' (b + ls.length) ∧
          (¬ ls.all Symbol.ignorable → a < a')
  | [], a, b, le, skips, _, _ => ⟨a, rfl, Nat.le_refl a, le, skips, by simp⟩
  | s :: ls, a, b, le, skips, stand, hstop => by
    have here : r.symbols[b]? = some s := getElem?_of_prefix stand (Nat.succ_pos _)
    obtain ⟨rest, stand⟩ := stand
    have next : ls <+: r.symbols.toList.drop (b + 1) := by
      refine ⟨rest, ?_⟩
      rw [← List.drop_drop, ← stand]
      rfl
    have ignorable : r.ignorableAt b = s.ignorable := by simp [ignorableAt, here]
    rw [List.length_cons] at hstop ⊢
    have add : b + (ls.length + 1) = b + 1 + ls.length := by omega
    rw [add] at hstop ⊢
    cases hs : s.ignorable with
    | true =>
      have skips' : r.Skips a (b + 1) := skips.trans fun k lo hi => by
        obtain rfl : k = b := by omega
        exact ignorable.trans hs
      obtain ⟨a', matched, rest⟩ := exists_matchKeys? lenient (by omega) skips' next hstop
      refine ⟨a', ?_, rest.1, rest.2.1, rest.2.2.1, ?_⟩
      · simpa [hs] using matched
      · simpa [hs] using rest.2.2.2
    | false =>
      obtain ⟨a', matched, lo, hi, skips', -⟩ :=
        exists_matchKeys? lenient (Nat.le_refl (b + 1)) (fun k lo hi => by omega) next hstop
      have place : r.skip (stop - a) a = b := by
        refine skip_eq le (by omega) skips fun _ => ?_
        rw [ignorable, hs]
      have key : r.hasKey b s.key := by simp [hasKey, here]
      refine ⟨a', ?_, by omega, hi, skips', fun _ => by omega⟩
      simp only [List.filter_cons, hs, Bool.not_false, if_true, List.map_cons, matchKeys?, lenient,
        place, key, Bool.and_true, decide_eq_true_eq]
      rw [if_pos (by omega)]
      exact matched

/-- Between borders stand the symbols that the text in between is folded to. -/
theorem Folded.fold_prefix (h : r.Folded t) (border : r.Border a i) (stands : l <+: t.drop i)
    (last : r.Border b (i + l.length)) :
    r.book.equivalences.fold l <+: r.symbols.toList.drop a ∧
      a + (r.book.equivalences.fold l).length = b := by
  obtain ⟨v, hv⟩ := stands
  obtain ⟨n, rfl⟩ := Nat.exists_eq_add_of_le ((border.le_iff last).2 (Nat.le_add_right _ _))
  have drop : r.symbols.toList.drop a = r.book.equivalences.fold (l ++ v) := by
    have chars := border.chars
    simp only [charsBefore, h.symbols] at chars
    rw [h.symbols, Equivalences.drop_fold, chars, hv]
  have chars : Symbol.widths ((r.book.equivalences.fold (l ++ v)).take n) = l.length := by
    have := last.chars
    rw [charsBefore_add, border.chars, drop] at this
    omega
  have take := Equivalences.take_fold _ n l v chars
  refine ⟨?_, ?_⟩
  · rw [drop, ← take]
    exact List.take_prefix ..
  · have size := last.le
    have length := congrArg List.length drop
    rw [List.length_drop, Array.length_toList] at length
    rw [← take, List.length_take]
    omega

theorem Folded.keys_foldLiteral (h : r.Folded t) (l : Text) : (r.foldLiteral l).keys =
    ((r.book.equivalences.fold l).filter fun s => !s.ignorable).map Symbol.key := by
  simp [foldLiteral, symbolsOf, h.lenient]

theorem Folded.blank_foldLiteral (h : r.Folded t) (l : Text) : (r.foldLiteral l).blank =
    (r.book.equivalences.fold l ≠ [] && (r.book.equivalences.fold l).all Symbol.ignorable) := by
  simp [foldLiteral, symbolsOf, h.lenient]

/-- **A literal that is apart from what follows is matched where it stands,** and before that where
    there are ignorable symbols in between. -/
theorem Folded.exists_matchLiteral? (h : r.Folded t) (apart : r.Apart t l) (near : r.Near a i)
    (stands : l <+: t.drop i) (end_border : r.Border c j) (le : i + l.length ≤ j) :
    ∃ a', r.matchLiteral? (r.foldLiteral l) a c = some a' ∧ r.Near a' (i + l.length) ∧ a ≤ a' ∧
      (l ≠ [] → a < a') := by
  obtain ⟨b, border, hb, skips⟩ := near
  obtain ⟨e, last, alone⟩ := apart b i border stands
  obtain ⟨stand, length⟩ := h.fold_prefix border stands last
  have hc : e ≤ c := (last.le_iff end_border).2 le
  have keys := h.keys_foldLiteral l
  have blank := h.blank_foldLiteral l
  -- a blank literal takes up all ignorable symbols that stand there, any other one those in between
  by_cases whole : (r.foldLiteral l).keys = [] ∧ (r.foldLiteral l).blank = true
  · have all : r.book.equivalences.fold l ≠ [] ∧
        (r.book.equivalences.fold l).all Symbol.ignorable = true := by
      simpa [blank] using whole.2
    have pos := List.length_pos_of_ne_nil all.1
    have skips' : r.Skips b e := length ▸ skips_of_prefix stand all.2
    have place : r.skip (c - a) a = e :=
      skip_eq (by omega) (by omega) (skips.trans skips') fun _ => alone whole.2
    refine ⟨e, ?_, last.near, by omega, fun _ => by omega⟩
    rw [matchLiteral?, if_pos whole]
    dsimp only
    rw [place, if_pos (by omega)]
  · have fits : b + (r.book.equivalences.fold l).length ≤ c := by omega
    obtain ⟨a', matched, lo, hi, skips', further⟩ :=
      exists_matchKeys? h.lenient hb skips stand fits
    refine ⟨a', ?_, ⟨e, last, by omega, length ▸ skips'⟩, lo, fun ne => further fun all => ?_⟩
    · rw [matchLiteral?, if_neg whole, keys]
      exact matched
    · refine whole ⟨?_, ?_⟩
      · rw [keys, List.map_eq_nil_iff, List.filter_eq_nil_iff]
        intro s hs
        simp [List.all_eq_true.1 all s hs]
      · rw [blank, all, Bool.and_true, decide_eq_true_eq]
        exact Equivalences.fold_ne_nil ne

/-- A blank that is apart from what follows is passed over where it stands. -/
theorem Folded.near_skip (h : r.Folded t) {d : Char} (ignorable : Symbol.isIgnorable d)
    (apart : r.Apart t [d]) (near : r.Near a i) (here : t[i]? = some d) (last : r.Border c j)
    (lt : i < j) : r.Near (r.skip (c - a) a) (i + 1) := by
  have stands : [d] <+: t.drop i := by
    obtain ⟨hi, rfl⟩ := List.getElem?_eq_some_iff.1 here
    rw [List.drop_eq_getElem_cons hi]
    exact ⟨_, rfl⟩
  obtain ⟨a', matched, near', -⟩ := h.exists_matchLiteral? apart near stands last lt
  have symbol := r.book.equivalences.ignorable_symbolAt ignorable
  have whole : (r.foldLiteral [d]).keys = [] ∧ (r.foldLiteral [d]).blank = true := by
    rw [h.keys_foldLiteral, h.blank_foldLiteral, Equivalences.fold_singleton]
    simp [symbol]
  rw [matchLiteral?, if_pos whole] at matched
  dsimp only at matched
  split at matched
  · exact Option.some.inj matched ▸ near'
  · cases matched

end Reader
end Spellout
