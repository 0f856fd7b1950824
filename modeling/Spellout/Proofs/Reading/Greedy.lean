/-
  Folding takes the longest declared text.

  The declared texts are kept in a table, those with the most bytes first and texts of one size in the
  order of their declaration.  A text is scanned from its start: the first text of the table that stands
  at a place is taken, and else one character.  Since no declared text is empty the scan goes on behind
  every symbol, and what it takes is the longest declared text at its place.

  * `Equivalences.table`: the table of declared texts;
  * `Equivalences.hit?_eq_longest?`: the first text of the table that stands at a place is the longest;
  * `Equivalences.Scans`: a scan by the table, with the bytes where its symbols begin and end;
  * `Equivalences.Solid.scans`: it ends, and has the symbols of the folded text;
  * `Equivalences.Takes`: which symbol is to be taken at a place;
  * `RuleBook.fold_greedy`: the symbols of a text are these, and they tile the text.
-/
import Spellout.Proofs.Reading.Numerals

namespace Spellout

namespace Equivalences

variable {e : Equivalences} {t : Text} {m n : Text × Nat}

/-! ## The table of declared texts -/

/-- The first of two declared texts has no fewer bytes than the second. -/
def atLeast (m n : Text × Nat) : Bool := Text.utf8Size n.1 ≤ Text.utf8Size m.1

/-- The declared texts with the places of their groups: those with the most bytes first, and those of
    one size in the order of their declaration. -/
def table (e : Equivalences) : List (Text × Nat) := e.members.mergeSort atLeast

theorem atLeast_trans (a b c : Text × Nat) (hab : atLeast a b) (hbc : atLeast b c) : atLeast a c := by
  simp only [atLeast, decide_eq_true_eq] at hab hbc ⊢
  omega

theorem atLeast_total (a b : Text × Nat) : (atLeast a b || atLeast b a) = true := by
  simp only [atLeast, Bool.or_eq_true, decide_eq_true_eq]
  omega

@[simp] theorem mem_table : m ∈ e.table ↔ m ∈ e.members := List.mem_mergeSort

theorem table_descending (e : Equivalences) :
    e.table.Pairwise fun m n => Text.utf8Size n.1 ≤ Text.utf8Size m.1 := by
  have sorted := List.pairwise_mergeSort atLeast_trans atLeast_total e.members
  exact sorted.imp fun {m n} h => of_decide_eq_true h

/-- **Sorting is stable:** texts of one size stand in the order of their declaration. -/
theorem filter_table (e : Equivalences) (size : Nat) :
    (e.table.filter fun m => Text.utf8Size m.1 = size) =
      e.members.filter fun m => Text.utf8Size m.1 = size := by
  have equal : (e.members.filter fun m => Text.utf8Size m.1 = size).Pairwise
      fun m n => atLeast m n = true := by
    refine List.pairwise_of_forall_mem_list fun m hm n hn => ?_
    have hm := of_decide_eq_true (List.mem_filter.1 hm).2
    have hn := of_decide_eq_true (List.mem_filter.1 hn).2
    exact decide_eq_true (by omega)
  have kept := List.sublist_mergeSort atLeast_trans atLeast_total equal List.filter_sublist
  have within := kept.filter fun m => decide (Text.utf8Size m.1 = size)
  rw [List.filter_filter] at within
  simp only [Bool.and_self] at within
  have length := ((List.mergeSort_perm e.members atLeast).filter
    fun m => decide (Text.utf8Size m.1 = size)).length_eq
  exact (within.eq_of_length length.symm).symm

/-- The first text of the table that stands at a place. -/
def hit? (e : Equivalences) (t : Text) : Option (Text × Nat) := e.table.find? fun m => m.1.isPrefixOf t

theorem isLongest_of_hit? (h : e.hit? t = some m) : IsLongest t e.members m := by
  obtain ⟨here, before, behind, eq, missed⟩ := List.find?_eq_some_iff_append.1 h
  have mem : m ∈ e.table := eq ▸ List.mem_append_right _ List.mem_cons_self
  have stands : m.1 <+: t := List.isPrefixOf_iff_prefix.1 here
  refine ⟨mem_table.1 mem, stands, fun n hn there => ?_⟩
  -- a text that stands at the place is not one of those that were passed over
  have later : n = m ∨ n ∈ behind := by
    have hn := mem_table.2 hn
    rw [eq, List.mem_append, List.mem_cons] at hn
    refine hn.resolve_left fun passed => ?_
    have := missed n passed
    rw [List.isPrefixOf_iff_prefix.2 there] at this
    cases this
  rcases later with rfl | later
  · exact .inr ⟨rfl, Nat.le_refl _⟩
  · have descending := e.table_descending
    rw [eq] at descending
    have size := (List.pairwise_cons.1 (List.pairwise_append.1 descending).2.1).1 n later
    rcases Nat.lt_or_eq_of_le size with less | same
    · left
      by_contra longer
      have start := List.prefix_of_prefix_length_le stands there (Nat.le_of_not_lt longer)
      obtain ⟨w, hw⟩ := start
      rw [← hw, Text.utf8Size_append] at less
      omega
    · right
      have order : (e.table.filter fun k => Text.utf8Size k.1 = Text.utf8Size m.1).Pairwise
          fun k k' => k.2 ≤ k'.2 := by
        rw [filter_table]
        exact e.members_ordered.sublist List.filter_sublist
      rw [eq, List.filter_append, List.filter_cons, if_pos (decide_eq_true rfl)] at order
      have first := (List.pairwise_cons.1 (List.pairwise_append.1 order).2.1).1 n
        (List.mem_filter.2 ⟨later, decide_eq_true same⟩)
      exact ⟨congrArg List.length (Text.eq_of_prefix there stands same), first⟩

/-- There is only one longest text at a place, and one first group that declares it. -/
theorem IsLongest.unique {l : List (Text × Nat)} (hm : IsLongest t l m) (hn : IsLongest t l n) :
    m = n := by
  have mn := hm.best n hn.mem hn.stands
  have nm := hn.best m hm.mem hm.stands
  have length : m.1.length = n.1.length := by omega
  have text : m.1 = n.1 :=
    (List.prefix_of_prefix_length_le hm.stands hn.stands (Nat.le_of_eq length)).eq_of_length length
  exact Prod.ext text (by omega)

/-- **The first text of the table that stands at a place is the longest declared one,** of the first
    group that declares it. -/
theorem hit?_eq_longest? (e : Equivalences) (t : Text) : e.hit? t = longest? t e.members := by
  cases hm : e.hit? t with
  | none =>
    cases hn : longest? t e.members with
    | none => rfl
    | some n =>
      have longest := isLongest_of_longest? e.members_ordered hn
      have missed := List.find?_eq_none.1 hm n (mem_table.2 longest.mem)
      exact absurd (List.isPrefixOf_iff_prefix.2 longest.stands) missed
  | some m =>
    have longest := isLongest_of_hit? hm
    cases hn : longest? t e.members with
    | none => exact absurd longest.stands (longest?_eq_none hn m longest.mem)
    | some n => rw [longest.unique (isLongest_of_longest? e.members_ordered hn)]

end Equivalences

/-! ## Scanning -/

/-- A symbol with the bytes of the text where it begins and ends. -/
structure PlacedSymbol where
  key : SymbolKey
  start : Nat
  stop : Nat
  ignorable : Bool
deriving DecidableEq, Repr

/-- The symbols, one behind the other from a byte on. -/
def Symbol.placed : Nat → List Symbol → List PlacedSymbol
  | _, [] => []
  | i, s :: l => ⟨s.key, i, i + Text.utf8Size s.text, s.ignorable⟩ :: placed (i + Text.utf8Size s.text) l

/-- The symbols are not empty, the first one begins at `i`, each one where the one before it ends, and
    the last one ends at `j`. -/
def PlacedSymbol.Tile : Nat → Nat → List PlacedSymbol → Prop
  | i, j, [] => i = j
  | i, j, u :: l => u.start = i ∧ i < u.stop ∧ Tile u.stop j l

namespace Equivalences

variable {e : Equivalences}

/-- The text that stands from byte `i` on is scanned to its end with these symbols: each time the first
    text of the table that stands there is taken, and else one character. -/
inductive Scans (e : Equivalences) : Nat → Text → List PlacedSymbol → Prop where
  | stop {i : Nat} : Scans e i [] []
  | declared {i index : Nat} {c : Char} {rest m : Text} {units : List PlacedSymbol}
      (found : e.hit? (c :: rest) = some (m, index))
      (next : Scans e (i + Text.utf8Size m) ((c :: rest).drop m.length) units) :
      Scans e i (c :: rest)
        (⟨.group index, i, i + Text.utf8Size m, e.groupIgnorable index⟩ :: units)
  | other {i : Nat} {c : Char} {rest : Text} {units : List PlacedSymbol}
      (missed : e.hit? (c :: rest) = .none) (next : Scans e (i + c.utf8Size) rest units) :
      Scans e i (c :: rest)
        (⟨.char (Text.toLower c), i, i + c.utf8Size, Symbol.isIgnorable c⟩ :: units)

/-- One step of a scan takes the symbol at its place. -/
theorem Scans.step {i : Nat} {c : Char} {rest : Text} {units : List PlacedSymbol}
    (next : e.Scans (i + Text.utf8Size (e.symbolAt e.members c rest).text)
      ((c :: rest).drop (e.symbolAt e.members c rest).text.length) units) :
    e.Scans i (c :: rest) (⟨(e.symbolAt e.members c rest).key, i,
      i + Text.utf8Size (e.symbolAt e.members c rest).text,
      (e.symbolAt e.members c rest).ignorable⟩ :: units) := by
  have found := e.hit?_eq_longest? (c :: rest)
  unfold symbolAt at next ⊢
  cases h : longest? (c :: rest) e.members with
  | none =>
    rw [h] at next found
    exact .other found next
  | some m =>
    rw [h] at next found
    exact .declared found next

/-- A text that is not empty begins with its first symbol. -/
theorem Solid.width_symbolAt (h : e.Solid) (c : Char) (rest : Text) :
    (e.symbolAt e.members c rest).width = (e.symbolAt e.members c rest).text.length := by
  have mem : e.symbolAt e.members c rest ∈ e.fold (c :: rest) := by
    rw [fold_cons]
    exact List.mem_cons_self
  exact Nat.sub_add_cancel (List.length_pos_iff.2 (h.ne_nil (mem_fold mem)))

/-- **The scan of a text ends,** and its symbols are those of the folded text. -/
theorem Solid.scans (h : e.Solid) (i : Nat) (t : Text) :
    e.Scans i t (Symbol.placed i (e.fold t)) := by
  induction hn : t.length using Nat.strongRecOn generalizing i t with
  | ind n ih =>
    cases t with
    | nil => exact .stop
    | cons c rest =>
      rw [fold_cons]
      refine Scans.step ?_
      rw [← h.width_symbolAt]
      refine ih _ ?_ _ _ rfl
      have pos := (e.symbolAt e.members c rest).width_pos
      rw [List.length_drop, ← hn, List.length_cons]
      omega

/-! ## The symbol at a place -/

/-- The symbol is the one to be taken where the text goes on with `rest`. -/
inductive Takes (e : Equivalences) (rest : Text) (s : Symbol) : Prop where
  /-- Of the declared texts that stand there, each is a start of the one that is taken; no group before
      its own declares that one, and it can be ignored if its group holds blanks and hyphens alone. -/
  | declared (index : Nat) (group : List Text) (place : e.groups[index]? = some group)
      (mem : s.text ∈ group) (stands : s.text <+: rest)
      (longest : ∀ g ∈ e.groups, ∀ m ∈ g, m <+: rest → m <+: s.text)
      (first : ∀ (j : Nat) (g : List Text), e.groups[j]? = some g → s.text ∈ g → index ≤ j)
      (key : s.key = .group index)
      (ignorable : s.ignorable ↔ ∃ m ∈ group, ∀ c ∈ m, Text.isBlank c ∨ c = '-')
  /-- No declared text stands there, and one character is taken. -/
  | other (c : Char) (more : Text) (here : rest = c :: more)
      (none : ∀ g ∈ e.groups, ∀ m ∈ g, ¬ m <+: rest) (text : s.text = [c])
      (key : s.key = .char (Text.toLower c)) (ignorable : s.ignorable ↔ Text.isBlank c ∨ c = '-')

theorem isIgnorable_iff {c : Char} : Symbol.isIgnorable c ↔ Text.isBlank c ∨ c = '-' := by
  simp [Symbol.isIgnorable]

theorem groupIgnorable_iff {index : Nat} {group : List Text} (place : e.groups[index]? = some group) :
    e.groupIgnorable index ↔ ∃ m ∈ group, ∀ c ∈ m, Text.isBlank c ∨ c = '-' := by
  simp [groupIgnorable, place, isIgnorable_iff]

/-- **Folding takes the symbol that is to be taken.** -/
theorem takes_symbolAt (e : Equivalences) (c : Char) (rest : Text) :
    e.Takes (c :: rest) (e.symbolAt e.members c rest) := by
  unfold symbolAt
  split
  · rename_i m index found
    have longest := isLongest_of_longest? e.members_ordered found
    obtain ⟨group, place, mem⟩ := mem_members.1 longest.mem
    refine .declared index group place mem longest.stands (fun g hg k hk there => ?_)
      (fun j g hg declared => ?_) rfl (groupIgnorable_iff place)
    · obtain ⟨j, hj⟩ := List.getElem?_of_mem hg
      refine List.prefix_of_prefix_length_le there longest.stands ?_
      rcases longest.best (k, j) (mem_members.2 ⟨g, hj, hk⟩) there with shorter | ⟨same, -⟩
      · exact Nat.le_of_lt shorter
      · exact Nat.le_of_eq same
    · rcases longest.best (m, j) (mem_members.2 ⟨g, hg, declared⟩) longest.stands with shorter | ⟨-, le⟩
      · exact absurd shorter (Nat.lt_irrefl _)
      · exact le
  · rename_i missed
    refine .other c rest rfl (fun g hg m hm => ?_) rfl rfl isIgnorable_iff
    obtain ⟨j, hj⟩ := List.getElem?_of_mem hg
    exact longest?_eq_none missed (m, j) (mem_members.2 ⟨g, hj, hm⟩)

/-- So it does at every place where a symbol begins. -/
theorem Solid.takes (h : e.Solid) {t : Text} {before after : List Symbol} {s : Symbol}
    (eq : e.fold t = before ++ s :: after) : e.Takes ((s :: after).flatMap Symbol.text) s := by
  have behind : s :: after = e.fold (t.drop (Symbol.widths before)) := by
    have drop := e.drop_fold before.length t
    rwa [eq, List.drop_left, List.take_left] at drop
  rw [behind, h.flatMap_fold]
  cases rest : t.drop (Symbol.widths before) with
  | nil =>
    rw [rest] at behind
    cases behind
  | cons c rest' =>
    rw [rest, fold_cons] at behind
    rw [(List.cons.inj behind).1]
    exact e.takes_symbolAt c rest'

theorem Solid.text_ne_nil (h : e.Solid) {t : Text} : ∀ s ∈ e.fold t, s.text ≠ [] :=
  fun _ hs => h.ne_nil (mem_fold hs)

end Equivalences

/-- Symbols that are not empty tile the text that they make up. -/
theorem Symbol.tile_placed : ∀ {l : List Symbol} (i : Nat), (∀ s ∈ l, s.text ≠ []) →
    PlacedSymbol.Tile i (i + Text.utf8Size (l.flatMap Symbol.text)) (Symbol.placed i l)
  | [], i, _ => rfl
  | s :: l, i, solid => by
    obtain ⟨first, others⟩ := List.forall_mem_cons.1 solid
    have size := Text.utf8Size_pos first
    refine ⟨rfl, by dsimp only; omega, ?_⟩
    rw [List.flatMap_cons, Text.utf8Size_append, ← Nat.add_assoc]
    exact tile_placed _ others

/-! ## Lenient sections -/

namespace RuleBook

/-- **Folding takes the longest declared text at each place,** whatever a lenient section declares, and
    one character where no declared text stands.  A scan by the table of declared texts ends with the
    same symbols; none of them is empty, and they tile the text. -/
theorem fold_greedy {lenient : Option (List Mark)} {e : Equivalences}
    (h : readLenient lenient = .ok e) (t : Text) :
    (e.fold t).flatMap Symbol.text = t ∧ (∀ s ∈ e.fold t, s.text ≠ []) ∧
      PlacedSymbol.Tile 0 (Text.utf8Size t) (Symbol.placed 0 (e.fold t)) ∧
      e.Scans 0 t (Symbol.placed 0 (e.fold t)) ∧
      ∀ before s after, e.fold t = before ++ s :: after →
        e.Takes ((s :: after).flatMap Symbol.text) s := by
  have solid := solid_readLenient h
  have texts := solid.flatMap_fold t
  have tile := Symbol.tile_placed 0 solid.text_ne_nil (l := e.fold t)
  rw [texts, Nat.zero_add] at tile
  exact ⟨texts, solid.text_ne_nil, tile, solid.scans 0 t, fun _ _ _ => solid.takes⟩

/-- The texts that `& '1/2' , '½' & '' , ' ' , ', ' & '1' , 'one' , '½'` declares. -/
def halves : Equivalences :=
  ⟨[["1/2".toList, "½".toList], [" ".toList, ", ".toList], ["1".toList, "one".toList, "½".toList]]⟩

/-- A half that two groups declare belongs to the first of them, an empty quotation declares nothing, and
    a comma can be ignored together with the space behind it. -/
theorem fold_greedy_halves :
    readLenient (some (Mark.ofText "& '1/2' , '½' & '' , ' ' , ', ' & '1' , 'one' , '½'".toList)) =
        .ok halves ∧
      halves.Scans 0 "one½, 1/2-X".toList
        [⟨.group 2, 0, 3, false⟩, ⟨.group 0, 3, 5, false⟩, ⟨.group 1, 5, 7, true⟩,
          ⟨.group 0, 7, 10, false⟩, ⟨.char '-', 10, 11, true⟩, ⟨.char 'x', 11, 12, false⟩] ∧
      halves.Takes "½, 1/2-X".toList ⟨.group 0, "½".toList, false⟩ := by
  have read : readLenient
      (some (Mark.ofText "& '1/2' , '½' & '' , ' ' , ', ' & '1' , 'one' , '½'".toList)) =
        .ok halves := by
    decide +kernel
  obtain ⟨-, -, -, scans, takes⟩ := fold_greedy read "one½, 1/2-X".toList
  refine ⟨read, ?_, ?_⟩
  · convert scans using 1
    decide +kernel
  · exact takes [⟨.group 2, "one".toList, false⟩] ⟨.group 0, "½".toList, false⟩
      [⟨.group 1, ", ".toList, true⟩, ⟨.group 0, "1/2".toList, false⟩, ⟨.char '-', ['-'], true⟩,
        ⟨.char 'x', ['X'], false⟩] (by decide +kernel)

end RuleBook
end Spellout
