/-
  The symbols of a text are the text, cut into pieces.

  Folding changes the keys of symbols, not their texts: these are the pieces of the text, one behind
  the other.  No piece is empty, for a description declares no empty text.

  * `Equivalences.mem_fold`: the text of a symbol is a declared text or one character;
  * `Equivalences.Solid`: no declared text is empty;
  * `RuleBook.solid_of_ofDescription`: compiled rule books declare no empty text;
  * `Reader.flatMap_symbolsOf`: the texts of the symbols make up the text.
-/
import Spellout.Description
import Spellout.Proofs.Reading.Borders

namespace Spellout

namespace Equivalences

variable {e : Equivalences}

/-! ## Texts of symbols -/

/-- The symbol at the start of a text is of a declared text that stands there, or of one character. -/
theorem text_symbolAt (e : Equivalences) (c : Char) (rest : Text) :
    (∃ index, ((e.symbolAt e.members c rest).text, index) ∈ e.members ∧
      (e.symbolAt e.members c rest).text <+: c :: rest) ∨
      (e.symbolAt e.members c rest).text = [c] := by
  unfold symbolAt
  split
  · rename_i t index h
    have longest := isLongest_of_longest? e.members_ordered h
    exact .inl ⟨index, longest.mem, longest.stands⟩
  · exact .inr rfl

/-- The text of a symbol is a declared text or one character. -/
theorem mem_fold {t : Text} {s : Symbol} (h : s ∈ e.fold t) :
    (∃ index, (s.text, index) ∈ e.members) ∨ ∃ c, s.text = [c] := by
  induction hn : t.length using Nat.strongRecOn generalizing t with
  | ind n ih =>
    cases t with
    | nil => cases h
    | cons c rest =>
      rw [fold_cons] at h
      rcases List.mem_cons.1 h with rfl | h
      · rcases e.text_symbolAt c rest with ⟨index, mem, -⟩ | one
        · exact .inl ⟨index, mem⟩
        · exact .inr ⟨c, one⟩
      · have pos := (e.symbolAt e.members c rest).width_pos
        refine ih _ ?_ h rfl
        rw [List.length_drop, ← hn, List.length_cons]
        omega

/-! ## Empty texts -/

/-- No declared text is empty. -/
def Solid (e : Equivalences) : Prop := ∀ g ∈ e.groups, ∀ t ∈ g, t ≠ []

theorem Solid.ne_nil (h : e.Solid) {t : Text}
    (piece : (∃ index, (t, index) ∈ e.members) ∨ ∃ c, t = [c]) : t ≠ [] := by
  rcases piece with ⟨index, declared⟩ | ⟨c, rfl⟩
  · obtain ⟨g, hg, ht⟩ := mem_members.1 declared
    exact h g (List.mem_of_getElem? hg) t ht
  · exact List.cons_ne_nil c []

/-- A symbol is as wide as its text. -/
theorem Solid.text_symbolAt_append (h : e.Solid) (c : Char) (rest : Text) :
    (e.symbolAt e.members c rest).text ++ (c :: rest).drop (e.symbolAt e.members c rest).width =
      c :: rest := by
  have stands : (e.symbolAt e.members c rest).text <+: c :: rest := by
    rcases e.text_symbolAt c rest with ⟨_, -, stands⟩ | one
    · exact stands
    · exact ⟨rest, by rw [one]; rfl⟩
  have some : (e.symbolAt e.members c rest).text ≠ [] :=
    h.ne_nil (mem_fold (t := c :: rest) (by rw [fold_cons]; exact List.mem_cons_self))
  have width : (e.symbolAt e.members c rest).width = (e.symbolAt e.members c rest).text.length :=
    Nat.sub_add_cancel (List.length_pos_iff.2 some)
  rw [width, List.prefix_iff_eq_append.1 stands]

/-- **The texts of the folded symbols make up the text.** -/
theorem Solid.flatMap_fold (h : e.Solid) (t : Text) : (e.fold t).flatMap Symbol.text = t := by
  induction hn : t.length using Nat.strongRecOn generalizing t with
  | ind n ih =>
    cases t with
    | nil => rfl
    | cons c rest =>
      have pos := (e.symbolAt e.members c rest).width_pos
      rw [fold_cons, List.flatMap_cons, ih _ _ _ rfl, h.text_symbolAt_append]
      rw [List.length_drop, ← hn, List.length_cons]
      omega

end Equivalences

/-! ## Compiled descriptions -/

namespace EquivalenceDraft

variable {d : EquivalenceDraft}

/-- No text of the draft is empty. -/
def Solid (d : EquivalenceDraft) : Prop := ∀ g ∈ d.groups, ∀ t ∈ g, t ≠ []

theorem Solid.push (h : d.Solid) (item : Text) : (d.push item).Solid := by
  unfold EquivalenceDraft.push
  split
  · exact h
  · rename_i some
    have last : item.reverse ≠ [] := mt List.reverse_eq_nil_iff.1 some
    split
    · intro g hg t ht
      rw [List.mem_singleton.1 hg] at ht
      rw [List.mem_singleton.1 ht]
      exact last
    · rename_i group groups declared
      have all : ∀ g ∈ d.groups, ∀ t ∈ g, t ≠ [] := h
      rw [declared] at all
      obtain ⟨first, others⟩ := List.forall_mem_cons.1 all
      exact List.forall_mem_cons.2 ⟨List.forall_mem_cons.2 ⟨last, first⟩, others⟩

theorem Solid.feedBetween (h : d.Solid) (m : Mark) : (d.feedBetween m).Solid := by
  unfold EquivalenceDraft.feedBetween
  split
  · exact h
  · split
    · exact List.forall_mem_cons.2 ⟨nofun, h⟩
    · split <;> exact h

theorem Solid.feed (h : d.Solid) (m : Mark) : (d.feed m).Solid := by
  unfold EquivalenceDraft.feed
  split
  · exact h.feedBetween m
  · split <;> exact h
  · split
    · exact h
    · exact (h.push _).feedBetween m
  · split
    · exact (h.push _).feedBetween m
    · exact h

theorem solid_foldl (ms : List Mark) : ∀ {d : EquivalenceDraft}, d.Solid →
    (ms.foldl EquivalenceDraft.feed d).Solid := by
  induction ms with
  | nil => exact fun h => h
  | cons m ms ih => exact fun h => ih (h.feed m)

theorem Solid.equivalences (h : d.Solid) : d.equivalences.Solid := by
  intro g hg t ht
  obtain ⟨g', hg', rfl⟩ := List.mem_map.1 (List.mem_reverse.1 hg)
  exact h g' hg' t (List.mem_reverse.1 ht)

theorem Solid.finish (h : d.Solid) {e : Equivalences} (he : d.finish = .ok e) : e.Solid := by
  unfold EquivalenceDraft.finish at he
  split at he
  · cases he
    exact h.equivalences
  · cases he
  · cases he
    exact (h.push _).equivalences
  · cases he
    exact (h.push _).equivalences

end EquivalenceDraft

theorem Equivalences.solid_ofMarks {ms : List Mark} {e : Equivalences}
    (h : Equivalences.ofMarks ms = .ok e) : e.Solid :=
  (EquivalenceDraft.solid_foldl ms (d := {}) nofun).finish (mapError_eq_ok h)

namespace RuleBook

theorem solid_readLenient {lenient : Option (List Mark)} {e : Equivalences}
    (h : readLenient lenient = .ok e) : e.Solid := by
  cases lenient with
  | none =>
    cases h
    exact nofun
  | some body => exact Equivalences.solid_ofMarks h

/-- **Compiled rule books declare no empty text.** -/
theorem solid_of_ofDescription {description : Text} {book : RuleBook}
    (h : ofDescription description = .ok book) : book.equivalences.Solid := by
  obtain ⟨sets, -, h⟩ := bind_eq_ok.1 h
  obtain ⟨e, he, h⟩ := bind_eq_ok.1 h
  cases h
  exact solid_readLenient he

end RuleBook

/-! ## Symbols of a reader -/

namespace Reader

variable {book : RuleBook} {lenient : Bool} {t : Text}

/-- **The texts of the symbols make up the text.** -/
theorem flatMap_symbolsOf (solid : book.equivalences.Solid) (lenient : Bool) (t : Text) :
    (symbolsOf book lenient t).flatMap Symbol.text = t := by
  cases lenient with
  | true => exact solid.flatMap_fold t
  | false =>
    change (Symbol.exact t).flatMap Symbol.text = t
    induction t with
    | nil => rfl
    | cons c t ih => exact congrArg (c :: ·) ih

/-- The text of a symbol is a declared text, if reading is lenient, or one character. -/
theorem mem_symbolsOf {s : Symbol} (h : s ∈ symbolsOf book lenient t) :
    lenient ∧ (∃ index, (s.text, index) ∈ book.equivalences.members) ∨ ∃ c, s.text = [c] := by
  cases lenient with
  | true => exact (Equivalences.mem_fold h).imp_left fun declared => ⟨rfl, declared⟩
  | false =>
    obtain ⟨c, -, rfl⟩ := List.mem_map.1 h
    exact .inr ⟨c, rfl⟩

end Reader
end Spellout
