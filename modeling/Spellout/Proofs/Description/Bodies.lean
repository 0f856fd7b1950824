/-
  Bodies of texts that are alike.

  Texts that are alike are cut into bodies that are alike, and grouped under the same headers.  At the
  end of a body covered blanks may be left in one text and not in the other; a template keeps them, a
  key does not.

  * `Mark.Alike.stretches`, `Mark.Alike.trimEnd`: the texts are cut and trimmed alike;
  * `Body.Alike`, `SetSource.Alike`: bodies and rule sets are alike;
  * `SetSource.alike_ofBodies`: bodies that are alike are grouped alike;
  * `RuleBody.alike_splitKey?`: a key ends at the same colon;
  * `RuleBody.alike_ofText?`: keys that are alike are the same, or none of them is a key.
-/
import Mathlib.Data.List.TakeWhile
import Spellout.Proofs.Description.Alike
import Spellout.Proofs.Rule.Texts
import Spellout.Proofs.Success

namespace Spellout

variable {C C' : Nat → Prop} {cut : Bool}

namespace Mark

variable {ms ms' : List Mark}

/-! ## Stretches -/

theorem stretches_append {stop : Nat} {s : List Mark × Nat} {more : List (List Mark × Nat)} :
    ∀ {bs : List Mark}, (∀ b ∈ bs, b.char ≠ ';') → Body.stretches stop ms = s :: more →
      Body.stretches stop (bs ++ ms) = (bs ++ s.1, s.2) :: more
  | [], _, eq => eq
  | b :: bs, others, eq => by
    obtain ⟨hb, others⟩ := List.forall_mem_cons.1 others
    rw [List.cons_append, Body.stretches, if_neg hb, stretches_append others eq]
    rfl

theorem exists_stretches (stop : Nat) (ms : List Mark) :
    ∃ s more, Body.stretches stop ms = s :: more := by
  unfold Body.stretches
  split
  · exact ⟨_, _, rfl⟩
  · split
    · exact ⟨_, _, rfl⟩
    · split <;> exact ⟨_, _, rfl⟩

/-- **Texts that are alike are cut at the same semicolons.** -/
theorem Alike.stretches (stop stop' : Nat) (h : Alike C C' false ms ms') :
    List.Forall₂ (fun s s' => Alike C C' false s.1 s'.1) (Body.stretches stop ms)
      (Body.stretches stop' ms') := by
  induction h with
  | nil => exact .cons .nil .nil
  | @cons m m' ms ms' char h ih =>
    obtain ⟨s, more, eq⟩ := exists_stretches stop ms
    obtain ⟨s', more', eq'⟩ := exists_stretches stop' ms'
    rw [eq, eq'] at ih
    obtain ⟨first, others⟩ := List.forall₂_cons.1 ih
    unfold Body.stretches
    rw [eq, eq', char]
    split
    · exact .cons .nil ih
    · exact .cons (.cons char first) others
  | @gap bs bs' ms ms' hb hb' h ih =>
    obtain ⟨s, more, eq⟩ := exists_stretches stop ms
    obtain ⟨s', more', eq'⟩ := exists_stretches stop' ms'
    rw [eq, eq'] at ih
    obtain ⟨first, others⟩ := List.forall₂_cons.1 ih
    have no {b : Mark} (blank : b.isBlank) : b.char ≠ ';' := ne_of_isSolid blank (by decide)
    rw [stretches_append (fun b mem => no (hb.isBlank b mem)) eq,
      stretches_append (fun b mem => no (hb'.isBlank b mem)) eq']
    exact .cons (.gap hb hb' first) others
  | trail hcut => cases hcut

/-! ## Blanks at the end -/

theorem trimEnd_of_blank {t : List Mark} (blank : ∀ b ∈ t, isSolid b.char = false) :
    Body.trimEnd t = if t.any isLineBreak then [] else t := by
  have all : ∀ b ∈ t.reverse, b.isBlank := fun b hb => isSolid_char.1 (blank b (by simpa using hb))
  have tail : t.reverse.takeWhile isBlank = t.reverse := List.takeWhile_eq_self_iff.2 all
  have rest : t.reverse.dropWhile isBlank = [] := List.dropWhile_eq_nil_iff.2 all
  simp only [Body.trimEnd, tail, rest, List.any_reverse, List.reverse_nil]

theorem trimEnd_append {front t : List Mark} {m : Mark} (solid : isSolid m.char)
    (blank : ∀ b ∈ t, isSolid b.char = false) :
    Body.trimEnd (front ++ m :: t) = front ++ m :: Body.trimEnd t := by
  have all : ∀ b ∈ t.reverse, b.isBlank := fun b hb => isSolid_char.1 (blank b (by simpa using hb))
  have head : ¬ m.isBlank := fun h => by
    rw [isSolid_char.2 h] at solid
    cases solid
  have whole : (front ++ m :: t).reverse = t.reverse ++ m :: front.reverse := by simp
  have tail : (front ++ m :: t).reverse.takeWhile isBlank = t.reverse := by
    rw [whole, List.takeWhile_append_of_pos all, List.takeWhile_cons_of_neg head, List.append_nil]
  have rest : (front ++ m :: t).reverse.dropWhile isBlank = m :: front.reverse := by
    rw [whole, List.dropWhile_append_of_pos all, List.dropWhile_cons_of_neg head]
  rw [trimEnd_of_blank blank]
  simp only [Body.trimEnd, tail, rest, List.any_reverse]
  split <;> simp

theorem any_isLineBreak {t t' : List Mark} (same : text t' = text t) :
    t'.any isLineBreak = t.any isLineBreak := by
  have of_text (t : List Mark) :
      t.any isLineBreak = (text t).any fun c => c == '\n' || c == '\r' := by
    rw [text, List.any_map]
    rfl
  rw [of_text, of_text, same]

/-- Blanks at the end go or stay.  If they go in one text only, covered ones stay in the other. -/
theorem Alike.trimEnd_of_blank {t t' : List Mark} (h : Alike C C' false t t')
    (blank : ∀ b ∈ t, isSolid b.char = false) :
    Alike C C' true (Body.trimEnd t) (Body.trimEnd t') := by
  have blank' := h.forall_of_forall isSolid_of_isBlank blank
  rw [Mark.trimEnd_of_blank blank, Mark.trimEnd_of_blank blank']
  rcases h.text_or with same | ⟨⟨b, hb, -, covered⟩, b', hb', -, covered'⟩
  · rw [any_isLineBreak same]
    split
    · exact .nil
    · exact h.weaken
  · have trail : Trail C t := ⟨fun b hb => isSolid_char.1 (blank b hb), .inr ⟨b, hb, covered⟩⟩
    have trail' : Trail C' t' := ⟨fun b hb => isSolid_char.1 (blank' b hb), .inr ⟨b', hb', covered'⟩⟩
    split <;> split
    · exact .nil
    · exact .trail rfl ⟨nofun, .inl rfl⟩ trail'
    · exact .trail rfl trail ⟨nofun, .inl rfl⟩
    · exact h.weaken

theorem Alike.trimEnd (h : Alike C C' false ms ms') :
    Alike C C' true (Body.trimEnd ms) (Body.trimEnd ms') := by
  rcases exists_first isSolid ms.reverse with blank | ⟨f, m, rest, eq, blank, solid⟩
  · exact h.trimEnd_of_blank fun m hm => blank m (by simpa using hm)
  · -- the last mark that is not blank is the first one from behind
    obtain ⟨f', m', rest', eq', blank', char, tail, front⟩ :=
      h.reverse.split isSolid_of_isBlank eq blank solid
    have whole {ms f rest : List Mark} {m : Mark} (eq : ms.reverse = f ++ m :: rest) :
        ms = rest.reverse ++ m :: f.reverse := by
      rw [← ms.reverse_reverse, eq]
      simp
    have blanks {f : List Mark} (blank : ∀ b ∈ f, isSolid b.char = false) :
        ∀ b ∈ f.reverse, isSolid b.char = false := fun b hb => blank b (by simpa using hb)
    rw [whole eq, whole eq', trimEnd_append solid (blanks blank),
      trimEnd_append (char ▸ solid) (blanks blank')]
    exact front.reverse.append (.cons char (tail.reverse.trimEnd_of_blank (blanks blank)))

end Mark

/-! ## Bodies -/

/-- The marks of the bodies are alike and start with one that is not blank, if there are any. -/
structure Body.Alike (C C' : Nat → Prop) (b b' : Body) : Prop where
  marks : Mark.Alike C C' true b.marks b'.marks
  trimmed : Mark.trimStart b.marks = b.marks
  trimmed' : Mark.trimStart b'.marks = b'.marks

namespace Mark

theorem trimStart_trimStart (ms : List Mark) : trimStart (trimStart ms) = trimStart ms := by
  rcases exists_first isSolid ms with blank | ⟨f, m, rest, rfl, blank, solid⟩
  · rw [trimStart_eq_nil blank]
    rfl
  · rw [trimStart_append blank solid]
    exact trimStart_append (f := []) nofun solid

theorem trimStart_of_prefix {ms front : List Mark} (trimmed : trimStart ms = ms) (h : front <+: ms) :
    trimStart front = front := by
  obtain ⟨rest, rfl⟩ := h
  cases front with
  | nil => rfl
  | cons m front =>
    have head : m.isBlank = false := isBlank_of_trimStart trimmed
    exact List.dropWhile_cons_of_neg (by simp [head])

end Mark

namespace Body.Alike

open Mark (Alike)

variable {b b' : Body}

theorem symm (h : Body.Alike C C' b b') : Body.Alike C' C b' b :=
  ⟨h.marks.symm, h.trimmed', h.trimmed⟩

theorem eq_nil (h : Body.Alike C C' b b') (empty : b.marks = []) : b'.marks = [] := by
  have blank := h.marks.forall_of_forall Mark.isSolid_of_isBlank (by simp [empty])
  rw [← h.trimmed']
  exact Mark.trimStart_eq_nil blank

theorem ofStretch {s s' : List Mark × Nat} (h : Mark.Alike C C' false s.1 s'.1) :
    Body.Alike C C' (Body.ofStretch s) (Body.ofStretch s') where
  marks := h.trimStart.trimEnd
  trimmed := Mark.trimStart_of_prefix (Mark.trimStart_trimStart _) (trimEnd_isPrefix _)
  trimmed' := Mark.trimStart_of_prefix (Mark.trimStart_trimStart _) (trimEnd_isPrefix _)

/-- **Texts that are alike have bodies that are alike.** -/
theorem ofMarks {ms ms' : List Mark} (stop stop' : Nat) (h : Mark.Alike C C' false ms ms') :
    List.Forall₂ (Body.Alike C C') (Body.ofMarks ms stop) (Body.ofMarks ms' stop') := by
  have bodies : List.Forall₂ (Body.Alike C C') ((Body.stretches stop ms).map Body.ofStretch)
      ((Body.stretches stop' ms').map Body.ofStretch) :=
    List.forall₂_map_left_iff.2 (List.forall₂_map_right_iff.2
      ((h.stretches stop stop').imp fun _ _ => ofStretch))
  unfold Body.ofMarks
  dsimp only
  generalize (Body.stretches stop ms).map Body.ofStretch = l at *
  generalize (Body.stretches stop' ms').map Body.ofStretch = l' at *
  have behind := List.forall₂_reverse_iff.2 bodies
  cases hl : l.reverse with
  | nil =>
    rw [hl, List.forall₂_nil_left_iff] at behind
    rw [List.reverse_eq_nil_iff.1 hl, List.reverse_eq_nil_iff.1 behind]
    exact .nil
  | cons last before =>
    rw [hl] at behind
    obtain ⟨last', before', alike, others, hl'⟩ := List.forall₂_cons_left_iff.1 behind
    have eq : l = before.reverse ++ [last] := by rw [← l.reverse_reverse, hl, List.reverse_cons]
    have eq' : l' = before'.reverse ++ [last'] := by rw [← l'.reverse_reverse, hl', List.reverse_cons]
    have empty : last.marks = [] ↔ last'.marks = [] := ⟨alike.eq_nil, alike.symm.eq_nil⟩
    simp only [eq, eq', List.getLast?_concat, Option.map_some, Option.some.injEq, empty,
      List.dropLast_concat]
    split
    · exact List.forall₂_reverse_iff.2 others
    · rw [← eq, ← eq']
      exact bodies

/-- A header is in both bodies, with the same name, or in neither. -/
theorem header? (h : Body.Alike C C' b b') : (b.header? = none ∧ b'.header? = none) ∨
    ∃ name first first', b.header? = some (name, first) ∧ b'.header? = some (name, first') ∧
      Body.Alike C C' first first' := by
  unfold Body.header?
  cases hb : Mark.header? b.marks with
  | none =>
    have none : Mark.header? b'.marks = none := by
      have := Mark.findsHeaders_header.eq h.marks
      simpa [hb] using this
    exact .inl ⟨rfl, by rw [none]; rfl⟩
  | some found =>
    obtain ⟨name, rest⟩ := found
    obtain ⟨isName, headed⟩ := Mark.header?_eq_some.1 hb
    obtain ⟨-, -, rest', -, -, headed', -, back⟩ :=
      h.marks.headed (Mark.isSolid_of_isName isName) headed
    rw [Mark.header?_eq_some.2 ⟨isName, headed'⟩]
    exact .inr ⟨name, _, _, rfl, rfl, back.trimStart, Mark.trimStart_trimStart _,
      Mark.trimStart_trimStart _⟩

end Body.Alike

/-! ## Rule sets -/

/-- The rule sets have one name, and bodies that are alike. -/
structure SetSource.Alike (C C' : Nat → Prop) (s s' : SetSource) : Prop where
  name : s'.name = s.name
  bodies : List.Forall₂ (Body.Alike C C') s.bodies s'.bodies

namespace SetSource

theorem alike_group {l l' : List Body} (h : List.Forall₂ (Body.Alike C C') l l') :
    List.Forall₂ (Body.Alike C C') (group l).1 (group l').1 ∧
      List.Forall₂ (Alike C C') (group l).2 (group l').2 := by
  induction h with
  | nil => exact ⟨.nil, .nil⟩
  | @cons b b' l l' alike h ih =>
    obtain ⟨loose, sets⟩ := ih
    unfold group
    dsimp only
    rcases alike.header? with ⟨hb, hb'⟩ | ⟨name, first, first', hb, hb', firsts⟩
    · rw [hb, hb']
      exact ⟨.cons alike loose, sets⟩
    · rw [hb, hb']
      exact ⟨.nil, .cons ⟨rfl, .cons firsts loose⟩ sets⟩

/-- **Bodies that are alike are grouped under the same headers.** -/
theorem alike_ofBodies {l l' : List Body} (h : List.Forall₂ (Body.Alike C C') l l') :
    List.Forall₂ (Alike C C') (ofBodies l) (ofBodies l') := by
  obtain ⟨before, sets⟩ := alike_group h
  unfold ofBodies
  generalize group l = parts at *
  generalize group l' = parts' at *
  obtain ⟨loose, named⟩ := parts
  obtain ⟨loose', named'⟩ := parts'
  cases before with
  | nil => exact sets
  | cons alike others => exact .cons ⟨rfl, .cons alike others⟩ sets

end SetSource

/-! ## Keys -/

namespace RuleBody

open Mark (Alike)

theorem barsKey_of_isBlank (c : Char) (h : Text.isBlank c) : barsKey c = false := by
  have solid : ∀ d ∈ ['<', '=', '[', ']', '\''], Mark.isSolid d := List.all_eq_true.1 (by decide)
  refine Bool.eq_false_iff.2 fun bars => ?_
  exact Mark.ne_of_isSolid h (solid c (by simpa [barsKey] using bars)) rfl

theorem isColon_of_isBlank (c : Char) (h : Text.isBlank c) : (c == ':') = false :=
  beq_eq_false_iff_ne.2 (Mark.ne_of_isSolid h (by decide))

theorem splitKey?_eq_none {ms : List Mark} (none : ∀ m ∈ ms, (m.char == ':') = false) :
    splitKey? ms = .none := by
  have whole : ms.takeWhile (fun m => m.char ≠ ':') = ms :=
    List.takeWhile_eq_self_iff.2 fun m hm => by simpa using none m hm
  simp only [splitKey?, whole, List.drop_length]

theorem splitKey?_append {key rest : List Mark} {m : Mark}
    (none : ∀ x ∈ key, (x.char == ':') = false) (colon : m.char == ':') :
    splitKey? (key ++ m :: rest) =
      if key.any fun m => barsKey m.char then .none else some (key, Mark.trimStart rest) := by
  have front : (key ++ m :: rest).takeWhile (fun m => m.char ≠ ':') = key := by
    rw [List.takeWhile_append_of_pos fun x hx => by simpa using none x hx,
      List.takeWhile_cons_of_neg (by simpa using colon), List.append_nil]
  simp only [splitKey?, front, List.drop_left]

/-- **A key ends at the same colon.** -/
theorem alike_splitKey? {ms ms' : List Mark} (h : Alike C C' cut ms ms') :
    (splitKey? ms = none ∧ splitKey? ms' = none) ∨
      ∃ key key' rest rest', splitKey? ms = some (key, rest) ∧ splitKey? ms' = some (key', rest') ∧
        Alike C C' false key key' ∧ Alike C C' cut rest rest' := by
  rcases Mark.exists_first (· == ':') ms with none | ⟨key, m, rest, rfl, none, colon⟩
  · exact .inl ⟨splitKey?_eq_none none,
      splitKey?_eq_none (h.forall_of_forall isColon_of_isBlank none)⟩
  · obtain ⟨key', m', rest', rfl, none', char, front, back⟩ :=
      h.split isColon_of_isBlank rfl none colon
    have colon' : m'.char == ':' := by rw [char]; exact colon
    have bars : (key'.any fun m => barsKey m.char) = key.any fun m => barsKey m.char := by
      rw [← Bool.not_inj_iff, Bool.eq_iff_iff]
      simp only [Bool.not_eq_true', List.any_eq_false, Bool.not_eq_true]
      exact ⟨front.symm.forall_of_forall barsKey_of_isBlank,
        front.forall_of_forall barsKey_of_isBlank⟩
    rw [splitKey?_append none colon, splitKey?_append none' colon', bars]
    split
    · exact .inl ⟨rfl, rfl⟩
    · exact .inr ⟨key, key', _, _, rfl, rfl, front, back.trimStart⟩

end RuleBody

namespace Key

theorem isSolid_of_isNumberChar {c : Char} (h : isNumberChar c) : Mark.isSolid c := by
  have low : 44 ≤ c.toNat ∧ c.toNat ≤ 57 := by
    simp only [isNumberChar, Bool.or_eq_true, beq_iff_eq] at h
    rcases h with digit | rfl
    · have : 48 ≤ c.toNat ∧ c.toNat ≤ 57 := by simpa [Char.isDigit, UInt32.le_iff_toNat_le] using digit
      omega
    · decide
  simp only [Mark.isSolid, Text.isBlank, Text.blankRanges, List.any_cons, List.any_nil,
    Bool.not_eq_true', Bool.or_eq_false_iff, Bool.and_eq_false_iff, decide_eq_false_iff_not, and_true]
  omega

/-- No blank is in a key that can be read. -/
theorem isSolid_of_ofText? {t : Text} {k : Key} (h : ofText? t = some k) :
    ∀ c ∈ t, Mark.isSolid c := by
  have number {t : Text} (h : IsNumber t) : ∀ c ∈ t, Mark.isSolid c := fun c hc =>
    isSolid_of_isNumberChar (List.all_eq_true.1 h.2 c hc)
  have mark (marks : Nat) : ∀ c ∈ List.replicate marks '>', Mark.isSolid c := fun c hc => by
    rw [List.eq_of_mem_replicate hc]
    decide
  rcases eq_text_or_denotes h with ⟨form, rfl, rfl⟩ | denotes
  · cases form <;> exact List.all_eq_true.1 (by decide)
  · cases denotes with
    | plain isBase _ marks => exact List.forall_mem_append.2 ⟨number isBase, mark marks⟩
    | radix isBase _ isRadix _ _ marks =>
      refine List.forall_mem_append.2 ⟨number isBase, List.forall_mem_cons.2 ⟨by decide, ?_⟩⟩
      exact List.forall_mem_append.2 ⟨number isRadix, mark marks⟩

end Key

namespace RuleBody

open Mark (Alike)

/-- The text of a key, without the blanks around it. -/
def keyText (key : List Mark) : Text := Text.trimBy Text.isBlank (Mark.text key)

theorem keyText_eq (key : List Mark) : keyText key = Mark.text (Text.trimBy Mark.isBlank key) := by
  have dropWhile (ms : List Mark) :
      (Mark.text ms).dropWhile Text.isBlank = Mark.text (ms.dropWhile Mark.isBlank) :=
    List.dropWhile_map ..
  have reverse (ms : List Mark) : (Mark.text ms).reverse = Mark.text ms.reverse :=
    List.map_reverse.symm
  rw [keyText, Text.trimBy, Text.trimBy, dropWhile, reverse, dropWhile, reverse]

/-- **Keys that are alike are the same,** or none of them is a key. -/
theorem alike_ofText? {key key' : List Mark} (h : Alike C C' false key key') :
    keyText key' = keyText key ∨
      Key.ofText? (keyText key) = none ∧ Key.ofText? (keyText key') = none := by
  -- a key with a blank inside cannot be read
  have unread {ms : List Mark} (blank : ∃ b ∈ ms, b.isBlank) : Key.ofText? (Mark.text ms) = none :=
    Option.eq_none_iff_forall_ne_some.2 fun k hk => by
      obtain ⟨b, hb, blank⟩ := blank
      have solid := Key.isSolid_of_ofText? hk b.char (List.mem_map_of_mem hb)
      rw [Mark.isSolid_char.2 blank] at solid
      cases solid
  have trimmed : Alike C C' false (Text.trimBy Mark.isBlank key) (Text.trimBy Mark.isBlank key') :=
    h.trimStart.reverse.trimStart.reverse
  rw [keyText_eq, keyText_eq]
  rcases trimmed.text_or with same | ⟨⟨b, hb, blank, -⟩, b', hb', blank', -⟩
  · exact .inl same
  · exact .inr ⟨unread ⟨b, hb, blank⟩, unread ⟨b', hb', blank'⟩⟩

end RuleBody

end Spellout
