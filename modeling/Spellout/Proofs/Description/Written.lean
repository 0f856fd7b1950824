/-
  Templates as they are written.

  Reading a template loses nothing: what has been read is written with the same characters, in the same
  order, in groups and outside of them.  While a template is read, its draft holds them all: the
  segments, the open group, the literal that is gathered, and the open substitution.

  * `Template.text`: a template as it is written in a description;
  * `TemplateDraft.text`: the characters that a draft holds;
  * `TemplateDraft.text_feed`: one more character is held behind the others;
  * `Template.text_ofMarks`: a template that has been read is written as it was.
-/
import Spellout.Proofs.Description.Tidy

namespace Spellout

/-! ## Writing -/

/-- The target as it stands between its delimiters. -/
def Target.text : Target → Text
  | .owner => []
  | .ruleSet name => name
  | .numeral p => p.source

/-- The substitution with its delimiters. -/
def Substitution.text : Substitution → Text
  | .quotient t => '<' :: t.text ++ ['<']
  | .remainder t => '>' :: t.text ++ ['>']
  | .forced => ['>', '>', '>']
  | .same t => '=' :: t.text ++ ['=']

/-- A literal as it is, and a substitution with its delimiters. -/
def Piece.text : Piece → Text
  | .literal t => t
  | .substitution sub => sub.text

/-- Pieces side by side. -/
def Piece.texts (ps : List Piece) : Text := ps.flatMap Piece.text

/-- A piece, or a group in its brackets. -/
def Segment.text : Segment → Text
  | .piece p => p.text
  | .optional ps => '[' :: Piece.texts ps ++ [']']

/-- The template as it is written in a description. -/
def Template.text (t : Template) : Text := t.flatMap Segment.text

theorem NumeralPattern.source_of_ofText? {t : Text} {p : NumeralPattern} (h : ofText? t = some p) :
    p.source = t := by
  simp only [ofText?] at h
  split at h
  · split at h
    · cases h
      rfl
    · split at h <;> cases h
      rfl
  · cases h

/-- A target that has been read is written as it was. -/
theorem Target.text_of_ofText? {t : Text} {target : Target} (h : ofText? t = some target) :
    target.text = t := by
  unfold ofText? at h
  split at h
  · rename_i empty
    cases h
    exact empty.symm
  · split at h
    · cases h
      rfl
    · obtain ⟨p, hp, rfl⟩ := Option.map_eq_some_iff.1 h
      exact NumeralPattern.source_of_ofText? hp

/-! ## Drafts -/

/-- A substitution that has been begun. -/
def OpenSubstitution.text : OpenSubstitution → Text
  | .none => []
  | .target delimiter _ t => delimiter :: t.reverse
  | .doubled => ['>', '>']

namespace TemplateDraft

variable {d d' : TemplateDraft} {m : Mark} {sub : Substitution}

/-- The open group, from its bracket on. -/
def groupText (d : TemplateDraft) : Text :=
  match d.group with
  | some (_, ps) => '[' :: Piece.texts ps.reverse
  | none => []

/-- The items that the draft holds. -/
def itemText (d : TemplateDraft) : Text := Template.text d.segments.reverse ++ d.groupText

/-- All that the draft holds. -/
def text (d : TemplateDraft) : Text := d.itemText ++ d.literal.reverse ++ d.opened.text

/-- An open substitution has one of the three delimiters. -/
def Delimited (d : TemplateDraft) : Prop :=
  ∀ delimiter offset t, d.opened = .target delimiter offset t →
    delimiter = '<' ∨ delimiter = '>' ∨ delimiter = '='

theorem itemText_push (d : TemplateDraft) (p : Piece) :
    (d.push p).itemText = d.itemText ++ p.text := by
  obtain ⟨segments, group, literal, opened⟩ := d
  cases group with
  | none => simp [push, itemText, groupText, Template.text, Segment.text]
  | some group => simp [push, itemText, groupText, Piece.texts]

theorem literal_flush (d : TemplateDraft) : d.flush.literal = [] := by
  unfold flush
  split
  · assumption
  · rfl

/-- A literal that is put into the draft goes behind the items there. -/
theorem itemText_flush (d : TemplateDraft) : d.flush.itemText = d.itemText ++ d.literal.reverse := by
  unfold flush
  split
  · rename_i empty
    rw [empty, List.reverse_nil, List.append_nil]
  · exact itemText_push d (.literal d.literal.reverse)

theorem opened_flush (d : TemplateDraft) : d.flush.opened = d.opened := by
  unfold flush push
  split
  · rfl
  · split <;> rfl

theorem group_flush (closed : d.group = none) : d.flush.group = none := by
  unfold flush push
  split
  · exact closed
  · rw [closed]

theorem Delimited.of_none (plain : d.opened = .none) : d.Delimited :=
  fun _ _ _ eq => nomatch plain.symm.trans eq

/-- A substitution goes behind what the draft holds but for the open one, in whose place it comes. -/
theorem text_substitute (d : TemplateDraft) (sub : Substitution) :
    (d.substitute sub).text = d.itemText ++ d.literal.reverse ++ sub.text := by
  have items : (d.substitute sub).itemText = d.itemText ++ d.literal.reverse ++ sub.text := by
    rw [← itemText_flush]
    exact itemText_push d.flush (.substitution sub)
  have literal : (d.substitute sub).literal = [] := (literal_push ..).trans (literal_flush d)
  rw [text, items, literal, List.reverse_nil, List.append_nil]
  exact List.append_nil _

/-- A draft without an open substitution holds one more character behind the others. -/
theorem text_feedPlain (plain : d.opened = .none) (h : d.feedPlain m = .ok d') :
    d'.text = d.text ++ [m.char] ∧ d'.Delimited := by
  have held : d.text = d.flush.itemText := by
    rw [text, plain, itemText_flush]
    exact List.append_nil _
  have flushed : d.flush.opened = .none := (opened_flush d).trans plain
  unfold feedPlain at h
  split at h
  · -- the first bracket of a group stands behind all segments
    rename_i bracket
    split at h <;> cases h
    rename_i closed
    refine ⟨?_, .of_none flushed⟩
    have closed := group_flush closed
    rw [held, bracket]
    simp [text, itemText, groupText, closed, literal_flush, flushed, Piece.texts,
      OpenSubstitution.text]
  split at h
  · -- the last bracket of a group stands behind its pieces
    rename_i bracket
    split at h <;> cases h
    rename_i offset ps opened
    refine ⟨?_, .of_none flushed⟩
    rw [held, bracket]
    simp [text, itemText, groupText, opened, literal_flush, flushed, Template.text, Segment.text,
      OpenSubstitution.text]
  split at h
  · rename_i delimiter
    cases h
    refine ⟨?_, fun delimiter' offset t eq => ?_⟩
    · rw [held, itemText_flush]
      rfl
    · cases eq
      exact delimiter
  · cases h
    refine ⟨?_, .of_none plain⟩
    rw [held, itemText_flush]
    simp [text, itemText, groupText, plain, OpenSubstitution.text]

/-- A substitution that is closed stands where it was open. -/
theorem text_close {delimiter : Char} {offset : Nat} {t : Text}
    (delimited : delimiter = '<' ∨ delimiter = '>' ∨ delimiter = '=')
    (h : d.close delimiter offset t = .ok d') :
    d'.text = d.itemText ++ d.literal.reverse ++ (delimiter :: t ++ [delimiter]) ∧
      d'.Delimited := by
  unfold close at h
  split at h <;> cases h
  rename_i target read
  refine ⟨?_, .of_none rfl⟩
  rw [text_substitute, ← Target.text_of_ofText? read]
  rcases delimited with rfl | rfl | rfl <;> rfl

/-- A character in a substitution that is open goes behind its text, or closes it. -/
theorem text_feedTarget {delimiter : Char} {offset : Nat} {t : Text} (delimited : d.Delimited)
    (opened : d.opened = .target delimiter offset t) (h : d.feed m = .ok d') :
    d'.text = d.text ++ [m.char] ∧ d'.Delimited := by
  have kind := delimited delimiter offset t opened
  have held : d.text = d.itemText ++ d.literal.reverse ++ (delimiter :: t.reverse) := by
    rw [text, opened]
    rfl
  unfold feed at h
  rw [opened] at h
  dsimp only at h
  split at h
  · cases h
    refine ⟨?_, fun delimiter' offset' t' eq => ?_⟩
    · rw [held]
      simp [text, itemText, groupText, OpenSubstitution.text]
    · cases eq
      exact kind
  · rename_i same
    have same : m.char = delimiter := of_not_not same
    split at h
    · rename_i doubled
      obtain ⟨rfl, rfl⟩ := doubled
      cases h
      refine ⟨?_, fun _ _ _ eq => OpenSubstitution.noConfusion eq⟩
      rw [held, same]
      simp [text, itemText, groupText, OpenSubstitution.text]
    · obtain ⟨closed, none⟩ := text_close kind h
      refine ⟨?_, none⟩
      rw [closed, held, same]
      simp

/-- Two brackets are a substitution, or become one with a third. -/
theorem text_feedDoubled (opened : d.opened = .doubled) (h : d.feed m = .ok d') :
    d'.text = d.text ++ [m.char] ∧ d'.Delimited := by
  have held : d.text = d.itemText ++ d.literal.reverse ++ ['>', '>'] := by
    rw [text, opened]
    rfl
  unfold feed at h
  rw [opened] at h
  dsimp only at h
  split at h
  · rename_i third
    cases h
    refine ⟨?_, .of_none rfl⟩
    rw [text_substitute, held, third]
    simp [Substitution.text]
  · have closed : (d.substitute (.remainder .owner)).text = d.text := by
      rw [text_substitute, held]
      rfl
    rw [← closed]
    exact text_feedPlain rfl h

/-- **A character that is read is held behind the others.** -/
theorem text_feed (delimited : d.Delimited) (h : d.feed m = .ok d') :
    d'.text = d.text ++ [m.char] ∧ d'.Delimited := by
  cases opened : d.opened with
  | none =>
    unfold feed at h
    rw [opened] at h
    exact text_feedPlain opened h
  | target delimiter offset t => exact text_feedTarget delimited opened h
  | doubled => exact text_feedDoubled opened h

/-- A draft without an open substitution is written as its segments, if no group is open. -/
theorem text_segments (plain : d.opened = .none) (closed : d.group = none) :
    Template.text d.flush.segments.reverse = d.text :=
  calc Template.text d.flush.segments.reverse
      = d.flush.itemText := by rw [itemText, groupText, group_flush closed, List.append_nil]
    _ = d.itemText ++ d.literal.reverse := itemText_flush d
    _ = d.text := by rw [text, plain]; exact (List.append_nil _).symm

/-- A template is written as the draft was held. -/
theorem text_finish {t : Template} (h : d.finish = .ok t) : t.text = d.text := by
  unfold finish at h
  cases opened : d.opened with
  | target delimiter offset target =>
    rw [opened] at h
    cases h
  | none =>
    rw [opened] at h
    dsimp only at h
    rw [if_neg nofun] at h
    split at h <;> cases h
    exact text_segments opened ‹_›
  | doubled =>
    rw [opened] at h
    dsimp only at h
    rw [if_pos rfl] at h
    split at h <;> cases h
    rw [text_segments rfl ‹_›, text_substitute, text, opened]
    rfl

/-- The characters that are read are held behind the others. -/
theorem text_foldlM : ∀ {ms : List Mark} {d d' : TemplateDraft}, d.Delimited →
    ms.foldlM feed d = .ok d' → d'.text = d.text ++ Mark.text ms
  | [], d, d', _, h => by
    cases h
    exact (List.append_nil _).symm
  | m :: ms, d, d', delimited, h => by
    rw [List.foldlM_cons] at h
    obtain ⟨e, he, h⟩ := bind_eq_ok.1 h
    obtain ⟨held, delimited⟩ := text_feed delimited he
    rw [text_foldlM delimited h, held, List.append_assoc]
    rfl

end TemplateDraft

/-- **A template that has been read is written as it was:** every character of the text is accounted
    for once and in its place. -/
theorem Template.text_ofMarks {ms : List Mark} {t : Template} (h : ofMarks ms = .ok t) :
    t.text = Mark.text ms := by
  obtain ⟨d, hd, hf⟩ := bind_eq_ok.1 h
  rw [TemplateDraft.text_finish hf, TemplateDraft.text_foldlM (.of_none rfl) hd]
  rfl

/-- The template of `<%%a<>>>>>[, <#,##0.#<==]>%b>[]`. -/
def Template.crowded : Template :=
  [.piece (.substitution (.quotient (.ruleSet "%%a".toList))), .piece (.substitution .forced),
   .piece (.substitution (.remainder .owner)),
   .optional [.literal ", ".toList,
     .substitution (.quotient (.numeral ⟨"#,##0.#".toList, 1, some 3, 0, 1⟩)),
     .substitution (.same .owner)],
   .piece (.substitution (.remainder (.ruleSet "%b".toList))), .optional []]

/-- Of five delimiters of one kind side by side, three are one substitution and two are another. -/
theorem Template.text_ofMarks_crowded :
    let text := "<%%a<>>>>>[, <#,##0.#<==]>%b>[]".toList
    ofMarks (Mark.ofText text) = .ok crowded ∧ crowded.text = text := by
  intro text
  have read : ofMarks (Mark.ofText text) = .ok crowded := by decide +kernel
  refine ⟨read, ?_⟩
  rw [text_ofMarks read, Mark.text_ofText]

end Spellout
