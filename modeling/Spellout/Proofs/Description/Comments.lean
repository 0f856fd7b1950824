/-
  Comments mean nothing.

  Two descriptions that differ inside comments only are the same once these are cut down to their
  slashes.  They are compiled to the same rule book or refused for the same fault, provided that no
  comment stands where blanks are kept: in the template of a rule, or in a quotation of the lenient
  section.  There a comment is as many spaces as it has bytes.

  * `RuleBook.bareComments`: the description with its comments cut down to their slashes;
  * `RuleBook.Apart`: no comment stands in a template or in a quotation;
  * `Mark.alike_blankCommentsFrom`: overwritten comments are gaps;
  * `RuleBook.alike_sources`: so bodies and the lenient section are alike;
  * `RuleBook.ofDescription_of_bareComments`: what is in comments does not matter.
-/
import Spellout.Proofs.Description.Placement

namespace Spellout

/-! ## Comments -/

namespace Mark

/-- A comment starts at a character, entered in a given state, with others behind it. -/
def StartsComment (s : CommentState) (m : Mark) (rest : List Mark) : Prop :=
  s = .open ∧ m.char = '/' ∧ (rest.head?.map Mark.char) = some '/'

/-- The characters of comments, with their slashes, in marked text that is entered in a given
    state. -/
def commentsFrom : CommentState → List Mark → List Mark
  | _, [] => []
  | .inside, m :: rest =>
    if m.char = '\n' then commentsFrom .open rest else m :: commentsFrom .inside rest
  | .open, m :: rest =>
    if m.char = '/' ∧ (rest.head?.map Mark.char) = some '/' then m :: commentsFrom .inside rest
    else commentsFrom m.stateAfter rest
  | .closed, m :: rest => commentsFrom m.stateAfter rest

/-- The text with each comment cut down to its slashes. -/
def bareFrom : CommentState → List Mark → Text
  | _, [] => []
  | .inside, m :: rest => if m.char = '\n' then '\n' :: bareFrom .open rest else bareFrom .inside rest
  | .open, m :: rest =>
    if m.char = '/' ∧ (rest.head?.map Mark.char) = some '/' then '/' :: '/' :: bareFrom .inside rest
    else m.char :: bareFrom m.stateAfter rest
  | .closed, m :: rest => m.char :: bareFrom m.stateAfter rest

variable {C C' : Nat → Prop} {s : CommentState} {m m' : Mark} {ms ms' rest rest' : List Mark}

/-- A comment goes on to the end of the text, or to the end of the line. -/
theorem inside_cases (ms : List Mark) :
    (blankCommentsFrom .inside ms = ms.flatMap blanks ∧ bareFrom .inside ms = [] ∧
      commentsFrom .inside ms = ms) ∨
    ∃ c m rest, ms = c ++ m :: rest ∧ m.char = '\n' ∧
      blankCommentsFrom .inside ms = c.flatMap blanks ++ m :: blankCommentsFrom .open rest ∧
      bareFrom .inside ms = '\n' :: bareFrom .open rest ∧
      commentsFrom .inside ms = c ++ commentsFrom .open rest := by
  induction ms with
  | nil => exact .inl ⟨rfl, rfl, rfl⟩
  | cons m ms ih =>
    rw [blankCommentsFrom, bareFrom, commentsFrom]
    by_cases lineBreak : m.char = '\n'
    · rw [if_pos lineBreak, if_pos lineBreak, if_pos lineBreak]
      have stays : m.blanks = [m] := if_pos (by simp [isLineBreak, lineBreak])
      exact .inr ⟨[], m, ms, rfl, lineBreak, by rw [stays]; rfl, rfl, rfl⟩
    · rw [if_neg lineBreak, if_neg lineBreak, if_neg lineBreak]
      rcases ih with ⟨blanked, bare, comments⟩ | ⟨c, x, rest, rfl, char, blanked, bare, comments⟩
      · exact .inl ⟨by rw [blanked]; rfl, bare, by rw [comments]⟩
      · exact .inr ⟨m :: c, x, rest, rfl, char, by rw [blanked]; simp, bare, by rw [comments]; rfl⟩

theorem starts_cases (outside : s ≠ .inside) (m : Mark) (rest : List Mark) :
    (StartsComment s m rest ∧
      blankCommentsFrom s (m :: rest) = m.blanks ++ blankCommentsFrom .inside rest ∧
      bareFrom s (m :: rest) = '/' :: '/' :: bareFrom .inside rest ∧
      commentsFrom s (m :: rest) = m :: commentsFrom .inside rest) ∨
    ¬ StartsComment s m rest ∧
      blankCommentsFrom s (m :: rest) = m :: blankCommentsFrom m.stateAfter rest ∧
      bareFrom s (m :: rest) = m.char :: bareFrom m.stateAfter rest ∧
      commentsFrom s (m :: rest) = commentsFrom m.stateAfter rest := by
  cases s with
  | inside => exact absurd rfl outside
  | closed => exact .inr ⟨nofun, rfl, rfl, rfl⟩
  | «open» =>
    rw [blankCommentsFrom, bareFrom, commentsFrom]
    by_cases slashes : m.char = '/' ∧ (rest.head?.map Mark.char) = some '/'
    · rw [if_pos slashes, if_pos slashes, if_pos slashes]
      exact .inl ⟨⟨rfl, slashes⟩, rfl, rfl, rfl⟩
    · rw [if_neg slashes, if_neg slashes, if_neg slashes]
      exact .inr ⟨fun starts => slashes starts.2, rfl, rfl, rfl⟩

/-- Two slashes in a text that is cut down are those of a comment, where one may start. -/
theorem startsComment_of_bareFrom {t : Text} (fresh : s = .open)
    (bare : bareFrom s (m :: rest) = '/' :: '/' :: t) : StartsComment s m rest := by
  have outside : s ≠ .inside := by rw [fresh]; nofun
  rcases starts_cases outside m rest with ⟨starts, -⟩ | ⟨-, -, eq, -⟩
  · exact starts
  · obtain ⟨char, behind⟩ := List.cons.inj (eq.symm.trans bare)
    have after : m.stateAfter = .closed := by
      have not : Text.isBlank '/' = false := by decide
      simp [stateAfter, isBlank, char, not]
    rw [after] at behind
    refine ⟨fresh, char, ?_⟩
    cases rest with
    | nil => cases behind
    | cons x rest => exact congrArg some (List.cons.inj behind).1

theorem startsComment_congr (same : bareFrom s (m' :: rest') = bareFrom s (m :: rest))
    (starts : StartsComment s m rest) : StartsComment s m' rest' := by
  have outside : s ≠ .inside := by rw [starts.1]; nofun
  rcases starts_cases outside m rest with ⟨-, -, bare, -⟩ | ⟨not, -⟩
  · exact startsComment_of_bareFrom starts.1 (same.trans bare)
  · exact absurd starts not

/-- A comment that is overwritten is a gap, and so is one in its place.  What stands on the lines
    behind them is alike by assumption. -/
theorem alike_comment (same : bareFrom .inside rest' = bareFrom .inside rest)
    (covered : ∀ x ∈ m :: commentsFrom .inside rest, C x.offset)
    (covered' : ∀ x ∈ m' :: commentsFrom .inside rest', C' x.offset)
    (later : ∀ ms ms', ms.length < rest.length → bareFrom .open ms' = bareFrom .open ms →
      (∀ x ∈ commentsFrom .open ms, C x.offset) → (∀ x ∈ commentsFrom .open ms', C' x.offset) →
      Alike C C' false (blankCommentsFrom .open ms) (blankCommentsFrom .open ms')) :
    Alike C C' false (m.blanks ++ blankCommentsFrom .inside rest)
      (m'.blanks ++ blankCommentsFrom .inside rest') := by
  rcases inside_cases rest with
    ⟨blanked, bare, comments⟩ | ⟨c, x, after, rfl, char, blanked, bare, comments⟩ <;>
  rcases inside_cases rest' with
    ⟨blanked', bare', comments'⟩ | ⟨c', x', after', rfl, char', blanked', bare', comments'⟩ <;>
  rw [bare, bare'] at same <;> rw [comments] at covered <;> rw [comments'] at covered' <;>
  rw [blanked, blanked']
  · have gap : Gap C ((m :: rest).flatMap blanks) := gap_blanks (by simp) covered
    have gap' : Gap C' ((m' :: rest').flatMap blanks) := gap_blanks (by simp) covered'
    simpa using Alike.gap gap gap' .nil
  · cases same
  · cases same
  · rw [← List.cons_append] at covered covered'
    obtain ⟨covered, others⟩ := List.forall_mem_append.1 covered
    obtain ⟨covered', others'⟩ := List.forall_mem_append.1 covered'
    have gap : Gap C ((m :: c).flatMap blanks) := gap_blanks (by simp) covered
    have gap' : Gap C' ((m' :: c').flatMap blanks) := gap_blanks (by simp) covered'
    have behind := later after after' (by simp; omega) (List.cons.inj same).2 others others'
    simpa using Alike.gap gap gap' (.cons (char'.trans char.symm) behind)

/-- **Comments that are overwritten are gaps.**  Texts that are the same once their comments are cut
    down are alike then. -/
theorem alike_blankCommentsFrom {s : CommentState} {ms ms' : List Mark} (outside : s ≠ .inside)
    (same : bareFrom s ms' = bareFrom s ms) (covered : ∀ m ∈ commentsFrom s ms, C m.offset)
    (covered' : ∀ m ∈ commentsFrom s ms', C' m.offset) :
    Alike C C' false (blankCommentsFrom s ms) (blankCommentsFrom s ms') := by
  have ne_nil (m : Mark) (rest : List Mark) : bareFrom s (m :: rest) ≠ [] := by
    rcases starts_cases outside m rest with ⟨-, -, bare, -⟩ | ⟨-, -, bare, -⟩ <;> rw [bare] <;> nofun
  match ms, ms' with
  | [], [] =>
    rw [blankCommentsFrom]
    exact .nil
  | [], m' :: rest' => exact absurd same (ne_nil m' rest')
  | m :: rest, [] => exact absurd same.symm (ne_nil m rest)
  | m :: rest, m' :: rest' =>
    rcases starts_cases outside m rest with
      ⟨starts, blanked, bare, comments⟩ | ⟨not, blanked, bare, comments⟩ <;>
    rcases starts_cases outside m' rest' with
      ⟨starts', blanked', bare', comments'⟩ | ⟨not', blanked', bare', comments'⟩
    · rw [bare, bare'] at same
      rw [comments] at covered
      rw [comments'] at covered'
      rw [blanked, blanked']
      refine alike_comment (by simpa using same) covered covered' fun after after' _ same => ?_
      exact alike_blankCommentsFrom nofun same
    · exact absurd (startsComment_congr same starts) not'
    · exact absurd (startsComment_congr same.symm starts') not
    · rw [bare, bare'] at same
      obtain ⟨char, same⟩ := List.cons.inj same
      have next : m'.stateAfter = m.stateAfter := by
        unfold stateAfter isBlank
        rw [char]
      have fresh : m.stateAfter ≠ .inside := by
        unfold stateAfter
        split <;> nofun
      rw [next] at same comments' blanked'
      rw [comments] at covered
      rw [comments'] at covered'
      rw [blanked, blanked']
      exact .cons char (alike_blankCommentsFrom fresh same covered covered')
termination_by ms.length

end Mark

namespace RuleBook

/-- The description with each comment cut down to its slashes. -/
def bareComments (description : Text) : Text := Mark.bareFrom .open (Mark.ofText description)

/-- The offsets of the characters of comments. -/
def commentOffsets (description : Text) : List Nat :=
  (Mark.commentsFrom .open (Mark.ofText description)).map Mark.offset

/-- The marks in whose place blanks are kept: those of templates, and those of quotations in the
    lenient section. -/
def spacedMarks (description : Text) : List Mark :=
  ((sources description).1.flatMap SetSource.bodies).flatMap
      (fun b => RuleBody.templateMarks b.marks) ++
    EquivalenceDraft.quotedMarks {} ((sources description).2.getD [])

/-- No comment stands in a template or in a quotation. -/
def Apart (description : Text) : Prop :=
  ∀ m ∈ spacedMarks description, m.offset ∉ commentOffsets description

instance (description : Text) : Decidable (Apart description) :=
  inferInstanceAs (Decidable (∀ m ∈ _, _))

variable {description description' : Text}

/-- **Comments do not move anything.**  The bodies of the descriptions are alike, and so are their
    lenient sections. -/
theorem alike_sources (same : bareComments description' = bareComments description) :
    List.Forall₂
        (SetSource.Alike (· ∈ commentOffsets description) (· ∈ commentOffsets description'))
        (sources description).1 (sources description').1 ∧
      Option.Rel
        (Mark.Alike (· ∈ commentOffsets description) (· ∈ commentOffsets description') false)
        (sources description).2 (sources description').2 := by
  have inside {m : Mark} {t : Text} (hm : m ∈ Mark.commentsFrom .open (Mark.ofText t)) :
      m.offset ∈ commentOffsets t := List.mem_map_of_mem hm
  have fresh : Mark.CommentState.open ≠ .inside := nofun
  have blanked := Mark.alike_blankCommentsFrom fresh same (fun _ => inside) fun _ => inside
  obtain ⟨rules, lenient⟩ := blanked.liftLenientSection
  exact ⟨SetSource.alike_ofBodies (Body.Alike.ofMarks _ _ rules), lenient⟩

/-- The rule sets that are read are apart from comments if the description is. -/
theorem Apart.bodies (h : Apart description) : ∀ source ∈ (sources description).1,
    ∀ b ∈ source.bodies, b.Apart (· ∈ commentOffsets description) := by
  intro source hs b hb m hm
  refine h m (List.mem_append_left _ (List.mem_flatMap.2 ⟨b, ?_, hm⟩))
  exact List.mem_flatMap.2 ⟨source, hs, hb⟩

theorem Apart.quotations (h : Apart description) {ms : List Mark}
    (lenient : (sources description).2 = some ms) :
    ∀ m ∈ EquivalenceDraft.quotedMarks {} ms, m.offset ∉ commentOffsets description := by
  intro m hm
  refine h m (List.mem_append_right _ ?_)
  rw [lenient]
  exact hm

/-- **What is in comments does not matter.**  Two descriptions that differ inside comments only are
    compiled to the same rule book or refused for the same fault in the same rule set, provided that
    no comment stands in a template or in a quotation.  This is asked of both: a carriage return in a
    comment stays, and takes the blanks around it away. -/
theorem ofDescription_of_bareComments (same : bareComments description' = bareComments description)
    (apart : Apart description) (apart' : Apart description') :
    (ofDescription description').mapError CompileError.bare =
      (ofDescription description).mapError CompileError.bare := by
  obtain ⟨bodies, lenient⟩ := alike_sources same
  have sets : EndAlike CompileError.Same Eq ((sources description).1.foldlM addSource [])
      ((sources description').1.foldlM addSource []) :=
    EndAlike.foldlM bodies (fun sets sets' source source' hs hs' alike eq => by
      subst eq
      exact alike_addSource sets alike (apart.bodies source hs) (apart'.bodies source' hs')) rfl
  have equivalences : EndAlike CompileError.Same Eq (readLenient (sources description).2)
      (readLenient (sources description').2) :=
    alike_readLenient lenient (fun _ => apart.quotations) fun _ => apart'.quotations
  have compiled : EndAlike CompileError.Same Eq (ofDescription description)
      (ofDescription description') :=
    sets.bind fun _ _ same => equivalences.bind fun _ _ same' =>
      congrArg₂ (fun (sets : List RuleSet) => RuleBook.mk sets.reverse) same same'
  exact compiled.mapError_eq fun _ _ same => same

/-- Comments before a rule, before and behind the colon of a key, behind a template and between
    the items of the lenient section. -/
theorem ofDescription_of_bareComments_keyed :
    let description :=
      "%a: zero; // 0\n1 // 1\n: // key\n one // it\n;%%lenient-parse: & 'one' , // or\n 'a'".toList
    let description' :=
      "%a: zero; //\n1 // :\n: // '\n one //;\n;%%lenient-parse: & 'one' , //& 'ß'\n 'a'".toList
    (bareComments description' = bareComments description ∧ Apart description ∧ Apart description') ∧
      (ofDescription description).isOk ∧
      (ofDescription description').mapError CompileError.bare =
        (ofDescription description).mapError CompileError.bare := by
  intro description description'
  have same : bareComments description' = bareComments description := by decide +kernel
  have apart : Apart description := by decide +kernel
  have apart' : Apart description' := by decide +kernel
  exact ⟨⟨same, apart, apart'⟩, by decide +kernel, ofDescription_of_bareComments same apart apart'⟩

/-- Behind a rule at the end of the text, a comment is so many spaces. -/
theorem not_ofDescription_of_bareComments :
    let book (t : Text) : RuleBook :=
      ⟨[{ name := "%a".toList
          ladder :=
            [⟨1, 10, 0, true, [.piece (.literal t)]⟩,
             ⟨0, 10, 0, true, [.piece (.literal "zero".toList)]⟩] }], ⟨[]⟩⟩
    bareComments "%a: zero; one // odd".toList = bareComments "%a: zero; one //".toList ∧
      ofDescription "%a: zero; one // odd".toList = .ok (book "one       ".toList) ∧
      ofDescription "%a: zero; one //".toList = .ok (book "one   ".toList) := by
  decide +kernel

end RuleBook
end Spellout
