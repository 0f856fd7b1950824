/-
  Readings that differ in offsets.

  While something is read, offsets are kept for errors only.  So texts with the same characters are
  read alike, wherever these stand.  Where texts are alike but for covered blanks, the parts that keep
  their blanks have to be without covered ones: templates, and the quotations of the lenient section.

  * `TemplateDraft.Alike`, `Template.alike_ofMarks`: templates are read alike;
  * `EquivalenceDraft.Alike`, `Equivalences.alike_ofMarks`: so is the lenient section;
  * `RuleBody.templateMarks`, `EquivalenceDraft.quotedMarks`: the parts that keep their blanks;
  * `CompileError.bare`: an error without its offset;
  * `RuleSet.alike_ofSource`, `RuleBook.alike_addSource`: rule sets are read alike.
-/
import Spellout.Proofs.Description.Bodies
import Spellout.Proofs.Description.Faults

namespace Spellout

variable {C C' : Nat → Prop}

/-! ## Errors -/

/-- The fault without the text of a key that cannot be read. -/
def CompileFault.bare : CompileFault → CompileFault
  | .malformedKey _ => .malformedKey []
  | fault => fault

/-- The flaws have the same fault, perhaps with keys that are spaced out differently. -/
def Flaw.Same (f f' : Flaw) : Prop := f'.fault.bare = f.fault.bare

/-- The fault, without the text of a key, and the rule set that was being read. -/
def CompileError.bare (e : CompileError) : CompileFault × Text := (e.fault.bare, e.ruleSet)

/-- The errors have the same fault, in the same rule set. -/
def CompileError.Same (e e' : CompileError) : Prop := e'.bare = e.bare

theorem Flaw.Same.inSet {f f' : Flaw} (h : f.Same f') (name : Text) :
    CompileError.Same (f.inSet name) (f'.inSet name) :=
  congrArg (·, name) h

/-! ## Templates -/

/-- The substitutions are the same, but for the offset of a delimiter. -/
inductive OpenSubstitution.Alike : OpenSubstitution → OpenSubstitution → Prop
  | none : Alike .none .none
  | target {delimiter : Char} {offset offset' : Nat} {t : Text} :
      Alike (.target delimiter offset t) (.target delimiter offset' t)
  | doubled : Alike .doubled .doubled

namespace TemplateDraft

/-- The drafts are the same, but for offsets. -/
structure Alike (d d' : TemplateDraft) : Prop where
  segments : d'.segments = d.segments
  group : Option.Rel (fun g g' => g'.2 = g.2) d.group d'.group
  literal : d'.literal = d.literal
  opened : d.opened.Alike d'.opened

variable {d d' : TemplateDraft} {m m' : Mark}

theorem Alike.push (h : d.Alike d') (p : Piece) : (d.push p).Alike (d'.push p) := by
  obtain ⟨segments, group, literal, opened⟩ := d
  obtain ⟨segments', group', literal', opened'⟩ := d'
  obtain ⟨hs, hg, hl, ho⟩ := h
  cases hg with
  | none => exact ⟨congrArg (Segment.piece p :: ·) hs, .none, hl, ho⟩
  | some same => exact ⟨hs, .some (congrArg (p :: ·) same), hl, ho⟩

theorem Alike.flush (h : d.Alike d') : d.flush.Alike d'.flush := by
  unfold TemplateDraft.flush
  rw [h.literal]
  split
  · exact h
  · obtain ⟨hs, hg, -, ho⟩ := h.push (.literal d.literal.reverse)
    exact ⟨hs, hg, rfl, ho⟩

theorem Alike.substitute (h : d.Alike d') (sub : Substitution) :
    (d.substitute sub).Alike (d'.substitute sub) := by
  obtain ⟨hs, hg, hl, -⟩ := h.flush.push (.substitution sub)
  exact ⟨hs, hg, hl, .none⟩

theorem alike_feedPlain (h : d.Alike d') (char : m'.char = m.char) :
    EndAlike Flaw.Same Alike (d.feedPlain m) (d'.feedPlain m') := by
  unfold feedPlain
  rw [char]
  split
  · -- a bracket opens a group
    have groups := h.group
    cases hd : d.group <;> cases hd' : d'.group <;> rw [hd, hd'] at groups
    · exact ⟨h.flush.segments, .some rfl, h.flush.literal, h.flush.opened⟩
    · cases groups
    · cases groups
    · exact rfl
  split
  · -- a bracket closes the group
    have groups := h.flush.group
    cases hd : d.flush.group <;> cases hd' : d'.flush.group <;> rw [hd, hd'] at groups
    · exact rfl
    · cases groups
    · cases groups
    · cases groups with
      | some same =>
        refine ⟨?_, .none, h.flush.literal, h.flush.opened⟩
        simp only [same, h.flush.segments]
  split
  · exact ⟨h.segments, h.group, h.literal, .target⟩
  · exact ⟨h.segments, h.group, congrArg (m.char :: ·) h.literal, h.opened⟩

theorem alike_close (h : d.Alike d') (delimiter : Char) (offset offset' : Nat) (t : Text) :
    EndAlike Flaw.Same Alike (d.close delimiter offset t) (d'.close delimiter offset' t) := by
  unfold close
  split
  · exact h.substitute _
  · exact rfl

/-- **A character keeps drafts alike,** wherever it stands. -/
theorem alike_feed (h : d.Alike d') (char : m'.char = m.char) :
    EndAlike Flaw.Same Alike (d.feed m) (d'.feed m') := by
  have opened := h.opened
  unfold feed
  cases hd : d.opened <;> cases hd' : d'.opened <;> rw [hd, hd'] at opened <;> cases opened
  · exact alike_feedPlain h char
  · dsimp only
    rw [char]
    split
    · exact ⟨h.segments, h.group, h.literal, .target⟩
    split
    · exact ⟨h.segments, h.group, h.literal, .doubled⟩
    · exact alike_close h ..
  · dsimp only
    rw [char]
    split
    · exact h.substitute _
    · exact alike_feedPlain (h.substitute _) char

/-- A `>>` at the end is a substitution. -/
theorem finish_of_doubled (doubled : d.opened = .doubled) :
    d.finish = (d.substitute (.remainder .owner)).finish := by
  unfold finish
  rw [doubled]
  rfl

theorem alike_finish_of_none (h : d.Alike d') (none : d.opened = .none) (none' : d'.opened = .none) :
    EndAlike Flaw.Same Eq d.finish d'.finish := by
  have groups := h.group
  unfold finish
  simp only [none, none', reduceCtorEq, if_false]
  cases hd : d.group <;> cases hd' : d'.group <;> rw [hd, hd'] at groups
  · exact congrArg List.reverse h.flush.segments.symm
  · cases groups
  · cases groups
  · exact rfl

theorem alike_finish (h : d.Alike d') : EndAlike Flaw.Same Eq d.finish d'.finish := by
  have opened := h.opened
  cases hd : d.opened <;> cases hd' : d'.opened <;> rw [hd, hd'] at opened <;> cases opened
  · exact alike_finish_of_none h hd hd'
  · unfold finish
    rw [hd, hd']
    exact rfl
  · rw [finish_of_doubled hd, finish_of_doubled hd']
    exact alike_finish_of_none (h.substitute _) rfl rfl

end TemplateDraft

/-- **Templates with the same characters are read alike.** -/
theorem Template.alike_ofMarks {ms ms' : List Mark} (same : Mark.text ms' = Mark.text ms) :
    EndAlike Flaw.Same Eq (ofMarks ms) (ofMarks ms') := by
  have chars : List.Forall₂ (fun m m' : Mark => m.char = m'.char) ms ms' :=
    List.forall₂_map_left_iff.1 (List.forall₂_map_right_iff.1
      (by rw [List.forall₂_eq_eq_eq]; exact same.symm))
  exact (EndAlike.foldlM chars (fun _ _ _ _ _ _ char h => TemplateDraft.alike_feed h char.symm)
    ⟨rfl, .none, rfl, .none⟩).bind fun _ _ h => TemplateDraft.alike_finish h

/-! ## Rules -/

/-- The part of a rule body that is read as a template. -/
def RuleBody.templateMarks (ms : List Mark) : List Mark :=
  match splitKey? ms with
  | none => ms
  | some (_, rest) => rest

/-- The template of the body is without covered blanks. -/
def Body.Apart (C : Nat → Prop) (b : Body) : Prop := ∀ m ∈ RuleBody.templateMarks b.marks, ¬ C m.offset

section

variable {b b' : Body}

namespace RuleBody

theorem text_dropApostrophe {ms ms' : List Mark} (same : Mark.text ms' = Mark.text ms) :
    Mark.text (dropApostrophe ms') = Mark.text (dropApostrophe ms) := by
  cases ms <;> cases ms'
  · rfl
  · cases same
  · cases same
  · obtain ⟨char, same⟩ := List.cons.inj same
    dsimp only [dropApostrophe]
    rw [char]
    split
    · exact same
    · exact congrArg₂ List.cons char same

/-- **Bodies that are alike are read alike** if their templates are without covered blanks. -/
theorem alike_ofBody (h : Mark.Alike C C' true b.marks b'.marks) (apart : b.Apart C)
    (apart' : b'.Apart C') : EndAlike Flaw.Same Eq (ofBody b) (ofBody b') := by
  have read (key : Option Key) {ms ms' : List Mark} (same : Mark.text ms' = Mark.text ms) :
      EndAlike Flaw.Same Eq
        (do return (⟨key, ← Template.ofMarks (dropApostrophe ms)⟩ : RuleBody))
        (do return ⟨key, ← Template.ofMarks (dropApostrophe ms')⟩) :=
    (Template.alike_ofMarks (text_dropApostrophe same)).bind fun _ _ same => congrArg _ same
  unfold Body.Apart templateMarks at apart apart'
  unfold ofBody
  rcases alike_splitKey? h with ⟨hb, hb'⟩ | ⟨key, key', rest, rest', hb, hb', keys, rests⟩
  · rw [hb] at apart
    rw [hb'] at apart'
    rw [hb, hb']
    exact read none (h.text_eq apart apart')
  · rw [hb] at apart
    rw [hb'] at apart'
    rw [hb, hb']
    have same := rests.text_eq apart apart'
    dsimp only
    rw [← keyText, ← keyText]
    rcases alike_ofText? keys with eq | ⟨unread, unread'⟩
    · rw [eq]
      cases Key.ofText? (keyText key) with
      | none => exact rfl
      | some k => exact read (some k) same
    · rw [unread, unread']
      exact rfl

end RuleBody

namespace RuleSet

theorem alike_addBody (s : RuleSet) (h : Body.Alike C C' b b') (apart : b.Apart C)
    (apart' : b'.Apart C') : EndAlike Flaw.Same Eq (s.addBody b) (s.addBody b') := by
  refine (RuleBody.alike_ofBody h.marks apart apart').bind fun body _ same => ?_
  subst same
  exact (EndAlike.refl (fun _ => rfl) (fun _ => rfl) (s.add body)).mapError fun _ _ same =>
    congrArg CompileFault.bare same.symm

/-- **Rule sets that are alike are read alike** if their templates are without covered blanks. -/
theorem alike_ofSource {source source' : SetSource} (h : SetSource.Alike C C' source source')
    (apart : ∀ b ∈ source.bodies, b.Apart C) (apart' : ∀ b ∈ source'.bodies, b.Apart C') :
    EndAlike CompileError.Same Eq (ofSource source) (ofSource source') := by
  have read (s : RuleSet) : EndAlike Flaw.Same Eq (source.bodies.foldlM addBody s)
      (source'.bodies.foldlM addBody s) := by
    refine EndAlike.foldlM (S := Eq) h.bodies (fun s s' b b' hb hb' alike same => ?_) rfl
    subst same
    exact alike_addBody s alike (apart b hb) (apart' b' hb')
  unfold ofSource
  rw [h.name]
  exact (read _).mapError fun _ _ same => same.inSet source.name

end RuleSet

/-- A rule set is refused for its name, or read alike. -/
theorem RuleBook.alike_addSource (sets : List RuleSet) {source source' : SetSource}
    (h : SetSource.Alike C C' source source') (apart : ∀ b ∈ source.bodies, b.Apart C)
    (apart' : ∀ b ∈ source'.bodies, b.Apart C') :
    EndAlike CompileError.Same Eq (addSource sets source) (addSource sets source') := by
  unfold addSource
  rw [h.name]
  split
  · exact rfl
  · exact (RuleSet.alike_ofSource h apart apart').bind fun _ _ same => congrArg (· :: sets) same

end

/-! ## The lenient section -/

/-- The items are the same, but for the offset of a quotation. -/
inductive OpenItem.Alike : OpenItem → OpenItem → Prop
  | none : Alike .none .none
  | quoted {offset offset' : Nat} {t : Text} : Alike (.quoted offset t) (.quoted offset' t)
  | quoteEnd {offset offset' : Nat} {t : Text} : Alike (.quoteEnd offset t) (.quoteEnd offset' t)
  | bare {t : Text} : Alike (.bare t) (.bare t)

/-- The item is a quotation that is not closed. -/
def OpenItem.isQuoted : OpenItem → Bool
  | .quoted .. => true
  | _ => false

namespace EquivalenceDraft

/-- The drafts are the same, but for the offset of a quotation. -/
structure Alike (d d' : EquivalenceDraft) : Prop where
  groups : d'.groups = d.groups
  item : d.item.Alike d'.item

/-- The characters that are read inside quotations. -/
def quotedMarks (d : EquivalenceDraft) : List Mark → List Mark
  | [] => []
  | m :: ms => if d.item.isQuoted then m :: quotedMarks (d.feed m) ms else quotedMarks (d.feed m) ms

/-- The draft behind a blank that is not quoted. -/
def settle (d : EquivalenceDraft) : EquivalenceDraft :=
  match d.item with
  | .quoteEnd _ t | .bare t => d.push t
  | .none | .quoted .. => d

variable {d d' : EquivalenceDraft} {m m' : Mark} {ms ms' : List Mark}

theorem Alike.push (h : d.Alike d') (t : Text) : (d.push t).Alike (d'.push t) := by
  unfold EquivalenceDraft.push
  rw [h.groups]
  split
  · exact ⟨rfl, .none⟩
  · split <;> exact ⟨rfl, .none⟩

theorem Alike.feedBetween (h : d.Alike d') (char : m'.char = m.char) :
    (d.feedBetween m).Alike (d'.feedBetween m') := by
  unfold EquivalenceDraft.feedBetween Mark.isBlank
  rw [char]
  split
  · exact h
  split
  · exact ⟨congrArg ([] :: ·) h.groups, h.item⟩
  split
  · exact ⟨h.groups, .quoted⟩
  · exact ⟨h.groups, .bare⟩

/-- **A character keeps drafts alike,** wherever it stands. -/
theorem Alike.feed (h : d.Alike d') (char : m'.char = m.char) : (d.feed m).Alike (d'.feed m') := by
  have item := h.item
  unfold EquivalenceDraft.feed
  cases hd : d.item <;> cases hd' : d'.item <;> rw [hd, hd'] at item <;> cases item
  · exact h.feedBetween char
  · dsimp only
    rw [char]
    split
    · exact ⟨h.groups, .quoteEnd⟩
    · exact ⟨h.groups, .quoted⟩
  · dsimp only
    rw [char]
    split
    · exact ⟨h.groups, .quoted⟩
    · exact (h.push _).feedBetween char
  · dsimp only
    rw [char]
    split
    · exact (h.push _).feedBetween char
    · exact ⟨h.groups, .bare⟩

theorem Alike.settle (h : d.Alike d') : d.settle.Alike d'.settle := by
  have item := h.item
  unfold EquivalenceDraft.settle
  cases hd : d.item <;> cases hd' : d'.item <;> rw [hd, hd'] at item <;> cases item
  · exact h
  · exact h
  · exact h.push _
  · exact h.push _

theorem feedBetween_of_isBlank (d : EquivalenceDraft) (blank : m.isBlank) : d.feedBetween m = d := by
  unfold EquivalenceDraft.feedBetween
  rw [blank, Bool.true_or, if_pos rfl]

/-- A blank that is not quoted settles the item. -/
theorem feed_of_isBlank (unquoted : d.item.isQuoted = false) (blank : m.isBlank) :
    d.feed m = d.settle := by
  have noQuote : m.char ≠ '\'' := Mark.ne_of_isSolid blank (by decide)
  have ends : endsRun m.char := by simp [endsRun, show Text.isBlank m.char from blank]
  unfold EquivalenceDraft.feed EquivalenceDraft.settle
  cases hd : d.item with
  | none => exact feedBetween_of_isBlank d blank
  | quoted offset t =>
    rw [hd] at unquoted
    cases unquoted
  | quoteEnd offset t =>
    exact (if_neg noQuote).trans (feedBetween_of_isBlank _ blank)
  | bare t =>
    exact (if_pos ends).trans (feedBetween_of_isBlank _ blank)

theorem item_settle (unquoted : d.item.isQuoted = false) : d.settle.item = .none := by
  unfold EquivalenceDraft.settle
  cases hd : d.item with
  | none => exact hd
  | quoted offset t =>
    rw [hd] at unquoted
    cases unquoted
  | quoteEnd offset t => exact item_push ..
  | bare t => exact item_push ..

/-- Between items blanks are passed over. -/
theorem foldl_feed_of_none (none : d.item = .none) (blank : ∀ m ∈ ms, m.isBlank) (rest : List Mark) :
    (ms ++ rest).foldl feed d = rest.foldl feed d ∧ quotedMarks d (ms ++ rest) = quotedMarks d rest := by
  induction ms with
  | nil => exact ⟨rfl, rfl⟩
  | cons m ms ih =>
    obtain ⟨hm, blank⟩ := List.forall_mem_cons.1 blank
    have same : d.feed m = d := by
      unfold feed
      rw [none]
      exact feedBetween_of_isBlank d hm
    have unquoted : d.item.isQuoted = false := by rw [none]; rfl
    rw [List.cons_append, List.foldl_cons, quotedMarks, unquoted, same]
    exact ih blank

/-- **Blanks that are not quoted settle the item,** however many there are. -/
theorem foldl_feed_of_isBlank (unquoted : d.item.isQuoted = false) (ne : ms ≠ [])
    (blank : ∀ m ∈ ms, m.isBlank) (rest : List Mark) :
    (ms ++ rest).foldl feed d = rest.foldl feed d.settle ∧
      quotedMarks d (ms ++ rest) = quotedMarks d.settle rest := by
  obtain ⟨m, ms, rfl⟩ := List.exists_cons_of_ne_nil ne
  obtain ⟨hm, blank⟩ := List.forall_mem_cons.1 blank
  rw [List.cons_append, List.foldl_cons, quotedMarks, unquoted, feed_of_isBlank unquoted hm]
  exact foldl_feed_of_none (item_settle unquoted) blank rest

theorem Alike.isQuoted (h : d.Alike d') : d'.item.isQuoted = d.item.isQuoted := by
  have item := h.item
  cases hd : d.item <;> cases hd' : d'.item <;> rw [hd, hd'] at item <;> cases item <;> rfl

/-- A covered blank is not quoted if quotations are without them. -/
theorem isQuoted_of_gap {bs rest : List Mark} (gap : Mark.Gap C bs)
    (apart : ∀ m ∈ quotedMarks d (bs ++ rest), ¬ C m.offset) : d.item.isQuoted = false := by
  obtain ⟨b, bs, rfl⟩ := List.exists_cons_of_ne_nil gap.ne_nil
  refine Bool.eq_false_iff.2 fun quoted => ?_
  rw [List.cons_append, quotedMarks, if_pos quoted] at apart
  exact apart b (by simp) (gap.covered b (by simp))

/-- **Marks that are alike keep drafts alike** if quotations are without covered blanks. -/
theorem alike_foldl (h : Mark.Alike C C' false ms ms') (drafts : d.Alike d')
    (apart : ∀ m ∈ quotedMarks d ms, ¬ C m.offset)
    (apart' : ∀ m ∈ quotedMarks d' ms', ¬ C' m.offset) :
    (ms.foldl feed d).Alike (ms'.foldl feed d') := by
  have later {C : Nat → Prop} {d : EquivalenceDraft} {m : Mark} {ms : List Mark}
      (apart : ∀ x ∈ quotedMarks d (m :: ms), ¬ C x.offset) :
      ∀ x ∈ quotedMarks (d.feed m) ms, ¬ C x.offset := by
    rw [quotedMarks] at apart
    split at apart
    · exact (List.forall_mem_cons.1 apart).2
    · exact apart
  induction h generalizing d d' with
  | nil => exact drafts
  | cons char _ ih => exact ih (drafts.feed char) (later apart) (later apart')
  | @gap bs bs' ms ms' hb hb' h ih =>
    have unquoted := isQuoted_of_gap hb apart
    obtain ⟨settled, marks⟩ := foldl_feed_of_isBlank unquoted hb.ne_nil hb.isBlank ms
    obtain ⟨settled', marks'⟩ :=
      foldl_feed_of_isBlank (drafts.isQuoted.trans unquoted) hb'.ne_nil hb'.isBlank ms'
    rw [marks] at apart
    rw [marks'] at apart'
    rw [settled, settled']
    exact ih drafts.settle apart apart'
  | trail hcut => cases hcut

theorem alike_finish (h : d.Alike d') : EndAlike Flaw.Same Eq d.finish d'.finish := by
  have item := h.item
  have ended {d d' : EquivalenceDraft} (h : d.Alike d') : d.equivalences = d'.equivalences := by
    unfold equivalences
    rw [h.groups]
  unfold finish
  cases hd : d.item <;> cases hd' : d'.item <;> rw [hd, hd'] at item <;> cases item
  · exact ended h
  · exact rfl
  · exact ended (h.push _)
  · exact ended (h.push _)

end EquivalenceDraft

/-- **Lenient sections that are alike are read alike** if quotations are without covered blanks. -/
theorem Equivalences.alike_ofMarks {ms ms' : List Mark} (h : Mark.Alike C C' false ms ms')
    (apart : ∀ m ∈ EquivalenceDraft.quotedMarks {} ms, ¬ C m.offset)
    (apart' : ∀ m ∈ EquivalenceDraft.quotedMarks {} ms', ¬ C' m.offset) :
    EndAlike CompileError.Same Eq (ofMarks ms) (ofMarks ms') :=
  (EquivalenceDraft.alike_finish (EquivalenceDraft.alike_foldl h ⟨rfl, .none⟩ apart apart')).mapError
    fun _ _ same => same.inSet SetName.lenient

theorem RuleBook.alike_readLenient {ms ms' : Option (List Mark)}
    (h : Option.Rel (Mark.Alike C C' false) ms ms')
    (apart : ∀ body, ms = some body → ∀ m ∈ EquivalenceDraft.quotedMarks {} body, ¬ C m.offset)
    (apart' : ∀ body, ms' = some body → ∀ m ∈ EquivalenceDraft.quotedMarks {} body, ¬ C' m.offset) :
    EndAlike CompileError.Same Eq (readLenient ms) (readLenient ms') := by
  cases h with
  | none => exact rfl
  | some alike => exact Equivalences.alike_ofMarks alike (apart _ rfl) (apart' _ rfl)

end Spellout
