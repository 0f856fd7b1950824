/-
  Tidy templates.

  A template that has been read holds no empty literal, no literal with a character that structures
  templates, and no two literals side by side, neither at the top nor in a group.  Groups are not
  nested, for they hold pieces only.

  The characters of a literal are gathered and put into the template as soon as something else
  comes.  So what stands last in the template, as long as characters are gathered, is no literal.

  * `Template.Tidy`: the template is so;
  * `TemplateDraft.Tidy`: so is a template that is being read, and a literal may come next;
  * `TemplateDraft.tidy_feed`: a character keeps it so;
  * `Template.tidy_ofMarks`: a template that has been read is tidy.
-/
import Mathlib.Data.List.Chain
import Spellout.Description.Template
import Spellout.Proofs.Success

namespace Spellout

/-! ## Tidy templates -/

namespace Piece

/-- A literal is not empty, and no character of it structures templates. -/
def Tidy : Piece → Prop
  | .literal t => t ≠ [] ∧ ∀ c ∈ t, c ∉ ['[', ']', '<', '>', '=']
  | .substitution _ => True

/-- The piece is a literal. -/
def isLiteral : Piece → Bool
  | .literal _ => true
  | .substitution _ => false

/-- The pieces are not both literals. -/
def Apart (p q : Piece) : Prop := ¬ (p.isLiteral ∧ q.isLiteral)

end Piece

/-- The pieces of a group are tidy, and no two literals stand side by side. -/
structure TidyGroup (ps : List Piece) : Prop where
  pieces : ∀ p ∈ ps, p.Tidy
  apart : ps.IsChain Piece.Apart

namespace Segment

/-- The piece or the group is tidy. -/
def Tidy : Segment → Prop
  | .piece p => p.Tidy
  | .optional ps => TidyGroup ps

/-- The segment is a literal. -/
def isLiteral : Segment → Bool
  | .piece p => p.isLiteral
  | .optional _ => false

/-- The segments are not both literals. -/
def Apart (a b : Segment) : Prop := ¬ (a.isLiteral ∧ b.isLiteral)

end Segment

/-- Pieces and groups are tidy, and no two literals stand side by side. -/
structure Template.Tidy (t : Template) : Prop where
  segments : ∀ seg ∈ t, seg.Tidy
  apart : t.IsChain Segment.Apart

theorem TidyGroup.reverse {ps : List Piece} (h : TidyGroup ps) : TidyGroup ps.reverse where
  pieces p hp := h.pieces p (List.mem_reverse.1 hp)
  apart := List.isChain_reverse.2 (h.apart.imp fun _ _ apart both => apart both.symm)

theorem Template.Tidy.reverse {t : Template} (h : t.Tidy) : Template.Tidy t.reverse where
  segments seg hs := h.segments seg (List.mem_reverse.1 hs)
  apart := List.isChain_reverse.2 (h.apart.imp fun _ _ apart both => apart both.symm)

/-- Something comes in front of what it does not clash with. -/
theorem isChain_cons_of_head? {α : Type} {p : α → Bool} {a : α} {l : List α}
    (chain : l.IsChain fun a b => ¬ (p a ∧ p b)) (apart : p a → l.head?.any p = false) :
    (a :: l).IsChain fun a b => ¬ (p a ∧ p b) := by
  refine List.isChain_cons.2 ⟨fun b hb both => ?_, chain⟩
  have := apart both.1
  rw [Option.mem_def.1 hb] at this
  simp [both.2] at this

theorem TidyGroup.cons {ps : List Piece} (h : TidyGroup ps) {p : Piece} (hp : p.Tidy)
    (apart : p.isLiteral → ps.head?.any Piece.isLiteral = false) : TidyGroup (p :: ps) where
  pieces := List.forall_mem_cons.2 ⟨hp, h.pieces⟩
  apart := isChain_cons_of_head? h.apart apart

theorem Template.Tidy.cons {t : Template} (h : t.Tidy) {seg : Segment} (hs : seg.Tidy)
    (apart : seg.isLiteral → t.head?.any Segment.isLiteral = false) : Template.Tidy (seg :: t) where
  segments := List.forall_mem_cons.2 ⟨hs, h.segments⟩
  apart := isChain_cons_of_head? h.apart apart

/-! ## Reading -/

namespace TemplateDraft

variable {d d' : TemplateDraft} {p : Piece}

/-- What comes next stands behind a literal. -/
def behindLiteral (d : TemplateDraft) : Bool :=
  match d.group with
  | some (_, ps) => ps.head?.any Piece.isLiteral
  | none => d.segments.head?.any Segment.isLiteral

/-- What the draft holds is tidy, but for the characters that are gathered. -/
structure Holds (d : TemplateDraft) : Prop where
  segments : Template.Tidy d.segments
  group : ∀ offset ps, d.group = some (offset, ps) → TidyGroup ps

/-- The draft is tidy, and the characters that are gathered may become a literal. -/
structure Tidy (d : TemplateDraft) : Prop extends Holds d where
  literal : ∀ c ∈ d.literal, c ∉ ['[', ']', '<', '>', '=']
  behind : d.behindLiteral = false

theorem Tidy.withOpened (h : d.Tidy) (opened : OpenSubstitution) : Tidy { d with opened } :=
  ⟨⟨h.segments, h.group⟩, h.literal, h.behind⟩

theorem behindLiteral_push (d : TemplateDraft) (p : Piece) :
    (d.push p).behindLiteral = p.isLiteral := by
  unfold push
  split <;> simp [behindLiteral, *, Segment.isLiteral]

theorem literal_push (d : TemplateDraft) (p : Piece) : (d.push p).literal = d.literal := by
  unfold push
  split <;> rfl

theorem Holds.push (h : d.Holds) (hp : p.Tidy) (apart : p.isLiteral → d.behindLiteral = false) :
    (d.push p).Holds := by
  unfold TemplateDraft.push
  split
  · rename_i offset ps hg
    simp only [behindLiteral, hg] at apart
    refine ⟨h.segments, fun offset' ps' eq => ?_⟩
    obtain ⟨rfl, rfl⟩ := Prod.mk.inj (Option.some.inj eq)
    exact (h.group _ _ hg).cons hp apart
  · rename_i hg
    simp only [behindLiteral, hg] at apart
    exact ⟨h.segments.cons hp apart, h.group⟩

/-- A literal that is put into the draft stands apart from the literals there. -/
theorem Tidy.flush (h : d.Tidy) : d.flush.Holds ∧ d.flush.literal = [] := by
  unfold TemplateDraft.flush
  split
  · exact ⟨h.toHolds, ‹_›⟩
  · rename_i ne
    have tidy : (Piece.literal d.literal.reverse).Tidy :=
      ⟨fun nil => ne (List.reverse_eq_nil_iff.1 nil), fun c hc => h.literal c (List.mem_reverse.1 hc)⟩
    have holds := h.toHolds.push tidy fun _ => h.behind
    exact ⟨⟨holds.segments, holds.group⟩, rfl⟩

theorem Tidy.substitute (h : d.Tidy) (sub : Substitution) : (d.substitute sub).Tidy := by
  obtain ⟨holds, empty⟩ := h.flush
  have pushed : (d.flush.push (.substitution sub)).Holds := holds.push trivial nofun
  refine ⟨⟨pushed.segments, pushed.group⟩, ?_, ?_⟩
  · have none : (d.flush.push (.substitution sub)).literal = [] := (literal_push ..).trans empty
    intro c hc
    have hc : c ∈ (d.flush.push (.substitution sub)).literal := hc
    rw [none] at hc
    cases hc
  · exact behindLiteral_push d.flush (.substitution sub)

theorem Tidy.feedPlain (h : d.Tidy) {m : Mark} (hf : d.feedPlain m = .ok d') : d'.Tidy := by
  obtain ⟨holds, empty⟩ := h.flush
  unfold TemplateDraft.feedPlain at hf
  split at hf
  · -- a group is opened, in which nothing stands yet
    split at hf
    · cases hf
    · cases hf
      refine ⟨⟨holds.segments, fun offset ps eq => ?_⟩, ?_, rfl⟩
      · obtain ⟨-, rfl⟩ := Prod.mk.inj (Option.some.inj eq)
        exact ⟨by simp, List.isChain_nil⟩
      · simp [empty]
  · split at hf
    · split at hf
      · cases hf
      · -- a group is closed; a literal may stand behind it
        rename_i ps hg
        cases hf
        have closed : Template.Tidy (.optional ps.reverse :: d.flush.segments) :=
          holds.segments.cons (holds.group _ _ hg).reverse nofun
        exact ⟨⟨closed, nofun⟩, by simp [empty], rfl⟩
    · split at hf
      · cases hf
        exact h.withOpened _
      · cases hf
        refine ⟨⟨h.segments, h.group⟩, List.forall_mem_cons.2 ⟨?_, h.literal⟩, h.behind⟩
        simp_all

/-- **A character keeps the draft tidy.** -/
theorem tidy_feed (h : d.Tidy) {m : Mark} (hf : d.feed m = .ok d') : d'.Tidy := by
  unfold feed at hf
  split at hf
  · exact h.feedPlain hf
  · split at hf
    · cases hf
      exact h.withOpened _
    · split at hf
      · cases hf
        exact h.withOpened _
      · unfold close at hf
        split at hf
        · cases hf
          exact h.substitute _
        · cases hf
  · split at hf
    · cases hf
      exact h.substitute _
    · exact (h.substitute _).feedPlain hf

theorem tidy_finish (h : d.Tidy) {t : Template} (hf : d.finish = .ok t) : t.Tidy := by
  unfold finish at hf
  split at hf
  · cases hf
  · have last : (if d.opened = .doubled then d.substitute (.remainder .owner) else d).Tidy := by
      split
      · exact h.substitute _
      · exact h
    dsimp only at hf
    split at hf
    · cases hf
    · cases hf
      exact last.flush.1.segments.reverse

end TemplateDraft

/-- **A template that has been read is tidy.** -/
theorem Template.tidy_ofMarks {ms : List Mark} {t : Template} (h : Template.ofMarks ms = .ok t) :
    t.Tidy := by
  obtain ⟨d, hd, hf⟩ := bind_eq_ok.1 h
  have start : TemplateDraft.Tidy {} := ⟨⟨⟨by simp, List.isChain_nil⟩, nofun⟩, by simp, rfl⟩
  have tidy := foldlM_preserves (p := TemplateDraft.Tidy)
    (fun _ _ _ hd hf => TemplateDraft.tidy_feed hd hf) start hd
  exact TemplateDraft.tidy_finish tidy hf

end Spellout
