/-
  Texts that requests are met with.

  * `Plan.real_of_whole`, `Plan.real_of_negative`: how integral values are met;
  * `Speller.Writes`: a request is met with a text, whatever steps lead to it;
  * `Speller.Fills`: the pieces of a template are filled with a text, piece by piece;
  * `Speller.spell_of_plan`: a request is met with the pieces of the rule applied to it;
  * `Speller.writes_of_plan`: a request is met with the text that fills the rule applied to it.
-/
import Spellout.Spelling.Expansion

namespace Spellout

namespace Spelling

@[simp] theorem text_append (a b : Spelling) : (a ++ b).text = a.text ++ b.text := rfl

@[simp] theorem join_nil : join [] = ofText [] := rfl

@[simp] theorem join_cons (a : Spelling) (parts : List Spelling) :
    join (a :: parts) = a ++ join parts := rfl

theorem text_join (parts : List Spelling) :
    (join parts).text = (parts.map text).flatten := by
  induction parts with
  | nil => rfl
  | cons a parts ih => rw [join_cons, text_append, ih, List.map_cons, List.flatten_cons]

theorem steps_join (parts : List Spelling) : (join parts).steps = parts.flatMap steps := by
  induction parts with
  | nil => rfl
  | cons a parts ih =>
    rw [List.flatMap_cons, ← ih]
    rfl

theorem map_intersperse {α β : Type} (f : α → β) (separator : α) : ∀ l : List α,
    (l.intersperse separator).map f = (l.map f).intersperse (f separator)
  | [] => rfl
  | [_] => rfl
  | a :: b :: l => by
    rw [List.intersperse_cons_cons, List.map_cons, List.map_cons, map_intersperse f separator (b :: l)]
    rfl

theorem mem_of_mem_intersperse {α : Type} {x separator : α} : ∀ {l : List α},
    x ∈ l.intersperse separator → x = separator ∨ x ∈ l
  | [], h => .inr h
  | [_], h => .inr h
  | a :: b :: l, h => by
    rw [List.intersperse_cons_cons, List.mem_cons, List.mem_cons] at h
    rcases h with rfl | rfl | h
    · exact .inr List.mem_cons_self
    · exact .inl rfl
    · exact (mem_of_mem_intersperse h).imp_right (List.mem_cons_of_mem _)

end Spelling

/-! ## Plans -/

namespace Plan

variable {s : RuleSet} {v : Binary64} {n : Nat}

/-- An integral value is spelled out as a natural number, if no rule takes all values. -/
theorem real_of_whole (plain : s.whole = none) (sign : v.isNegative = false) (int : v.isIntegral)
    (hn : wholeOf v = .ok n) :
    Request.plan (.value s (.real v)) = Request.plan (.value s (.whole n)) := by
  simp only [Request.plan, Plan.real, sign, int, plain, hn, Bool.false_eq_true, if_false, if_true]
  rfl

/-- A value below zero is spelled out by the rule for such values, if there is one. -/
theorem real_of_negative {t : Template} (minus : s.negative = some t) (sign : v.isNegative)
    (int : v.neg.isIntegral) (hn : wholeOf v.neg = .ok n) :
    Request.plan (.value s (.real v)) = .ok (.apply ⟨s, .special .negative, (Operand.whole n).neg, t,
      .negative (.whole n)⟩) := by
  simp only [Request.plan, Plan.real, sign, Operand.ofReal, int, hn, if_true, Plan.negative, minus]
  rfl

end Plan

/-! ## Texts -/

namespace Speller

variable {sp : Speller} {fuel depth : Nat} {a : Applied} {r : Request} {ps : List Piece} {t u : Text}

/-- The request is met with the text. -/
def Writes (sp : Speller) (fuel depth : Nat) (r : Request) (t : Text) : Prop :=
  ∃ s, sp.spell fuel depth r = .ok s ∧ s.text = t

/-- The pieces are filled with the text when the rule is applied. -/
def Fills (sp : Speller) (fuel depth : Nat) (a : Applied) (ps : List Piece) (t : Text) : Prop :=
  ∃ parts, ps.mapM (sp.expandPiece (sp.spell fuel depth) a) = .ok parts ∧
    (Spelling.join parts).text = t

theorem Fills.nil : sp.Fills fuel depth a [] [] := ⟨[], rfl, rfl⟩

theorem Fills.cons {p : Piece} {s : Spelling}
    (hp : sp.expandPiece (sp.spell fuel depth) a p = .ok s) (h : sp.Fills fuel depth a ps t) :
    sp.Fills fuel depth a (p :: ps) (s.text ++ t) := by
  obtain ⟨parts, hparts, rfl⟩ := h
  refine ⟨s :: parts, ?_, rfl⟩
  rw [List.mapM_cons, hp, hparts]
  rfl

theorem Fills.literal (l : Text) (h : sp.Fills fuel depth a ps t) :
    sp.Fills fuel depth a (.literal l :: ps) (l ++ t) :=
  Fills.cons (s := .ofText l) rfl h

theorem Fills.spelled {sub : Substitution} (hi : a.insertion sp.book sub = .ok (.spelled r))
    (hr : sp.Writes fuel depth r u) (h : sp.Fills fuel depth a ps t) :
    sp.Fills fuel depth a (.substitution sub :: ps) (u ++ t) := by
  obtain ⟨s, hs, rfl⟩ := hr
  refine Fills.cons (s := s) ?_ h
  rw [expandPiece, hi]
  exact hs

/-- A request is met with the pieces of its rule that are written, one level deeper. -/
theorem spell_of_plan (hp : r.plan = .ok (.apply a)) :
    sp.spell (fuel + 1) depth r = do
      let parts ← a.pieces.mapM (sp.expandPiece (sp.spell fuel (depth + 1)) a)
      return ⟨[], [a.step depth]⟩ ++ .join parts := by
  rw [spell, hp]
  rfl

/-- **A request is met with the text that fills its rule,** one level deeper. -/
theorem writes_of_plan (hp : r.plan = .ok (.apply a)) (h : sp.Fills fuel (depth + 1) a a.pieces t) :
    sp.Writes (fuel + 1) depth r t := by
  obtain ⟨parts, hparts, rfl⟩ := h
  refine ⟨⟨[], [a.step depth]⟩ ++ Spelling.join parts, ?_, rfl⟩
  rw [spell_of_plan hp]
  simp only [bind, Except.bind, hparts, pure, Except.pure]

/-- Requests with one plan are met with the same texts. -/
theorem Writes.congr {r' : Request} (hp : r.plan = r'.plan)
    (h : sp.Writes (fuel + 1) depth r t) : sp.Writes (fuel + 1) depth r' t := by
  obtain ⟨s, hs, rfl⟩ := h
  refine ⟨s, ?_, rfl⟩
  rw [spell] at hs ⊢
  rw [← hp]
  exact hs

end Speller
end Spellout
