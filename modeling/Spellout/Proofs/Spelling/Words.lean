/-
  Words for the first numbers.

  A set may have a rule for each of the numbers below a bound whose text is a word for it, without
  substitutions.  Such a number is spelled out as its word on any level, whatever other rules there
  are, and the digits of a fraction as their words with a separator between them.

  * `Template.word`: the template that is a text;
  * `RuleSet.Spells`: the set has words for the numbers below a bound;
  * `RuleSet.Spells.writes`: those numbers are spelled out as their words;
  * `Speller.spellDigits`: digits are spelled out one by one;
  * `RuleSet.Spells.spellDigits`: so their words are written, with separators.
-/
import Spellout.Proofs.Spelling.Selection
import Spellout.Proofs.Spelling.Writes

namespace Spellout

/-- The template that is a text: one literal, or nothing for the empty text. -/
def Template.word (t : Text) : Template := if t = [] then [] else [.piece (.literal t)]

/-- The set has words for the numbers below a bound. -/
def RuleSet.Spells (s : RuleSet) (bound : Nat) (w : Nat → Text) : Prop :=
  ∀ d < bound, ∃ rule ∈ s.ladder, rule.base = d ∧ rule.template = .word (w d)

instance (s : RuleSet) (bound : Nat) (w : Nat → Text) : Decidable (s.Spells bound w) :=
  inferInstanceAs (Decidable (∀ d < bound, ∃ rule ∈ s.ladder, _ ∧ _))

variable {s : RuleSet} {bound n : Nat} {w : Nat → Text}

/-! ## Rules with operands -/

/-- A rule that does not step back is applied to the numbers that its base is the greatest for. -/
theorem RuleSet.exists_plan (ordered : s.Ordered) {rule : Rule} (mem : rule ∈ s.ladder)
    (le : rule.base ≤ n) (greatest : ∀ r ∈ s.ladder, r.base ≤ n → r.base ≤ rule.base)
    (stays : rule.stepsBack n = false) :
    ∃ below, Request.plan (.value s (.whole n)) = .ok (Plan.normal s rule below n) := by
  obtain ⟨below, chosen⟩ := exists_chosen?_of_greatest ordered mem le greatest stays
  exact ⟨below, plan_of_chosen? chosen⟩

/-! ## Words -/

theorem Template.substitutionCount_word (t : Text) : (word t).substitutionCount = 0 := by
  unfold word
  split <;> rfl

theorem Template.keeping_word (kept : List Piece → Bool) {t : Text} :
    (word t).keeping kept = if t = [] then [] else [.literal t] := by
  unfold word
  split <;> rfl

/-- **A number with a word is spelled out as it,** on any level. -/
theorem RuleSet.Spells.writes (spells : s.Spells bound w) (ordered : s.Ordered) (lt : n < bound)
    (sp : Speller) (fuel depth : Nat) :
    sp.Writes (fuel + 1) depth (.value s (.whole n)) (w n) := by
  obtain ⟨rule, mem, rfl, word⟩ := spells n lt
  have stays : rule.stepsBack rule.base = false := by
    simp [Rule.stepsBack, word, Template.substitutionCount_word]
  obtain ⟨below, plan⟩ := RuleSet.exists_plan ordered mem (Nat.le_refl _) (fun r _ le => le) stays
  refine Speller.writes_of_plan plan ?_
  rw [Applied.pieces, word, Template.keeping_word]
  split
  · rename_i empty
    rw [empty]
    exact .nil
  · simpa using Speller.Fills.literal (w rule.base) .nil

/-! ## Digits -/

/-- The spelling of digits that are spelled out one by one, with a separator between them. -/
def Speller.spellDigits (ask : Request → Except Error Spelling) (set : RuleSet) (separator : Text)
    (digits : List Nat) : Except Error Spelling := do
  let parts ← digits.mapM fun d => ask (.value set (.whole d))
  return .join (parts.intersperse (.ofText separator))

/-- The digits behind the point of a value are spelled out one by one. -/
theorem Speller.insert_digits (sp : Speller) (ask : Request → Except Error Spelling) (set : RuleSet)
    (v : Binary64) (separator : Text) :
    sp.insert ask (.digits set v separator) = spellDigits ask set separator v.fractionDigits := rfl

theorem RuleSet.Spells.exists_parts (spells : s.Spells bound w) (ordered : s.Ordered) (sp : Speller)
    (fuel depth : Nat) : ∀ {digits : List Nat}, (∀ d ∈ digits, d < bound) →
      ∃ parts, (digits.mapM fun d => sp.spell (fuel + 1) depth (.value s (.whole d))) = .ok parts ∧
        parts.map Spelling.text = digits.map w
  | [], _ => ⟨[], rfl, rfl⟩
  | d :: digits, lt => by
    obtain ⟨first, hfirst, text⟩ := spells.writes ordered (lt d List.mem_cons_self) sp fuel depth
    obtain ⟨parts, hparts, texts⟩ :=
      exists_parts spells ordered sp fuel depth fun e he => lt e (List.mem_cons_of_mem d he)
    refine ⟨first :: parts, ?_, by rw [List.map_cons, List.map_cons, text, texts]⟩
    rw [List.mapM_cons, hfirst, hparts]
    rfl

/-- **Digits with words are spelled out as these,** with the separator between them. -/
theorem RuleSet.Spells.spellDigits (spells : s.Spells bound w) (ordered : s.Ordered) (sp : Speller)
    (fuel depth : Nat) (separator : Text) {digits : List Nat} (lt : ∀ d ∈ digits, d < bound) :
    ∃ spelled, Speller.spellDigits (sp.spell (fuel + 1) depth) s separator digits = .ok spelled ∧
      spelled.text = separator.intercalate (digits.map w) := by
  obtain ⟨parts, hparts, texts⟩ := spells.exists_parts ordered sp fuel depth lt
  refine ⟨.join (parts.intersperse (.ofText separator)), ?_, ?_⟩
  · rw [Speller.spellDigits, hparts]
    rfl
  · rw [Spelling.text_join, Spelling.map_intersperse, texts]
    rfl

end Spellout
