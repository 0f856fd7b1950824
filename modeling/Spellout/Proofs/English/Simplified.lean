/-
  The rule set for cardinals in American English.

  Its rules follow the lexicon: a word below twenty is a rule of its own, tens may go on with units
  behind a hyphen, and scales count a quotient and may go on with a remainder behind a space.

  * `rule` is the rule of a word, `simplified` the rule set;
  * `find?_usEnglish`: it is the one that the description of American English compiles to;
  * `mem_ladder`: the rules of the set;
  * `levels` is the number of levels that numbers below a bound are read and written on.
-/
import Spellout.Description
import Spellout.Proofs.English.Phrase
import Spellout.Proofs.Reading.Letters
import Spellout.Samples.English

namespace Spellout.English

/-! ## Rules -/

/-- The text of the rule of a word. -/
def template (b : Nat) : Template :=
  if b < 20 then [.piece (.literal (word b))]
  else if b < 100 then
    [.piece (.literal (word b)), .optional [.literal ['-'], .substitution (.remainder .owner)]]
  else
    [.piece (.substitution (.quotient .owner)), .piece (.literal (' ' :: word b)),
      .optional [.literal [' '], .substitution (.remainder .owner)]]

/-- The rule of a word. -/
def rule (b : Nat) : Rule := ⟨b, 10, 0, b < 20, template b⟩

/-- A numeral for the value itself. -/
def numeralPiece : Piece :=
  .substitution (.same (.numeral ⟨"#,##0".toList, 1, some 3, 0, 0⟩))

/-- The rule for numbers without words. -/
def numeralRule : Rule := ⟨10 ^ 15, 10, 0, false, [.piece numeralPiece]⟩

/-- The rule of numbers below zero. -/
def minusTemplate : Template :=
  [.piece (.literal "minus ".toList), .piece (.substitution (.remainder .owner))]

/-- The rule of numbers with a fraction. -/
def pointTemplate : Template :=
  [.piece (.substitution (.quotient .owner)), .piece (.literal " point ".toList),
    .piece (.substitution (.remainder .owner))]

/-- The rule set of cardinals. -/
def simplified : RuleSet where
  name := "%simplified".toList
  negative := some minusTemplate
  improper := some pointTemplate
  ladder := numeralRule :: bases.reverse.map rule

/-- A text is known from the characters that its literal is made of. -/
theorem toList_literal {P : Text → Prop} {t : Text} (h : P t) : P (String.ofList t).toList := by
  rw [String.toList_ofList]
  exact h

-- the reader of descriptions is as deep as the text is long
set_option maxRecDepth 10000 in
/-- **American English has this rule set,** and leniently takes a space and a comma as equal. -/
theorem find?_usEnglish :
    (RuleBook.ofDescription Samples.usEnglish.toList).map (fun book =>
      (book.find? "%simplified".toList, book.equivalences)) =
        .ok (some simplified, .spaceComma) := by
  let compiles (t : Text) : Prop :=
    (RuleBook.ofDescription t).map (fun book =>
      (book.find? "%simplified".toList, book.equivalences)) = .ok (some simplified, .spaceComma)
  show compiles _
  refine toList_literal (P := compiles) ?_
  decide +kernel

theorem rule_mem_ladder {b : Nat} (hb : b ∈ bases) : rule b ∈ simplified.ladder :=
  List.mem_cons_of_mem _ (List.mem_map_of_mem (List.mem_reverse.2 hb))

theorem mem_ladder {r : Rule} (h : r ∈ simplified.ladder) :
    r = numeralRule ∨ ∃ b ∈ bases, r = rule b := by
  rcases List.mem_cons.1 h with rfl | h
  · exact .inl rfl
  · obtain ⟨b, hb, rfl⟩ := List.mem_map.1 h
    exact .inr ⟨b, List.mem_reverse.1 hb, rfl⟩

/-! ## Divisors -/

theorem divisor_tens {b : Nat} (h : b ∈ bases) (ge : 20 ≤ b) (lt : b < 100) :
    (rule b).divisor = 10 ∧ b % 10 = 0 := by
  have all : ∀ b ∈ bases, 20 ≤ b → b < 100 → (rule b).divisor = 10 ∧ b % 10 = 0 := by
    decide +kernel
  exact all b h ge lt

theorem divisor_scale {b : Nat} (h : b ∈ bases) (ge : 100 ≤ b) : (rule b).divisor = b := by
  have all : ∀ b ∈ bases, 100 ≤ b → (rule b).divisor = b := by
    decide +kernel
  exact all b h ge

theorem divisor_le {b : Nat} (h : b ∈ bases) (ge : 20 ≤ b) : (rule b).divisor ≤ b := by
  rcases Nat.lt_or_ge b 100 with lt | ge'
  · rw [(divisor_tens h ge lt).1]
    omega
  · rw [divisor_scale h ge']

/-! ## Levels -/

/-- The divisors that rules split numbers with. -/
def divisors : List Nat := [10, 100, 1000, 10 ^ 6, 10 ^ 9, 10 ^ 12]

/-- The number of levels on which numbers below a bound are read and written. -/
def levels (b : Nat) : Nat := divisors.countP (· < b) + 1

/-- There is always a level. -/
theorem exists_succ {b n : Nat} (enough : levels b ≤ n) : ∃ k, n = k + 1 := by
  have pos : 0 < levels b := Nat.succ_pos _
  exact ⟨n - 1, by omega⟩

theorem levels_le (b : Nat) : levels b ≤ 7 := by
  have := List.countP_le_length (p := fun d => decide (d < b)) (l := divisors)
  have : divisors.length = 6 := rfl
  unfold levels
  omega

theorem levels_mono {b b' : Nat} (h : b ≤ b') : levels b ≤ levels b' := by
  refine Nat.succ_le_succ (List.countP_mono_left fun d _ hd => ?_)
  simp only [decide_eq_true_eq] at hd ⊢
  omega

/-- A divisor takes one level. -/
theorem levels_lt {d b : Nat} (h : d ∈ divisors) (lt : d < b) : levels d < levels b := by
  have less : ∀ d ∈ divisors, levels d < levels (d + 1) := by
    decide +kernel
  exact Nat.lt_of_lt_of_le (less d h) (levels_mono lt)

theorem divisor_mem {b : Nat} (h : b ∈ bases) (ge : 20 ≤ b) : (rule b).divisor ∈ divisors := by
  have all : ∀ b ∈ bases, 20 ≤ b → (rule b).divisor ∈ divisors := by
    decide +kernel
  exact all b h ge

/-- Below the divisor of a rule there is a level less than in all. -/
theorem levels_divisor_le {b : Nat} (h : b ∈ bases) (ge : 20 ≤ b) :
    levels (rule b).divisor ≤ 6 := by
  have less := levels_lt (divisor_mem h ge) (Nat.lt_succ_self _)
  have most := levels_le ((rule b).divisor + 1)
  exact Nat.le_of_lt_succ (Nat.lt_of_lt_of_le less most)

end Spellout.English
