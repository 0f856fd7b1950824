/-
  The default limit suffices for rules that halve.

  A quotient by a divisor of two or more is at most half of what is divided; so is a remainder, if the
  divisor is not above that.  A number below `2 ^ 63` can be halved 63 times before it is zero.  So
  rules that send on nothing but such operands need 64 levels, and one more below zero.

  * `RuleBook.Halving`: rules send on nothing but quotients and remainders that are halves;
  * `Request.Fits`: the levels that are left suffice to halve the number that is asked for;
  * `RuleBook.keeps_fits`: what fits leads to what fits with one level less;
  * `RuleBook.not_givesUp_format`: integral values of such a book are never too deep.
-/
import Spellout.Proofs.GivesUp
import Spellout.Proofs.Number.Whole
import Spellout.Proofs.Spelling.Insertions
import Spellout.Proofs.Spelling.Selection

namespace Spellout

/-! ## Halving rules -/

/-- A rule may have the substitution: it is a numeral, or the operand that is sent to a set is at most
    half of what the rule is for.  For a remainder a base above zero suffices, as the divisor is not
    above such a base. -/
def Substitution.Halves (rule : Rule) : Substitution → Prop
  | .quotient t => t.IsNumeral ∨ 2 ≤ rule.divisor
  | .remainder t => t.IsNumeral ∨ 0 < rule.base
  | .forced => False
  | .same t => t.IsNumeral

instance (rule : Rule) : DecidablePred (Substitution.Halves rule)
  | .quotient _ => inferInstanceAs (Decidable (_ ∨ _))
  | .remainder _ => inferInstanceAs (Decidable (_ ∨ _))
  | .forced => .isFalse id
  | .same t => inferInstanceAs (Decidable t.IsNumeral)

/-- No rule takes all values, and rules with base values halve what they send to sets. -/
structure RuleBook.Halving (book : RuleBook) : Prop where
  /-- There is no rule `x.0`. -/
  plain : ∀ s ∈ book.sets, s.whole = none
  halves : ∀ s ∈ book.sets, ∀ rule ∈ s.ladder, ∀ sub ∈ rule.template.substitutions, sub.Halves rule

/-! ## Levels -/

/-- The number can be halved until the levels are used up, and is zero on the last one. -/
def Halvable (levels n : Nat) : Prop := 0 < levels ∧ n < 2 ^ (levels - 1)

theorem Halvable.half {levels n m : Nat} (h : Halvable (levels + 1) n) (pos : 0 < n)
    (half : 2 * m ≤ n) : Halvable levels m := by
  obtain ⟨-, lt⟩ := h
  rw [Nat.add_sub_cancel] at lt
  cases levels with
  | zero => omega
  | succ levels =>
    rw [Nat.pow_succ] at lt
    exact ⟨Nat.succ_pos _, by rw [Nat.add_sub_cancel]; omega⟩

theorem halvable_of_lt {levels n : Nat} (enough : 64 ≤ levels) (h : n < wholeLimit) :
    Halvable levels n :=
  ⟨by omega, Nat.lt_of_lt_of_le h (Nat.pow_le_pow_right (by decide) (by omega))⟩

theorem two_mul_div_le {n d : Nat} (h : 2 ≤ d) : 2 * (n / d) ≤ n := by
  have half : n / d ≤ n / 2 := Nat.div_le_div_left h (by decide)
  omega

theorem two_mul_mod_le {n d : Nat} (pos : 0 < d) (h : d ≤ n) : 2 * (n % d) ≤ n := by
  have rest := Nat.mod_lt n pos
  have whole := Nat.div_add_mod n d
  have once := Nat.le_mul_of_pos_right d (Nat.div_pos h pos)
  omega

/-- The number that is asked for can be halved on the levels that are left; a value of the caller has
    all 64 of them, and one for its sign. -/
def Request.Fits (book : RuleBook) (levels : Nat) : Request → Prop
  | .value s (.whole n) => s ∈ book.sets ∧ Halvable levels n
  | .value s (.real v) => s ∈ book.sets ∧ 64 < levels ∧ v.InRange ∧ v.isIntegral
  | .rung .. | .fraction .. => False

namespace RuleBook

variable {book : RuleBook} {numerals : NumeralSystem} {s : RuleSet} {levels n : Nat}

/-- An insertion leads to requests that fit, and to no error that more levels would help. -/
def Settles (book : RuleBook) (numerals : NumeralSystem) (levels : Nat) (i : Insertion) : Prop :=
  i.Meets numerals (Request.Fits book levels) Error.Lasting

theorem settles_numeral (v : Binary64) (p : NumeralPattern) :
    book.Settles numerals levels (.numeral v p) := by
  simp only [Settles, Insertion.Meets]
  cases numerals.render v p with
  | ok t => trivial
  | error e =>
    intro name limit h
    cases h

/-- More levels do not help where a set is lacking. -/
theorem ends_inserts_lasting {a : Applied} {sub : Substitution} :
    Ends Error.Lasting (a.Inserts book sub) (a.insertion book sub) :=
  Applied.ends_inserts fun _ _ _ _ _ _ _ => nofun

/-- **What a halving rule sends to sets fits one level less.** -/
theorem ends_insertion_normal (halving : book.Halving) (ordered : s.Ordered) (hs : s ∈ book.sets)
    (h : Halvable (levels + 1) n) {rule : Rule} {below : List Rule} (mem : rule ∈ s.ladder)
    (le : rule.base ≤ n) {sub : Substitution} (hsub : sub ∈ rule.template.substitutions) :
    Ends Error.Lasting (book.Settles numerals levels)
      (Applied.insertion book ⟨s, rule.key, .whole n, rule.template, .normal rule below n⟩ sub) := by
  have halves := halving.halves s hs rule mem sub hsub
  have radix := ordered.two_le_radix rule mem
  refine ends_inserts_lasting.mono fun i inserted => ?_
  cases inserted with
  | value set held =>
    have hs' := held hs
    cases sub with
    | quotient t =>
      -- only a rule with a base above zero has such a divisor
      have two := halves.resolve_left (set t rfl)
      have pos : 0 < rule.base := Rule.base_pos_of_two_le_divisor two
      have half : Halvable levels (n / rule.divisor) := h.half (by omega) (two_mul_div_le two)
      exact ⟨hs', half⟩
    | remainder t =>
      have pos := halves.resolve_left (set t rfl)
      have divides := Nat.le_trans (Rule.divisor_le_base radix pos) le
      have half : Halvable levels (n % rule.divisor) :=
        h.half (by omega) (two_mul_mod_le (Rule.divisor_pos radix) divides)
      exact ⟨hs', half⟩
    | forced => exact halves.elim
    | same t => exact absurd halves (set t rfl)
  | numeral | divided => exact settles_numeral _ _
  | rung => exact halves.elim
  | fraction other | digits other | joinedDigits other => cases other

/-- The plan for a number on its levels. -/
theorem ends_plan_whole (halving : book.Halving) (ordered : s.Ordered) (hs : s ∈ book.sets)
    (h : Halvable (levels + 1) n) :
    Ends Error.Lasting (Plan.Meets book numerals (Request.Fits book levels) Error.Lasting)
      (Plan.whole s n) := by
  unfold Plan.whole
  split
  · rename_i rule below chosen
    have mem := (RuleSet.chosen?_suffix chosen).subset List.mem_cons_self
    have le := RuleSet.base_le_of_chosen? ordered chosen
    exact fun sub hsub => ends_insertion_normal halving ordered hs h mem le hsub
  · exact fun name limit => nofun

/-- Below zero the magnitude has one level less. -/
theorem meets_negative (hs : s ∈ book.sets) (h : Halvable levels n) :
    Plan.Meets book numerals (Request.Fits book levels) Error.Lasting
      (Plan.negative s (.whole n)) := by
  have fits : ∀ s' ∈ book.sets, Request.Fits book levels (.value s' (.whole n)) :=
    fun s' hs' => ⟨hs', h⟩
  unfold Plan.negative
  split
  · intro sub hsub
    refine ends_inserts_lasting.mono fun i inserted => ?_
    cases inserted with
    | value _ held =>
      -- all operands of the rule are the magnitude
      have operand : (Application.negative (.whole n)).operand sub = .whole n := by cases sub <;> rfl
      rw [operand]
      exact fits _ (held hs)
    | numeral | divided => exact settles_numeral _ _
    | rung other | fraction other | digits other | joinedDigits other => cases other
  · exact fits s hs

/-- An integral value is spelled out as a number, or as a magnitude below zero. -/
theorem ends_plan_real (halving : book.Halving) (ordered : s.Ordered) (hs : s ∈ book.sets)
    (enough : 64 ≤ levels) {v : Binary64} (range : v.InRange) (integral : v.isIntegral) :
    Ends Error.Lasting (Plan.Meets book numerals (Request.Fits book levels) Error.Lasting)
      (Plan.real s v) := by
  unfold Plan.real
  split
  · have integral' := (Binary64.isIntegral_neg range.isFinite).2 integral
    obtain ⟨n, lt, hn⟩ := (Binary64.inRange_neg.2 range).exists_wholeOf
    rw [Operand.ofReal, if_pos integral', hn]
    exact meets_negative hs (halvable_of_lt enough lt)
  · obtain ⟨n, lt, hn⟩ := range.exists_wholeOf
    rw [halving.plain s hs, hn]
    exact ends_plan_whole halving ordered hs (halvable_of_lt (by omega) lt)

/-- **What fits leads to what fits with one level less.** -/
theorem keeps_fits (halving : book.Halving) (ordered : ∀ s ∈ book.sets, s.Ordered) (limit : Nat) :
    Speller.Keeps ⟨book, numerals, limit⟩ (Request.Fits book) Error.Lasting where
  limit r h := by
    cases r with
    | value s x => cases x <;> exact absurd h.2.1 (by omega)
    | rung | fraction => exact h.elim
  plan levels r h := by
    cases r with
    | value s x =>
      cases x with
      | whole n => exact ends_plan_whole halving (ordered s h.1) h.1 h.2
      | real v =>
        obtain ⟨hs, enough, range, integral⟩ := h
        exact ends_plan_real halving (ordered s hs) hs (by omega) range integral
    | rung | fraction => exact h.elim

/-- **The default limit suffices for rules that halve:** an integral value is never too deep, whatever
    sets refer to one another. -/
theorem not_givesUp_format {description : Text} {book : RuleBook}
    (compiled : ofDescription description = .ok book) (halving : book.Halving) {v : Binary64}
    (integral : v.isIntegral) (lt : v.abs.lt (.ofNat (2 ^ 63))) (set : Option Text)
    (context : Context) (lenient : Bool) :
    ¬ GivesUp (book.format v set context ⟨64, lenient⟩) := by
  have finite := Binary64.isFinite_of_isIntegral integral
  have range : v.InRange := (Binary64.inRange_iff_lt finite).2 lt
  cases entry : book.entry set with
  | error e =>
    have refused : book.format v set context ⟨64, lenient⟩ = .error e := by
      simp only [format, formatVerbose, entry]
      rfl
    rw [refused]
    rintro ⟨name, limit, h⟩
    cases h
    exact book.not_givesUp_entry set ⟨name, limit, entry⟩
  | ok s =>
    rw [format_of_entry entry finite]
    have fits : Request.Fits book 65 (.value s (.real v)) :=
      ⟨mem_of_entry entry, by decide, range, integral⟩
    have keeps : Speller.Keeps ⟨book, context.numerals, 64⟩ (Request.Fits book) Error.Lasting :=
      keeps_fits halving (ordered_of_ofDescription compiled) 64
    have spelled := keeps.spell 0 fits
    exact Ends.not_givesUp (P := fun _ => True) (spelled.bind fun _ _ => trivial)

/-- Two sets that halve a number in turn. -/
def inTurn : RuleBook where
  sets :=
    [{ name := "%even".toList
       negative := some [.piece (.literal "minus ".toList), .piece (.substitution (.remainder .owner))]
       ladder :=
         [⟨2, 2, 0, false, [.piece (.substitution (.quotient (.ruleSet "%odd".toList))),
            .optional [.substitution (.remainder (.numeral ⟨['#'], 0, none, 0, 0⟩))]]⟩,
          ⟨1, 10, 0, false,
            [.piece (.literal ['a']), .piece (.substitution (.remainder .owner))]⟩,
          ⟨0, 10, 0, false, []⟩] },
     { name := "%odd".toList
       ladder :=
         [⟨2, 2, 0, false, [.piece (.substitution (.quotient (.ruleSet "%even".toList)))]⟩,
          ⟨1, 10, 0, false, [.piece (.literal ['b']),
            .piece (.substitution (.remainder (.ruleSet "%even".toList)))]⟩,
          ⟨0, 10, 0, false, [.piece (.literal ['z'])]⟩] }]
  equivalences := .none

/-- The least value in range is nested 64 deep, and no deeper. -/
theorem not_givesUp_format_inTurn :
    ofDescription ("%even: -x: minus >>; 0: ; 1: a>>; 2/2: <%odd<[>#>]; " ++
        "%odd: 0: z; 1: b>%even>; 2/2: <%even<;").toList = .ok inTurn ∧
      inTurn.Halving ∧
      (Binary64.ofRatio true (2 ^ 63 - 2 ^ 10) 1).isIntegral ∧
      (Binary64.ofRatio true (2 ^ 63 - 2 ^ 10) 1).abs.lt (.ofNat (2 ^ 63)) ∧
      GivesUp (inTurn.format (.ofRatio true (2 ^ 63 - 2 ^ 10) 1) none {} ⟨63, false⟩) ∧
      ¬ GivesUp (inTurn.format (.ofRatio true (2 ^ 63 - 2 ^ 10) 1) none {} ⟨64, false⟩) := by
  have compiled : ofDescription ("%even: -x: minus >>; 0: ; 1: a>>; 2/2: <%odd<[>#>]; " ++
      "%odd: 0: z; 1: b>%even>; 2/2: <%even<;").toList = .ok inTurn := by
    decide +kernel
  have halving : inTurn.Halving := ⟨by decide, by decide⟩
  have integral : (Binary64.ofRatio true (2 ^ 63 - 2 ^ 10) 1).isIntegral := by decide +kernel
  have below : (Binary64.ofRatio true (2 ^ 63 - 2 ^ 10) 1).abs.lt (.ofNat (2 ^ 63)) := by
    decide +kernel
  have deep : inTurn.format (.ofRatio true (2 ^ 63 - 2 ^ 10) 1) none {} ⟨63, false⟩ =
      .error (.depthExceeded "%even".toList 63) := by
    decide +kernel
  exact ⟨compiled, halving, integral, below, ⟨_, _, deep⟩,
    not_givesUp_format compiled halving integral below none {} false⟩

end RuleBook
end Spellout
