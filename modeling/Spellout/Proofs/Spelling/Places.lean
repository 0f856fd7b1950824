/-
  The places of rules.

  The rules of a compiled set ascend.  So those whose base is not above a number stand in front of all
  others, and the last one of them is the rule for the number, wherever a search begins to look.  It is
  applied to the number, or the rule at the place before it is, if it would write a zero remainder.

  * `RuleSet.IsFor`: the rule at a place is the one for a number;
  * `RuleSet.base_le_iff_lt`: the rules whose base is not above a number come first;
  * `halve`, `RuleSet.findByHalving`: a search for the place by halving;
  * `RuleSet.find?_eq_some_iff`, `RuleSet.find?_eq_findByHalving`: both searches find the rule;
  * `RuleSet.placeOf`: the place of the rule that is applied;
  * `RuleBook.plan_whole`: which rule is applied, and how it divides the number.
-/
import Spellout.Proofs.Spelling.Selection
import Spellout.Proofs.Spelling.Writes

namespace Spellout

/-! ## Halving -/

/-- The first place from `lo` on that does not satisfy `p`, or else `hi`, found by halving. -/
def halve (p : Nat → Bool) (lo hi : Nat) : Nat :=
  if lo < hi then
    let middle := lo + (hi - lo) / 2
    if p middle then halve p (middle + 1) hi else halve p lo middle
  else lo
termination_by hi - lo

/-- If the places that satisfy `p` come first, halving finds where they end. -/
theorem halve_eq {p : Nat → Bool} {lo hi stop : Nat} (le : lo ≤ stop) (le' : stop ≤ hi)
    (first : ∀ i < hi, p i = true ↔ i < stop) : halve p lo hi = stop := by
  induction lo, hi using halve.induct p with
  | case1 lo hi lt middle holds ih =>
    rw [halve, if_pos lt, if_pos holds]
    have below : middle < stop := (first middle (by omega)).1 holds
    exact ih below le' first
  | case2 lo hi lt middle fails ih =>
    rw [halve, if_pos lt, if_neg fails]
    have above : stop ≤ middle := Nat.le_of_not_lt fun below => fails ((first middle (by omega)).2 below)
    exact ih le above fun i lt' => first i (by omega)
  | case3 lo hi ge =>
    rw [halve, if_neg ge]
    omega

namespace RuleSet

variable {s : RuleSet} {n i : Nat} {rule : Rule}

/-! ## The rule for a number -/

/-- The rule at a place, in ascending order, is the one for a number: its base is not above the number,
    and it is greater than that of any other rule whose base is not either. -/
structure IsFor (s : RuleSet) (n i : Nat) (rule : Rule) : Prop where
  place : s.rules[i]? = some rule
  base_le : rule.base ≤ n
  greatest : ∀ (j : Nat) (other : Rule), s.rules[j]? = some other → other.base ≤ n → j ≠ i →
    other.base < rule.base

/-- The place of the rule with the greatest base value not above a number, found by halving. -/
def findByHalving (s : RuleSet) (n : Int) : Option Nat :=
  match halve (fun i => (s.rules[i]?).any fun r => r.base ≤ n) 0 s.rules.length with
  | 0 => none
  | i + 1 => some i

/-- The rules for a number, from the lowest one up, stand in front of the others. -/
theorem rules_eq (s : RuleSet) (n : Int) : s.rules =
    (s.rungsFor n).reverse ++ (s.ladder.takeWhile fun r => n < r.base).reverse := by
  rw [rules, rungsFor, ← List.reverse_append, List.takeWhile_append_dropWhile]

theorem ascending (ordered : s.Ordered) : s.rules.Pairwise fun r r' => r.base < r'.base :=
  List.pairwise_reverse.2 ordered.descending

/-- **The rules whose base is not above a number come first.** -/
theorem base_le_iff_lt (ordered : s.Ordered) (n : Nat) (h : s.rules[i]? = some rule) :
    rule.base ≤ n ↔ i < (s.rungsFor n).length := by
  rw [rules_eq s n] at h
  constructor
  · intro le
    by_contra behind
    rw [List.getElem?_append_right (by simpa using behind)] at h
    have mem := List.mem_reverse.1 (List.mem_of_getElem? h)
    have above := List.mem_takeWhile_imp mem
    simp only [decide_eq_true_eq, Int.ofNat_lt] at above
    omega
  · intro lt
    rw [List.getElem?_append_left (by simpa using lt)] at h
    have mem := List.mem_reverse.1 (List.mem_of_getElem? h)
    exact base_le_of_mem_dropWhile ordered.descending mem

theorem find?_eq (s : RuleSet) (n : Int) :
    s.find? n = match (s.rungsFor n).length with
      | 0 => none
      | i + 1 => some i := by
  unfold find?
  cases s.rungsFor n <;> rfl

theorem length_rungsFor_le (s : RuleSet) (n : Int) : (s.rungsFor n).length ≤ s.rules.length := by
  rw [rules_eq s n, List.length_append, List.length_reverse]
  exact Nat.le_add_right ..

/-- **Halving finds the same rule,** for the rules of a set ascend. -/
theorem find?_eq_findByHalving (ordered : s.Ordered) (n : Nat) : s.find? n = s.findByHalving n := by
  have ends : halve (fun i => (s.rules[i]?).any fun r => r.base ≤ (n : Int)) 0 s.rules.length =
      (s.rungsFor n).length := by
    refine halve_eq (Nat.zero_le _) (length_rungsFor_le s n) fun i lt => ?_
    rw [List.getElem?_eq_getElem lt, Option.any_some, decide_eq_true_eq, Int.ofNat_le]
    exact base_le_iff_lt ordered n (List.getElem?_eq_getElem lt)
  rw [find?_eq, findByHalving, ends]

theorem find?_eq_none_iff (ordered : s.Ordered) (n : Nat) :
    s.find? n = none ↔ ∀ rule ∈ s.rules, n < rule.base := by
  constructor
  · intro none rule mem
    obtain ⟨j, there⟩ := List.getElem?_of_mem mem
    by_contra le
    have lt := (base_le_iff_lt ordered n there).1 (Nat.le_of_not_lt le)
    rw [find?_eq] at none
    split at none
    · omega
    · cases none
  · intro above
    have empty : s.rungsFor n = [] := List.dropWhile_eq_nil_iff.2 fun rule mem => by
      simpa using above rule (List.mem_reverse.2 mem)
    rw [find?_eq, empty]
    rfl

/-- The rungs for a number are those up to the place that is found. -/
theorem find?_eq_some_iff_length (s : RuleSet) (n i : Nat) :
    s.find? n = some i ↔ (s.rungsFor n).length = i + 1 := by
  rw [find?_eq]
  split <;> simp [*]

/-- **What is found is the place of the rule for the number.** -/
theorem find?_eq_some_iff (ordered : s.Ordered) (n i : Nat) :
    s.find? n = some i ↔ ∃ rule, s.IsFor n i rule := by
  rw [find?_eq_some_iff_length]
  have within := length_rungsFor_le s n
  constructor
  · intro rungs
    have lt : i < s.rules.length := by omega
    have place : s.rules[i]? = some s.rules[i] := List.getElem?_eq_getElem lt
    refine ⟨s.rules[i], place, (base_le_iff_lt ordered n place).2 (by omega), ?_⟩
    intro j other there le ne
    have before : j < i := by
      have := (base_le_iff_lt ordered n there).1 le
      omega
    obtain ⟨_, rfl⟩ := List.getElem?_eq_some_iff.1 there
    exact List.pairwise_iff_getElem.1 (ascending ordered) j i _ lt before
  · rintro ⟨rule, place, le, greatest⟩
    have lt := (base_le_iff_lt ordered n place).1 le
    by_contra ne
    -- the rule behind it would be another one whose base is not above the number
    have next : i + 1 < s.rules.length := by omega
    have there : s.rules[i + 1]? = some s.rules[i + 1] := List.getElem?_eq_getElem next
    have lower := greatest _ _ there ((base_le_iff_lt ordered n there).2 (by omega)) (by omega)
    obtain ⟨within, rfl⟩ := List.getElem?_eq_some_iff.1 place
    have higher := List.pairwise_iff_getElem.1 (ascending ordered) i (i + 1) within next (by omega)
    omega

/-! ## The rule that is applied -/

/-- The place of the rule that is applied to a number, if the rule for it is the one at place `i`: the
    place before it, if there is one, and if the rule has two substitutions and a divisor that divides
    the number and does not divide the base. -/
def placeOf (n i : Nat) (rule : Rule) : Nat :=
  if 0 < i ∧ rule.template.substitutionCount = 2 ∧ rule.divisor ∣ n ∧ ¬ rule.divisor ∣ rule.base then
    i - 1
  else i

theorem stepsBack_iff : rule.stepsBack n ↔
    rule.template.substitutionCount = 2 ∧ rule.divisor ∣ n ∧ ¬ rule.divisor ∣ rule.base := by
  simp [Rule.stepsBack, Nat.dvd_iff_mod_eq_zero, and_assoc]

theorem placeOf_le (n i : Nat) (rule : Rule) : placeOf n i rule ≤ i ∧ i ≤ placeOf n i rule + 1 := by
  unfold placeOf
  split <;> omega

/-- A rung of the ladder stands at the place that the number of rungs below it gives. -/
theorem place_of_suffix {below : List Rule} (h : (rule :: below) <:+ s.ladder) :
    s.rules[below.length]? = some rule ∧ (s.rules.take below.length).reverse = below := by
  obtain ⟨above, eq⟩ := h
  have order : s.rules = below.reverse ++ rule :: above.reverse := by
    rw [rules, ← eq]
    simp
  rw [order]
  constructor
  · rw [List.getElem?_append_right (by simp)]
    simp
  · rw [List.take_left' (List.length_reverse ..), List.reverse_reverse]

/-- The rule for a number is the first one of the rungs for it. -/
theorem IsFor.exists_rungsFor (ordered : s.Ordered) (h : s.IsFor n i rule) :
    ∃ below, s.rungsFor n = rule :: below ∧ below.length = i := by
  have length := (find?_eq_some_iff_length s n i).1 ((find?_eq_some_iff ordered n i).2 ⟨rule, h⟩)
  obtain ⟨first, below, rungs⟩ := List.exists_cons_of_length_eq_add_one length
  have number : below.length = i := by simpa [rungs] using length
  have suffix : (first :: below) <:+ s.ladder := rungs ▸ List.dropWhile_suffix _
  have same := (place_of_suffix suffix).1
  rw [number, h.place] at same
  cases same
  exact ⟨below, rungs, number⟩

/-- **The rule that is applied stands at the place of the rule for the number, or one place before.** -/
theorem IsFor.exists_chosen? (ordered : s.Ordered) (h : s.IsFor n i rule) :
    ∃ applied below, s.chosen? n = some (applied, below) ∧ below.length = placeOf n i rule := by
  obtain ⟨below, rungs, rfl⟩ := h.exists_rungsFor ordered
  rw [chosen?, rungs]
  cases below with
  | nil => exact ⟨rule, [], rfl, (if_neg fun step => Nat.lt_irrefl 0 step.1).symm⟩
  | cons p below =>
    rw [choose?, placeOf]
    split
    · rename_i back
      exact ⟨p, below, rfl, (if_pos ⟨Nat.zero_lt_succ _, stepsBack_iff.1 back⟩).symm⟩
    · rename_i stays
      exact ⟨rule, p :: below, rfl, (if_neg fun step => stays (stepsBack_iff.2 step.2)).symm⟩

end RuleSet

/-! ## Numbers -/

/-- No rule is applied to a number exactly if none is found for it. -/
theorem RuleSet.chosen?_eq_none_iff (s : RuleSet) (n : Nat) : s.chosen? n = none ↔ s.find? n = none := by
  rw [chosen?, find?]
  constructor
  · intro none
    rw [eq_nil_of_choose? none]
  · intro none
    split at none
    · rename_i empty
      rw [empty]
      rfl
    · cases none

/-- **Which rule is applied to a number, and how it divides the number.**  What is written are the pieces
    of the template of this rule, with the number, its quotient and its remainder as operands. -/
theorem RuleBook.plan_whole {description : Text} {book : RuleBook}
    (compiled : ofDescription description = .ok book) {s : RuleSet} (hs : s ∈ book.sets) (n : Nat) :
    s.find? n = s.findByHalving n ∧
    (∀ i, s.find? n = some i ↔ ∃ rule, s.IsFor n i rule) ∧
    (s.find? n = none ↔ ∀ rule ∈ s.rules, n < rule.base) ∧
    (s.find? n = none ↔
      Request.plan (.value s (.whole n)) = .error (.noRule s.name (.ofNat n))) ∧
    (s.find? n = none → ∀ (sp : Speller) (fuel depth : Nat),
      sp.spell (fuel + 1) depth (.value s (.whole n)) = .error (.noRule s.name (.ofNat n))) ∧
    ∀ i rule, s.IsFor n i rule → ∃ applied below q r,
      s.rules[RuleSet.placeOf n i rule]? = some applied ∧
      below = (s.rules.take (RuleSet.placeOf n i rule)).reverse ∧
      RuleSet.placeOf n i rule ≤ i ∧ i ≤ RuleSet.placeOf n i rule + 1 ∧
      Request.plan (.value s (.whole n)) = .ok (Plan.normal s applied below n) ∧
      applied.base ≤ n ∧
      (Application.normal applied below n).quotient = .whole q ∧
      (Application.normal applied below n).remainder = .whole r ∧
      q * applied.divisor + r = n ∧ r < applied.divisor ∧
      ∃ a : Applied, Request.plan (.value s (.whole n)) = .ok (.apply a) ∧
        a.set = s ∧ a.key = applied.key ∧ a.value = .whole n ∧ a.template = applied.template ∧
        a.application = .normal applied below n ∧
        ∀ (sp : Speller) (fuel depth : Nat),
          sp.spell (fuel + 1) depth (.value s (.whole n)) = do
            let parts ← (applied.template.keeping (Application.normal applied below n).keeps).mapM
              (sp.expandPiece (sp.spell fuel (depth + 1)) a)
            return ⟨[], [a.step depth]⟩ ++ .join parts := by
  have ordered := ordered_of_ofDescription compiled s hs
  have refused : s.find? n = none →
      Request.plan (.value s (.whole n)) = .error (.noRule s.name (.ofNat n)) := by
    intro none
    rw [Request.plan, Plan.whole, (s.chosen?_eq_none_iff n).2 none]
  refine ⟨RuleSet.find?_eq_findByHalving ordered n, RuleSet.find?_eq_some_iff ordered n,
    RuleSet.find?_eq_none_iff ordered n, ⟨refused, fun error => ?_⟩, fun none sp fuel depth => ?_,
    fun i rule h => ?_⟩
  · rw [← s.chosen?_eq_none_iff]
    rw [Request.plan, Plan.whole] at error
    split at error
    · cases error
    · assumption
  · rw [Speller.spell, refused none]
    rfl
  · obtain ⟨applied, below, chosen, place⟩ := h.exists_chosen? ordered
    have suffix := RuleSet.chosen?_suffix chosen
    obtain ⟨there, rungs⟩ := RuleSet.place_of_suffix suffix
    have radix := ordered.two_le_radix applied (suffix.subset List.mem_cons_self)
    obtain ⟨le, ge⟩ := RuleSet.placeOf_le n i rule
    have plan := RuleSet.plan_of_chosen? chosen
    refine ⟨applied, below, n / applied.divisor, n % applied.divisor, place ▸ there,
      (place ▸ rungs).symm, le, ge, plan, RuleSet.base_le_of_chosen? ordered chosen, rfl, rfl,
      Nat.div_add_mod' n _, Nat.mod_lt n (Rule.divisor_pos radix), _, plan, rfl, rfl, rfl, rfl, rfl,
      fun sp fuel depth => Speller.spell_of_plan plan⟩

/-- The rule of `101: << hundred >>;`. -/
def Rule.hundreds : Rule :=
  ⟨101, 10, 0, false, [.piece (.substitution (.quotient .owner)), .piece (.literal " hundred ".toList),
    .piece (.substitution (.remainder .owner))]⟩

/-- The rule book of `%ord: zeroth; first; second; 100: << hundredth; 101: << hundred >>;`. -/
def RuleBook.ordinals : RuleBook where
  sets :=
    [{ name := "%ord".toList
       ladder :=
         [.hundreds,
          ⟨100, 10, 0, false,
            [.piece (.substitution (.quotient .owner)), .piece (.literal " hundredth".toList)]⟩,
          ⟨2, 10, 0, true, [.piece (.literal "second".toList)]⟩,
          ⟨1, 10, 0, true, [.piece (.literal "first".toList)]⟩,
          ⟨0, 10, 0, true, [.piece (.literal "zeroth".toList)]⟩] }]
  equivalences := .none

/-- The rule for 200 is the last one, at place 4.  It would write "second hundred zeroth", so the rule
    before it is applied. -/
theorem RuleBook.plan_whole_ordinals :
    ofDescription "%ord: zeroth; first; second; 100: << hundredth; 101: << hundred >>;".toList =
        .ok ordinals ∧
      ∃ s ∈ ordinals.sets, s.IsFor 200 4 .hundreds ∧ RuleSet.placeOf 200 4 .hundreds = 3 ∧
        ∃ applied below, applied.base = 100 ∧ below.map Rule.base = [2, 1, 0] ∧
          Request.plan (.value s (.whole 200)) = .ok (Plan.normal s applied below 200) := by
  have compiled : ofDescription
      "%ord: zeroth; first; second; 100: << hundredth; 101: << hundred >>;".toList = .ok ordinals := by
    decide +kernel
  refine ⟨compiled, _, List.mem_singleton_self _, ?_⟩
  obtain ⟨-, found, -, -, -, applies⟩ := plan_whole compiled (List.mem_singleton_self _) 200
  obtain ⟨rule, isFor⟩ := (found 4).1 (by decide)
  obtain rfl : Rule.hundreds = rule := Option.some.inj isFor.place
  have place : RuleSet.placeOf 200 4 .hundreds = 3 := by decide +kernel
  obtain ⟨applied, below, q, r, there, rungs, -, -, plan, -⟩ := applies 4 _ isFor
  rw [place] at there rungs
  refine ⟨isFor, place, applied, below, ?_, ?_, plan⟩
  · rw [← Option.some.inj there]
  · rw [rungs]
    rfl

end Spellout
