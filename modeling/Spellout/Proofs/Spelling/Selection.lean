/-
  Which rule is chosen.

  * `RuleSet.chosen?_suffix`: the rule for a number is a rung of the ladder, with the rungs below it;
  * `RuleSet.plan_of_chosen?`: this rule is applied to the number;
  * `RuleSet.base_le_of_chosen?`: its base is not above the number;
  * `RuleSet.exists_chosen?_of_mem`: there is one if some base is not above the number;
  * `RuleSet.exists_rungsFor`: the rungs for a number begin with the greatest base not above it, and
    `RuleSet.exists_chosen?_of_greatest`: that rule is chosen if it does not step back;
  * `RuleSet.mem_of_denominator?`, `RuleSet.exists_denominator?`: the same for denominators.
-/
import Mathlib.Data.List.TakeWhile
import Spellout.Proofs.RuleBook.Rules
import Spellout.Spelling.Selection

namespace Spellout.RuleSet

variable {s : RuleSet} {n : Nat} {rule : Rule} {below : List Rule}

/-! ## Rules for numbers -/

theorem choose?_suffix : ∀ {l : List Rule}, choose? n l = some (rule, below) →
    (rule :: below) <:+ l
  | [], h => by cases h
  | [r], h => by
    cases h
    exact List.suffix_rfl
  | r :: p :: rest, h => by
    simp only [choose?] at h
    split at h <;> cases h
    · exact List.suffix_cons ..
    · exact List.suffix_rfl

theorem eq_nil_of_choose? : ∀ {l : List Rule}, choose? n l = none → l = []
  | [], _ => rfl
  | [_], h => by cases h
  | r :: p :: rest, h => by
    simp only [choose?] at h
    split at h <;> cases h

/-- The rule for a number is a rung of the ladder. -/
theorem chosen?_suffix (h : s.chosen? n = some (rule, below)) : (rule :: below) <:+ s.ladder :=
  (choose?_suffix h).trans (List.dropWhile_suffix _)

/-- The rule for a number is applied to it. -/
theorem plan_of_chosen? (h : s.chosen? n = some (rule, below)) :
    Request.plan (.value s (.whole n)) = .ok (Plan.normal s rule below n) := by
  rw [Request.plan, Plan.whole, h]

theorem base_le_of_mem_dropWhile : ∀ {l : List Rule}, l.Pairwise (fun r r' => r'.base < r.base) →
    rule ∈ l.dropWhile (fun r => (n : Int) < r.base) → rule.base ≤ n
  | [], _, h => by cases h
  | r :: l, descending, h => by
    obtain ⟨top, descending⟩ := List.pairwise_cons.1 descending
    rw [List.dropWhile_cons] at h
    split at h
    · exact base_le_of_mem_dropWhile descending h
    · rename_i ge
      have le : r.base ≤ n := by simpa using ge
      rcases List.mem_cons.1 h with rfl | h
      · exact le
      · exact Nat.le_trans (Nat.le_of_lt (top rule h)) le

/-- The base of the rule for a number is not above the number. -/
theorem base_le_of_chosen? (ordered : s.Ordered) (h : s.chosen? n = some (rule, below)) :
    rule.base ≤ n :=
  base_le_of_mem_dropWhile ordered.descending ((choose?_suffix h).subset List.mem_cons_self)

/-- There is a rule for a number if some base is not above it. -/
theorem exists_chosen?_of_mem (mem : rule ∈ s.ladder) (le : rule.base ≤ n) :
    s.chosen? n ≠ none := by
  intro h
  have above := List.dropWhile_eq_nil_iff.1 (eq_nil_of_choose? h) rule mem
  simp only [decide_eq_true_eq, Int.ofNat_lt] at above
  omega

theorem exists_dropWhile : ∀ {l : List Rule}, l.Pairwise (fun r r' => r'.base < r.base) →
    rule ∈ l → rule.base ≤ n → (∀ r ∈ l, r.base ≤ n → r.base ≤ rule.base) →
    ∃ below, l.dropWhile (fun r => (n : Int) < r.base) = rule :: below
  | [], _, mem, _, _ => by cases mem
  | r :: l, descending, mem, le, greatest => by
    obtain ⟨top, descending⟩ := List.pairwise_cons.1 descending
    by_cases above : n < r.base
    · have behind : rule ∈ l := by
        rcases List.mem_cons.1 mem with rfl | behind
        · omega
        · exact behind
      rw [List.dropWhile_cons_of_pos (by simpa using above)]
      exact exists_dropWhile descending behind le fun r' mem' =>
        greatest r' (List.mem_cons_of_mem _ mem')
    · rw [List.dropWhile_cons_of_neg (by simpa using above)]
      rcases List.mem_cons.1 mem with rfl | behind
      · exact ⟨l, rfl⟩
      · have lower := top rule behind
        have := greatest r List.mem_cons_self (Nat.not_lt.1 above)
        omega

/-- The rungs for a number begin with the rule of the greatest base not above it. -/
theorem exists_rungsFor (ordered : s.Ordered) (mem : rule ∈ s.ladder) (le : rule.base ≤ n)
    (greatest : ∀ r ∈ s.ladder, r.base ≤ n → r.base ≤ rule.base) :
    ∃ below, s.rungsFor n = rule :: below :=
  exists_dropWhile ordered.descending mem le greatest

/-- **The rule of the greatest base not above a number is chosen for it,** if it does not step
    back. -/
theorem exists_chosen?_of_greatest (ordered : s.Ordered) (mem : rule ∈ s.ladder)
    (le : rule.base ≤ n) (greatest : ∀ r ∈ s.ladder, r.base ≤ n → r.base ≤ rule.base)
    (stays : rule.stepsBack n = false) : ∃ below, s.chosen? n = some (rule, below) := by
  obtain ⟨below, rungs⟩ := exists_rungsFor ordered mem le greatest
  rw [chosen?, rungs]
  cases below with
  | nil => exact ⟨[], rfl⟩
  | cons p below => exact ⟨p :: below, by rw [choose?, stays]; rfl⟩

/-! ## Denominators -/

theorem mem_of_foldl_closer {v d : Binary64} : ∀ {l : List Rule} {best : Option (Rule × Binary64)},
    l.foldl (closer v) best = some (rule, d) → (∃ d', best = some (rule, d')) ∨ rule ∈ l
  | [], _, h => .inl ⟨d, h⟩
  | r :: l, best, h => by
    rw [List.foldl_cons] at h
    rcases mem_of_foldl_closer h with ⟨d', h⟩ | h
    · unfold closer at h
      split at h
      · cases h
        exact .inr List.mem_cons_self
      · split at h
        · cases h
          exact .inr List.mem_cons_self
        · exact .inl ⟨d', h⟩
    · exact .inr (List.mem_cons_of_mem _ h)

theorem foldl_closer_ne_none {v : Binary64} : ∀ {l : List Rule} {p : Rule × Binary64},
    l.foldl (closer v) (some p) ≠ none
  | [], _ => nofun
  | r :: l, p => by
    rw [List.foldl_cons]
    unfold closer
    dsimp only
    split <;> exact foldl_closer_ne_none

theorem mem_of_denominator? {v : Binary64} (h : s.denominator? v = some rule) :
    rule ∈ s.ladder ∧ 0 < rule.base := by
  obtain ⟨⟨r, d⟩, hd, rfl⟩ := Option.map_eq_some_iff.1 h
  rcases mem_of_foldl_closer hd with ⟨_, h⟩ | h
  · cases h
  · obtain ⟨mem, pos⟩ := List.mem_filter.1 h
    exact ⟨List.mem_reverse.1 mem, by simpa using pos⟩

/-- There is a denominator if some base is not zero. -/
theorem exists_denominator? (v : Binary64) (mem : rule ∈ s.ladder) (pos : 0 < rule.base) :
    s.denominator? v ≠ none := by
  intro h
  have folded := Option.map_eq_none_iff.1 h
  have mem : rule ∈ s.rules.filter fun r => 0 < r.base :=
    List.mem_filter.2 ⟨List.mem_reverse.2 mem, by simpa using pos⟩
  cases hl : s.rules.filter fun r => 0 < r.base with
  | nil => simp [hl] at mem
  | cons r l =>
    rw [hl] at folded
    exact foldl_closer_ne_none folded

end Spellout.RuleSet
