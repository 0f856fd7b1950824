/-
  What a request may lead to.

  * `Request.Planned`: the ways in which requests are met, one constructor for each;
  * `Request.planned_of_plan`: there are no others;
  * `RuleSet.keys`: the keys of the rules of a set;
  * `Request.Planned.key`: the rule that is applied is one of the set that is asked.
-/
import Spellout.Proofs.Spelling.InRange

namespace Spellout

/-! ## Plans -/

/-- The ways in which a request is met. -/
inductive Request.Planned : Request → Plan → Prop where
  /-- A number is met by the rule that is chosen for it; some values are taken as numbers. -/
  | normal {s : RuleSet} {x : Operand} {n : Nat} {rule : Rule} {below : List Rule}
      (chosen : s.chosen? n = some (rule, below)) :
      Planned (.value s x) (.normal s rule below n)
  | special {s : RuleSet} {v : Binary64} {form : SpecialForm} {t : Template} {n : Nat}
      (above : v.isNegative = false) (special : s.special form = some t)
      (whole : wholeOf v.trunc = .ok n) :
      Planned (.value s (.real v)) (.apply ⟨s, .special form, .real v, t, .fraction v n⟩)
  | negative {s : RuleSet} {v : Binary64} {x : Operand} {t : Template} (below : v.isNegative)
      (magnitude : Operand.ofReal v.neg = .ok x) (special : s.special .negative = some t) :
      Planned (.value s (.real v)) (.apply ⟨s, .special .negative, x.neg, t, .negative x⟩)
  | minus {s : RuleSet} {v : Binary64} {x : Operand} (below : v.isNegative)
      (magnitude : Operand.ofReal v.neg = .ok x) (none : s.negative = none) :
      Planned (.value s (.real v)) (.minus (.value s x))
  | rung {s : RuleSet} {rule : Rule} {below : List Rule} {n : Nat} :
      Planned (.rung s rule below n) (.normal s rule below n)
  | fraction {s : RuleSet} {v : Binary64} {rule : Rule} {n : Nat}
      (chosen : s.denominator? v = some rule)
      (numerator : wholeOf (v.mul (.ofNat rule.base)).round = .ok n) :
      Planned (.fraction s v) (.apply ⟨s, rule.key, .real v, rule.template, .numerator n⟩)

namespace Request

variable {s : RuleSet} {plan : Plan}

theorem planned_of_whole {x : Operand} {n : Nat} (h : Plan.whole s n = .ok plan) :
    Planned (.value s x) plan := by
  unfold Plan.whole at h
  split at h
  · cases h
    exact .normal ‹_›
  · cases h

theorem planned_of_special {v : Binary64} {form : SpecialForm} {t : Template}
    (above : v.isNegative = false) (special : s.special form = some t)
    (h : Plan.special s form t v = .ok plan) : Planned (.value s (.real v)) plan := by
  obtain ⟨n, whole, h⟩ := bind_eq_ok.1 h
  cases h
  exact .special above special whole

theorem planned_of_real {v : Binary64} (h : Plan.real s v = .ok plan) :
    Planned (.value s (.real v)) plan := by
  unfold Plan.real at h
  split at h
  · rename_i below
    obtain ⟨x, magnitude, h⟩ := bind_eq_ok.1 h
    cases h
    unfold Plan.negative
    split
    · exact .negative below magnitude ‹_›
    · exact .minus below magnitude ‹_›
  · rename_i above
    have above := Bool.eq_false_iff.2 above
    split at h
    · split at h
      · rename_i t ht
        have special : s.special .whole = some t := ht
        exact planned_of_special above special h
      · obtain ⟨n, -, h⟩ := bind_eq_ok.1 h
        exact planned_of_whole h
    · split at h
      · exact planned_of_special above (RuleBook.special_of_fractionForm? ‹_›).1 h
      · obtain ⟨n, -, h⟩ := bind_eq_ok.1 h
        exact planned_of_whole h

/-- **There are no other ways in which a request is met.** -/
theorem planned_of_plan {r : Request} (h : r.plan = .ok plan) : r.Planned plan := by
  cases r with
  | value s x =>
    cases x with
    | whole n => exact planned_of_whole h
    | real v => exact planned_of_real h
  | rung s rule below n =>
    cases h
    exact .rung
  | fraction s v =>
    simp only [Request.plan, Plan.fraction] at h
    split at h
    · obtain ⟨n, numerator, h⟩ := bind_eq_ok.1 h
      cases h
      exact .fraction ‹_› numerator
    · cases h

end Request

/-! ## Keys -/

/-- The keys of the rules of a set. -/
def RuleSet.keys (s : RuleSet) : List Key :=
  (([.negative, .improper, .proper, .whole] : List SpecialForm).filter fun form =>
    (s.special form).isSome).map .special ++ s.ladder.map Rule.key

namespace RuleSet

variable {s : RuleSet}

theorem special_mem_keys {form : SpecialForm} {t : Template} (h : s.special form = some t) :
    .special form ∈ s.keys := by
  refine List.mem_append_left _ (List.mem_map_of_mem (List.mem_filter.2 ⟨?_, by simp [h]⟩))
  cases form <;> decide

theorem key_mem_keys {rule : Rule} (h : rule ∈ s.ladder) : rule.key ∈ s.keys :=
  List.mem_append_right _ (List.mem_map_of_mem h)

end RuleSet

/-- **The rule that is applied is one of the set that is asked.** -/
theorem Request.Planned.key {book : RuleBook} {r : Request} {a : Applied} (sound : r.Sound book)
    (h : r.Planned (.apply a)) : a.set = r.set ∧ a.key ∈ r.set.keys := by
  cases h with
  | normal chosen =>
    have suffix := RuleSet.chosen?_suffix chosen
    exact ⟨rfl, RuleSet.key_mem_keys (suffix.subset List.mem_cons_self)⟩
  | special _ special => exact ⟨rfl, RuleSet.special_mem_keys special⟩
  | negative _ _ special => exact ⟨rfl, RuleSet.special_mem_keys special⟩
  | rung => exact ⟨rfl, RuleSet.key_mem_keys (sound.2.1.subset List.mem_cons_self)⟩
  | fraction chosen => exact ⟨rfl, RuleSet.key_mem_keys (RuleSet.mem_of_denominator? chosen).1⟩

end Spellout
