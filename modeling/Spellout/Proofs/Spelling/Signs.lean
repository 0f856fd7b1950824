/-
  Signs.

  The quotient, the remainder and the fraction of a value have its sign, and before a value below
  zero is split its sign is taken away.  So of all requests only the one a caller starts with can be
  for a value below zero.

  * `Binary64.isNegative_fract`: a fraction is not below zero if its value is not;
  * `Operand.Upright`, `Request.Upright`, `Application.Upright`: there is nothing below zero in it;
  * `Request.Planned.of_minus`: a minus sign without a rule is written for a value below zero, and
    what follows it is upright;
  * `Request.Planned.upright`, `Applied.upright_of_insertion`: whatever else a request leads to is
    upright, too.
-/
import Spellout.Proofs.Spelling.Minus
import Spellout.Proofs.Spelling.Plans

namespace Spellout

/-! ## Binary numbers -/

namespace Binary64

theorem isNegative_fract {v : Binary64} (h : v.isNegative = false) : v.fract.isNegative = false := by
  cases v with
  | nan => rfl
  | infinite s =>
    have undefined : (infinite s).fract = nan := by cases s <;> rfl
    rw [undefined]
    rfl
  | finite s m =>
    rw [isNegative_eq_false_iff (place_fract s m)]
    have above := (isNegative_eq_false_iff (v := finite s m) rfl).1 h
    have le : m.rest.steps ≤ m.steps := Nat.mod_le ..
    cases s <;> simp only [signed, Bool.false_eq_true, if_false, if_true] at above ⊢ <;> omega

theorem isNegative_neg {v : Binary64} (h : v.isNegative) : v.neg.isNegative = false := by
  cases hp : v.place with
  | none => simp [isNegative, lt, hp] at h
  | some i =>
    have place : v.neg.place = some (-i) := by rw [place_neg, hp]; rfl
    rw [isNegative_eq_false_iff place]
    have := (isNegative_iff hp).1 h
    omega

end Binary64

/-! ## Nothing below zero -/

/-- The operand is not below zero. -/
def Operand.Upright : Operand → Prop
  | .whole _ => True
  | .real v => v.isNegative = false

/-- The request is not for a value below zero. -/
def Request.Upright : Request → Prop
  | .value _ x => x.Upright
  | .rung .. => True
  | .fraction _ v => v.isNegative = false

/-- The value that the rule splits is not below zero. -/
def Application.Upright : Application → Prop
  | .fraction v _ => v.isNegative = false
  | .negative magnitude => magnitude.Upright
  | .normal .. | .numerator _ => True

namespace Application

variable {app : Application}

theorem Upright.value (h : app.Upright) : app.value.Upright := by
  cases app with
  | fraction | negative => exact h
  | normal | numerator => trivial

theorem Upright.quotient (h : app.Upright) : app.quotient.Upright := by
  cases app with
  | negative => exact h
  | normal | numerator | fraction => trivial

theorem Upright.remainder (h : app.Upright) : app.remainder.Upright := by
  cases app with
  | fraction v whole => exact Binary64.isNegative_fract h
  | negative => exact h
  | normal | numerator => trivial

theorem Upright.operand (h : app.Upright) (sub : Substitution) : (app.operand sub).Upright := by
  cases sub with
  | quotient => exact h.quotient
  | remainder | forced => exact h.remainder
  | same => exact h.value

end Application

theorem Operand.upright_of_ofReal {v : Binary64} (h : v.isNegative = false) {x : Operand}
    (hx : ofReal v = .ok x) : x.Upright := by
  unfold ofReal at hx
  split at hx
  · obtain ⟨n, -, hx⟩ := bind_eq_ok.1 hx
    cases hx
    trivial
  · cases hx
    exact h

/-! ## Requests -/

namespace Request

variable {r next : Request} {a : Applied}

/-- **A minus sign without a rule is written for values below zero only,** and the magnitude behind
    it is not below zero. -/
theorem Planned.of_minus (h : r.Planned (.minus next)) :
    ∃ s v, r = .value s (.real v) ∧ v.isNegative ∧ s.negative = none ∧
      ∃ x : Operand, next = .value s x ∧ x.Upright := by
  cases h with
  | minus below magnitude none =>
    have upright := Operand.upright_of_ofReal (Binary64.isNegative_neg below) magnitude
    exact ⟨_, _, rfl, below, none, _, rfl, upright⟩

/-- What is not below zero needs no minus sign. -/
theorem Upright.not_minus (h : r.Upright) : ¬ r.Planned (.minus next) := by
  intro minus
  obtain ⟨s, v, rfl, below, -⟩ := minus.of_minus
  exact Bool.eq_false_iff.1 h below

/-- The value that a rule splits is not below zero. -/
theorem Planned.upright (h : r.Planned (.apply a)) : a.application.Upright := by
  cases h with
  | normal | rung | fraction => trivial
  | special above => exact above
  | negative below magnitude =>
    exact Operand.upright_of_ofReal (Binary64.isNegative_neg below) magnitude

end Request

/-! ## Insertions -/

/-- **What a rule sends on is not below zero.** -/
theorem Applied.upright_of_insertion {book : RuleBook} {a : Applied} {r : Request}
    (ha : a.application.Upright) {sub : Substitution}
    (h : a.insertion book sub = .ok (.spelled r)) : r.Upright := by
  cases inserts_of_ok h with
  | value => exact ha.operand sub
  | rung => trivial
  | fraction fraction =>
    rw [fraction] at ha
    exact Binary64.isNegative_fract ha

end Spellout
