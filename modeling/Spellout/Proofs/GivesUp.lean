/-
  Giving up because rules are nested too deeply.

  * `GivesUp`: the result is the error of a limit on nesting;
  * `Error.Lasting`: the error is another one, and a higher limit would not help;
  * `Outlasts x y`: `y` is the result `x`, unless `x` gives up;
  * `Outlasts.bind`, `Outlasts.mapM`: sequences outlast each other if their steps do;
  * `RuleBook.not_givesUp_resolve`, `RuleBook.not_givesUp_entry`: to look a set up is no such result.
-/
import Spellout.RuleBook.Basic
import Spellout.Proofs.Success

namespace Spellout

variable {α β : Type}

/-- The result is the error of a limit on nesting. -/
def GivesUp (x : Except Error α) : Prop := ∃ name limit, x = .error (.depthExceeded name limit)

theorem not_givesUp_ok (a : α) : ¬ GivesUp (.ok a) := by
  rintro ⟨_, _, h⟩
  cases h

theorem GivesUp.bind {x : Except Error α} (h : GivesUp x) (f : α → Except Error β) :
    GivesUp (x >>= f) := by
  obtain ⟨name, limit, rfl⟩ := h
  exact ⟨name, limit, rfl⟩

/-- A sequence gives up if its first step does, or the rest with its result. -/
theorem givesUp_bind {x : Except Error α} {f : α → Except Error β} :
    GivesUp (x >>= f) ↔ GivesUp x ∨ ∃ a, x = .ok a ∧ GivesUp (f a) := by
  constructor
  · intro h
    cases x with
    | error e =>
      obtain ⟨name, limit, h⟩ := h
      cases h
      exact .inl ⟨name, limit, rfl⟩
    | ok a => exact .inr ⟨a, rfl, h⟩
  · rintro (h | ⟨a, rfl, h⟩)
    · exact h.bind f
    · exact h

/-- The error is not that of a limit on nesting. -/
def Error.Lasting (e : Error) : Prop := ∀ name limit, e ≠ .depthExceeded name limit

theorem Ends.not_givesUp {P : α → Prop} {x : Except Error α} (h : Ends Error.Lasting P x) :
    ¬ GivesUp x := by
  rintro ⟨name, limit, rfl⟩
  exact h name limit rfl

/-! ## Results with more levels -/

/-- The second result is the first one, unless that gives up. -/
def Outlasts (x y : Except Error α) : Prop := GivesUp x ∨ y = x

theorem Outlasts.refl (x : Except Error α) : Outlasts x x := .inr rfl

theorem Outlasts.eq {x y : Except Error α} (h : Outlasts x y) (settled : ¬ GivesUp x) : y = x :=
  h.resolve_left settled

theorem Outlasts.bind {x y : Except Error α} {f g : α → Except Error β} (h : Outlasts x y)
    (hfg : ∀ a, Outlasts (f a) (g a)) : Outlasts (x >>= f) (y >>= g) := by
  rcases h with h | rfl
  · exact .inl (h.bind f)
  · cases y with
    | error e => exact .refl _
    | ok a => exact hfg a

theorem Outlasts.mapM {f g : α → Except Error β} (h : ∀ a, Outlasts (f a) (g a)) :
    ∀ l : List α, Outlasts (l.mapM f) (l.mapM g)
  | [] => .refl _
  | a :: l => by
    rw [List.mapM_cons, List.mapM_cons]
    exact (h a).bind fun b => (Outlasts.mapM h l).bind fun bs => .refl _

/-! ## Sets of a rule book -/

namespace RuleBook

variable (book : RuleBook)

theorem not_givesUp_resolve (name : Text) : ¬ GivesUp (book.resolve name) := by
  rintro ⟨_, _, h⟩
  unfold resolve at h
  split at h <;> cases h

theorem not_givesUp_entry (set : Option Text) : ¬ GivesUp (book.entry set) := by
  intro h
  unfold entry at h
  split at h
  · rename_i name
    rcases givesUp_bind.1 h with h | ⟨s, -, h⟩
    · exact book.not_givesUp_resolve name h
    · obtain ⟨_, _, h⟩ := h
      split at h <;> cases h
  · obtain ⟨_, _, h⟩ := h
    split at h <;> cases h

end RuleBook

end Spellout
