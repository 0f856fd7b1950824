/-
  The texts of keys.

  A key with a base value is a number, a slash and a second number if the radix is written, and marks.
  A number starts with a digit, and may have commas behind it, which do not count.  Special keys have
  one text each.

  * `Key.IsNumber`, `Key.Denotes`: the texts of numbers, and of keys with base values;
  * `Key.numeric?_eq_some`, `Key.ofText?_eq_some`: exactly these are read as keys with base values;
  * `Key.eq_text_or_denotes`: all other keys that are read are reserved ones;
  * `Key.Denotes.bounds`: the numbers of a key fit into their words.
-/
import Mathlib.Data.List.Basic
import Spellout.Rule.Key

namespace Spellout
namespace Key

/-- A digit, and digits and commas behind it. -/
def IsNumber (t : Text) : Prop := t.head?.any Char.isDigit ∧ t.all isNumberChar

/-- The text is that of a key with a base value. -/
inductive Denotes : Text → Key → Prop
  /-- Without a radix it is 10. -/
  | plain {base : Text} (isBase : IsNumber base) (le : numberOf base ≤ maxBase) (marks : Nat) :
      Denotes (base ++ List.replicate marks '>') (.numeric (numberOf base) 10 (marks % 2 ^ 32))
  /-- The radix stands behind a slash. -/
  | radix {base radix : Text} (isBase : IsNumber base) (le : numberOf base ≤ maxBase)
      (isRadix : IsNumber radix) (two : 2 ≤ numberOf radix) (max : numberOf radix ≤ maxRadix)
      (marks : Nat) : Denotes (base ++ '/' :: (radix ++ List.replicate marks '>'))
        (.numeric (numberOf base) (numberOf radix) (marks % 2 ^ 32))

variable {t rest : Text} {k : Key} {n base radix marks : Nat}

theorem IsNumber.ne_nil (h : IsNumber t) : t ≠ [] := by
  rintro rfl
  exact absurd h.1 (by simp)

/-- A number is read up to the first character that cannot be in it. -/
theorem number?_append (h : IsNumber t) (ends : rest.head?.all fun c => !isNumberChar c) :
    number? (t ++ rest) = some (numberOf t, rest) := by
  have all := List.all_eq_true.1 h.2
  have head : (t ++ rest).head?.any Char.isDigit := by
    rw [List.head?_append_of_ne_nil _ h.ne_nil]
    exact h.1
  have front : rest.takeWhile isNumberChar = [] ∧ rest.dropWhile isNumberChar = rest := by
    cases rest with
    | nil => exact ⟨rfl, rfl⟩
    | cons c rest =>
      have stop : ¬ isNumberChar c := by simpa using ends
      exact ⟨List.takeWhile_cons_of_neg stop, List.dropWhile_cons_of_neg stop⟩
  rw [number?, if_pos head, List.takeWhile_append_of_pos all, List.dropWhile_append_of_pos all,
    front.1, front.2, List.append_nil]

theorem exists_number (h : number? t = some (n, rest)) :
    ∃ front, IsNumber front ∧ numberOf front = n ∧ t = front ++ rest := by
  unfold number? at h
  split at h
  · rename_i head
    cases h
    refine ⟨t.takeWhile isNumberChar, ⟨?_, List.all_takeWhile⟩, rfl,
      List.takeWhile_append_dropWhile.symm⟩
    cases t with
    | nil => exact head
    | cons c t =>
      have digit : c.isDigit := by simpa using head
      rw [List.takeWhile_cons_of_pos (by simp [isNumberChar, digit])]
      exact head
  · cases h

theorem eq_replicate_of_all {marks : Text} (h : marks.all (· = '>')) :
    marks = List.replicate marks.length '>' :=
  List.eq_replicate_of_mem fun c hc => by simpa using List.all_eq_true.1 h c hc

theorem all_replicate (marks : Nat) : (List.replicate marks '>').all (· = '>') :=
  List.all_eq_true.2 fun c hc => by simpa using List.eq_of_mem_replicate hc

theorem markCount_replicate (marks : Nat) :
    markCount (List.replicate marks '>') = marks % 2 ^ 32 := by
  rw [markCount, List.length_replicate]

theorem head?_replicate (marks : Nat) :
    (List.replicate marks '>').head?.all fun c => !isNumberChar c := by
  cases marks with
  | zero => rfl
  | succ => rfl

theorem radix?_replicate (marks : Nat) :
    radix? (List.replicate marks '>') = some (10, List.replicate marks '>') := by
  cases marks with
  | zero => rfl
  | succ => rfl

theorem radix?_slash {t : Text} (isRadix : IsNumber t) (two : 2 ≤ numberOf t)
    (max : numberOf t ≤ maxRadix) (marks : Nat) :
    radix? ('/' :: (t ++ List.replicate marks '>')) =
      some (numberOf t, List.replicate marks '>') := by
  rw [radix?, number?_append isRadix (head?_replicate marks), Option.filter_some, if_pos]
  simp [two, max]

/-- **Exactly the texts of keys with base values are read as such.** -/
theorem numeric?_eq_some : numeric? t = some k ↔ Denotes t k := by
  constructor
  · intro h
    unfold numeric? at h
    simp only [Option.bind_eq_bind, Option.bind_eq_some_iff] at h
    obtain ⟨⟨n, rest⟩, hn, ⟨r, marks⟩, hr, h⟩ := h
    dsimp only at hr h
    split at h
    · rename_i bounded
      obtain ⟨base, isBase, rfl, rfl⟩ := exists_number hn
      obtain ⟨le, all⟩ := bounded
      have eq := eq_replicate_of_all all
      cases h
      unfold radix? at hr
      split at hr
      · rename_i rest'
        obtain ⟨read, bounds⟩ := Option.filter_eq_some_iff.1 hr
        obtain ⟨radix, isRadix, rfl, rfl⟩ := exists_number read
        obtain ⟨two, max⟩ : 2 ≤ numberOf radix ∧ numberOf radix ≤ maxRadix := by simpa using bounds
        rw [eq, markCount_replicate]
        exact .radix isBase le isRadix two max _
      · cases hr
        rw [eq, markCount_replicate]
        exact .plain isBase le _
    · cases h
  · rintro (⟨isBase, le, marks⟩ | ⟨isBase, le, isRadix, two, max, marks⟩)
    · simp only [numeric?, number?_append isBase (head?_replicate marks), radix?_replicate,
        Option.bind_eq_bind, Option.bind_some]
      rw [if_pos ⟨le, all_replicate marks⟩, markCount_replicate]
    · have ends (t : Text) : ('/' :: t).head?.all fun c => !isNumberChar c := rfl
      simp only [numeric?, number?_append isBase (ends _), radix?_slash isRadix two max,
        Option.bind_eq_bind, Option.bind_some]
      rw [if_pos ⟨le, all_replicate marks⟩, markCount_replicate]

/-- The reserved keys are not read as base values. -/
theorem ofText?_eq_some : ofText? t = some (.numeric base radix marks) ↔
    Denotes t (.numeric base radix marks) := by
  rw [← numeric?_eq_some]
  unfold ofText?
  split
  iterate 4
    exact ⟨nofun, fun h => nomatch show none = some _ from h⟩
  exact Iff.rfl

/-- A key that is read is a reserved one, or one with a base value. -/
theorem eq_text_or_denotes (h : ofText? t = some k) :
    (∃ form, k = .special form ∧ t = text k) ∨ Denotes t k := by
  unfold ofText? at h
  split at h
  iterate 4
    cases h
    exact .inl ⟨_, rfl, rfl⟩
  exact .inr (numeric?_eq_some.1 h)

theorem Denotes.bounds (h : Denotes t (.numeric base radix marks)) :
    base ≤ maxBase ∧ 2 ≤ radix ∧ radix ≤ maxRadix ∧ marks < 2 ^ 32 := by
  have count (marks : Nat) : marks % 2 ^ 32 < 2 ^ 32 := Nat.mod_lt _ (by decide)
  cases h with
  | plain isBase le marks => exact ⟨le, by decide, by decide, count marks⟩
  | radix isBase le isRadix two max marks => exact ⟨le, two, max, count marks⟩

end Key
end Spellout
