/-
  Blank characters: the `White_Space` property of Unicode.

  * `isBlank c` holds of the 25 characters with the property;
  * `isBlank_of_isWhitespace`: the blanks of ASCII that core knows are among them.
-/
namespace Spellout.Text

/-- The ranges of code points with the property `White_Space`, both ends included. -/
def blankRanges : List (Nat × Nat) :=
  [(0x9, 0xD), (0x20, 0x20), (0x85, 0x85), (0xA0, 0xA0), (0x1680, 0x1680), (0x2000, 0x200A),
   (0x2028, 0x2029), (0x202F, 0x202F), (0x205F, 0x205F), (0x3000, 0x3000)]

/-- The property holds of 25 characters. -/
example : (blankRanges.flatMap fun r => List.range' r.1 (r.2 + 1 - r.1)).length = 25 := by decide

/-- The character has the property `White_Space`. -/
def isBlank (c : Char) : Bool :=
  blankRanges.any fun r => r.1 ≤ c.toNat && c.toNat ≤ r.2

theorem isBlank_of_isWhitespace {c : Char} (h : c.isWhitespace) : isBlank c := by
  simp only [Char.isWhitespace, Bool.or_eq_true, decide_eq_true_eq] at h
  rcases h with ((rfl | rfl) | rfl) | rfl <;> decide

end Spellout.Text
