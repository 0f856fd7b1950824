/-
  Text as the library scans it.

  A rule description and the text that is read back are looked at one character at a time, so
  `Text` is a list of characters; `String` appears only where the library is called.

  * `utf8Size t` is the number of bytes of `t` in UTF-8, the unit in which readers count;
  * `utf8Size_append`: sizes add up under concatenation.
-/
namespace Spellout

/-- A sequence of characters. -/
abbrev Text := List Char

namespace Text

/-- The number of bytes of `t` in UTF-8. -/
def utf8Size : Text → Nat
  | [] => 0
  | c :: rest => c.utf8Size + utf8Size rest

@[simp] theorem utf8Size_nil : utf8Size [] = 0 := rfl

@[simp] theorem utf8Size_cons (c : Char) (t : Text) :
    utf8Size (c :: t) = c.utf8Size + utf8Size t := rfl

@[simp] theorem utf8Size_append (s t : Text) : utf8Size (s ++ t) = utf8Size s + utf8Size t := by
  induction s with
  | nil => simp
  | cons c s ih => simp [ih, Nat.add_assoc]

/-- `xs` without the elements at either end that satisfy `p`. -/
def trimBy {α : Type} (p : α → Bool) (xs : List α) : List α :=
  ((xs.dropWhile p).reverse.dropWhile p).reverse

end Text
end Spellout
