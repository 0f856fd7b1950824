/-
  English number words.

  Numbers up to twenty, the tens below a hundred and the scales have a word of their own.  Some words
  start with another one, as `sixteen` and `sixty` do; what is left of them goes on with no third.

  * `word` is the word of a number, `spell` puts words together and leaves out what separates them;
  * `spell_inj`: no two sequences of words read the same.
-/
import Mathlib.Data.List.Basic
import Mathlib.Data.List.Nodup
import Spellout.Proofs.Reading.Letters

namespace Spellout.English

/-! ## Words -/

/-- The numbers that have a word of their own, with the word. -/
def lexicon : List (Nat × String) :=
  [(0, "zero"), (1, "one"), (2, "two"), (3, "three"), (4, "four"), (5, "five"), (6, "six"),
   (7, "seven"), (8, "eight"), (9, "nine"), (10, "ten"), (11, "eleven"), (12, "twelve"),
   (13, "thirteen"), (14, "fourteen"), (15, "fifteen"), (16, "sixteen"), (17, "seventeen"),
   (18, "eighteen"), (19, "nineteen"), (20, "twenty"), (30, "thirty"), (40, "forty"),
   (50, "fifty"), (60, "sixty"), (70, "seventy"), (80, "eighty"), (90, "ninety"),
   (100, "hundred"), (1000, "thousand"), (1000000, "million"), (1000000000, "billion"),
   (1000000000000, "trillion")]

/-- The numbers that have a word of their own. -/
def bases : List Nat := lexicon.map Prod.fst

/-- The word of a number. -/
def word (b : Nat) : Text := ((lexicon.lookup b).getD "").toList

/-- The word of a number, or `minus`. -/
def token : Option Nat → Text
  | some b => word b
  | none => "minus".toList

/-- Words without anything between them. -/
def spell (ws : List (Option Nat)) : Text := ws.flatMap token

@[simp] theorem spell_nil : spell [] = [] := rfl

@[simp] theorem spell_cons (w : Option Nat) (ws : List (Option Nat)) :
    spell (w :: ws) = token w ++ spell ws := rfl

@[simp] theorem spell_append (ws ws' : List (Option Nat)) :
    spell (ws ++ ws') = spell ws ++ spell ws' := by
  simp [spell]

/-- All words. -/
def vocabulary : List (Option Nat) := none :: bases.map some

/-- What is left of a word behind a shorter one that it starts with. -/
def leftover (w w' : Text) : Text := w'.drop w.length

/-- No word starts with another one, so that what is left could go on with a third. -/
def separable (codes : List Text) : Bool :=
  codes.all fun w => codes.all fun w' => w = w' || !w.isPrefixOf w' ||
    codes.all fun u => !u.isPrefixOf (leftover w w') && !(leftover w w').isPrefixOf u

theorem separable_vocabulary : separable (vocabulary.map token) := by
  decide +kernel

theorem nodup_vocabulary : (vocabulary.map token).Nodup := by
  decide +kernel

/-- A character of words; there is no `p` among them. -/
def isWordChar (c : Char) : Bool := Text.alphabet.contains c && !Text.isSeparator c && c != 'p'

/-- Every word is made of such characters. -/
theorem isWordChar_of_mem {b : Nat} (h : b ∈ bases) : word b ≠ [] ∧ ∀ c ∈ word b, isWordChar c := by
  have all : (bases.all fun b => !(word b).isEmpty && (word b).all isWordChar) = true := by
    decide +kernel
  simpa using List.all_eq_true.1 all b h

theorem word_ne_nil {b : Nat} (h : b ∈ bases) : word b ≠ [] := (isWordChar_of_mem h).1

theorem plain_word {b : Nat} (h : b ∈ bases) : ∀ c ∈ word b, c ∈ Text.alphabet ∧ c ≠ 'p' := by
  intro c hc
  have char := (isWordChar_of_mem h).2 c hc
  simp only [isWordChar, Bool.and_eq_true, bne_iff_ne, List.contains_iff_mem] at char
  exact ⟨char.1.1, char.2⟩

theorem isSeparator_of_mem_word {b : Nat} (h : b ∈ bases) :
    ∀ c ∈ word b, Text.isSeparator c = false := by
  intro c hc
  have char := (isWordChar_of_mem h).2 c hc
  simp only [isWordChar, Bool.and_eq_true, Bool.not_eq_true'] at char
  exact char.1.2

theorem letters_word {b : Nat} (h : b ∈ bases) : Text.letters (word b) = word b := by
  rw [Text.letters, List.filter_eq_self]
  intro c hc
  simp [isSeparator_of_mem_word h c hc]

/-- A word ends with a letter, whatever stands before it. -/
theorem last_letter {b : Nat} (h : b ∈ bases) (u : Text) :
    (u ++ word b).getLast?.any fun c => !Text.isSeparator c := by
  obtain ⟨c, hc⟩ : ∃ c, (word b).getLast? = some c :=
    ⟨_, List.getLast?_eq_some_getLast (word_ne_nil h)⟩
  rw [List.getLast?_append, hc]
  simp [isSeparator_of_mem_word h c (List.mem_of_getLast? hc)]

/-- Every number below twenty has a word. -/
theorem mem_bases_of_lt {n : Nat} (h : n < 20) : n ∈ bases := by
  have all : ∀ n < 20, n ∈ bases := by decide +kernel
  exact all n h

/-- Numbers with a word are exact. -/
theorem le_of_mem_bases {b : Nat} (h : b ∈ bases) : b ≤ 2 ^ 53 := by
  have all : ∀ b ∈ bases, b ≤ 2 ^ 53 := by decide +kernel
  exact all b h

/-! ## Unique reading -/

theorem token_ne_nil {w : Option Nat} (h : w ∈ vocabulary) : token w ≠ [] := by
  have all : ∀ w ∈ vocabulary, token w ≠ [] := by decide +kernel
  exact all w h

theorem token_inj {w w' : Option Nat} (h : w ∈ vocabulary) (h' : w' ∈ vocabulary)
    (eq : token w = token w') : w = w' :=
  List.inj_on_of_nodup_map nodup_vocabulary h h' eq

/-- A word that another one starts with leaves nothing over that words could go on with. -/
theorem not_leftover {w w' u : Option Nat} (h : w ∈ vocabulary) (h' : w' ∈ vocabulary)
    (hu : u ∈ vocabulary) {a : Text} (ne : a ≠ []) (eq : token w' = token w ++ a) :
    ¬ token u <+: a ∧ ¬ a <+: token u := by
  have mem {v : Option Nat} (hv : v ∈ vocabulary) : token v ∈ vocabulary.map token :=
    List.mem_map_of_mem hv
  have sep := separable_vocabulary
  simp only [separable, List.all_eq_true] at sep
  have left : leftover (token w) (token w') = a := by
    rw [leftover, eq, List.drop_left]
  have differ : token w ≠ token w' := by
    intro same
    rw [← same] at eq
    exact ne (List.self_eq_append_right.1 eq)
  have starts : (token w).isPrefixOf (token w') := by
    rw [List.isPrefixOf_iff_prefix, eq]
    exact List.prefix_append ..
  have := sep _ (mem h) _ (mem h')
  simp only [differ, starts, decide_false, Bool.not_true, Bool.false_or, List.all_eq_true,
    left] at this
  simpa only [Bool.and_eq_true, Bool.not_eq_true', Bool.eq_false_iff, ne_eq,
    List.isPrefixOf_iff_prefix] using this _ (mem hu)

theorem eq_nil_of_spell_append {w w' : Option Nat} (h : w ∈ vocabulary) (h' : w' ∈ vocabulary)
    {a rest : Text} (eq : token w' = token w ++ a) {ws : List (Option Nat)}
    (hws : ∀ u ∈ ws, u ∈ vocabulary) (hspell : spell ws = a ++ rest) : a = [] := by
  by_contra ne
  cases ws with
  | nil =>
    have := congrArg List.length hspell
    simp only [spell, List.flatMap_nil, List.length_nil, List.length_append] at this
    exact ne (List.length_eq_zero_iff.1 (by omega))
  | cons u ws =>
    have clash := not_leftover h h' (hws u (by simp)) ne eq
    have start : token u <+: a ++ rest := by
      rw [← hspell]
      exact List.prefix_append ..
    rcases List.prefix_or_prefix_of_prefix start (List.prefix_append a rest) with h | h
    · exact clash.1 h
    · exact clash.2 h

/-- **No two sequences of words read the same.** -/
theorem spell_inj : ∀ {ws ws' : List (Option Nat)}, (∀ w ∈ ws, w ∈ vocabulary) →
    (∀ w ∈ ws', w ∈ vocabulary) → spell ws = spell ws' → ws = ws'
  | [], [], _, _, _ => rfl
  | [], w :: ws, _, h', eq => by
    have eq : [] = token w ++ spell ws := eq
    exact absurd (List.append_eq_nil_iff.1 eq.symm).1 (token_ne_nil (h' w (by simp)))
  | w :: ws, [], h, _, eq => by
    have eq : token w ++ spell ws = [] := eq
    exact absurd (List.append_eq_nil_iff.1 eq).1 (token_ne_nil (h w (by simp)))
  | w :: ws, w' :: ws', h, h', eq => by
    have hw := h w (by simp)
    have hw' := h' w' (by simp)
    have hrest : ∀ u ∈ ws, u ∈ vocabulary := fun u hu => h u (by simp [hu])
    have hrest' : ∀ u ∈ ws', u ∈ vocabulary := fun u hu => h' u (by simp [hu])
    have eq : token w ++ spell ws = token w' ++ spell ws' := eq
    have same : w = w' := by
      rcases List.append_eq_append_iff.1 eq with ⟨a, ha, hs⟩ | ⟨a, ha, hs⟩
      · obtain rfl := eq_nil_of_spell_append hw hw' ha hrest hs
        exact token_inj hw hw' (by simp [ha])
      · obtain rfl := eq_nil_of_spell_append hw' hw ha hrest' hs
        exact token_inj hw hw' (by simp [ha])
    subst same
    rw [spell_inj hrest hrest' (List.append_cancel_left eq)]

/-- No word starts as a minus sign in words does. -/
theorem word_append_ne_minus {b : Nat} (h : b ∈ bases) (u u' : Text) :
    word b ++ u ≠ token none ++ u' := by
  have all : ∀ b ∈ bases, ¬ word b <+: token none ∧ ¬ token none <+: word b := by decide +kernel
  intro eq
  have start : word b <+: token none ++ u' := eq ▸ List.prefix_append ..
  rcases List.prefix_or_prefix_of_prefix start (List.prefix_append ..) with h' | h'
  · exact (all b h).1 h'
  · exact (all b h).2 h'

end Spellout.English
