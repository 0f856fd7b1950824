/-
  Phrases for natural numbers.

  A number below a hundred is one word or two, `seven` or `sixty-four`.  Larger ones count a scale, as
  in `two hundred`, and may go on with a phrase for what is left.

  * `Phrase` is the type of phrases, `Phrase.text` a phrase as it is written, `Phrase.number` what it
    counts, `Phrase.value` that number with the rounding of each step;
  * `Phrase.Formed`: words are where they belong; `Phrase.Bounded`: what is counted and what is left
    stay below the scale;
  * `Phrase.eq_of_words`: a phrase is known from its words;
  * `Phrase.value_eq`: the value of a phrase for a small number is exact.
-/
import Spellout.Proofs.English.Words
import Spellout.Proofs.Number.Exact

namespace Spellout.English

/-! ## Phrases -/

/-- A phrase that counts. -/
inductive Phrase where
  /-- A word for a number below a hundred. -/
  | word (b : Nat)
  /-- A word for tens and one for units. -/
  | compound (b u : Nat)
  /-- So many times a scale. -/
  | times (q : Phrase) (s : Nat)
  /-- So many times a scale, and a phrase for what is left. -/
  | plus (q : Phrase) (s : Nat) (r : Phrase)

namespace Phrase

/-- The numbers whose words make up the phrase. -/
def words : Phrase → List Nat
  | word b => [b]
  | compound b u => [b, u]
  | times q s => q.words ++ [s]
  | plus q s r => q.words ++ s :: r.words

/-- The phrase as it is written. -/
def text : Phrase → Text
  | word b => English.word b
  | compound b u => English.word b ++ '-' :: English.word u
  | times q s => q.text ++ ' ' :: English.word s
  | plus q s r => q.text ++ ' ' :: (English.word s ++ ' ' :: r.text)

/-- What the phrase counts. -/
def number : Phrase → Nat
  | word b => b
  | compound b u => b + u
  | times q s => q.number * s
  | plus q s r => q.number * s + r.number

/-- What the phrase counts, each step being rounded. -/
def value : Phrase → Binary64
  | word b => .ofNat b
  | compound b u => (Binary64.ofNat b).add (.ofNat u)
  | times q s => (q.value.mul (.ofNat s)).add .zero
  | plus q s r => (q.value.mul (.ofNat s)).add r.value

/-- The number whose rule the phrase is written with. -/
def top : Phrase → Nat
  | word b | compound b _ => b
  | times _ s | plus _ s _ => s

/-- Words are where they belong: units behind tens, and around a scale words for smaller numbers. -/
def Formed : Phrase → Prop
  | word b => b ∈ bases ∧ b < 100
  | compound b u => b ∈ bases ∧ u ∈ bases ∧ 20 ≤ b ∧ b < 100 ∧ u < 10
  | times q s => s ∈ bases ∧ 100 ≤ s ∧ q.Formed ∧ ∀ w ∈ q.words, w < s
  | plus q s r =>
    s ∈ bases ∧ 100 ≤ s ∧ q.Formed ∧ (∀ w ∈ q.words, w < s) ∧ r.Formed ∧ ∀ w ∈ r.words, w < s

/-- What is counted and what is left stay below the scale. -/
def Bounded : Phrase → Prop
  | word _ | compound _ _ => True
  | times q s => q.Bounded ∧ q.number < s
  | plus q s r => q.Bounded ∧ q.number < s ∧ r.Bounded ∧ r.number < s

theorem words_ne_nil (p : Phrase) : p.words ≠ [] := by
  cases p <;> simp [words]

theorem mem_bases {p : Phrase} (h : p.Formed) : ∀ w ∈ p.words, w ∈ bases := by
  induction p with
  | word b => simpa [words] using h.1
  | compound b u => simpa [words] using ⟨h.1, h.2.1⟩
  | times q s ih =>
    rw [words, List.forall_mem_append, List.forall_mem_singleton]
    exact ⟨ih h.2.2.1, h.1⟩
  | plus q s r ihq ihr =>
    obtain ⟨hs, -, hq, -, hr, -⟩ := h
    rw [words, List.forall_mem_append, List.forall_mem_cons]
    exact ⟨ihq hq, hs, ihr hr⟩

theorem top_mem_words (p : Phrase) : p.top ∈ p.words := by
  cases p <;> simp [top, words]

/-! ## Unique reading -/

/-- Phrases that count a scale are known from the scale: it is the greatest of their words. -/
theorem split_unique {q q' : List Nat} {s s' : Nat} {r r' : List Nat} (hq : ∀ w ∈ q, w < s)
    (hr : ∀ w ∈ r, w < s) (hq' : ∀ w ∈ q', w < s') (hr' : ∀ w ∈ r', w < s')
    (eq : q ++ s :: r = q' ++ s' :: r') : q = q' ∧ s = s' ∧ r = r' := by
  have top {q r : List Nat} {s w : Nat} (hq : ∀ w ∈ q, w < s) (hr : ∀ w ∈ r, w < s)
      (hw : w ∈ q ++ s :: r) : w ≤ s := by
    rcases List.mem_append.1 hw with hw | hw
    · exact Nat.le_of_lt (hq w hw)
    · rcases List.mem_cons.1 hw with rfl | hw
      · exact Nat.le_refl _
      · exact Nat.le_of_lt (hr w hw)
  have same : s = s' := by
    have le : s ≤ s' := top hq' hr' (eq ▸ by simp)
    have ge : s' ≤ s := top hq hr (eq ▸ by simp)
    omega
  subst same
  have notMem {q : List Nat} (hq : ∀ w ∈ q, w < s) : s ∉ q := fun h => Nat.lt_irrefl s (hq s h)
  exact (List.append_cons_inj_of_notMem (notMem hq) (notMem hr)).1 eq

/-- A phrase without a scale. -/
def isSmall : Phrase → Prop
  | word _ | compound _ _ => True
  | times _ _ | plus _ _ _ => False

theorem Formed.ne_scaled {p : Phrase} (h : p.Formed) (small : p.isSmall) {q r : List Nat} {s : Nat}
    (hs : 100 ≤ s) : p.words ≠ q ++ s :: r := by
  intro eq
  have mem : s ∈ p.words := by simp [eq]
  cases p with
  | word b =>
    obtain rfl := List.mem_singleton.1 mem
    exact absurd h.2 (by omega)
  | compound b u =>
    obtain ⟨-, -, -, hb, hu⟩ := h
    simp only [words, List.mem_cons, List.not_mem_nil, or_false] at mem
    omega
  | times | plus => exact small

/-- **A phrase is known from its words.** -/
theorem eq_of_words : ∀ {p p' : Phrase}, p.Formed → p'.Formed → p.words = p'.words → p = p'
  | word b, word b', _, _, eq => by simpa [words] using eq
  | word b, compound b' u', _, _, eq | compound b' u', word b, _, _, eq => by simp [words] at eq
  | compound b u, compound b' u', _, _, eq => by simpa [words] using eq
  | word _, times _ _, h, h', eq => absurd eq (h.ne_scaled trivial h'.2.1)
  | word _, plus _ _ _, h, h', eq => absurd eq (h.ne_scaled trivial h'.2.1)
  | compound _ _, times _ _, h, h', eq => absurd eq (h.ne_scaled trivial h'.2.1)
  | compound _ _, plus _ _ _, h, h', eq => absurd eq (h.ne_scaled trivial h'.2.1)
  | times _ _, word _, h, h', eq => absurd eq.symm (h'.ne_scaled trivial h.2.1)
  | plus _ _ _, word _, h, h', eq => absurd eq.symm (h'.ne_scaled trivial h.2.1)
  | times _ _, compound _ _, h, h', eq => absurd eq.symm (h'.ne_scaled trivial h.2.1)
  | plus _ _ _, compound _ _, h, h', eq => absurd eq.symm (h'.ne_scaled trivial h.2.1)
  | times q s, times q' s', h, h', eq => by
    obtain ⟨hq, rfl, -⟩ := split_unique h.2.2.2 (by simp) h'.2.2.2 (by simp) eq
    rw [eq_of_words h.2.2.1 h'.2.2.1 hq]
  | times q s, plus q' s' r', h, h', eq => by
    obtain ⟨-, -, hr⟩ := split_unique h.2.2.2 (by simp) h'.2.2.2.1 h'.2.2.2.2.2 eq
    exact absurd hr.symm r'.words_ne_nil
  | plus q s r, times q' s', h, h', eq => by
    obtain ⟨-, -, hr⟩ := split_unique h.2.2.2.1 h.2.2.2.2.2 h'.2.2.2 (by simp) eq
    exact absurd hr r.words_ne_nil
  | plus q s r, plus q' s' r', h, h', eq => by
    obtain ⟨hq, rfl, hr⟩ := split_unique h.2.2.2.1 h.2.2.2.2.2 h'.2.2.2.1 h'.2.2.2.2.2 eq
    rw [eq_of_words h.2.2.1 h'.2.2.1 hq, eq_of_words h.2.2.2.2.1 h'.2.2.2.2.1 hr]

/-! ## Letters -/

/-- **The letters of a phrase are its words.** -/
theorem letters_text {p : Phrase} (h : p.Formed) : Text.letters p.text = spell (p.words.map some) := by
  have space {t : Text} : Text.letters (' ' :: t) = Text.letters t := rfl
  have hyphen {t : Text} : Text.letters ('-' :: t) = Text.letters t := rfl
  induction p with
  | word b => simp [text, words, token, letters_word h.1]
  | compound b u =>
    simp [text, words, token, hyphen, letters_word h.1, letters_word h.2.1]
  | times q s ih =>
    simp [text, words, token, space, letters_word h.1, ih h.2.2.1]
  | plus q s r ihq ihr =>
    obtain ⟨hs, -, hq, -, hr, -⟩ := h
    simp [text, words, token, space, letters_word hs, ihq hq, ihr hr]

/-- A phrase is made of the characters of words, but for `p`, which no word has. -/
theorem mem_alphabet {p : Phrase} (h : p.Formed) : ∀ c ∈ p.text, c ∈ Text.alphabet ∧ c ≠ 'p' := by
  have space : ' ' ∈ Text.alphabet ∧ ' ' ≠ 'p' := by decide
  have hyphen : '-' ∈ Text.alphabet ∧ '-' ≠ 'p' := by decide
  induction p with
  | word b => exact plain_word h.1
  | compound b u =>
    rw [text, List.forall_mem_append, List.forall_mem_cons]
    exact ⟨plain_word h.1, hyphen, plain_word h.2.1⟩
  | times q s ih =>
    rw [text, List.forall_mem_append, List.forall_mem_cons]
    exact ⟨ih h.2.2.1, space, plain_word h.1⟩
  | plus q s r ihq ihr =>
    obtain ⟨hs, -, hq, -, hr, -⟩ := h
    rw [text, List.forall_mem_append, List.forall_mem_cons, List.forall_mem_append,
      List.forall_mem_cons]
    exact ⟨ihq hq, space, plain_word hs, space, ihr hr⟩

/-- A phrase starts with a letter. -/
theorem exists_letter {p : Phrase} (h : p.Formed) :
    ∃ c ∈ p.text.head?, Text.isSeparator c = false := by
  have starts {b : Nat} (hb : b ∈ bases) (t : Text) :
      ∃ c ∈ (English.word b ++ t).head?, Text.isSeparator c = false := by
    obtain ⟨c, u, hu⟩ := List.exists_cons_of_ne_nil (word_ne_nil hb)
    have letter := isSeparator_of_mem_word hb c (by simp [hu])
    exact ⟨c, by simp [hu], letter⟩
  have grows {q : Text} (hq : ∃ c ∈ q.head?, Text.isSeparator c = false) (t : Text) :
      ∃ c ∈ (q ++ t).head?, Text.isSeparator c = false := by
    obtain ⟨c, hc, letter⟩ := hq
    exact ⟨c, by simp [Option.mem_def.1 hc], letter⟩
  induction p with
  | word b => simpa [text] using starts h.1 []
  | compound b u => exact starts h.1 _
  | times q s ih => exact grows (ih h.2.2.1) _
  | plus q s r ihq _ => exact grows (ihq h.2.2.1) _

/-! ## Values -/

/-- **The value of a phrase for a small number is exact.** -/
theorem value_eq {p : Phrase} (h : p.Formed) (le : p.number ≤ 2 ^ 53) :
    p.value = .ofNat p.number := by
  induction p with
  | word b => rfl
  | compound b u => exact Binary64.add_ofNat le
  | times q s ih =>
    obtain ⟨hs, ge, hq, -⟩ := h
    have whole : q.number * s ≤ 2 ^ 53 := le
    have factor : q.number ≤ q.number * s := Nat.le_mul_of_pos_right _ (by omega)
    rw [value, ih hq (by omega), Binary64.mul_ofNat (by omega) (le_of_mem_bases hs) whole, Binary64.zero_eq,
      Binary64.add_ofNat (by omega)]
    rfl
  | plus q s r ihq ihr =>
    obtain ⟨hs, ge, hq, -, hr, -⟩ := h
    have whole : q.number * s + r.number ≤ 2 ^ 53 := le
    have factor : q.number ≤ q.number * s := Nat.le_mul_of_pos_right _ (by omega)
    rw [value, ihq hq (by omega), ihr hr (by omega),
      Binary64.mul_ofNat (by omega) (le_of_mem_bases hs) (by omega), Binary64.add_ofNat whole]
    rfl

theorem value_lt {p : Phrase} (h : p.Formed) {b : Nat} (lt : p.number < b) (le : b ≤ 2 ^ 53) :
    p.value.lt (.ofNat b) := by
  rw [value_eq h (by omega), Binary64.lt_ofNat (by omega) le]
  exact lt

/-! ## Phrases for a number -/

/-- The phrase counts the number, as the number is written. -/
structure Names (p : Phrase) (n : Nat) : Prop where
  formed : p.Formed
  bounded : p.Bounded
  number : p.number = n
  words : ∀ w ∈ p.words, w ≤ n

variable {b u s k l : Nat} {q r : Phrase}

theorem Names.word (hb : b ∈ bases) (lt : b < 100) : (Phrase.word b).Names b where
  formed := ⟨hb, lt⟩
  bounded := trivial
  number := rfl
  words _ hw := Nat.le_of_eq (List.mem_singleton.1 hw)

theorem Names.compound (hb : b ∈ bases) (ge : 20 ≤ b) (lt : b < 100) (hu : u ∈ bases)
    (small : u < 10) : (Phrase.compound b u).Names (b + u) where
  formed := ⟨hb, hu, ge, lt, small⟩
  bounded := trivial
  number := rfl
  words w hw := by
    simp only [Phrase.words, List.mem_cons, List.not_mem_nil, or_false] at hw
    omega

theorem Names.times (hs : s ∈ bases) (ge : 100 ≤ s) (hq : q.Names k) (pos : 0 < k) (lt : k < s) :
    (Phrase.times q s).Names (k * s) where
  formed := ⟨hs, ge, hq.formed, fun w hw => Nat.lt_of_le_of_lt (hq.words w hw) lt⟩
  bounded := ⟨hq.bounded, hq.number ▸ lt⟩
  number := by rw [Phrase.number, hq.number]
  words w hw := by
    have scale : s ≤ k * s := Nat.le_mul_of_pos_left s pos
    rcases List.mem_append.1 hw with hw | hw
    · have := hq.words w hw
      omega
    · rw [List.mem_singleton.1 hw]
      exact scale

theorem Names.plus (hs : s ∈ bases) (ge : 100 ≤ s) (hq : q.Names k) (pos : 0 < k) (lt : k < s)
    (hr : r.Names l) (lt' : l < s) : (Phrase.plus q s r).Names (k * s + l) where
  formed := ⟨hs, ge, hq.formed, fun w hw => Nat.lt_of_le_of_lt (hq.words w hw) lt, hr.formed,
    fun w hw => Nat.lt_of_le_of_lt (hr.words w hw) lt'⟩
  bounded := ⟨hq.bounded, hq.number ▸ lt, hr.bounded, hr.number ▸ lt'⟩
  number := by rw [Phrase.number, hq.number, hr.number]
  words w hw := by
    have scale : s ≤ k * s := Nat.le_mul_of_pos_left s pos
    rcases List.mem_append.1 hw with hw | hw
    · have := hq.words w hw
      omega
    · rcases List.mem_cons.1 hw with rfl | hw
      · omega
      · have := hr.words w hw
        omega

end Phrase

end Spellout.English
