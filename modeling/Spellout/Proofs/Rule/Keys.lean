/-
  Keys, read and written.

  What is written for a key leaves out the radix if it is 10, and has no commas; it is read as the same
  key again.  Commas in a text that is read do not count.

  * `Key.parse?` reads a key with blanks around it;
  * `Key.parse?_filter_comma`: commas do not count;
  * `Key.parse?_text`: a key that is written is read as itself;
  * `RuleKind`, `Rule.kind`: the kinds of rules;
  * `RuleBook.keys_ofDescription`: the keys of all rules survive being written, and all keys the loss
    of their commas.
-/
import Spellout.Proofs.Numeral.RoundTrip
import Spellout.Proofs.RuleBook.Order

namespace Spellout

/-! ## Blanks -/

namespace Text

variable {α : Type} {p : α → Bool}

/-- What is left has nothing around it that satisfies the test. -/
theorem trimBy_append {front t back : List α} (hf : ∀ a ∈ front, p a) (ht : ∀ a ∈ t, p a = false)
    (hb : ∀ a ∈ back, p a) : trimBy p (front ++ t ++ back) = t := by
  have stays {l : List α} (h : ∀ a ∈ l, p a = false) : l.dropWhile p = l := by
    cases l with
    | nil => rfl
    | cons a l => exact List.dropWhile_cons_of_neg (by simp [h a])
  have behind : (t ++ back).dropWhile p = [] ∧ t = [] ∨ (t ++ back).dropWhile p = t ++ back := by
    cases t with
    | nil => exact .inl ⟨List.dropWhile_eq_nil_iff.2 hb, rfl⟩
    | cons a t => exact .inr (List.dropWhile_cons_of_neg (by simp [ht a]))
  rw [trimBy, List.append_assoc, List.dropWhile_append_of_pos hf]
  rcases behind with ⟨none, rfl⟩ | whole
  · rw [none]
    rfl
  · rw [whole, List.reverse_append, List.dropWhile_append_of_pos (by simpa using hb),
      stays (by simpa using ht), List.reverse_reverse]

/-- A list is what is left of it with what satisfies the test around it. -/
theorem exists_trimBy (p : α → Bool) (l : List α) : ∃ front back, l = front ++ trimBy p l ++ back ∧
    (∀ a ∈ front, p a) ∧ ∀ a ∈ back, p a := by
  refine ⟨l.takeWhile p, ((l.dropWhile p).reverse.takeWhile p).reverse, ?_, ?_, ?_⟩
  · rw [trimBy, List.append_assoc, ← List.reverse_append, List.takeWhile_append_dropWhile,
      List.reverse_reverse, List.takeWhile_append_dropWhile]
  · exact List.all_eq_true.1 List.all_takeWhile
  · intro a ha
    exact List.all_eq_true.1 List.all_takeWhile a (List.mem_reverse.1 ha)

end Text

namespace Key

variable {t : Text} {k : Key} {base radix marks : Nat}

/-! ## Blanks around a key -/

/-- Reads a key with blanks around it. -/
def parse? (t : Text) : Option Key := ofText? (Text.trimBy Text.isBlank t)

/-- Blanks around a key do not count. -/
theorem parse?_append (h : ofText? t = some k) (front back : Text)
    (hf : ∀ c ∈ front, Text.isBlank c) (hb : ∀ c ∈ back, Text.isBlank c) :
    parse? (front ++ t ++ back) = some k := by
  have solid (c : Char) (hc : c ∈ t) : Text.isBlank c = false := by
    have := isSolid_of_ofText? h c hc
    rwa [Mark.isSolid, Bool.not_eq_true'] at this
  rw [parse?, Text.trimBy_append hf solid hb]
  exact h

theorem parse?_of_ofText? (h : ofText? t = some k) : parse? t = some k := by
  have whole := parse?_append h [] [] nofun nofun
  rwa [List.nil_append, List.append_nil] at whole

/-! ## Commas -/

/-- The text without commas. -/
def bare (t : Text) : Text := t.filter (· ≠ ',')

theorem bare_append (t u : Text) : bare (t ++ u) = bare t ++ bare u := List.filter_append ..

theorem bare_replicate (marks : Nat) :
    bare (List.replicate marks '>') = List.replicate marks '>' :=
  List.filter_replicate_of_pos (by decide)

theorem numberOf_bare (t : Text) : numberOf (bare t) = numberOf t := by
  rw [numberOf, numberOf, bare, List.filter_filter]
  simp only [Bool.and_self]

theorem IsNumber.bare (h : IsNumber t) : IsNumber (bare t) := by
  obtain ⟨head, all⟩ := h
  refine ⟨?_, List.all_eq_true.2 fun c hc => List.all_eq_true.1 all c (List.mem_of_mem_filter hc)⟩
  cases t with
  | nil => exact head
  | cons c t =>
    have digit : c.isDigit := by simpa using head
    have kept : c ≠ ',' := by
      rintro rfl
      exact absurd digit (by decide)
    rw [Key.bare, List.filter_cons_of_pos (by simpa using kept)]
    exact head

/-- **A text without its commas is that of the same key.** -/
theorem Denotes.bare (h : Denotes t k) : Denotes (bare t) k := by
  cases h with
  | @plain base isBase le marks =>
    rw [bare_append, bare_replicate, ← numberOf_bare base]
    exact .plain isBase.bare (by rwa [numberOf_bare]) marks
  | @radix base radix isBase le isRadix two max marks =>
    have slash (t : Text) : Key.bare ('/' :: t) = '/' :: Key.bare t := rfl
    rw [bare_append, slash, bare_append, bare_replicate, ← numberOf_bare base,
      ← numberOf_bare radix]
    exact .radix isBase.bare (by rwa [numberOf_bare]) isRadix.bare (by rwa [numberOf_bare])
      (by rwa [numberOf_bare]) marks

theorem parse?_filter_comma (h : parse? t = some (.numeric base radix marks)) :
    parse? (bare t) = some (.numeric base radix marks) := by
  obtain ⟨front, back, split, hf, hb⟩ := Text.exists_trimBy Text.isBlank t
  rw [split, bare_append, bare_append]
  have blank {l : Text} (hl : ∀ c ∈ l, Text.isBlank c) : ∀ c ∈ bare l, Text.isBlank c :=
    fun c hc => hl c (List.mem_of_mem_filter hc)
  exact parse?_append (ofText?_eq_some.2 (ofText?_eq_some.1 h).bare) _ _ (blank hf) (blank hb)

/-! ## Written keys -/

theorem isNumber_toDigits (n : Nat) : IsNumber (Nat.toDigits 10 n) := by
  have digits := List.all_eq_true.1 (NumeralSystem.all_isDigit_toDigits n)
  constructor
  · obtain ⟨c, t, eq⟩ := List.exists_cons_of_ne_nil (Nat.toDigits_ne_nil (b := 10) (n := n))
    rw [eq] at digits ⊢
    exact digits c (by simp)
  · exact List.all_eq_true.2 fun c hc => by simp [isNumberChar, digits c hc]

theorem numberOf_toDigits (n : Nat) : numberOf (Nat.toDigits 10 n) = n := by
  rw [numberOf, NumeralSystem.filter_digits (NumeralSystem.all_isDigit_toDigits n),
    Decimal.numberOfDigits_toDigits]

theorem denotes_text (le : base ≤ maxBase) (two : 2 ≤ radix) (max : radix ≤ maxRadix)
    (count : marks < 2 ^ 32) :
    Denotes (text (.numeric base radix marks)) (.numeric base radix marks) := by
  have isBase := isNumber_toDigits base
  have plain := Denotes.plain isBase (by rwa [numberOf_toDigits]) marks
  have whole := Denotes.radix isBase (by rwa [numberOf_toDigits]) (isNumber_toDigits radix)
    (by rwa [numberOf_toDigits]) (by rwa [numberOf_toDigits]) marks
  rw [numberOf_toDigits, Nat.mod_eq_of_lt count] at plain whole
  rw [numberOf_toDigits] at whole
  rw [text]
  by_cases ten : radix = 10
  · rw [if_pos ten, List.append_nil, ten]
    exact plain
  · rw [if_neg ten, List.append_assoc]
    exact whole

/-- **A key that has been read is read again from what is written for it.** -/
theorem parse?_text (h : parse? t = some k) : parse? k.text = some k := by
  cases k with
  | special form => cases form <;> rfl
  | numeric base radix marks =>
    obtain ⟨le, two, max, count⟩ := (ofText?_eq_some.1 h).bounds
    exact parse?_of_ofText? (ofText?_eq_some.2 (denotes_text le two max count))

end Key

/-! ## Kinds of rules -/

/-- The kind of a rule, as its key shows it. -/
inductive RuleKind where
  | special (form : SpecialForm)
  /-- A base value without marks. -/
  | numeric
  /-- A base value with this number of marks. -/
  | decrement (marks : Nat)
  /-- No key is written. -/
  | keyless
deriving DecidableEq, Repr

/-- The kind of a rule whose key is written. -/
def Key.kind : Key → RuleKind
  | .special form => .special form
  | .numeric _ _ marks => if marks = 0 then .numeric else .decrement marks

theorem Key.kind_ne_keyless (k : Key) : k.kind ≠ .keyless := by
  cases k with
  | special form => nofun
  | numeric base radix marks =>
    show (if marks = 0 then RuleKind.numeric else .decrement marks) ≠ .keyless
    split <;> nofun

/-- The number of marks, zero for the reserved keys. -/
def Key.marks : Key → Nat
  | .special _ => 0
  | .numeric _ _ marks => marks

/-- The kind of a rule with a base value. -/
def Rule.kind (r : Rule) : RuleKind := if r.keyless then .keyless else r.key.kind

/-- The key is that of the rule, and shows its kind unless none was written. -/
structure Rule.ReadsAs (r : Rule) (k : Key) : Prop where
  base : k.base = r.base
  radix : k.radix = r.radix
  marks : k.marks = r.marks
  divisor : k.divisor = r.divisor
  kind : k.kind = if r.kind = .keyless then .numeric else r.kind

namespace RuleSet

variable {s : RuleSet}

/-- A rule has been read with a key, or has that of a rule without one. -/
theorem key_of_mem {source : SetSource} (h : ofSource source = .ok s) {r : Rule}
    (mem : r ∈ s.rules) : (r.keyless = false ∧ ∃ t, Key.parse? t = some r.key) ∨
      r.keyless ∧ r.radix = 10 ∧ r.marks = 0 := by
  obtain ⟨t, body, read, declared⟩ := exists_declares_of_mem h mem
  cases keyless : r.keyless with
  | true => exact .inr ⟨rfl, declared.radix keyless, declared.marks keyless⟩
  | false =>
    have key := declared.key
    rw [keyless, RuleBody.key_of_ofText? read] at key
    obtain ⟨parts, -, hk⟩ := Option.bind_eq_some_iff.1 key
    exact .inl ⟨rfl, Mark.text parts.1, hk⟩

/-- **The key of a rule is read again from what is written for it.** -/
theorem parse?_text_of_mem {source : SetSource} (h : ofSource source = .ok s) {r : Rule}
    (mem : r ∈ s.rules) : Key.parse? r.key.text = some r.key := by
  rcases key_of_mem h mem with ⟨-, t, read⟩ | ⟨-, radix, marks⟩
  · exact Key.parse?_text read
  · have le := (wellFormed_ofSource h).base_le r mem
    refine Key.parse?_of_ofText? (Key.ofText?_eq_some.2 (Key.denotes_text le ?_ ?_ ?_))
    · rw [radix]
      decide
    · rw [radix]
      decide
    · rw [marks]
      decide

/-- A rule without a key has that of one with a base value and no marks. -/
theorem kind_key_of_mem {source : SetSource} (h : ofSource source = .ok s) {r : Rule}
    (mem : r ∈ s.rules) : r.key.kind = if r.kind = .keyless then .numeric else r.kind := by
  rcases key_of_mem h mem with ⟨keyless, -⟩ | ⟨keyless, -, marks⟩
  · have shown : r.kind = r.key.kind := by simp [Rule.kind, keyless]
    rw [shown, if_neg r.key.kind_ne_keyless]
  · simp [Rule.kind, keyless, Rule.key, Key.kind, marks]

end RuleSet

/-! ## Rule books -/

namespace RuleBook

/-- **Keys survive being written, and the loss of their commas.**  Every rule with a base value of a
    compiled set is read again from what is written for its key, with the same base value, radix,
    marks and divisor, and with the same kind; a rule without a key comes back with one.  So is every
    special rule.  And the text of a key with a base value is that of the same key without its commas. -/
theorem keys_ofDescription {description : Text} {book : RuleBook}
    (h : ofDescription description = .ok book) :
    (∀ s ∈ book.sets,
      (∀ r ∈ s.rules, ∃ k, Key.parse? r.key.text = some k ∧ r.ReadsAs k) ∧
      ∀ form t, s.special form = some t →
        Key.parse? (Key.special form).text = some (.special form)) ∧
    ∀ t base radix marks, Key.parse? t = some (.numeric base radix marks) →
      Key.parse? (t.filter (· ≠ ',')) = some (.numeric base radix marks) := by
  refine ⟨fun s hs => ⟨fun r mem => ?_, fun form _ _ => ?_⟩, fun t base radix marks => ?_⟩
  · obtain ⟨source, -, read⟩ := exists_source_of_mem h hs
    exact ⟨r.key, RuleSet.parse?_text_of_mem read mem, rfl, rfl, rfl, rfl,
      RuleSet.kind_key_of_mem read mem⟩
  · cases form <;> rfl
  · exact Key.parse?_filter_comma

/-- The rule book of `none; 1,000>: <<k>>; 3,600/60: <<h>>; -x: minus >>; more`. -/
def measured : RuleBook where
  sets :=
    [{ name := SetName.unnamed
       negative := some
         [.piece (.literal "minus ".toList), .piece (.substitution (.remainder .owner))]
       ladder :=
         [⟨3601, 10, 0, true, [.piece (.literal "more".toList)]⟩,
          ⟨3600, 60, 0, false,
            [.piece (.substitution (.quotient .owner)), .piece (.literal ['h']),
              .piece (.substitution (.remainder .owner))]⟩,
          ⟨1000, 10, 1, false,
            [.piece (.substitution (.quotient .owner)), .piece (.literal ['k']),
              .piece (.substitution (.remainder .owner))]⟩,
          ⟨0, 10, 0, true, [.piece (.literal "none".toList)]⟩] }]
  equivalences := .none

/-- A radix, a mark and rules without keys are written and read again. -/
theorem keys_measured :
    ofDescription "none; 1,000>: <<k>>; 3,600/60: <<h>>; -x: minus >>; more".toList = .ok measured ∧
    (∀ s ∈ measured.sets, s.rules.map (fun r => r.key.text) =
        ["0".toList, "1000>".toList, "3600/60".toList, "3601".toList] ∧
      ∀ r ∈ s.rules, ∃ k, Key.parse? r.key.text = some k ∧ r.ReadsAs k) ∧
    Key.parse? " 1,000,000/1,0,0>> ".toList = some (.numeric 1000000 100 2) ∧
    Key.parse? (" 1,000,000/1,0,0>> ".toList.filter (· ≠ ',')) = some (.numeric 1000000 100 2) := by
  have compiled : ofDescription "none; 1,000>: <<k>>; 3,600/60: <<h>>; -x: minus >>; more".toList =
      .ok measured := by decide +kernel
  have decorated : Key.parse? " 1,000,000/1,0,0>> ".toList = some (.numeric 1000000 100 2) := by
    decide +kernel
  obtain ⟨rules, bare⟩ := keys_ofDescription compiled
  refine ⟨compiled, fun s hs => ⟨?_, (rules s hs).1⟩, decorated, bare _ _ _ _ decorated⟩
  obtain rfl := List.mem_singleton.1 hs
  decide +kernel

end RuleBook

end Spellout
