/-
  Readers that see the same.

  A reader looks at its text for ignorable symbols, literals, numerals, and places where a digit may
  start, and in its rule book for the sets that its rules name.  What it asks depends on these alone,
  and of numerals and names only on those that its rules use.

  * `Reader.Concurs`: two readers see the same and know some targets in common;
  * `Reader.Concurs.search`: then they search in the same way for the answer of a set whose rules name
    these targets only;
  * `Reader.Concurs.answer`: under one limit on nesting they give the same answers;
  * `Reader.Agrees`: two readers with one rule book see the same, numerals of some patterns included;
    `Reader.Agrees.search` and `Reader.Agrees.answer` say the same of them;
  * `Reader.SameText`: two readers read one text; `Reader.agrees_withLimit`: the limit on nesting is
    nothing that they see.
-/
import Spellout.Proofs.Reading.Soundness
import Spellout.Proofs.RuleBook.Rules

namespace Spellout.Reader

/-- The readers see the same symbols and literals, and read in the same way with the targets that are
    known. -/
structure Concurs (r r' : Reader) (knows : Target → Prop) : Prop where
  lenient : r'.lenient = r.lenient
  ignorable : ∀ i, r'.ignorableAt i = r.ignorableAt i
  fold : ∀ l, r'.foldLiteral l = r.foldLiteral l
  literal : ∀ l i stop, r'.matchLiteral? l i stop = r.matchLiteral? l i stop
  digitStart : ∀ separated i stop, r'.digitStart? separated i stop = r.digitStart? separated i stop
  target : ∀ t, knows t → ∀ deeper owner mode i j,
    r'.readTarget deeper owner mode t i j = r.readTarget deeper owner mode t i j
  default? : r'.book.default? = r.book.default?

namespace Concurs

variable {r r' : Reader} {knows : Target → Prop}

/-! ## Templates -/

theorem element (h : r.Concurs r' knows) : r'.element = r.element := by
  funext p
  cases p with
  | literal t => simp only [Reader.element, h.fold]
  | substitution sub => rfl

theorem covering? (h : r.Concurs r' knows) : r'.covering? = r.covering? := by
  funext stop m
  have same : r'.ignorableAt = r.ignorableAt := funext h.ignorable
  simp only [Reader.covering?, covers, h.lenient, same]

theorem mayStart (h : r.Concurs r' knows) : r'.mayStart = r.mayStart := by
  funext stop els place
  unfold Reader.mayStart
  simp only [h.literal]

theorem matchElements (h : r.Concurs r' knows) {read read' : SubReader} (stop : Nat)
    {els : List Element} (hread : ∀ sub, .substitution sub ∈ els → read' sub = read sub)
    (place : Nat) (parts : Parts) :
    r'.matchElements read' stop els place parts = r.matchElements read stop els place parts := by
  fun_induction r.matchElements read stop els place parts with
  | case1 => rfl
  | case2 l rest place parts next hl ih =>
    simp only [Reader.matchElements, h.literal, hl, ih fun sub mem => hread sub (by simp [mem])]
  | case3 l rest place parts hl => simp only [Reader.matchElements, h.literal, hl]
  | case4 sub place parts => simp only [Reader.matchElements, hread sub (by simp)]
  | case5 sub rest place parts ne ih =>
    rw [matchElements.eq_4 _ _ _ _ _ _ _ ne]
    have ih := fun split v => ih split v fun sub mem => hread sub (by simp [mem])
    simp only [h.mayStart, h.covering?, hread sub (by simp), ih]

theorem matchTemplate (h : r.Concurs r' knows) {read read' : SubReader} (value : Parts → Binary64)
    {t : Template} (hread : ∀ sub ∈ t.substitutions, read' sub = read sub) (i j : Nat) :
    r'.matchTemplate read' value t i j = r.matchTemplate read value t i j := by
  refine Search.longest_congr none fun pieces mem => ?_
  rw [h.element, h.matchElements j fun sub hs => hread sub
    (Template.mem_substitutions_of_alternatives mem (substitution_mem_of_element hs))]

/-! ## Substitutions -/

variable {s : RuleSet} {sub : Substitution}

theorem readDigitsFrom (h : r.Concurs r' knows) (s : RuleSet) (spaced : Bool) (stop fuel : Nat)
    (digits : Text) (place : Nat) :
    r'.readDigitsFrom s spaced stop fuel digits place =
      r.readDigitsFrom s spaced stop fuel digits place := by
  induction fuel generalizing digits place with
  | zero => rfl
  | succ fuel ih => simp only [Reader.readDigitsFrom, h.digitStart, ih]

theorem readDigits (h : r.Concurs r' knows) : r'.readDigits = r.readDigits := by
  funext s spaced i j
  simp only [Reader.readDigits, h.readDigitsFrom]

theorem readNormal (h : r.Concurs r' knows) (hsub : ∀ t, sub.target? = some t → knows t)
    (rule : Rule) (bound : Option Nat) (deeper : Nat)
    (forced : (start stop : Nat) → Search (Option Match)) :
    r'.readNormal s rule bound deeper forced sub = r.readNormal s rule bound deeper forced sub := by
  funext i j
  cases sub with
  | quotient t | remainder t | same t => simp only [Reader.readNormal, h.target t (hsub t rfl)]
  | forced => rfl

/-- The substitutions of special rules read alike. -/
theorem special (h : r.Concurs r' knows) (hsub : ∀ t, sub.target? = some t → knows t)
    {digital : Prop} {x : Reader → (start stop : Nat) → Search (Option Match)}
    (reads : SpecialRead s sub digital x) : x r' = x r := by
  funext i j
  cases reads with
  | target mode t unbound named =>
    rcases named with rfl | named
    · rfl
    · exact h.target t (hsub t named) 0 s mode i j
  | default => simp only [Reader.readTarget, h.default?]
  | digits spaced _ => simp only [h.readDigits]

/-! ## Rules -/

theorem matchRung (h : r.Concurs r' knows) (s : RuleSet) : ∀ {ladder : List Rule},
    (∀ rule ∈ ladder, ∀ sub ∈ rule.template.substitutions, ∀ t, sub.target? = some t → knows t) →
      ∀ (bound : Option Nat) (deeper i j : Nat),
        r'.matchRung s ladder bound deeper i j = r.matchRung s ladder bound deeper i j
  | [], _, _, _, _, _ => rfl
  | [rule], hl, bound, deeper, _, _ =>
    h.matchTemplate _ (fun sub hs => h.readNormal (hl rule (by simp) sub hs) ..) ..
  | rule :: rule' :: below, hl, bound, deeper, _, _ => by
    have forced : r'.matchRung s (rule' :: below) (some rule.divisor) (deeper + 1) =
        r.matchRung s (rule' :: below) (some rule.divisor) (deeper + 1) :=
      funext fun i => funext fun j =>
        matchRung h s (fun rule mem => hl rule (List.mem_cons_of_mem _ mem)) _ _ i j
    rw [matchRung.eq_3, matchRung.eq_3, forced]
    exact h.matchTemplate _ (fun sub hs => h.readNormal (hl rule (by simp) sub hs) ..) ..

theorem matchCandidate (h : r.Concurs r' knows) {q : Question} {c : Candidate}
    (hq : ∀ t ∈ q.set.targets, knows t) (allowed : q.mode.Allows q.set c) :
    r'.matchCandidate q c = r.matchCandidate q c := by
  have known {t : Template} (ht : t ∈ q.set.templates) {sub : Substitution}
      (hs : sub ∈ t.substitutions) (target : Target) (named : sub.target? = some target) :
      knows target :=
    hq target (RuleSet.mem_targets ht hs named)
  have normal {rule : Rule} {below : List Rule} (suffix : (rule :: below) <:+ q.set.ladder) :
      r'.matchCandidate q (.normal rule below) = r.matchCandidate q (.normal rule below) := by
    have rung := h.matchRung q.set fun r mem sub =>
      known (RuleSet.mem_templates_of_mem (suffix.subset mem))
    simp only [Reader.matchCandidate, rung]
  rcases q with ⟨s, mode, i, j⟩
  cases allowed with
  | negative ht =>
    have special : s.special .negative = some _ := ht
    exact h.matchTemplate _ (fun sub hs => h.special
      (known (RuleSet.mem_templates_of_special special) hs) (special_readNegative s sub)) ..
  | fraction ne ht =>
    exact h.matchTemplate _ (fun sub hs => h.special
      (known (RuleSet.mem_templates_of_special ht) hs) (special_readFraction s sub)) ..
  | normal suffix | bounded suffix => exact normal suffix
  | numerator mem =>
    exact h.matchTemplate _ (fun sub hs => h.special
      (known (RuleSet.mem_templates_of_mem mem) hs) (special_readNumerator s sub)) ..

/-- **Readers that concur search for answers in the same way.** -/
theorem search (h : r.Concurs r' knows) {q : Question} (hq : ∀ t ∈ q.set.targets, knows t) :
    r'.search q = r.search q :=
  Search.longest_congr none fun _ mem => h.matchCandidate hq (Mode.allows_of_mem mem)

/-- **They give the same answers,** and remember the same, if they have one limit on nesting. -/
theorem answer (h : r.Concurs r' fun t => ∃ s ∈ r.book.sets, t ∈ s.targets)
    (limit : r'.limit = r.limit) (levels deeper : Nat) {q : Question} (memo : Memo)
    (hq : r.InBook q) : r'.answer levels deeper q memo = r.answer levels deeper q memo := by
  rw [answer_eq_answerBy limit]
  exact answerBy_eq (fun _ q hq => h.search fun t ht => ⟨q.set, hq, ht⟩) _ _ _ hq

end Concurs

/-! ## Readers with one rule book -/

/-- The readers have one rule book, and see the same symbols, literals, and numerals of the patterns
    that are used. -/
structure Agrees (r r' : Reader) (uses : NumeralPattern → Prop) : Prop where
  book : r'.book = r.book
  lenient : r'.lenient = r.lenient
  ignorable : ∀ i, r'.ignorableAt i = r.ignorableAt i
  literal : ∀ l i stop, r'.matchLiteral? l i stop = r.matchLiteral? l i stop
  numeral : ∀ p, uses p → ∀ i j, r'.readNumeral? p i j = r.readNumeral? p i j
  digitStart : ∀ separated i stop, r'.digitStart? separated i stop = r.digitStart? separated i stop

namespace Agrees

variable {r r' : Reader} {uses : NumeralPattern → Prop}

theorem concurs (h : r.Agrees r' uses) : r.Concurs r' fun t => ∀ p, t.pattern? = some p → uses p where
  lenient := h.lenient
  ignorable := h.ignorable
  fold l := by simp only [foldLiteral, h.book, h.lenient]
  literal := h.literal
  digitStart := h.digitStart
  target t ht deeper owner mode i j := by
    cases t with
    | owner => rfl
    | ruleSet name => simp only [readTarget, h.book]
    | numeral p => simp only [readTarget, h.numeral p (ht p rfl)]
  default? := congrArg RuleBook.default? h.book

/-- Readers that see the same search for answers in the same way. -/
theorem search (h : r.Agrees r' uses) {q : Question} (hq : ∀ p ∈ q.set.patterns, uses p) :
    r'.search q = r.search q :=
  h.concurs.search fun _ ht p hp => hq p (RuleSet.mem_patterns_of_target ht hp)

/-- They give the same answers, and remember the same, if they have one limit on nesting. -/
theorem answer (h : r.Agrees r' (· ∈ r.book.patterns)) (limit : r'.limit = r.limit)
    (levels deeper : Nat) {q : Question} (memo : Memo) (hq : r.InBook q) :
    r'.answer levels deeper q memo = r.answer levels deeper q memo := by
  rw [answer_eq_answerBy limit]
  exact answerBy_eq (fun _ q hq => h.search fun p hp => List.mem_flatMap.2 ⟨q.set, hq, hp⟩) _ _ _ hq

end Agrees

/-! ## Readers of one text -/

/-- The readers read one text in the same mode, with one numeral system. -/
structure SameText (r r' : Reader) : Prop where
  symbols : r'.symbols = r.symbols
  lenient : r'.lenient = r.lenient
  numerals : r'.numerals = r.numerals

namespace SameText

variable {r r' : Reader}

theorem ignorableAt (h : r.SameText r') (i : Nat) : r'.ignorableAt i = r.ignorableAt i := by
  simp only [Reader.ignorableAt, h.symbols]

theorem hasKey (h : r.SameText r') (i : Nat) (k : SymbolKey) : r'.hasKey i k = r.hasKey i k := by
  simp only [Reader.hasKey, h.symbols]

theorem textAt (h : r.SameText r') : r'.textAt = r.textAt := by
  funext i
  simp only [Reader.textAt, h.symbols]

theorem skip (h : r.SameText r') (n i : Nat) : r'.skip n i = r.skip n i := by
  induction n generalizing i with
  | zero => rfl
  | succ n ih => simp only [Reader.skip, ih, h.ignorableAt]

theorem matchKeys? (h : r.SameText r') (stop : Nat) (keys : List SymbolKey) (i : Nat) :
    r'.matchKeys? stop keys i = r.matchKeys? stop keys i := by
  induction keys generalizing i with
  | nil => rfl
  | cons k keys ih => simp only [Reader.matchKeys?, ih, h.skip, h.hasKey, h.lenient]

theorem matchLiteral? (h : r.SameText r') (l : Literal) (i stop : Nat) :
    r'.matchLiteral? l i stop = r.matchLiteral? l i stop := by
  simp only [Reader.matchLiteral?, h.skip, h.matchKeys?]

theorem placeBehind? (h : r.SameText r') (bytes : Nat) (places : List Nat) :
    r'.placeBehind? bytes places = r.placeBehind? bytes places := by
  induction places generalizing bytes with
  | nil => rfl
  | cons i places ih => simp only [Reader.placeBehind?, ih, h.textAt]

theorem readNumeral? (h : r.SameText r') (p : NumeralPattern) (i j : Nat) :
    r'.readNumeral? p i j = r.readNumeral? p i j := by
  simp only [Reader.readNumeral?, numeralPlaces, h.placeBehind?, h.ignorableAt, h.lenient, h.numerals,
    h.textAt]

theorem digitStart? (h : r.SameText r') (separated : Bool) (i stop : Nat) :
    r'.digitStart? separated i stop = r.digitStart? separated i stop := by
  simp only [Reader.digitStart?, h.skip, h.hasKey, h.lenient]

end SameText

/-- Readers of one text that concur read the same, under one limit on nesting. -/
theorem Concurs.read {r r' : Reader} (h : r.Concurs r' fun t => ∃ s ∈ r.book.sets, t ∈ s.targets)
    (same : r.SameText r') (limit : r'.limit = r.limit) {s : RuleSet} (hs : s ∈ r.book.sets) :
    r'.read s = r.read s := by
  have inBook : r.InBook ⟨s, .full, 0, r.symbols.size⟩ := hs
  simp only [Reader.read, bytesBefore, same.symbols, limit, h.answer limit _ _ _ inBook]

/-- The reader with another limit on nesting. -/
def withLimit (r : Reader) (limit : Nat) : Reader := { r with limit }

/-- The limit on nesting is nothing that a reader sees. -/
theorem agrees_withLimit (r : Reader) (limit : Nat) (uses : NumeralPattern → Prop) :
    r.Agrees (r.withLimit limit) uses :=
  have same : r.SameText (r.withLimit limit) := ⟨rfl, rfl, rfl⟩
  { book := rfl
    lenient := rfl
    ignorable := same.ignorableAt
    literal := same.matchLiteral?
    numeral := fun p _ => same.readNumeral? p
    digitStart := same.digitStart? }

end Spellout.Reader
