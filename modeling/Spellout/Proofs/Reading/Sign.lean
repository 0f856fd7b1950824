/-
  The sign of what is read.

  No rule stands behind the minus sign before the magnitude of a value below zero.  Read strictly, the
  sign has to be taken up by a literal or by a numeral, and a numeral with a minus sign is not above
  zero.  What rules make of it is not above zero either, as long as they leave the sign to the
  substitution that they begin with.

  * `Candidate.KeepsSign`: an alternative of a rule leaves the sign to its first substitution;
  * `Candidate.lead?`: what a rule begins with, and the mode in which this is read;
  * `RuleBook.Begins`: the sets that may read the beginning of what a set is given, and in which modes;
  * `RuleBook.KeepsSign`: of their rules, those that read a beginning of a text leave the sign so;
  * `RuleBook.not_zero_lt_of_parse`: then no value above zero is read from a text with a minus sign;
  * `RuleBook.parse_ne_magnitude`: so what is written for a value below zero is not read as its
    magnitude;
  * `RuleBook.parse_magnitude`: in lenient mode it is, and in strict mode too if a rule takes the
    sign for its own.
-/
import Mathlib.Data.List.Infix
import Spellout.Proofs.Number.Sign
import Spellout.Proofs.Number.Whole
import Spellout.Proofs.Reading.Soundness
import Spellout.Proofs.RuleBook.Rules
import Spellout.Proofs.Spelling.Minus

namespace Spellout

/-! ## Numerals -/

/-- A decimal numeral with a minus sign is not above zero. -/
theorem NumeralSystem.not_zero_lt_of_readDecimal {t : Text} {p : NumeralPattern} {v : Binary64}
    {n : Nat} (minus : t.head? = some '-') (h : readDecimal t p = some (v, n)) :
    ¬ Binary64.zero.lt v := by
  obtain ⟨t, rfl⟩ : ∃ rest, t = '-' :: rest := List.head?_eq_some_iff.1 minus
  unfold readDecimal at h
  split at h
  · cases h
  · rename_i sign whole fraction parts
    obtain ⟨-, rfl, -, -⟩ := numeralParts?_eq_some.1 parts
    dsimp only at h
    split at h
    · obtain ⟨value, -⟩ := Prod.mk.inj (Option.some.inj h)
      have sign : decide (signPart ('-' :: t) ≠ []) = true := rfl
      rw [← value, sign, Decimal.nearest, Binary64.ofRatio]
      exact Binary64.not_zero_lt_nearest _ _
    · cases h

/-! ## Rules that leave the sign -/

/-- The rule reads values as they are: it does not turn the sign round, and reads no numerator. -/
def Candidate.IsPlain : Candidate → Prop
  | .normal .. | .fraction _ => True
  | .negative _ | .numerator _ => False

/-- The target and the mode that a plain rule reads the value itself or the quotient with; `bound` is
    the bound of the question that the rule is to answer. -/
def Candidate.lead? (bound : Option Nat) : Candidate → Substitution → Option (Target × Mode)
  | .normal rule _, .quotient t => some (t, .integer (some rule.divisor))
  | .normal _ _, .same t => some (t, .integer bound)
  | .fraction _, .quotient t => some (t, .integer none)
  | .fraction _, .same t => some (t, .full)
  | _, _ => none

/-- An alternative of a rule leaves the sign of a text to the substitution that it begins with, which
    reads something; `reads` says what the substitutions of the rule read. -/
inductive Candidate.KeepsSign (t : Text) (reads : Substitution → Text → Binary64 → Prop) :
    Candidate → List Piece → Prop
  /-- The value is what a `=...=` reads. -/
  | same {c : Candidate} {target : Target} {rest : List Piece} :
      c.IsPlain → (∀ v, ¬ reads (.same target) [] v) →
        KeepsSign t reads c (.substitution (.same target) :: rest)
  /-- The value is a multiple of what a `<...<` reads, not less than one in size, with remainders. -/
  | quotient {rule : Rule} {below : List Rule} {target : Target} {rest : List Piece} :
      (∀ u v, u <+: t → reads (.quotient target) u v → u ≠ [] ∧ ¬ v.abs.lt (.ofNat 1)) →
        (∀ sub, .substitution sub ∈ rest → ∃ target', sub = .remainder target') →
          KeepsSign t reads (.normal rule below) (.substitution (.quotient target) :: rest)

theorem Candidate.KeepsSign.exists_first {t : Text} {reads : Substitution → Text → Binary64 → Prop}
    {c : Candidate} {pieces : List Piece} (h : c.KeepsSign t reads pieces) (bound : Option Nat) :
    ∃ sub rest, pieces = .substitution sub :: rest ∧ (c.lead? bound sub).isSome ∧
      ∀ v, ¬ reads sub [] v := by
  cases h with
  | same plain some =>
    refine ⟨_, _, rfl, ?_, some⟩
    cases c with
    | negative | numerator => exact plain.elim
    | normal | fraction => rfl
  | quotient large _ =>
    refine ⟨_, _, rfl, rfl, fun v read => ?_⟩
    exact (large [] v List.nil_prefix read).1 rfl

namespace RuleBook

/-- The target of a rule is a set, for rules of an owner. -/
inductive Sends (book : RuleBook) (owner : RuleSet) : Target → RuleSet → Prop
  | owner : Sends book owner .owner owner
  | ruleSet {name : Text} {s : RuleSet} :
      book.find? name = some s → Sends book owner (.ruleSet name) s

/-- The sets that may read the beginning of what a set is given, with the modes they read it in: the
    set itself, and the sets that the rules of such a set, as far as its mode allows them, send what
    they begin with to. -/
inductive Begins (book : RuleBook) (s : RuleSet) : RuleSet → Mode → Prop
  | self : Begins book s s .full
  | step {s' s'' : RuleSet} {mode mode' : Mode} {c : Candidate} {sub : Substitution}
      {rest : List Piece} {target : Target} :
      Begins book s s' mode → mode.Allows s' c →
        (.substitution sub :: rest) ∈ c.template.alternatives →
          c.lead? mode.bound? sub = some (target, mode') → book.Sends s' target s'' →
            Begins book s s'' mode'

/-- All rules that may read the beginning of a text, and do, leave its sign to what they begin with. -/
def KeepsSign (book : RuleBook) (s : RuleSet) (t : Text) : Prop :=
  ∀ (s' : RuleSet) (mode : Mode) (c : Candidate) pieces u parts, book.Begins s s' mode →
    mode.Allows s' c → pieces ∈ c.template.alternatives → u <+: t → u ≠ [] →
      Derives.Pieces book .decimal s' c mode.bound? pieces u {} parts →
        c.KeepsSign t (Derives.Sub book .decimal s' c mode.bound?) pieces

end RuleBook

/-! ## Values of rules -/

/-- A value of the whole stays. -/
theorem Parts.same_add {parts : Parts} {v : Binary64} (h : parts.same = some v) (sub : Substitution)
    (w : Binary64) : (parts.add sub w).same = some v := by
  cases sub with
  | same target => simp [add, h]
  | quotient | remainder | forced => exact h

namespace Derives

section

variable {book : RuleBook} {ns : NumeralSystem} {s : RuleSet} {c : Candidate} {bound : Option Nat}
  {t : Text} {v : Binary64}

/-- The first value of the whole counts. -/
theorem same_of_pieces : ∀ {pieces : List Piece} {u : Text} {parts parts' : Parts},
    Pieces book ns s c bound pieces u parts parts' → parts.same = some v → parts'.same = some v
  | _, _, _, _, .nil, h => h
  | _, _, _, _, .literal rest, h => same_of_pieces rest h
  | _, _, _, _, .substitution _ rest, h => same_of_pieces rest (Parts.same_add h _ _)

/-- Remainders add no value of the whole and no quotient, and they stand below the divisor. -/
theorem remainder_of_pieces {rule : Spellout.Rule} {below : List Spellout.Rule} :
    ∀ {pieces : List Piece} {u : Text} {parts parts' : Parts},
      Pieces book ns s (.normal rule below) bound pieces u parts parts' →
        (∀ sub, .substitution sub ∈ pieces → ∃ target, sub = .remainder target) →
          (∀ r, parts.remainder = some r → r.lt (.ofNat rule.divisor)) →
            parts'.same = parts.same ∧ parts'.quotient = parts.quotient ∧
              ∀ r, parts'.remainder = some r → r.lt (.ofNat rule.divisor)
  | _, _, _, _, .nil, _, less => ⟨rfl, rfl, less⟩
  | _, _, _, _, .literal rest, only, less =>
    remainder_of_pieces rest (fun sub mem => only sub (List.mem_cons_of_mem _ mem)) less
  | _, _, _, _, .substitution read rest, only, less => by
    obtain ⟨target, rfl⟩ := only _ List.mem_cons_self
    cases read with
    | normalRemainder _ lt =>
      obtain ⟨same, quotient, less⟩ := remainder_of_pieces rest
        (fun sub mem => only sub (List.mem_cons_of_mem _ mem)) fun r hr => Option.some.inj hr ▸ lt
      exact ⟨same, quotient, less⟩

/-- A rule that leaves the sign to its first substitution has a value not above zero if that has. -/
theorem not_zero_lt_value {sub : Substitution} {rest : List Piece} {w w' : Text} {parts : Parts}
    (keeps : c.KeepsSign t (Sub book ns s c bound) (.substitution sub :: rest)) (start : w <+: t)
    (read : Sub book ns s c bound sub w v)
    (more : Pieces book ns s c bound rest w' (({} : Parts).add sub v) parts)
    (below : ¬ Binary64.zero.lt v) : ¬ Binary64.zero.lt (c.value parts) := by
  cases keeps with
  | same plain _ =>
    have same : parts.same = some v := same_of_pieces more rfl
    have value : c.value parts = v := by
      cases c with
      | negative | numerator => exact plain.elim
      | fraction => rw [Candidate.value, Parts.fraction, same, Option.getD_some]
      | normal => rw [Candidate.value, Parts.normal, same]
    rw [value]
    exact below
  | quotient large only =>
    obtain ⟨same, quotient, less⟩ := remainder_of_pieces more only fun r hr => by cases hr
    rw [Candidate.value, Parts.normal, same, quotient]
    refine Binary64.not_zero_lt_mul_add below (large w v start read).2 ?_
    cases hr : parts.remainder with
    | none => exact .inl rfl
    | some r => exact .inr (less r hr)

end

/-! ## Derivations -/

variable {book : RuleBook} {s₀ : RuleSet} {t : Text}

/-- The text of an alternative starts with what its first substitution reads, and this is not above
    zero if it is a beginning of `t`. -/
def FirstBelow (book : RuleBook) (t : Text) (s : RuleSet) (c : Candidate) (bound : Option Nat)
    (pieces : List Piece) (u : Text) (parts parts' : Parts) : Prop :=
  ∀ sub rest, pieces = .substitution sub :: rest → (c.lead? bound sub).isSome →
    ∃ w w' v, u = w ++ w' ∧ Sub book .decimal s c bound sub w v ∧
      Pieces book .decimal s c bound rest w' (parts.add sub v) parts' ∧
        (w <+: t → w ≠ [] → ¬ Binary64.zero.lt v)

theorem not_zero_lt_of_firstBelow {s : RuleSet} {mode : Mode} {c : Candidate} {pieces : List Piece}
    {u : Text} {parts : Parts}
    (keeps : c.KeepsSign t (Sub book .decimal s c mode.bound?) pieces) (start : u <+: t)
    (first : FirstBelow book t s c mode.bound? pieces u {} parts) :
    ¬ Binary64.zero.lt (c.value parts) := by
  obtain ⟨sub, rest, rfl, leads, some⟩ := keeps.exists_first mode.bound?
  obtain ⟨w, w', v, rfl, read, more, below⟩ := first sub rest rfl leads
  have begins : w <+: t := (List.prefix_append w w').trans start
  have ne : w ≠ [] := by
    rintro rfl
    exact some v read
  exact not_zero_lt_value keeps begins read more (below begins ne)

section

-- the steps of a derivation are told apart without unfolding the value that spelled digits have
attribute [local irreducible] Decimal.nearest

mutual

/-- What a set derives from a beginning of a text with a minus sign is not above zero. -/
theorem not_zero_lt_of_set (keeps : book.KeepsSign s₀ t) (minus : t.head? = some '-')
    {s : RuleSet} {mode : Mode} {u : Text} {v : Binary64} (begins : book.Begins s₀ s mode)
    (start : u <+: t) (ne : u ≠ []) :
    Set book .decimal s mode u v → ¬ Binary64.zero.lt v
  | .rule allowed rule _ => not_zero_lt_of_rule keeps minus begins allowed rfl start ne rule

theorem not_zero_lt_of_rule (keeps : book.KeepsSign s₀ t) (minus : t.head? = some '-')
    {s : RuleSet} {mode : Mode} {c : Candidate} {bound : Option Nat} {u : Text} {v : Binary64}
    (begins : book.Begins s₀ s mode) (allowed : mode.Allows s c) (bounded : bound = mode.bound?)
    (start : u <+: t) (ne : u ≠ []) :
    Rule book .decimal s c bound u v → ¬ Binary64.zero.lt v
  | .alternative mem pieces =>
    not_zero_lt_of_firstBelow (keeps _ _ _ _ _ _ begins allowed mem start ne (bounded ▸ pieces)) start
      (bounded ▸
        firstBelow_of_pieces keeps minus
          (fun _ _ eq _ _ _ leads sends =>
            .step begins allowed (eq ▸ mem) (bounded ▸ leads) sends) pieces)

theorem firstBelow_of_pieces (keeps : book.KeepsSign s₀ t) (minus : t.head? = some '-')
    {s : RuleSet} {c : Candidate} {bound : Option Nat} {pieces : List Piece} {u : Text}
    {parts parts' : Parts}
    (passes : ∀ sub rest, pieces = .substitution sub :: rest → ∀ target mode s',
      c.lead? bound sub = some (target, mode) → book.Sends s target s' → book.Begins s₀ s' mode) :
    Pieces book .decimal s c bound pieces u parts parts' →
      FirstBelow book t s c bound pieces u parts parts'
  | .nil => fun _ _ eq => by cases eq
  | .literal _ => fun _ _ eq => by cases eq
  | .substitution read more => fun sub rest eq leads => by
    obtain ⟨first, rfl⟩ := List.cons.inj eq
    obtain rfl := Piece.substitution.inj first
    exact ⟨_, _, _, rfl, read, more, fun start ne =>
      not_zero_lt_of_sub keeps minus (passes _ _ rfl) leads start ne read⟩

theorem not_zero_lt_of_sub (keeps : book.KeepsSign s₀ t) (minus : t.head? = some '-')
    {s : RuleSet} {c : Candidate} {bound : Option Nat} {sub : Substitution} {u : Text}
    {v : Binary64}
    (passes : ∀ target mode s', c.lead? bound sub = some (target, mode) → book.Sends s target s' →
      book.Begins s₀ s' mode)
    (leads : (c.lead? bound sub).isSome) (start : u <+: t) (ne : u ≠ []) :
    Sub book .decimal s c bound sub u v → ¬ Binary64.zero.lt v
  | .normalQuotient sent | .normalSame sent | .fractionQuotient sent | .fractionSame sent =>
    not_zero_lt_of_sent keeps minus (fun s' => passes _ _ s' rfl) start ne sent
  | .normalRemainder .. | .normalForced _ | .lowestForced _ | .spacedDigits _ | .closeDigits _
  | .fractionSet .. | .fractionNumeral _ | .negative .. | .negativeForced _
  | .numeratorQuotient _ | .numerator .. | .numeratorForced _ => absurd leads Bool.false_ne_true

theorem not_zero_lt_of_sent (keeps : book.KeepsSign s₀ t) (minus : t.head? = some '-')
    {s : RuleSet} {mode : Mode} {target : Target} {u : Text} {v : Binary64}
    (passes : ∀ s', book.Sends s target s' → book.Begins s₀ s' mode) (start : u <+: t) (ne : u ≠ []) :
    Sent book .decimal s mode target u v → ¬ Binary64.zero.lt v
  | .owner set => not_zero_lt_of_set keeps minus (passes _ .owner) start ne set
  | .ruleSet found set => not_zero_lt_of_set keeps minus (passes _ (.ruleSet found)) start ne set
  | .numeral read => by
    obtain ⟨rest, rfl⟩ := start
    rw [List.head?_append_of_ne_nil _ ne] at minus
    exact NumeralSystem.not_zero_lt_of_readDecimal minus read

end

end

end Derives

/-! ## Round trips -/

namespace RuleBook

variable {description : Text} {book : RuleBook} {set : Option Text} {s : RuleSet} {t : Text}
  {v : Binary64}

/-- What is written for a value below zero begins with a minus sign, if there is no rule for such
    values. -/
theorem head?_of_format (entry : book.entry set = .ok s) (minus : s.negative = none)
    (finite : v.isFinite) (below : v.isNegative) {context : Context} {options : Options}
    (h : book.format v set context options = .ok t) : t.head? = some '-' := by
  obtain ⟨limit, lenient⟩ := options
  rw [format_of_entry entry finite] at h
  obtain ⟨x, hx, text⟩ := bind_eq_ok.1 h
  obtain ⟨plan, hp, hx⟩ := bind_eq_ok.1 hx
  have hp : Plan.real s v = .ok plan := hp
  rw [Plan.real, if_pos below] at hp
  obtain ⟨magnitude, -, hp⟩ := bind_eq_ok.1 hp
  rw [Plan.negative, minus] at hp
  obtain rfl := Except.ok.inj hp
  obtain ⟨y, -, hx⟩ := bind_eq_ok.1 hx
  obtain rfl := Except.ok.inj hx
  obtain rfl := Except.ok.inj text
  rfl

/-- **No value above zero is read strictly from a text with a minus sign,** if the rules that read its
    beginning leave the sign to what they begin with. -/
theorem not_zero_lt_of_parse (compiled : ofDescription description = .ok book)
    (entry : book.entry set = .ok s) (keeps : book.KeepsSign s t) (minus : t.head? = some '-')
    {limit : Nat} {out : Outcome} (h : book.parse t set {} ⟨limit, false⟩ = .ok out)
    (some : 0 < out.consumed) : ¬ Binary64.zero.lt out.value := by
  obtain ⟨s', entry', u, rest, rfl, size, derived⟩ := derives_of_parse compiled h
  obtain rfl := Except.ok.inj (entry.symm.trans entry')
  refine Derives.not_zero_lt_of_set keeps minus .self (List.prefix_append u rest) ?_ derived
  rintro rfl
  rw [← size] at some
  exact absurd some (Nat.lt_irrefl _)

/-- **The sign is not lost,** strictly read: what a set without a rule for values below zero writes for
    an integral value below zero is not read as its magnitude, if the rules that read its beginning
    leave the sign to what they begin with. -/
theorem parse_ne_magnitude (compiled : ofDescription description = .ok book)
    (entry : book.entry set = .ok s) (minus : s.negative = none) (integral : v.isIntegral)
    (below : v.isNegative) {limit : Nat} {lenient : Bool}
    (written : book.format v set {} ⟨limit, lenient⟩ = .ok t) (keeps : book.KeepsSign s t)
    (limit' : Nat) :
    book.parse t set {} ⟨limit', false⟩ ≠ .ok ⟨v.abs, Text.utf8Size t⟩ := by
  intro read
  have sign := head?_of_format entry minus (Binary64.isFinite_of_isIntegral integral) below written
  have some : 0 < Text.utf8Size t := by
    refine Text.utf8Size_pos ?_
    rintro rfl
    cases sign
  have notAbove := not_zero_lt_of_parse compiled entry keeps sign read some
  exact notAbove (Binary64.zero_lt_abs below)

/-! ## A rule book that keeps the sign -/

/-- An alternative that begins with a literal reads no text that begins with another character. -/
theorem not_pieces_of_literal {s : RuleSet} {c : Candidate} {bound : Option Nat} {l u : Text}
    {rest : List Piece} {parts parts' : Parts} (ne : l ≠ []) (other : l.head? ≠ t.head?)
    (start : u <+: t) :
    ¬ Derives.Pieces book .decimal s c bound (.literal l :: rest) u parts parts' := by
  intro derived
  cases derived with
  | literal =>
    obtain ⟨behind, rfl⟩ := start
    refine other ?_
    rw [List.append_assoc, List.head?_append_of_ne_nil _ ne]

/-- `#,##0`. -/
def inGroups : NumeralPattern := ⟨"#,##0".toList, 1, some 3, 0, 0⟩

/-- The rule set of `%%units: -x: ->>; 0: =#,##0=;`. -/
def unitsSet : RuleSet where
  name := "%%units".toList
  negative := some [.piece (.literal ['-']), .piece (.substitution (.remainder .owner))]
  ladder := [⟨0, 10, 0, false, [.piece (.substitution (.same (.numeral inGroups)))]⟩]

/-- The rule `1000: <%%units< thousand[ >>]`. -/
def thousand : Rule :=
  ⟨1000, 10, 0, false,
    [.piece (.substitution (.quotient (.ruleSet "%%units".toList))),
      .piece (.literal " thousand".toList),
      .optional [.literal [' '], .substitution (.remainder .owner)]]⟩

/-- The rule set of `%count: zero; one; 2: =#,##0=; 1000: <%%units< thousand[ >>];`. -/
def thousandsSet : RuleSet where
  name := "%count".toList
  ladder :=
    [thousand,
     ⟨2, 10, 0, false, [.piece (.substitution (.same (.numeral inGroups)))]⟩,
     ⟨1, 10, 0, true, [.piece (.literal "one".toList)]⟩,
     ⟨0, 10, 0, true, [.piece (.literal "zero".toList)]⟩]

/-- The rule book with both. -/
def thousands : RuleBook := ⟨[thousandsSet, unitsSet], .none⟩

/-- The first set reads the beginning of a text in full, the second one reads quotients below 1000. -/
def AtThousands (s : RuleSet) (mode : Mode) : Prop :=
  s = thousandsSet ∧ mode = .full ∨ s = unitsSet ∧ mode = .integer (some 1000)

/-- The alternatives of the rules that are tried.  The rule for values below zero is none of them, for
    quotients are not read by such rules. -/
theorem AtThousands.pieces_cases {s : RuleSet} {mode : Mode} {c : Candidate} {pieces : List Piece}
    (h : AtThousands s mode) (allowed : mode.Allows s c) (mem : pieces ∈ c.template.alternatives) :
    (∃ below rest, s = thousandsSet ∧ mode = .full ∧ c = .normal thousand below ∧
      pieces = .substitution (.quotient (.ruleSet "%%units".toList)) :: rest ∧
      ∀ sub, .substitution sub ∈ rest → ∃ target, sub = .remainder target) ∨
    (∃ rule below, c = .normal rule below ∧ pieces = [.substitution (.same (.numeral inGroups))]) ∨
    ∃ l, l ≠ [] ∧ l.head? ≠ "-1,234 thousand".toList.head? ∧ pieces = [.literal l] := by
  rcases h with ⟨rfl, rfl⟩ | ⟨rfl, rfl⟩
  · cases allowed with
    | negative special => cases special
    | @fraction form _ _ special => cases form <;> cases special
    | @normal rule below suffix =>
      rcases List.mem_cons.1 (suffix.subset List.mem_cons_self) with rfl | hr
      · rcases List.mem_pair.1 mem with rfl | rfl
        all_goals exact .inl ⟨below, _, rfl, rfl, rfl, rfl, by simp⟩
      rcases List.mem_cons.1 hr with rfl | hr
      · exact .inr (.inl ⟨_, below, rfl, List.mem_singleton.1 mem⟩)
      rcases List.mem_pair.1 hr with rfl | rfl
      all_goals exact .inr (.inr ⟨_, by decide, by decide, List.mem_singleton.1 mem⟩)
  · cases allowed with
    | @bounded rule below _ suffix _ =>
      obtain rfl := List.mem_singleton.1 (suffix.subset List.mem_cons_self)
      exact .inr (.inl ⟨_, below, rfl, List.mem_singleton.1 mem⟩)

theorem find?_units : thousands.find? "%%units".toList = some unitsSet := by decide

theorem atThousands_of_begins {s : RuleSet} {mode : Mode} (h : thousands.Begins thousandsSet s mode) :
    AtThousands s mode := by
  induction h with
  | self => exact .inl ⟨rfl, rfl⟩
  | step _ allowed mem leads sends ih =>
    rcases ih.pieces_cases allowed mem with
      ⟨below, rest, rfl, rfl, rfl, eq, -⟩ | ⟨rule, below, rfl, eq⟩ | ⟨l, -, -, eq⟩
    · cases eq
      cases leads
      cases sends with
      | ruleSet found => exact .inr ⟨Option.some.inj (found.symm.trans find?_units), by decide⟩
    · cases eq
      cases leads
      cases sends
    · cases eq

/-- All numerals at the beginning of the text are at least one in size. -/
theorem numeral_at_thousands {s : RuleSet} {mode : Mode} {u : Text} {v : Binary64}
    (start : u <+: "-1,234 thousand".toList)
    (sent : Derives.Sent book .decimal s mode (.numeral inGroups) u v) :
    u ≠ [] ∧ ¬ v.abs.lt (.ofNat 1) := by
  have large : ∀ u ∈ "-1,234 thousand".toList.inits,
      (NumeralSystem.decimal.read u inGroups).all fun r => u ≠ [] && !r.1.abs.lt (.ofNat 1) := by
    decide +kernel
  cases sent with
  | numeral read =>
    have h := large u ((List.mem_inits u _).2 start)
    rw [read] at h
    simpa using h

theorem same_at_thousands {s : RuleSet} {rule : Rule} {below : List Rule} {bound : Option Nat}
    {u : Text} {v : Binary64} (start : u <+: "-1,234 thousand".toList)
    (read : Derives.Sub book .decimal s (.normal rule below) bound (.same (.numeral inGroups)) u v) :
    u ≠ [] ∧ ¬ v.abs.lt (.ofNat 1) := by
  cases read with
  | normalSame sent => exact numeral_at_thousands start sent

/-- So are quotients. -/
theorem quotient_at_thousands {below : List Rule} {u : Text} {v : Binary64}
    (start : u <+: "-1,234 thousand".toList)
    (read : Derives.Sub thousands .decimal thousandsSet (.normal thousand below) none
      (.quotient (.ruleSet "%%units".toList)) u v) : u ≠ [] ∧ ¬ v.abs.lt (.ofNat 1) := by
  cases read with
  | normalQuotient sent =>
    cases sent with
    | ruleSet found set =>
      obtain rfl := Option.some.inj (found.symm.trans find?_units)
      cases set with
      | rule allowed derived _ =>
        cases derived with
        | alternative mem pieces =>
          have place : AtThousands unitsSet (.integer (some thousand.divisor)) :=
            .inr ⟨rfl, by decide⟩
          rcases place.pieces_cases allowed mem with
            ⟨_, _, eq, -⟩ | ⟨rule, below, rfl, rfl⟩ | ⟨l, ne, other, rfl⟩
          · cases eq
          · cases pieces with
            | substitution read rest =>
              cases rest with
              | nil =>
                rw [List.append_nil] at start ⊢
                exact same_at_thousands start read
          · exact absurd pieces (not_pieces_of_literal ne other start)

/-- What the set writes for -1234000 is read by rules that begin with a numeral, or not at all. -/
theorem keepsSign_thousands : thousands.KeepsSign thousandsSet "-1,234 thousand".toList := by
  intro s mode c pieces u parts begins allowed mem start _ derived
  rcases (atThousands_of_begins begins).pieces_cases allowed mem with
    ⟨below, rest, rfl, rfl, rfl, rfl, only⟩ | ⟨rule, below, rfl, rfl⟩ | ⟨l, ne, other, rfl⟩
  · exact .quotient (fun _ _ => quotient_at_thousands) only
  · exact .same trivial fun v read => (same_at_thousands List.nil_prefix read).1 rfl
  · exact absurd derived (not_pieces_of_literal ne other start)

/-- -1234000 is written as `-1,234 thousand`; this is read as the value that was written, and not as its
    magnitude. -/
theorem parse_ne_magnitude_thousands :
    ofDescription ("%count: zero; one; 2: =#,##0=; 1000: <%%units< thousand[ >>]; " ++
        "%%units: -x: ->>; 0: =#,##0=;").toList = .ok thousands ∧
      thousands.entry none = .ok thousandsSet ∧ thousandsSet.negative = none ∧
      (Binary64.neg (.ofNat 1234000)).isIntegral ∧ (Binary64.neg (.ofNat 1234000)).isNegative ∧
      thousands.format (.neg (.ofNat 1234000)) none {} ⟨64, false⟩ =
        .ok "-1,234 thousand".toList ∧
      thousands.KeepsSign thousandsSet "-1,234 thousand".toList ∧
      thousands.parse "-1,234 thousand".toList none {} ⟨64, false⟩ =
        .ok ⟨.neg (.ofNat 1234000), 15⟩ ∧
      thousands.parse "-1,234 thousand".toList none {} ⟨64, false⟩ ≠
        .ok ⟨.abs (.neg (.ofNat 1234000)), 15⟩ := by
  have compiled : ofDescription ("%count: zero; one; 2: =#,##0=; 1000: <%%units< thousand[ >>]; " ++
      "%%units: -x: ->>; 0: =#,##0=;").toList = .ok thousands := by decide +kernel
  have entry : thousands.entry none = .ok thousandsSet := by decide +kernel
  have integral : (Binary64.neg (.ofNat 1234000)).isIntegral := by decide +kernel
  have below : (Binary64.neg (.ofNat 1234000)).isNegative := by decide +kernel
  have written : thousands.format (.neg (.ofNat 1234000)) none {} ⟨64, false⟩ =
      .ok "-1,234 thousand".toList := by decide +kernel
  exact ⟨compiled, entry, rfl, integral, below, written, keepsSign_thousands, by decide +kernel,
    parse_ne_magnitude compiled entry rfl integral below written keepsSign_thousands 64⟩

/-! ## Rule books that lose the sign -/

/-- What the default set of a description writes for a natural number below zero, and the value and the
    number of bytes that it reads from that, if it has no rule for values below zero. -/
def comesBack (description : String) (n : Nat) (lenient : Bool) : Option (Text × Outcome) := do
  let book ← (ofDescription description.toList).toOption
  let s ← (book.entry none).toOption
  guard (s.negative = none)
  let t ← (book.format (.neg (.ofNat n)) none {} ⟨64, lenient⟩).toOption
  let out ← (book.parse t none {} ⟨64, lenient⟩).toOption
  return (t, out)

/-- **The sign is lost** in lenient mode, which leaves hyphens out of account.  Read strictly it is
    lost to a literal, to the rule of another set for values below zero, and to rules that do not
    leave it to what they begin with: to a quotient of zero, to a value or quotient behind the
    quotient, to a `>>>` that is not below the divisor, to a remainder that comes first, to a fraction,
    and to a value that is read from nothing. -/
theorem parse_magnitude :
    comesBack "%a: zero; one;" 1 true = some ("-one".toList, ⟨.ofNat 1, 4⟩) ∧
      comesBack "%a: zero; one; 100: -==;" 1 false = some ("-one".toList, ⟨.ofNat 1, 4⟩) ∧
      comesBack "%a: 0: =0=; x.x: =%b=; %b: -x: =0=;" 5 false = some ("-5".toList, ⟨.ofNat 5, 2⟩) ∧
      comesBack "%a: 0: =00=; 10: <0<>0>;" 5 false = some ("-05".toList, ⟨.ofNat 5, 3⟩) ∧
      comesBack "%a: 0: =00=; 10: <0<=0=;" 15 false = some ("-115".toList, ⟨.ofNat 15, 4⟩) ∧
      comesBack "%a: 0: =00=; 10: <0<<0<;" 10 false = some ("-11".toList, ⟨.ofNat 10, 3⟩) ∧
      comesBack "%a: 0: =0=; 98: '; 100>>: <0<>>>;" 49 false = some ("-49".toList, ⟨.ofNat 49, 3⟩) ∧
      comesBack "%a: 0: =0=; 10: >0>;" 10 false = some ("-0".toList, ⟨.ofNat 10, 2⟩) ∧
      comesBack "%a: 0: =00=; x.x: <0<>0>;" 5 false = some ("-05".toList, ⟨.ofNat 5, 3⟩) ∧
      comesBack "%a: 0: =%b==0=; %b: 7: ';" 7 false = some ("-7".toList, ⟨.ofNat 7, 2⟩) := by
  decide +kernel

end RuleBook
end Spellout
