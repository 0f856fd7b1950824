/-
  Which errors a value may lead to.

  Rules divide natural numbers below `2 ^ 63`.  A finite value whose magnitude is below that limit
  never leads to a number beyond it, whatever rules are applied on the way: quotients and remainders
  are smaller than what is divided, fractions are below one, and numerators below a base value.  So
  what is left are sets and rules that a book lacks, and the limit on nesting.

  * `RuleBook.Complete`: the book lacks nothing that its rules refer to;
  * `RuleBook.Expects`: the errors that values in range may lead to;
  * `Request.Sound`, `Applied.Sound`: the numbers in a request are in range, its rules are of the book;
  * `RuleBook.ends_plan`, `RuleBook.ends_insertion`: sound requests lead to sound requests;
  * `RuleBook.format_outOfRange`: values are out of range from the limit on, and only there; below it
    a complete book has a text for all values, unless it gives up.
-/
import Spellout.Proofs.GivesUp
import Spellout.Proofs.Number.Whole
import Spellout.Proofs.RuleBook.Names
import Spellout.Proofs.Spelling.Insertions
import Spellout.Proofs.Spelling.Selection
import Spellout.RuleBook.Conversion

namespace Spellout

/-! ## Complete books -/

/-- The name of the set that a substitution refers to. -/
def Substitution.setName? : Substitution → Option Text
  | .quotient t | .remainder t | .same t => t.setName?
  | .forced => none

theorem Substitution.setName?_of_target? {sub : Substitution} {t : Target}
    (h : sub.target? = some t) : sub.setName? = t.setName? := by
  cases sub <;> cases h <;> rfl

/-- The name of the set that a fraction is sent to, in a rule for such values. -/
def Substitution.denominators? : Substitution → Option Text
  | .remainder t => t.setName?
  | .quotient _ | .same _ | .forced => none

/-- The book lacks no set and no rule that its rules refer to. -/
structure RuleBook.Complete (book : RuleBook) : Prop where
  /-- Rules refer to sets of the book. -/
  named : ∀ s ∈ book.sets, ∀ t ∈ s.templates, ∀ sub ∈ t.substitutions, ∀ name ∈ sub.setName?,
    (book.find? name).isSome
  /-- Every set has a rule for zero. -/
  zero : ∀ s ∈ book.sets, ∃ rule ∈ s.ladder, rule.base = 0
  /-- Every set that fractions are sent to has a denominator. -/
  denominators : ∀ s ∈ book.sets, ∀ t ∈ s.fractionTemplates, ∀ sub ∈ t.substitutions,
    ∀ name ∈ sub.denominators?, ∀ s' ∈ book.find? name, ∃ rule ∈ s'.ladder, 0 < rule.base

/-- The errors that values in range may lead to; rules and sets are lacking in incomplete books
    only. -/
def RuleBook.Expects (book : RuleBook) : Error → Prop
  | .depthExceeded .. => True
  | .undefinedRuleSet _ | .noRule .. => ¬ book.Complete
  | _ => False

/-! ## Sound requests -/

/-- The number is one that rules can divide; so is the whole part of a value. -/
def Operand.InRange : Operand → Prop
  | .whole n => n < wholeLimit
  | .real v => v.InRange

/-- The request is to a set of the book, for a number in range. -/
def Request.Sound (book : RuleBook) : Request → Prop
  | .value s x => s ∈ book.sets ∧ x.InRange
  | .rung s rule below n => s ∈ book.sets ∧ (rule :: below) <:+ s.ladder ∧ n < wholeLimit
  | .fraction s v => s ∈ book.sets ∧ v.IsProper ∧
      (book.Complete → ∃ rule ∈ s.ladder, 0 < rule.base)

/-- The numbers that a rule is applied to are in range. -/
def Application.Sound (s : RuleSet) (t : Template) : Application → Prop
  | .normal rule below n => (rule :: below) <:+ s.ladder ∧ n < wholeLimit
  | .fraction v whole => t ∈ s.fractionTemplates ∧ v.InRange ∧ whole < wholeLimit
  | .negative magnitude => magnitude.InRange
  | .numerator n => n < wholeLimit

/-- The rule is one of a set of the book, and the numbers it is applied to are in range. -/
structure Applied.Sound (book : RuleBook) (a : Applied) : Prop where
  set : a.set ∈ book.sets
  template : a.template ∈ a.set.templates
  application : a.application.Sound a.set a.template

/-- The plan leads to a sound request, or applies a sound rule. -/
def Plan.Sound (book : RuleBook) : Plan → Prop
  | .minus next => next.Sound book
  | .apply a => a.Sound book

/-! ## Operands -/

theorem Binary64.IsProper.inRange {v : Binary64} (h : v.IsProper) : v.InRange := by
  obtain ⟨s, m, rfl, lt⟩ := h
  refine ⟨s, m, rfl, ?_⟩
  rw [Magnitude.floor, Nat.div_eq_of_lt lt]
  decide

theorem Operand.InRange.isFinite {x : Operand} (h : x.InRange) : x.toBinary64.isFinite := by
  cases x with
  | whole n => exact Binary64.isFinite_ofNat_of_le (Nat.le_of_lt h)
  | real v => exact Binary64.InRange.isFinite h

theorem Binary64.InRange.ends_wholeOf {Fails : Error → Prop} {v : Binary64} (h : v.InRange) :
    Ends Fails (· < wholeLimit) (wholeOf v) := by
  obtain ⟨n, lt, hn⟩ := h.exists_wholeOf
  exact .of_eq hn lt

theorem Binary64.InRange.ends_ofReal {Fails : Error → Prop} {v : Binary64} (h : v.InRange) :
    Ends Fails Operand.InRange (Operand.ofReal v) := by
  unfold Operand.ofReal
  split
  · exact h.ends_wholeOf.bind fun n lt => lt
  · exact h

namespace Application

variable {s : RuleSet} {t : Template} {app : Application}

theorem Sound.value (h : app.Sound s t) : app.value.InRange := by
  cases app with
  | normal rule below n => exact h.2
  | fraction v whole => exact h.2.1
  | negative magnitude => exact h
  | numerator n => exact h

theorem Sound.quotient (h : app.Sound s t) : app.quotient.InRange := by
  cases app with
  | normal rule below n => exact Nat.lt_of_le_of_lt (Nat.div_le_self ..) h.2
  | fraction v whole => exact h.2.2
  | negative magnitude => exact h
  | numerator n => exact h

theorem Sound.remainder (h : app.Sound s t) : app.remainder.InRange := by
  cases app with
  | normal rule below n => exact Nat.lt_of_le_of_lt (Nat.mod_le ..) h.2
  | fraction v whole => exact (Binary64.isProper_fract h.2.1.isFinite).inRange
  | negative magnitude => exact h
  | numerator n => exact Nat.two_pow_pos 63

theorem Sound.operand (h : app.Sound s t) (sub : Substitution) : (app.operand sub).InRange := by
  cases sub with
  | quotient => exact h.quotient
  | remainder | forced => exact h.remainder
  | same => exact h.value

/-- A quotient that is not cut off is finite, too. -/
theorem Sound.isFinite_div {rule : Rule} {below : List Rule} {n : Nat} (ordered : s.Ordered)
    (h : (normal rule below n).Sound s t) :
    ((Binary64.ofNat n).div (.ofNat rule.divisor)).isFinite := by
  have mem := h.1.subset List.mem_cons_self
  have radix := ordered.two_le_radix rule mem
  have bound : rule.divisor ≤ wholeLimit :=
    Nat.le_trans (Rule.divisor_le_maxBase radix (ordered.base_le rule mem)) (Nat.sub_le ..)
  exact Binary64.isFinite_div_ofNat (Nat.le_of_lt h.2) bound (Rule.divisor_pos radix)

end Application

/-! ## Plans -/

namespace RuleBook

variable {book : RuleBook} {s : RuleSet}

theorem ends_whole (hs : s ∈ book.sets) {n : Nat} (lt : n < wholeLimit) :
    Ends book.Expects (Plan.Sound book) (Plan.whole s n) := by
  unfold Plan.whole
  split
  · rename_i rule below chosen
    have suffix := RuleSet.chosen?_suffix chosen
    exact ⟨hs, RuleSet.mem_templates_of_mem (suffix.subset List.mem_cons_self), suffix, lt⟩
  · rename_i none
    intro complete
    obtain ⟨rule, mem, zero⟩ := complete.zero s hs
    exact RuleSet.exists_chosen?_of_mem mem (by omega) none

theorem ends_special (hs : s ∈ book.sets) {form : SpecialForm} {t : Template}
    (ht : s.special form = some t) (fraction : t ∈ s.fractionTemplates) {v : Binary64}
    (h : v.InRange) : Ends book.Expects (Plan.Sound book) (Plan.special s form t v) :=
  (Binary64.inRange_trunc.2 h).ends_wholeOf.bind fun _ lt =>
    ⟨hs, RuleSet.mem_templates_of_special ht, fraction, h, lt⟩

theorem sound_negative (hs : s ∈ book.sets) {x : Operand} (h : x.InRange) :
    (Plan.negative s x).Sound book := by
  unfold Plan.negative
  split
  · rename_i t ht
    have special : s.special .negative = some t := ht
    exact ⟨hs, RuleSet.mem_templates_of_special special, h⟩
  · exact ⟨hs, h⟩

theorem special_of_fractionForm? {form : SpecialForm} {t : Template} {v : Binary64}
    (h : s.fractionForm? v = some (form, t)) :
    s.special form = some t ∧ t ∈ s.fractionTemplates := by
  have special : s.special form = some t ∧ form ≠ .negative := by
    simp only [RuleSet.fractionForm?, Option.or_eq_some_iff, Option.map_eq_some_iff,
      Prod.mk.injEq] at h
    rcases h with ⟨_, ht, rfl, rfl⟩ | ⟨-, ⟨_, ht, rfl, rfl⟩ | ⟨-, _, ht, rfl, rfl⟩⟩
    · split at ht
      · exact ⟨ht, nofun⟩
      · cases ht
    · exact ⟨ht, nofun⟩
    · exact ⟨ht, nofun⟩
  exact ⟨special.1, RuleSet.mem_fractionTemplates special.1 special.2⟩

theorem ends_real (hs : s ∈ book.sets) {v : Binary64} (h : v.InRange) :
    Ends book.Expects (Plan.Sound book) (Plan.real s v) := by
  unfold Plan.real
  split
  · exact (Binary64.inRange_neg.2 h).ends_ofReal.bind fun _ hx => sound_negative hs hx
  · split
    · split
      · rename_i t ht
        have special : s.special .whole = some t := ht
        exact ends_special hs special (RuleSet.mem_fractionTemplates special nofun) h
      · exact h.ends_wholeOf.bind fun _ lt => ends_whole hs lt
    · rename_i fract
      split
      · rename_i form t ht
        obtain ⟨special, fraction⟩ := special_of_fractionForm? ht
        exact ends_special hs special fraction h
      · exact (Binary64.inRange_round h.isFinite fract).ends_wholeOf.bind fun _ lt =>
          ends_whole hs lt

theorem ends_fraction (ordered : ∀ s ∈ book.sets, s.Ordered) (hs : s ∈ book.sets) {v : Binary64}
    (h : v.IsProper) (complete : book.Complete → ∃ rule ∈ s.ladder, 0 < rule.base) :
    Ends book.Expects (Plan.Sound book) (Plan.fraction s v) := by
  unfold Plan.fraction
  split
  · rename_i rule hrule
    have mem := (RuleSet.mem_of_denominator? hrule).1
    have base : rule.base ≤ wholeLimit :=
      Nat.le_trans ((ordered s hs).base_le rule mem) (Nat.sub_le ..)
    exact (Binary64.inRange_scaled h base).ends_wholeOf.bind fun _ lt =>
      ⟨hs, RuleSet.mem_templates_of_mem mem, lt⟩
  · rename_i none
    intro h
    obtain ⟨rule, mem, pos⟩ := complete h
    exact RuleSet.exists_denominator? v mem pos none

/-- **The plan for a sound request is sound,** or fails as expected. -/
theorem ends_plan (ordered : ∀ s ∈ book.sets, s.Ordered) {r : Request} (h : r.Sound book) :
    Ends book.Expects (Plan.Sound book) r.plan := by
  cases r with
  | value s x =>
    cases x with
    | whole n => exact ends_whole h.1 h.2
    | real v => exact ends_real h.1 h.2
  | rung s rule below n =>
    exact ⟨h.1, RuleSet.mem_templates_of_mem (h.2.1.subset List.mem_cons_self), h.2⟩
  | fraction s v => exact ends_fraction ordered h.1 h.2.1 h.2.2

/-! ## Insertions -/

/-- An insertion leads to sound requests, and its numeral is rendered. -/
def Meets (book : RuleBook) (i : Insertion) : Prop :=
  i.Meets .decimal (Request.Sound book) book.Expects

theorem meets_numeral {v : Binary64} (h : v.isFinite) (p : NumeralPattern) :
    book.Meets (.numeral v p) := by
  cases v with
  | finite s m => exact trivial
  | nan | infinite => cases h

/-- Sets are lacking in incomplete books only. -/
theorem expects_undefined {name : Text} (named : book.Complete → (book.find? name).isSome)
    (none : book.find? name = none) : book.Expects (.undefinedRuleSet name) := by
  intro complete
  simpa [none] using named complete

theorem fractionDigits_lt {v : Binary64} {d : Nat} (h : d ∈ v.fractionDigits) : d < wholeLimit := by
  cases v with
  | finite s m =>
    obtain ⟨c, -, rfl⟩ := List.mem_map.1 h
    have : c.toNat < 2 ^ 32 := c.val.toNat_lt
    exact Nat.lt_of_le_of_lt (Nat.sub_le ..) (Nat.lt_trans this (by decide))
  | nan | infinite => cases h

/-- **The substitutions of a sound rule lead to sound requests,** or fail as expected. -/
theorem ends_insertion (ordered : ∀ s ∈ book.sets, s.Ordered) {a : Applied} (h : a.Sound book)
    {sub : Substitution} (hsub : sub ∈ a.template.substitutions) :
    Ends book.Expects book.Meets (a.insertion book sub) := by
  have named : book.Complete → ∀ name ∈ sub.setName?, (book.find? name).isSome :=
    fun complete => complete.named a.set h.set a.template h.template sub hsub
  have inserts : Ends book.Expects (a.Inserts book sub) (a.insertion book sub) :=
    Applied.ends_inserts fun t name target ht => expects_undefined fun complete =>
      named complete name ((Substitution.setName?_of_target? target).trans ht)
  obtain ⟨hs, ht, sound⟩ := h
  refine inserts.mono fun i inserted => ?_
  cases inserted with
  | value _ held => exact ⟨held hs, sound.operand sub⟩
  | numeral => exact meets_numeral (sound.operand sub).isFinite _
  | divided normal =>
    rw [normal] at sound
    have finite := sound.isFinite_div (ordered _ hs)
    -- which value it is does not matter
    generalize Binary64.div _ _ = v at finite ⊢
    exact meets_numeral finite _
  | rung normal =>
    rw [normal] at sound
    obtain ⟨suffix, lt⟩ := sound
    exact ⟨hs, (List.suffix_cons ..).trans suffix, Nat.lt_of_le_of_lt (Nat.mod_le ..) lt⟩
  | fraction fraction found =>
    rw [fraction] at sound
    obtain ⟨rules, range, -⟩ := sound
    -- the set is asked for a denominator
    exact ⟨mem_of_find? found, Binary64.isProper_fract range.isFinite, fun complete =>
      complete.denominators a.set hs a.template rules _ hsub _ rfl _ found⟩
  | digits | joinedDigits => exact fun d hd => ⟨hs, fractionDigits_lt hd⟩

/-! ## Values -/

/-- Sound requests are met, or lead to an error that is expected. -/
theorem keeps_sound (ordered : ∀ s ∈ book.sets, s.Ordered) (limit : Nat) :
    Speller.Keeps ⟨book, .decimal, limit⟩ (fun _ => Request.Sound book) book.Expects where
  limit _ _ := trivial
  plan _ _ h := (ends_plan ordered h).mono fun plan sound => by
    cases plan with
    | minus next => exact sound
    | apply a => exact fun sub hsub => ends_insertion ordered sound hsub

/-- A value out of range is refused before any rule is applied. -/
theorem plan_of_not_inRange (s : RuleSet) {v : Binary64} (finite : v.isFinite)
    (h : ¬ v.InRange) : ∃ w, Plan.real s v = .error (.outOfRange w) := by
  have integral := Binary64.isIntegral_of_not_inRange finite h
  unfold Plan.real
  split
  · have refused := Binary64.wholeOf_of_not_inRange fun neg => h (Binary64.inRange_neg.1 neg)
    rw [Operand.ofReal, if_pos ((Binary64.isIntegral_neg finite).2 integral), refused]
    exact ⟨v.neg, rfl⟩
  · split
    · have refused := Binary64.wholeOf_of_not_inRange fun trunc => h (Binary64.inRange_trunc.1 trunc)
      rw [Plan.special, refused]
      exact ⟨v.trunc, rfl⟩
    · rw [Binary64.wholeOf_of_not_inRange h]
      exact ⟨v, rfl⟩

/-- Values in range lead to expected errors only. -/
theorem ends_format (ordered : ∀ s ∈ book.sets, s.Ordered) {set : Option Text}
    (entry : book.entry set = .ok s) {v : Binary64} (h : v.InRange) (options : Options) :
    Ends book.Expects (fun _ => True) (book.format v set {} options) := by
  rw [format_of_entry entry h.isFinite]
  have sound : Request.Sound book (.value s (.real v)) := ⟨mem_of_entry entry, h⟩
  exact ((keeps_sound ordered options.maxDepth).spell 0 sound).bind fun _ _ => trivial

/-- **A value is out of range if its magnitude is not below the limit, and only then.**  Below the
    limit a complete book has a text for every value, unless it gives up. -/
theorem format_outOfRange {description : Text} {book : RuleBook}
    (compiled : ofDescription description = .ok book) {set : Option Text} {s : RuleSet}
    (entry : book.entry set = .ok s) {v : Binary64} (finite : v.isFinite) (options : Options) :
    ((∃ w, book.format v set {} options = .error (.outOfRange w)) ↔
        ¬ v.abs.lt (.ofNat (2 ^ 63))) ∧
      (book.Complete → v.abs.lt (.ofNat (2 ^ 63)) →
        (∃ t, book.format v set {} options = .ok t) ∨ GivesUp (book.format v set {} options)) := by
  have range : v.InRange ↔ v.abs.lt (.ofNat (2 ^ 63)) := Binary64.inRange_iff_lt finite
  rw [← range]
  refine ⟨⟨?_, fun h => ?_⟩, fun complete h => ?_⟩
  · rintro ⟨w, failed⟩ h
    have expected := ends_format (ordered_of_ofDescription compiled) entry h options
    rw [failed] at expected
    exact expected
  · obtain ⟨w, refused⟩ := plan_of_not_inRange s finite h
    rw [format_of_entry entry finite, Speller.spell, Request.plan, refused]
    exact ⟨w, rfl⟩
  · have expected := ends_format (ordered_of_ofDescription compiled) entry h options
    cases hf : book.format v set {} options with
    | ok t => exact .inl ⟨t, rfl⟩
    | error e =>
      rw [hf] at expected
      cases e with
      | depthExceeded name limit => exact .inr ⟨name, limit, rfl⟩
      | undefinedRuleSet | noRule => exact absurd complete expected
      | _ => cases expected

/-- A set with fractions in halves and quarters. -/
def quarters : RuleBook where
  sets :=
    [{ name := "%main".toList
       negative := some [.piece (.literal "minus ".toList), .piece (.substitution (.remainder .owner))]
       improper := some [.piece (.substitution (.quotient .owner)), .piece (.literal " and ".toList),
         .piece (.substitution (.remainder (.ruleSet "%%parts".toList)))]
       ladder :=
         [⟨2, 10, 0, true,
            [.piece (.substitution (.same (.numeral ⟨"#,##0".toList, 1, some 3, 0, 0⟩)))]⟩,
          ⟨1, 10, 0, true, [.piece (.literal "one".toList)]⟩,
          ⟨0, 10, 0, true, [.piece (.literal "none".toList)]⟩] },
     { name := "%%parts".toList
       ladder :=
         [⟨4, 10, 0, false, [.piece (.substitution (.quotient .owner)),
            .piece (.literal " quarter".toList), .optional [.literal ['s']]]⟩,
          ⟨2, 10, 0, false, [.piece (.literal "half".toList)]⟩,
          ⟨0, 10, 0, false, [.piece (.substitution (.same (.ruleSet "%main".toList)))]⟩] }]
  equivalences := .none

theorem complete_quarters : quarters.Complete where
  named := by decide
  zero := by decide
  denominators := by decide

/-- The limit itself is out of range; minus 2 and 3 quarters is not, nor is it refused. -/
theorem format_outOfRange_quarters :
    ofDescription ("%main: -x: minus >>; x.x: << and >%%parts>; none; one; =#,##0=; " ++
        "%%parts: 0: =%main=; 2: half; 4: << quarter[s];").toList = .ok quarters ∧
      (∃ s, quarters.entry none = .ok s) ∧
      ((Binary64.ofNat (2 ^ 63)).isFinite ∧
        ¬ (Binary64.ofNat (2 ^ 63)).abs.lt (.ofNat (2 ^ 63)) ∧
        ∃ w, quarters.format (.ofNat (2 ^ 63)) none {} {} = .error (.outOfRange w)) ∧
      (Binary64.ofRatio true 11 4).isFinite ∧ quarters.Complete ∧
        (Binary64.ofRatio true 11 4).abs.lt (.ofNat (2 ^ 63)) ∧
        ((∃ t, quarters.format (.ofRatio true 11 4) none {} {} = .ok t) ∨
          GivesUp (quarters.format (.ofRatio true 11 4) none {} {})) := by
  have compiled : ofDescription
      ("%main: -x: minus >>; x.x: << and >%%parts>; none; one; =#,##0=; " ++
        "%%parts: 0: =%main=; 2: half; 4: << quarter[s];").toList = .ok quarters := by
    decide +kernel
  obtain ⟨s, entry⟩ : ∃ s, quarters.entry none = .ok s := ⟨quarters.sets.head (by decide), by decide⟩
  have limit : (Binary64.ofNat (2 ^ 63)).isFinite := by decide +kernel
  have beyond : ¬ (Binary64.ofNat (2 ^ 63)).abs.lt (.ofNat (2 ^ 63)) := by decide +kernel
  have quarter : (Binary64.ofRatio true 11 4).isFinite := by decide +kernel
  have below : (Binary64.ofRatio true 11 4).abs.lt (.ofNat (2 ^ 63)) := by decide +kernel
  have refused := (format_outOfRange compiled entry limit {}).1.2 beyond
  have spelled := (format_outOfRange compiled entry quarter {}).2 complete_quarters below
  exact ⟨compiled, ⟨s, entry⟩, ⟨limit, beyond, refused⟩, quarter, complete_quarters, below, spelled⟩

end RuleBook
end Spellout
