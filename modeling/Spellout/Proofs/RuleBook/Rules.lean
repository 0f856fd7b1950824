/-
  Rules of compiled descriptions.

  * `Template.substitutions` are the substitutions of a template, those in groups too, and
    `RuleBook.patterns` the numeral patterns of all of them;
  * `Template.literals` are its literals, and `RuleBook.literals` those of all rules;
  * `RuleSet.targets` are the targets that the rules of a set name;
  * `RuleSet.templates` are the templates of the rules of a set, `RuleBook.ruleCount` is the number of
    rules in a book;
  * `RuleSet.Ordered`: bases descend along the ladder, and keys are within their bounds;
  * `RuleBook.ordered_of_ofDescription`: so it is in the sets of a compiled description;
  * `Rule.divisor_pos`, `Rule.divisor_le_base`: a divisor is positive, and not above a base that is.
-/
import Mathlib.Data.List.Pairwise
import Spellout.Proofs.Description.Adding
import Spellout.Proofs.Rule.Texts

namespace Spellout

/-! ## Templates -/

/-- The substitutions of a template, those in groups included. -/
def Template.substitutions (t : Template) : List Substitution :=
  (t.flatMap Segment.pieces).filterMap Piece.substitution?

theorem Template.mem_substitutions {kept : List Piece → Bool} {t : Template} {sub : Substitution}
    (h : .substitution sub ∈ t.keeping kept) : sub ∈ t.substitutions := by
  obtain ⟨segment, mem, h⟩ := List.mem_flatMap.1 h
  refine List.mem_filterMap.2 ⟨.substitution sub, List.mem_flatMap.2 ⟨segment, mem, ?_⟩, rfl⟩
  cases segment with
  | piece p => exact h
  | optional ps =>
    dsimp only at h
    split at h
    · exact h
    · cases h

/-- The pieces of an alternative are pieces of the template, or were there before. -/
theorem Template.mem_of_extendAll {t : Template} {alts : List (List Piece)} {pieces : List Piece}
    (h : pieces ∈ t.foldl extendAll alts) :
    ∃ start ∈ alts, ∀ p ∈ pieces, p ∈ start ∨ p ∈ t.flatMap Segment.pieces := by
  induction t generalizing alts with
  | nil => exact ⟨pieces, h, fun p hp => .inl hp⟩
  | cons segment t ih =>
    obtain ⟨middle, mem, hm⟩ := ih h
    have split : ∃ start ∈ alts, ∀ p ∈ middle, p ∈ start ∨ p ∈ segment.pieces := by
      cases segment with
      | piece q =>
        obtain ⟨start, hs, rfl⟩ := List.mem_map.1 mem
        exact ⟨start, hs, fun p hp => List.mem_append.1 hp⟩
      | optional ps =>
        rcases List.mem_append.1 mem with mem | mem
        · obtain ⟨start, hs, rfl⟩ := List.mem_map.1 mem
          exact ⟨start, hs, fun p hp => List.mem_append.1 hp⟩
        · exact ⟨middle, mem, fun p hp => .inl hp⟩
    obtain ⟨start, hs, hstart⟩ := split
    refine ⟨start, hs, fun p hp => ?_⟩
    rw [List.flatMap_cons, List.mem_append]
    rcases hm p hp with hp | hp
    · rcases hstart p hp with hp | hp
      · exact .inl hp
      · exact .inr (.inl hp)
    · exact .inr (.inr hp)

/-- The substitutions of an alternative are substitutions of the template. -/
theorem Template.mem_substitutions_of_alternatives {t : Template} {pieces : List Piece}
    (h : pieces ∈ t.alternatives) {sub : Substitution} (mem : .substitution sub ∈ pieces) :
    sub ∈ t.substitutions := by
  obtain ⟨start, hs, hm⟩ := mem_of_extendAll h
  obtain rfl := List.mem_singleton.1 hs
  exact List.mem_filterMap.2 ⟨_, (hm _ mem).resolve_left List.not_mem_nil, rfl⟩

/-- The text of a piece, if it is a literal. -/
def Piece.literal? : Piece → Option Text
  | .literal t => some t
  | .substitution _ => none

/-- The literals of a template, those in groups included. -/
def Template.literals (t : Template) : List Text :=
  (t.flatMap Segment.pieces).filterMap Piece.literal?

/-- The literals of an alternative are literals of the template. -/
theorem Template.mem_literals_of_alternatives {t : Template} {pieces : List Piece}
    (h : pieces ∈ t.alternatives) {l : Text} (mem : .literal l ∈ pieces) : l ∈ t.literals := by
  obtain ⟨start, hs, hm⟩ := mem_of_extendAll h
  obtain rfl := List.mem_singleton.1 hs
  exact List.mem_filterMap.2 ⟨_, (hm _ mem).resolve_left List.not_mem_nil, rfl⟩

/-- The target that a substitution names; `>>>` names none. -/
def Substitution.target? : Substitution → Option Target
  | .quotient t | .remainder t | .same t => some t
  | .forced => none

/-- The targets that are named in a template. -/
def Template.targets (t : Template) : List Target := t.substitutions.filterMap Substitution.target?

/-- The pattern of a target, if it is a numeral. -/
def Target.pattern? : Target → Option NumeralPattern
  | .numeral p => some p
  | .owner | .ruleSet _ => none

/-- The pattern of the numeral that a substitution is sent to, if it is. -/
def Substitution.pattern? : Substitution → Option NumeralPattern
  | .quotient t | .remainder t | .same t => t.pattern?
  | .forced => none

/-- The numeral patterns of a template. -/
def Template.patterns (t : Template) : List NumeralPattern :=
  t.substitutions.filterMap Substitution.pattern?

namespace RuleSet

/-- The templates of the special rules of a set. -/
def specialTemplates (s : RuleSet) : List Template :=
  [s.negative, s.improper, s.proper, s.whole].filterMap id

/-- The templates for values with a fraction. -/
def fractionTemplates (s : RuleSet) : List Template :=
  [s.improper, s.proper, s.whole].filterMap id

/-- The templates of the rules of a set. -/
def templates (s : RuleSet) : List Template := s.specialTemplates ++ s.ladder.map Rule.template

/-- The targets that are named in the rules of a set. -/
def targets (s : RuleSet) : List Target := s.templates.flatMap Template.targets

/-- The numeral patterns of the rules of a set. -/
def patterns (s : RuleSet) : List NumeralPattern := s.templates.flatMap Template.patterns

theorem mem_specialTemplates {s : RuleSet} {form : SpecialForm} {t : Template}
    (h : s.special form = some t) : t ∈ s.specialTemplates := by
  cases form <;> simp_all [specialTemplates, special]

theorem mem_fractionTemplates {s : RuleSet} {form : SpecialForm} {t : Template}
    (h : s.special form = some t) (ne : form ≠ .negative) : t ∈ s.fractionTemplates := by
  cases form <;> simp_all [fractionTemplates, special]

theorem mem_templates_of_special {s : RuleSet} {form : SpecialForm} {t : Template}
    (h : s.special form = some t) : t ∈ s.templates :=
  List.mem_append_left _ (mem_specialTemplates h)

theorem mem_templates_of_mem {s : RuleSet} {rule : Rule} (h : rule ∈ s.ladder) :
    rule.template ∈ s.templates :=
  List.mem_append_right _ (List.mem_map_of_mem h)

theorem mem_targets {s : RuleSet} {t : Template} (ht : t ∈ s.templates) {sub : Substitution}
    (hsub : sub ∈ t.substitutions) {target : Target} (h : sub.target? = some target) :
    target ∈ s.targets :=
  List.mem_flatMap.2 ⟨t, ht, List.mem_filterMap.2 ⟨sub, hsub, h⟩⟩

theorem exists_of_mem_targets {s : RuleSet} {target : Target} (h : target ∈ s.targets) :
    ∃ t ∈ s.templates, ∃ sub ∈ t.substitutions, sub.target? = some target := by
  obtain ⟨t, ht, h⟩ := List.mem_flatMap.1 h
  exact ⟨t, ht, List.mem_filterMap.1 h⟩

/-- The pattern of a target is one of the patterns of the set. -/
theorem mem_patterns_of_target {s : RuleSet} {target : Target} (h : target ∈ s.targets)
    {p : NumeralPattern} (hp : target.pattern? = some p) : p ∈ s.patterns := by
  obtain ⟨t, ht, sub, hsub, named⟩ := exists_of_mem_targets h
  refine List.mem_flatMap.2 ⟨t, ht, List.mem_filterMap.2 ⟨sub, hsub, ?_⟩⟩
  cases sub <;> cases named <;> exact hp

theorem length_ladder_le (s : RuleSet) : s.ladder.length ≤ s.templates.length := by
  simp [templates]

end RuleSet

/-- The numeral patterns of all rules in a book. -/
def RuleBook.patterns (book : RuleBook) : List NumeralPattern := book.sets.flatMap RuleSet.patterns

theorem RuleBook.mem_patterns {book : RuleBook} {s : RuleSet} (hs : s ∈ book.sets) {t : Template}
    (ht : t ∈ s.templates) {sub : Substitution} (hsub : sub ∈ t.substitutions) {target : Target}
    (named : sub.target? = some target) (p : NumeralPattern) (hp : target.pattern? = some p) :
    p ∈ book.patterns :=
  List.mem_flatMap.2 ⟨s, hs, RuleSet.mem_patterns_of_target (RuleSet.mem_targets ht hsub named) hp⟩

/-- The literals of all rules in a book. -/
def RuleBook.literals (book : RuleBook) : List Text :=
  (book.sets.flatMap RuleSet.templates).flatMap Template.literals

theorem RuleBook.mem_literals {book : RuleBook} {s : RuleSet} (hs : s ∈ book.sets) {t : Template}
    (ht : t ∈ s.templates) {l : Text} (hl : l ∈ t.literals) : l ∈ book.literals :=
  List.mem_flatMap.2 ⟨t, List.mem_flatMap.2 ⟨s, hs, ht⟩, hl⟩

/-- The number of rules in a book, special ones included. -/
def RuleBook.ruleCount (book : RuleBook) : Nat := (book.sets.flatMap RuleSet.templates).length

theorem RuleBook.length_templates_le {book : RuleBook} {s : RuleSet} (h : s ∈ book.sets) :
    s.templates.length ≤ book.ruleCount :=
  (List.sublist_flatten_of_mem (List.mem_map_of_mem h)).length_le

/-! ## Keys -/

namespace Key

/-- The power of the radix that the exponent gives is not above the number. -/
theorem pow_exponentWithin_le (radix : Nat) : ∀ {fuel n : Nat}, 0 < n →
    radix ^ exponentWithin radix fuel n ≤ n
  | 0, n, pos => pos
  | fuel + 1, n, pos => by
    unfold exponentWithin
    split
    · rename_i le
      rcases Nat.eq_zero_or_pos radix with rfl | posr
      · simp
      · have below : radix ^ exponentWithin radix fuel (n / radix) ≤ n / radix :=
          pow_exponentWithin_le radix (Nat.div_pos le posr)
        calc radix ^ (exponentWithin radix fuel (n / radix) + 1)
            = radix ^ exponentWithin radix fuel (n / radix) * radix := Nat.pow_succ ..
          _ ≤ n / radix * radix := Nat.mul_le_mul_right _ below
          _ ≤ n := Nat.div_mul_le_self n radix
    · exact pos

theorem pow_exponent_le (radix : Nat) {n : Nat} (pos : 0 < n) : radix ^ exponent radix n ≤ n :=
  pow_exponentWithin_le radix pos

end Key

namespace Rule

theorem divisor_pos {rule : Rule} (h : 2 ≤ rule.radix) : 0 < rule.divisor :=
  Nat.pow_pos (by omega)

/-- A divisor is not above a base that is positive. -/
theorem divisor_le_base {rule : Rule} (h : 2 ≤ rule.radix) (pos : 0 < rule.base) :
    rule.divisor ≤ rule.base :=
  Nat.le_trans (Nat.pow_le_pow_right (by omega) (Nat.sub_le ..))
    (Key.pow_exponent_le rule.radix pos)

theorem divisor_of_base_eq_zero {rule : Rule} (h : rule.base = 0) : rule.divisor = 1 := by
  simp [divisor, key, Key.divisor, h, Key.exponent, Key.exponentWithin]

theorem base_pos_of_two_le_divisor {rule : Rule} (h : 2 ≤ rule.divisor) : 0 < rule.base := by
  rcases Nat.eq_zero_or_pos rule.base with zero | pos
  · rw [divisor_of_base_eq_zero zero] at h
    omega
  · exact pos

/-- A divisor is a word of 64 bits if the base is. -/
theorem divisor_le_maxBase {rule : Rule} (h : 2 ≤ rule.radix) (base : rule.base ≤ Key.maxBase) :
    rule.divisor ≤ Key.maxBase := by
  rcases Nat.eq_zero_or_pos rule.base with zero | pos
  · rw [divisor_of_base_eq_zero zero]
    decide
  · exact Nat.le_trans (divisor_le_base h pos) base

end Rule

/-! ## Compiled rule sets -/

namespace RuleSet

/-- Bases descend along the ladder, and the keys of its rules are within their bounds. -/
structure Ordered (s : RuleSet) : Prop where
  descending : s.ladder.Pairwise fun r r' => r'.base < r.base
  base_le : ∀ rule ∈ s.ladder, rule.base ≤ Key.maxBase
  two_le_radix : ∀ rule ∈ s.ladder, 2 ≤ rule.radix

variable {s s' : RuleSet}

/-- Rules with one base are the same. -/
theorem Ordered.eq_of_base (h : s.Ordered) {rule rule' : Rule} (mem : rule ∈ s.ladder)
    (mem' : rule' ∈ s.ladder) (eq : rule.base = rule'.base) : rule = rule' := by
  by_contra ne
  have apart : s.ladder.Pairwise fun r r' => r.base ≠ r'.base := h.descending.imp Nat.ne_of_gt
  have symm : Std.Symm fun r r' : Rule => r.base ≠ r'.base := ⟨fun _ _ => Ne.symm⟩
  exact apart.forall mem mem' ne eq

/-- A rule above all others is put on top of them. -/
theorem Ordered.cons (h : s.Ordered) {rule : Rule}
    (above : ∀ last ∈ s.ladder.head?, last.base < rule.base) (base : rule.base ≤ Key.maxBase)
    (radix : 2 ≤ rule.radix) : Ordered { s with ladder := rule :: s.ladder } where
  descending := by
    refine List.pairwise_cons.2 ⟨fun r hr => ?_, h.descending⟩
    have descending := h.descending
    cases ladder : s.ladder with
    | nil => simp [ladder] at hr
    | cons last below =>
      have top : last.base < rule.base := above last (by simp [ladder])
      rw [ladder] at hr descending
      rcases List.mem_cons.1 hr with rfl | hr
      · exact top
      · exact Nat.lt_trans ((List.pairwise_cons.1 descending).1 r hr) top
  base_le := List.forall_mem_cons.2 ⟨base, h.base_le⟩
  two_le_radix := List.forall_mem_cons.2 ⟨radix, h.two_le_radix⟩

theorem nextBase_le (s : RuleSet) : s.nextBase ≤ Key.maxBase := by
  unfold nextBase
  split
  · exact Nat.zero_le _
  · exact Nat.min_le_right ..

/-- The key of a body has been read. -/
theorem key_ofBody {b : Body} {body : RuleBody} {base radix marks : Nat}
    (h : RuleBody.ofBody b = .ok body) (key : body.key = some (.numeric base radix marks)) :
    base ≤ Key.maxBase ∧ 2 ≤ radix := by
  obtain ⟨-, none, -⟩ | ⟨_, _, k, -, some, hk, -⟩ := RuleBody.parts_of_ofBody h
  · rw [none] at key
    cases key
  · rw [some] at key
    cases key
    obtain ⟨le, two, -⟩ := (Key.ofText?_eq_some.1 hk).bounds
    exact ⟨le, two⟩

theorem Ordered.adds (h : s.Ordered) {b : Body} {body : RuleBody} (hb : RuleBody.ofBody b = .ok body)
    (added : s.Adds body s') : s'.Ordered := by
  cases added with
  | @special form => cases form <;> exact ⟨h.descending, h.base_le, h.two_le_radix⟩
  | keyed key above =>
    obtain ⟨base, radix⟩ := key_ofBody hb key
    exact h.cons above base radix
  | keyless _ above => exact h.cons above (nextBase_le s) (Nat.le_add_left 2 8)

theorem ordered_ofSource {source : SetSource} (h : ofSource source = .ok s) : s.Ordered :=
  ofSource_preserves ⟨List.Pairwise.nil, by simp, by simp⟩ (fun hb added hs => hs.adds hb added) h

end RuleSet

/-- **In the rule sets of a compiled description bases descend along the ladder,** and keys are within
    their bounds. -/
theorem RuleBook.ordered_of_ofDescription {description : Text} {book : RuleBook}
    (h : ofDescription description = .ok book) : ∀ s ∈ book.sets, s.Ordered := by
  intro s hs
  obtain ⟨source, -, read⟩ := exists_source_of_mem h hs
  exact RuleSet.ordered_ofSource read

end Spellout
