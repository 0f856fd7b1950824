/-
  Optional groups.

  A template with groups stands for as many flat sequences as there are ways to keep or to drop each of
  its groups.  A reader tries all of them; a rule that is applied is written as one of them.  Which
  groups this one keeps depends on the value that governs each of them.

  * `Template.groups` are the groups of a template, `Template.choosing` is the sequence of a choice;
  * `Template.alternatives_eq`: the alternatives are the sequences of all choices, counted in binary;
  * `Application.Writes`: the groups that are written when a rule is applied, and `Rule.Writes`: those
    that a rule with a base value writes for a number;
  * `Template.alternatives_groups`: what is written is the alternative that keeps these.
-/
import Mathlib.Data.Nat.Bitwise
import Spellout.Proofs.Spelling.Writes

namespace Spellout

/-! ## Choices -/

namespace Template

/-- The groups of a template. -/
def groups : Template → List (List Piece)
  | [] => []
  | .piece _ :: t => groups t
  | .optional ps :: t => ps :: groups t

/-- The pieces of a template, with those groups whose number is kept.  Groups are counted from zero. -/
def choosing (kept : Nat → Bool) : Template → List Piece
  | [] => []
  | .piece p :: t => p :: choosing kept t
  | .optional ps :: t => (if kept 0 then ps else []) ++ choosing (fun i => kept (i + 1)) t

/-- Only the groups that there are need a choice. -/
theorem choosing_congr {t : Template} {kept kept' : Nat → Bool}
    (h : ∀ i < t.groups.length, kept i = kept' i) : t.choosing kept = t.choosing kept' := by
  induction t generalizing kept kept' with
  | nil => rfl
  | cons segment t ih =>
    cases segment with
    | piece p => exact congrArg (p :: ·) (ih h)
    | optional ps =>
      rw [choosing, choosing, h 0 (Nat.zero_lt_succ _), ih fun i lt => h (i + 1) (Nat.succ_lt_succ lt)]

/-- Groups that are kept for what stands in them are a choice. -/
theorem keeping_eq_choosing (kept : List Piece → Bool) (t : Template) :
    t.keeping kept = t.choosing fun i => (t.groups[i]?).any kept := by
  induction t with
  | nil => rfl
  | cons segment t ih =>
    cases segment with
    | piece p => exact congrArg (p :: ·) ih
    | optional ps => exact congrArg ((if kept ps then ps else []) ++ ·) ih

/-- The numbers below `2 * n`, two by two. -/
theorem flatMap_range_two_mul {α : Type} (f : Nat → List α) (n : Nat) :
    (List.range (2 * n)).flatMap f =
      (List.range n).flatMap fun j => f (2 * j) ++ f (2 * j + 1) := by
  induction n with
  | zero => rfl
  | succ n ih => simp [Nat.mul_succ, List.range_succ, ih]

/-- Sequences are extended by all choices, one choice after the other.  A group that is dropped is a
    bit that is set, the first group being the lowest bit. -/
theorem foldl_extendAll (t : Template) (alts : List (List Piece)) :
    t.foldl extendAll alts = (List.range (2 ^ t.groups.length)).flatMap fun j =>
      alts.map (· ++ t.choosing fun i => !j.testBit i) := by
  induction t generalizing alts with
  | nil => simp [groups, choosing]
  | cons segment t ih =>
    rw [List.foldl_cons, ih]
    cases segment with
    | piece p => simp [groups, choosing, extendAll, Function.comp_def]
    | optional ps =>
      have half (j : Nat) : (2 * j + 1) / 2 = j := by omega
      rw [groups, List.length_cons, Nat.pow_succ', flatMap_range_two_mul]
      simp [choosing, extendAll, Function.comp_def, Nat.testBit_succ, half]

/-- **The alternatives of a template are the sequences of all choices.** -/
theorem alternatives_eq (t : Template) :
    t.alternatives = (List.range (2 ^ t.groups.length)).map fun j =>
      t.choosing fun i => !j.testBit i := by
  rw [alternatives, foldl_extendAll]
  simp [← List.map_eq_flatMap]

theorem alternatives_getElem? (t : Template) {j : Nat} (lt : j < 2 ^ t.groups.length) :
    t.alternatives[j]? = some (t.choosing fun i => !j.testBit i) := by
  rw [alternatives_eq, List.getElem?_map, List.getElem?_range lt]
  rfl

theorem length_alternatives (t : Template) : t.alternatives.length = 2 ^ t.groups.length := by
  rw [alternatives_eq, List.length_map, List.length_range]

/-- In the first alternative all groups are kept. -/
theorem head?_alternatives (t : Template) :
    t.alternatives.head? = some (t.choosing fun _ => true) := by
  rw [List.head?_eq_getElem?, alternatives_getElem? t (Nat.two_pow_pos _)]
  simp only [Nat.zero_testBit, Bool.not_false]

/-- In the last alternative no group is kept. -/
theorem getLast?_alternatives (t : Template) :
    t.alternatives.getLast? = some (t.choosing fun _ => false) := by
  have last : 2 ^ t.groups.length - 1 < 2 ^ t.groups.length :=
    Nat.sub_lt (Nat.two_pow_pos _) Nat.one_pos
  rw [List.getLast?_eq_getElem?, length_alternatives, alternatives_getElem? t last]
  refine congrArg some (choosing_congr fun i lt => ?_)
  rw [Nat.testBit_two_pow_sub_one, decide_eq_true lt, Bool.not_true]

/-- Every choice is one of the alternatives, at the number whose bits are the groups that are dropped. -/
theorem exists_alternative (t : Template) (kept : Nat → Bool) :
    ∃ j < 2 ^ t.groups.length, (∀ i < t.groups.length, j.testBit i = !kept i) ∧
      t.alternatives[j]? = some (t.choosing kept) := by
  refine ⟨Nat.ofBits fun i : Fin t.groups.length => !kept i, Nat.ofBits_lt_two_pow _, ?_, ?_⟩
  · exact fun i lt => Nat.testBit_ofBits_lt _ i lt
  · rw [alternatives_getElem? t (Nat.ofBits_lt_two_pow _)]
    refine congrArg some (choosing_congr fun i lt => ?_)
    rw [Nat.testBit_ofBits_lt _ i lt, Bool.not_not]

theorem mem_alternatives {t : Template} {pieces : List Piece} :
    pieces ∈ t.alternatives ↔ ∃ kept, pieces = t.choosing kept := by
  constructor
  · intro mem
    rw [alternatives_eq] at mem
    obtain ⟨j, -, rfl⟩ := List.mem_map.1 mem
    exact ⟨_, rfl⟩
  · rintro ⟨kept, rfl⟩
    obtain ⟨j, -, -, there⟩ := exists_alternative t kept
    exact List.mem_of_getElem? there

end Template

/-! ## Groups that are written -/

namespace Application

variable {app : Application} {group : List Piece}

/-- The value governs whether a group is written.  It is the operand that the first substitution of the
    group takes, or the remainder if there is none; no value governs a group that begins with `>>>`. -/
inductive Governs (app : Application) (group : List Piece) : Operand → Prop
  | quotient {t : Target} (first : Template.governor? group = some (.quotient t)) :
      Governs app group app.quotient
  | same {t : Target} (first : Template.governor? group = some (.same t)) :
      Governs app group app.value
  | remainder {t : Target} (first : Template.governor? group = some (.remainder t)) :
      Governs app group app.remainder
  | plain (without : Template.governor? group = none) : Governs app group app.remainder

/-- The group is written: with a numerator, unless that is one; else, unless the value that governs it
    is zero. -/
def Writes (app : Application) (group : List Piece) : Prop :=
  match app with
  | .numerator n => n ≠ 1
  | app => ∀ x, app.Governs group x → x.isZero = false

theorem writes_iff (whole : ∀ n, app ≠ .numerator n) :
    app.Writes group ↔ ∀ x, app.Governs group x → x.isZero = false := by
  cases app with
  | numerator n => exact absurd rfl (whole n)
  | normal | fraction | negative => rfl

theorem keeps_iff : app.keeps group ↔ app.Writes group := by
  unfold keeps
  split
  · exact decide_eq_true_iff
  · rename_i whole
    rw [writes_iff whole]
    constructor
    · rintro h x (first | first | first | first) <;> simpa [first] using h
    · intro h
      split <;> rename_i first
      · simpa using h _ (.quotient first)
      · simpa using h _ (.same first)
      · rfl
      · simpa using h _ (.remainder first)
      · simpa using h _ (.plain first)

end Application

/-- A rule with a base value writes the group for a number: unless what its first substitution takes is
    zero, which is the quotient by the divisor, the number itself or the remainder; a group without
    substitutions goes by the remainder, and one that begins with `>>>` is always written. -/
def Rule.Writes (rule : Rule) (n : Nat) (group : List Piece) : Prop :=
  match Template.governor? group with
  | some (.quotient _) => n / rule.divisor ≠ 0
  | some (.same _) => n ≠ 0
  | some .forced => True
  | some (.remainder _) | none => n % rule.divisor ≠ 0

/-- The operands of a rule with a base value are what division gives. -/
theorem Application.writes_normal_iff (rule : Rule) (below : List Rule) (n : Nat)
    (group : List Piece) : (Application.normal rule below n).Writes group ↔ rule.Writes n group := by
  rw [← keeps_iff]
  unfold keeps Rule.Writes
  cases Template.governor? group with
  | none => simp [remainder, Operand.isZero]
  | some sub => cases sub <;> simp [quotient, value, remainder, Operand.isZero]

instance (rule : Rule) (n : Nat) (group : List Piece) : Decidable (rule.Writes n group) :=
  decidable_of_iff ((Application.normal rule [] n).keeps group)
    (Application.keeps_iff.trans (Application.writes_normal_iff ..))

/-! ## What is written -/

/-- What a rule writes is the alternative that keeps the groups which are written. -/
theorem Applied.exists_alternative (a : Applied) :
    ∃ j < 2 ^ a.template.groups.length, a.template.alternatives[j]? = some a.pieces ∧
      ∀ i (lt : i < a.template.groups.length),
        j.testBit i = false ↔ a.application.Writes a.template.groups[i] := by
  obtain ⟨j, lt, dropped, there⟩ := Template.exists_alternative a.template fun i =>
    (a.template.groups[i]?).any a.application.keeps
  refine ⟨j, lt, ?_, fun i lt => ?_⟩
  · rw [there, pieces, Template.keeping_eq_choosing]
  · rw [dropped i lt, List.getElem?_eq_getElem lt, Option.any_some, Bool.not_eq_false']
    exact Application.keeps_iff

/-- **Optional groups mean the same when a rule is written and when it is read.**  The alternatives that
    a reader tries are the sequences of all choices.  The number of an alternative, in binary, says which
    groups it drops, so that all are kept in the first one and none in the last.  What is spelled out
    when a rule is applied is the alternative that keeps the groups which are written; with a base value
    these go by what division gives. -/
theorem Template.alternatives_groups (t : Template) :
    t.alternatives.length = 2 ^ t.groups.length ∧
    (∀ j < 2 ^ t.groups.length,
      t.alternatives[j]? = some (t.choosing fun i => !j.testBit i)) ∧
    t.alternatives.head? = some (t.choosing fun _ => true) ∧
    t.alternatives.getLast? = some (t.choosing fun _ => false) ∧
    (∀ pieces, pieces ∈ t.alternatives ↔ ∃ kept, pieces = t.choosing kept) ∧
    ∀ a : Applied, a.template = t → ∃ j < 2 ^ t.groups.length, ∃ pieces,
      t.alternatives[j]? = some pieces ∧
      (∀ i (lt : i < t.groups.length), j.testBit i = false ↔ a.application.Writes t.groups[i]) ∧
      (∀ rule below n, a.application = .normal rule below n →
        ∀ i (lt : i < t.groups.length), j.testBit i = false ↔ rule.Writes n t.groups[i]) ∧
      ∀ (sp : Speller) (fuel depth : Nat) (r : Request), r.plan = .ok (.apply a) →
        sp.spell (fuel + 1) depth r = do
          let parts ← pieces.mapM (sp.expandPiece (sp.spell fuel (depth + 1)) a)
          return ⟨[], [a.step depth]⟩ ++ .join parts := by
  refine ⟨length_alternatives t, fun j => alternatives_getElem? t, head?_alternatives t,
    getLast?_alternatives t, fun pieces => mem_alternatives, ?_⟩
  rintro a rfl
  obtain ⟨j, lt, there, written⟩ := a.exists_alternative
  refine ⟨j, lt, a.pieces, there, written, fun rule below n normal i lt => ?_,
    fun sp fuel depth r plan => Speller.spell_of_plan plan⟩
  rw [written i lt, normal, Application.writes_normal_iff]

/-- The template of `ten[ and <<][>>>][, even]`. -/
def Template.grouped : Template :=
  [.piece (.literal "ten".toList), .optional [.literal " and ".toList, .substitution (.quotient .owner)],
    .optional [.substitution .forced], .optional [.literal ", even".toList]]

/-- The rule with that template, applied to 20. -/
def Applied.grouped : Applied :=
  let rule : Rule := ⟨10, 10, 0, false, .grouped⟩
  ⟨{ name := "%a".toList, ladder := [rule] }, rule.key, .whole 20, rule.template, .normal rule [] 20⟩

/-- Of the eight alternatives, the one at number 4 is written: the quotient is not zero, nothing
    governs `>>>`, and the remainder is zero, which drops the third group. -/
theorem Template.alternatives_groups_grouped :
    grouped.alternatives.length = 8 ∧
      Request.plan (.value Applied.grouped.set (.whole 20)) = .ok (.apply .grouped) ∧
      ∃ pieces, grouped.alternatives[4]? = some pieces ∧
        pieces = [.literal "ten".toList, .literal " and ".toList,
          .substitution (.quotient .owner), .substitution .forced] ∧
        ∀ (sp : Speller) (fuel depth : Nat),
          sp.spell (fuel + 1) depth (.value Applied.grouped.set (.whole 20)) = do
            let parts ← pieces.mapM (sp.expandPiece (sp.spell fuel (depth + 1)) .grouped)
            return ⟨[], [Applied.grouped.step depth]⟩ ++ .join parts := by
  obtain ⟨length, -, -, -, -, applied⟩ := alternatives_groups grouped
  have plan : Request.plan (.value Applied.grouped.set (.whole 20)) = .ok (.apply .grouped) := by
    decide +kernel
  obtain ⟨j, lt, pieces, there, -, dropped, spelled⟩ := applied .grouped rfl
  -- the bits of the number are the groups that are dropped
  have dropped := dropped _ _ _ rfl
  have quotient : j.testBit 0 = false := (dropped 0 (by decide)).2 (by decide)
  have forced : j.testBit 1 = false := (dropped 1 (by decide)).2 (by decide)
  have remainder : j.testBit 2 = true :=
    Bool.of_not_eq_false fun kept => absurd ((dropped 2 (by decide)).1 kept) (by decide)
  have number : ∀ k < 8, k.testBit 0 = false → k.testBit 1 = false → k.testBit 2 = true → k = 4 := by
    decide
  obtain rfl : j = 4 := number j lt quotient forced remainder
  exact ⟨length, plan, pieces, there, Option.some.inj (there.symm.trans (by decide +kernel)),
    fun sp fuel depth => spelled sp fuel depth _ plan⟩

end Spellout
