/-
  Values below zero without a rule for them.

  A set without a rule for values below zero writes a minus sign and spells out the magnitude, one
  level deeper.  What is spelled out does not depend on the level, so this is what is written for
  the magnitude by itself.  A magnitude that is integral is taken as a natural number, though, and
  the rule for all values has no say in that.

  * `Spelling.lower`: the spelling with its steps on lower levels;
  * `Speller.spell_lower`: what is met on one level is met on a lower one with as many levels left;
  * `Request.exists_plan_neg`: the plan for a value below zero leads on to that for its magnitude;
  * `RuleBook.format_neg`: so the text for a value below zero is a minus sign and that of its
    magnitude;
  * `RuleBook.not_format_neg`: that is not so for an integral value in a set with a rule for all
    values.
-/
import Spellout.Proofs.Number.Exact
import Spellout.Proofs.Spelling.Failure
import Spellout.Proofs.Spelling.Writes

namespace Spellout

/-! ## Levels -/

/-- The step, `k` levels lower. -/
def Step.lower (k : Nat) (s : Step) : Step := { s with depth := s.depth + k }

namespace Spelling

/-- The spelling with its steps `k` levels lower. -/
def lower (k : Nat) (s : Spelling) : Spelling := ⟨s.text, s.steps.map (Step.lower k)⟩

variable {k : Nat}

@[simp] theorem lower_ofText (t : Text) : (ofText t).lower k = ofText t := rfl

@[simp] theorem lower_append (a b : Spelling) : (a ++ b).lower k = a.lower k ++ b.lower k :=
  congrArg (mk _) List.map_append

theorem lower_join (parts : List Spelling) : (join parts).lower k = join (parts.map (lower k)) := by
  induction parts with
  | nil => rfl
  | cons a parts ih => rw [join_cons, lower_append, ih, List.map_cons, join_cons]

end Spelling

namespace Speller

variable {book : RuleBook} {numerals : NumeralSystem} {limit limit' k : Nat}

theorem mapM_lower {α : Type} {f g : α → Except Error Spelling}
    (h : ∀ a x, f a = .ok x → g a = .ok (x.lower k)) : ∀ {l : List α} {xs : List Spelling},
      l.mapM f = .ok xs → l.mapM g = .ok (xs.map (Spelling.lower k))
  | [], _, hx => by
    cases hx
    rfl
  | a :: l, _, hx => by
    obtain ⟨x, xs, ha, hl, rfl⟩ := mapM_cons_eq_ok hx
    rw [List.mapM_cons, h a x ha, mapM_lower h hl]
    rfl

theorem insert_lower {ask ask' : Request → Except Error Spelling}
    (h : ∀ r x, ask r = .ok x → ask' r = .ok (x.lower k)) {i : Insertion} {x : Spelling}
    (hx : insert ⟨book, numerals, limit⟩ ask i = .ok x) :
    insert ⟨book, numerals, limit'⟩ ask' i = .ok (x.lower k) := by
  cases i with
  | spelled r => exact h r x hx
  | numeral v p =>
    unfold insert at hx ⊢
    dsimp only at hx ⊢
    split at hx
    · cases hx
      rfl
    · cases hx
  | digits set v separator =>
    obtain ⟨digits, hd, hx⟩ := bind_eq_ok.1 hx
    cases hx
    refine bind_eq_ok.2 ⟨_, mapM_lower (fun d x hd => h _ x hd) hd, ?_⟩
    rw [Spelling.lower_join, Spelling.map_intersperse, Spelling.lower_ofText]
    rfl

theorem expandPiece_lower {ask ask' : Request → Except Error Spelling}
    (h : ∀ r x, ask r = .ok x → ask' r = .ok (x.lower k)) (a : Applied) {p : Piece} {x : Spelling}
    (hx : expandPiece ⟨book, numerals, limit⟩ ask a p = .ok x) :
    expandPiece ⟨book, numerals, limit'⟩ ask' a p = .ok (x.lower k) := by
  cases p with
  | literal t =>
    cases hx
    rfl
  | substitution sub =>
    obtain ⟨i, hi, hx⟩ := bind_eq_ok.1 hx
    exact bind_eq_ok.2 ⟨i, hi, insert_lower h hx⟩

/-- **What is met on one level is met on a lower one,** if as many levels are left: with the same
    text, and with the same steps, that much lower. -/
theorem spell_lower : ∀ {fuel depth : Nat} {r : Request} {x : Spelling},
    spell ⟨book, numerals, limit⟩ fuel depth r = .ok x →
      spell ⟨book, numerals, limit'⟩ fuel (depth + k) r = .ok (x.lower k)
  | 0, _, _, _, hx => by cases hx
  | fuel + 1, depth, r, x, hx => by
    have deeper : ∀ r x, spell ⟨book, numerals, limit⟩ fuel (depth + 1) r = .ok x →
        spell ⟨book, numerals, limit'⟩ fuel (depth + k + 1) r = .ok (x.lower k) := by
      intro r x hx
      rw [Nat.add_right_comm]
      exact spell_lower hx
    obtain ⟨plan, hp, hx⟩ := bind_eq_ok.1 hx
    refine bind_eq_ok.2 ⟨plan, hp, ?_⟩
    cases plan with
    | minus next =>
      obtain ⟨y, hy, hx⟩ := bind_eq_ok.1 hx
      cases hx
      exact bind_eq_ok.2 ⟨_, deeper next y hy, rfl⟩
    | apply a =>
      obtain ⟨parts, hparts, hx⟩ := bind_eq_ok.1 hx
      cases hx
      refine bind_eq_ok.2 ⟨_, mapM_lower (fun p y hy => expandPiece_lower deeper a hy) hparts, ?_⟩
      rw [Spelling.lower_append, Spelling.lower_join]
      rfl

/-- Requests with one plan are met in the same way. -/
theorem spell_congr {sp : Speller} {fuel depth : Nat} {r r' : Request} (h : r'.plan = r.plan) :
    sp.spell (fuel + 1) depth r' = sp.spell (fuel + 1) depth r := by
  rw [spell, spell, h]

end Speller

/-! ## Values below zero -/

namespace Binary64

theorem place_neg (v : Binary64) : v.neg.place = v.place.map Neg.neg := by
  have other (s : Bool) (n : Nat) : signed (!s) n = -signed s n := by
    cases s <;> simp [signed]
  cases v with
  | nan => rfl
  | infinite s => exact congrArg some (other s _)
  | finite s m => exact congrArg some (other s _)

/-- Of a value above zero and the value with the other sign, the second is below zero. -/
theorem isNegative_of_zero_lt {v : Binary64} (pos : zero.lt v) :
    v.isNegative = false ∧ v.neg.isNegative := by
  obtain ⟨i, hi⟩ : ∃ i, v.place = some i := by
    cases v with
    | nan => cases pos
    | infinite | finite => exact ⟨_, rfl⟩
  have origin : zero.place = some 0 := rfl
  have above : 0 < i := (lt_iff origin hi).1 pos
  have below : v.neg.place = some (-i) := by rw [place_neg, hi]; rfl
  refine ⟨Bool.eq_false_iff.2 fun neg => ?_, (lt_iff below origin).2 (by omega)⟩
  have := (lt_iff hi origin).1 neg
  omega

end Binary64

variable {s : RuleSet} {v : Binary64}

/-- **The plan for a value below zero leads on to the plan for its magnitude,** if there is one.  An
    integral magnitude must not be one that a rule for all values takes. -/
theorem Request.exists_plan_neg (minus : s.negative = none) (plain : v.isIntegral → s.whole = none)
    (pos : Binary64.zero.lt v) {plan : Plan} (hp : Request.plan (.value s (.real v)) = .ok plan) :
    ∃ next, Request.plan (.value s (.real v.neg)) = .ok (.minus next) ∧ next.plan = .ok plan := by
  obtain ⟨sign, negative⟩ := Binary64.isNegative_of_zero_lt pos
  have leads {x : Operand} (hx : Operand.ofReal v = .ok x) :
      Request.plan (.value s (.real v.neg)) = .ok (.minus (.value s x)) := by
    simp only [Request.plan, Plan.real, negative, if_true, Binary64.neg_neg, hx, Plan.negative, minus]
    rfl
  cases int : v.isIntegral with
  | false =>
    refine ⟨.value s (.real v), leads ?_, hp⟩
    simp only [Operand.ofReal, int, Bool.false_eq_true, if_false]
  | true =>
    obtain ⟨n, hn⟩ : ∃ n, wholeOf v = .ok n := by
      simp only [Request.plan, Plan.real, sign, int, plain int, Bool.false_eq_true, if_false,
        if_true] at hp
      obtain ⟨n, hn, -⟩ := bind_eq_ok.1 hp
      exact ⟨n, hn⟩
    refine ⟨.value s (.whole n), leads ?_, ?_⟩
    · simp only [Operand.ofReal, int, if_true, hn]
      rfl
    · rw [← Plan.real_of_whole (plain int) sign int hn]
      exact hp

/-- **A value below zero is written as a minus sign and its magnitude,** one level deeper, if there is
    no rule for such values, and no rule for all values that would take the magnitude by itself. -/
theorem RuleBook.format_neg {book : RuleBook} {set : Option Text} (hs : book.entry set = .ok s)
    (minus : s.negative = none) (plain : v.isIntegral → s.whole = none) (finite : v.isFinite)
    (pos : Binary64.zero.lt v) {context : Context} {maxDepth : Nat} {lenient : Bool} {t : Text}
    (h : book.format v set context ⟨maxDepth, lenient⟩ = .ok t) :
    book.format v.neg set context ⟨maxDepth + 1, lenient⟩ = .ok ('-' :: t) := by
  rw [format_of_entry hs finite] at h
  rw [format_of_entry hs ((Binary64.isFinite_neg v).trans finite)]
  obtain ⟨x, hx, text⟩ := bind_eq_ok.1 h
  obtain ⟨plan, hp, -⟩ := bind_eq_ok.1 hx
  obtain ⟨next, minus, hn⟩ := Request.exists_plan_neg minus plain pos hp
  rw [← Speller.spell_congr (hn.trans hp.symm)] at hx
  have lower : Speller.spell ⟨book, context.numerals, maxDepth + 1⟩ (maxDepth + 1) (0 + 1) next =
      .ok (x.lower 1) := Speller.spell_lower hx
  have met : Speller.spell ⟨book, context.numerals, maxDepth + 1⟩ (maxDepth + 1 + 1) 0
      (.value s (.real v.neg)) = .ok (.ofText ['-'] ++ x.lower 1) :=
    bind_eq_ok.2 ⟨_, minus, bind_eq_ok.2 ⟨_, lower, rfl⟩⟩
  rw [met, ← Except.ok.inj text]
  rfl

/-- The rule book of `%count: x.x: << point >>; zero; one; two; three; four; five;`. -/
def RuleBook.counting : RuleBook where
  sets :=
    [{ name := "%count".toList
       improper := some [.piece (.substitution (.quotient .owner)), .piece (.literal " point ".toList),
         .piece (.substitution (.remainder .owner))]
       ladder :=
         [⟨5, 10, 0, true, [.piece (.literal "five".toList)]⟩,
          ⟨4, 10, 0, true, [.piece (.literal "four".toList)]⟩,
          ⟨3, 10, 0, true, [.piece (.literal "three".toList)]⟩,
          ⟨2, 10, 0, true, [.piece (.literal "two".toList)]⟩,
          ⟨1, 10, 0, true, [.piece (.literal "one".toList)]⟩,
          ⟨0, 10, 0, true, [.piece (.literal "zero".toList)]⟩] }]
  equivalences := .none

/-- One level suffices for 3.25; for the value with the other sign it takes two. -/
theorem RuleBook.format_neg_counting :
    ofDescription "%count: x.x: << point >>; zero; one; two; three; four; five;".toList =
        .ok counting ∧
      (∃ s, counting.entry none = .ok s ∧ s.negative = none ∧
        ((Binary64.ofRatio false 13 4).isIntegral → s.whole = none)) ∧
      (Binary64.ofRatio false 13 4).isFinite ∧ Binary64.zero.lt (.ofRatio false 13 4) ∧
      counting.format (.ofRatio false 13 4) none {} ⟨1, false⟩ = .ok "three point two five".toList ∧
      counting.format (.neg (.ofRatio false 13 4)) none {} ⟨2, false⟩ =
        .ok "-three point two five".toList := by
  have entry : counting.entry none = .ok (counting.sets.head (by decide)) := by decide
  have finite : (Binary64.ofRatio false 13 4).isFinite := by decide +kernel
  have pos : Binary64.zero.lt (.ofRatio false 13 4) := by decide +kernel
  have magnitude : counting.format (.ofRatio false 13 4) none {} ⟨1, false⟩ =
      .ok "three point two five".toList := by decide +kernel
  exact ⟨by decide +kernel, ⟨_, entry, rfl, fun _ => rfl⟩, finite, pos, magnitude,
    format_neg entry rfl (fun _ => rfl) finite pos magnitude⟩

/-- **An integral magnitude is not taken by the rule for all values,** as the value itself is: with
    `x.0: <<!` 1 is `one!` and -1 is `-one`. -/
theorem RuleBook.not_format_neg :
    ∃ book s, ofDescription "%count: x.0: <<!; zero; one;".toList = .ok book ∧
      book.entry none = .ok s ∧ s.negative = none ∧
      book.format (.ofNat 1) none {} ⟨1, false⟩ = .ok "one!".toList ∧
      book.format (.neg (.ofNat 1)) none {} ⟨2, false⟩ = .ok "-one".toList := by
  refine ⟨⟨[{ name := "%count".toList
              whole := some [.piece (.substitution (.quotient .owner)), .piece (.literal ['!'])]
              ladder :=
                [⟨1, 10, 0, true, [.piece (.literal "one".toList)]⟩,
                 ⟨0, 10, 0, true, [.piece (.literal "zero".toList)]⟩] }], .none⟩, _, ?_, rfl, rfl, ?_⟩
  · decide +kernel
  · exact ⟨by decide +kernel, by decide +kernel⟩

end Spellout
