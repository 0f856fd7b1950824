/-
  Composing what division gives.

  The speller divides a number by the divisor of a rule and hands out the shares to the substitutions of
  a template; the reader composes a value from what the substitutions read.  An alternative that shows
  the number itself, or its quotient and its remainder, gives the number back.  Any other alternative
  leaves something out, which the reader takes to be as it is in the base value, or to be zero if it is
  the remainder behind a quotient.  If that is not so, the value is too small.

  * `Parts.ofShares`: what the substitutions of an alternative read if each reads its share;
  * `Applied.shows_share`: the speller hands out these shares;
  * `Reader.value_of_shares`: the reader composes the value of a match from these parts;
  * `Rule.composed`: the natural number that is composed, and `Parts.normal_ofShares`;
  * `Rule.Recovers`: nothing is left out, or what is left out is known;
  * `Parts.normal_eq_iff`: the value is the number in these cases and only in these;
  * `RuleBook.normal_ofShares_iff`: so it is for what the speller hands out and the reader composes.
-/
import Spellout.Proofs.Reading.Trail
import Spellout.Proofs.Spelling.Insertions
import Spellout.Proofs.Spelling.Numerals

namespace Spellout

variable {rule : Rule} {n : Nat} {pieces : List Piece}

/-! ## Shares -/

/-- The substitutions among the pieces. -/
def Piece.substitutions (pieces : List Piece) : List Substitution :=
  pieces.filterMap Piece.substitution?

/-- The parts when all substitutions of an alternative read their shares of a number. -/
def Parts.ofShares (rule : Rule) (n : Nat) (pieces : List Piece) : Parts :=
  (Piece.substitutions pieces).foldl (fun p sub => p.add sub (.ofNat (sub.share rule n))) {}

/-- What takes the place of a substitution shows the operand. -/
inductive Insertion.Shows (x : Operand) : Insertion → Prop
  | value {s : RuleSet} : Shows x (.spelled (.value s x))
  | rung {s : RuleSet} {rule : Rule} {below : List Rule} {n : Nat} :
      x = .whole n → Shows x (.spelled (.rung s rule below n))
  | numeral {p : NumeralPattern} : Shows x (.numeral x.toBinary64 p)

/-- **The speller hands out the shares,** but for a quotient whose fraction a pattern can show. -/
theorem Applied.shows_share {book : RuleBook} {a : Applied} {below : List Rule}
    (normal : a.application = .normal rule below n) {sub : Substitution}
    (plain : ∀ p, sub = .quotient (.numeral p) → p.keepsFraction = false) {i : Insertion}
    (h : a.insertion book sub = .ok i) : i.Shows (.whole (sub.share rule n)) := by
  have operand : a.application.operand sub = .whole (sub.share rule n) := by
    rw [normal]
    cases sub <;> rfl
  cases inserts_of_ok h with
  | value => exact operand ▸ .value
  | numeral => exact operand ▸ .numeral
  | divided _ keeps => simp [plain _ rfl] at keeps
  | rung other =>
    cases normal.symm.trans other
    exact .rung rfl
  | fraction other | digits other | joinedDigits other => cases normal.symm.trans other

namespace Reader

variable {r : Reader} {stop : Nat}

/-- A trail on which all substitutions read their shares adds them up. -/
theorem Trail.parts_of_shares {reads : Substitution → (start stop : Nat) → Match → Prop} :
    ∀ {pieces : List Piece} {place : Nat} {parts : Parts} {p : Progress},
      (∀ sub, .substitution sub ∈ pieces → ∀ i j m, reads sub i j m →
        m.value = .ofNat (sub.share rule n)) →
      Trail r reads stop (pieces.map r.element) place parts p →
        p.parts = (Piece.substitutions pieces).foldl
          (fun p sub => p.add sub (.ofNat (sub.share rule n))) parts
  | [], _, _, _, _, trail => by
    cases trail with
    | finish => rfl
  | .literal l :: rest, _, _, _, shares, trail => by
    cases trail with
    | literal _ trail =>
      have tail := parts_of_shares (fun sub mem => shares sub (List.mem_cons_of_mem _ mem)) trail
      exact tail
  | .substitution sub :: rest, _, _, _, shares, trail => by
    have share := shares sub List.mem_cons_self
    rcases trail.of_substitution with ⟨m, rfl, rfl, hm⟩ | ⟨split, m, -, -, -, hm, -, trail⟩
    · rw [share _ _ _ hm]
      rfl
    · rw [parts_of_shares (fun sub mem => shares sub (List.mem_cons_of_mem _ mem)) trail,
        share _ _ _ hm]
      rfl

/-- **The reader composes the value of a match from the shares,** if all substitutions read theirs. -/
theorem value_of_shares {P : Question → Option Match → Prop} {read : SubReader} {start : Nat}
    {m : Match}
    (shares : ∀ sub ∈ rule.template.substitutions, ∀ i j m, readsBy P read sub i j m →
      m.value = .ofNat (sub.share rule n))
    (h : (r.matchTemplate read (Parts.normal rule) rule.template start stop).Yields P (some m)) :
    ∃ pieces ∈ rule.template.alternatives, m.value = Parts.normal rule (.ofShares rule n pieces) := by
  obtain ⟨pieces, mem, p, rfl, trail⟩ := yields_matchTemplate h
  have parts := trail.parts_of_shares fun sub hs =>
    shares sub (Template.mem_substitutions_of_alternatives mem hs)
  exact ⟨pieces, mem, congrArg (Parts.normal rule) parts⟩

end Reader

/-! ## Which parts an alternative shows -/

/-- What a value is composed from. -/
inductive Part where
  | quotient
  | remainder
  | same
deriving DecidableEq

/-- The part that a substitution reads. -/
def Substitution.part : Substitution → Part
  | .quotient _ => .quotient
  | .remainder _ | .forced => .remainder
  | .same _ => .same

/-- A substitution among the pieces reads the part. -/
def Piece.shows (part : Part) (pieces : List Piece) : Bool :=
  (substitutions pieces).any fun sub => sub.part = part

/-- Pieces that show no part have no substitution. -/
theorem Piece.substitutions_eq_nil_iff : substitutions pieces = [] ↔
    shows .same pieces = false ∧ shows .quotient pieces = false ∧ shows .remainder pieces = false := by
  unfold shows
  cases substitutions pieces with
  | nil => simp
  | cons sub subs => cases sub <;> simp [Substitution.part]

/-- What a part of a number is. -/
def Part.share (rule : Rule) (n : Nat) : Part → Nat
  | .quotient => n / rule.divisor
  | .remainder => n % rule.divisor
  | .same => n

theorem Substitution.share_eq (sub : Substitution) : sub.share rule n = sub.part.share rule n := by
  cases sub <;> rfl

/-- **A part is there if and only if a substitution reads it,** however many do, when all that read it
    read the same value. -/
theorem Parts.foldl_add (value : Part → Binary64) (subs : List Substitution) (p : Parts) :
    subs.foldl (fun p sub => p.add sub (value sub.part)) p =
      { quotient :=
          if subs.any fun sub => sub.part = .quotient then some (value .quotient) else p.quotient
        remainder :=
          if subs.any fun sub => sub.part = .remainder then some (value .remainder) else p.remainder
        same := p.same.or (if subs.any fun sub => sub.part = .same then some (value .same) else none) } := by
  induction subs generalizing p with
  | nil => simp
  | cons sub subs ih =>
    rw [List.foldl_cons, ih]
    cases sub with
    | quotient | remainder | forced => simp [add, Substitution.part]
    | same => cases h : p.same <;> simp [add, Substitution.part, h]

theorem Parts.ofShares_eq (rule : Rule) (n : Nat) (pieces : List Piece) :
    ofShares rule n pieces =
      { quotient := if Piece.shows .quotient pieces then some (.ofNat (n / rule.divisor)) else none
        remainder := if Piece.shows .remainder pieces then some (.ofNat (n % rule.divisor)) else none
        same := if Piece.shows .same pieces then some (.ofNat n) else none } := by
  simp only [ofShares, Substitution.share_eq]
  exact foldl_add (fun part => .ofNat (part.share rule n)) _ {}

/-! ## What is composed -/

namespace Rule

/-- The natural number that is composed from the shares which an alternative shows. -/
def composed (rule : Rule) (n : Nat) (pieces : List Piece) : Nat :=
  match Piece.shows .same pieces, Piece.shows .quotient pieces, Piece.shows .remainder pieces with
  | true, _, _ => n
  | false, true, true => n / rule.divisor * rule.divisor + n % rule.divisor
  | false, true, false => n / rule.divisor * rule.divisor
  | false, false, true => rule.base - rule.base % rule.divisor + n % rule.divisor
  | false, false, false => rule.base

/-- An alternative lets a number be recovered from the shares it shows. -/
inductive Recovers (rule : Rule) (n : Nat) (pieces : List Piece) : Prop
  /-- The number itself is shown. -/
  | same : Piece.shows .same pieces → Recovers rule n pieces
  /-- Quotient and remainder are shown. -/
  | both : Piece.shows .quotient pieces → Piece.shows .remainder pieces → Recovers rule n pieces
  /-- The quotient alone is shown, and there is no remainder. -/
  | quotient : Piece.shows .same pieces = false → Piece.shows .quotient pieces →
      Piece.shows .remainder pieces = false → rule.divisor ∣ n → Recovers rule n pieces
  /-- The remainder alone is shown, and the quotient is that of the base value. -/
  | remainder : Piece.shows .same pieces = false → Piece.shows .quotient pieces = false →
      Piece.shows .remainder pieces → n / rule.divisor = rule.base / rule.divisor →
        Recovers rule n pieces
  /-- Nothing is shown, and the number is the base value. -/
  | base : Piece.substitutions pieces = [] → n = rule.base → Recovers rule n pieces

/-- **No more than the number is composed.** -/
theorem composed_le (le : rule.base ≤ n) : rule.composed n pieces ≤ n := by
  have whole := Nat.div_add_mod' n rule.divisor
  have base := Nat.div_add_mod' rule.base rule.divisor
  have quotient := Nat.mul_le_mul_right rule.divisor (Nat.div_le_div_right (c := rule.divisor) le)
  unfold composed
  split <;> omega

theorem recovers_of_composed (pos : 0 < rule.divisor) (h : rule.composed n pieces = n) :
    rule.Recovers n pieces := by
  have whole := Nat.div_add_mod' n rule.divisor
  have base := Nat.div_add_mod' rule.base rule.divisor
  unfold composed at h
  split at h
  · rename_i same
    exact .same same
  · rename_i quotient remainder
    exact .both quotient remainder
  · rename_i same quotient remainder
    exact .quotient same quotient remainder (Nat.dvd_of_mod_eq_zero (by omega))
  · rename_i same quotient remainder
    have product : n / rule.divisor * rule.divisor = rule.base / rule.divisor * rule.divisor := by
      omega
    exact .remainder same quotient remainder (Nat.eq_of_mul_eq_mul_right pos product)
  · rename_i same quotient remainder
    exact .base (Piece.substitutions_eq_nil_iff.2 ⟨same, quotient, remainder⟩) h.symm

theorem composed_of_recovers (h : rule.Recovers n pieces) : rule.composed n pieces = n := by
  have whole := Nat.div_add_mod' n rule.divisor
  have base := Nat.div_add_mod' rule.base rule.divisor
  cases h with
  | same same => simp [composed, same]
  | both quotient remainder => cases same : Piece.shows .same pieces <;> simp [composed, *]
  | quotient same quotient remainder dvd => simp [composed, *, Nat.div_mul_cancel dvd]
  | remainder same quotient remainder eq =>
    rw [← eq] at base
    simp only [composed, same, quotient, remainder]
    omega
  | base none eq =>
    obtain ⟨same, quotient, remainder⟩ := Piece.substitutions_eq_nil_iff.1 none
    simp [composed, same, quotient, remainder, eq]

/-- **The number is composed if and only if it can be recovered.** -/
theorem composed_eq_iff (pos : 0 < rule.divisor) :
    rule.composed n pieces = n ↔ rule.Recovers n pieces :=
  ⟨recovers_of_composed pos, composed_of_recovers⟩

end Rule

/-! ## Values -/

namespace Parts

variable (rule : Rule) (q r v : Binary64)

theorem normal_same (quotient remainder : Option Binary64) :
    Parts.normal rule ⟨quotient, remainder, some v⟩ = v := rfl

theorem normal_both : Parts.normal rule ⟨some q, some r, none⟩ = (q.mul (.ofNat rule.divisor)).add r :=
  rfl

theorem normal_quotient :
    Parts.normal rule ⟨some q, none, none⟩ = (q.mul (.ofNat rule.divisor)).add .zero := rfl

theorem normal_remainder : Parts.normal rule ⟨none, some r, none⟩ =
    (Binary64.ofNat (rule.base - rule.base % rule.divisor)).add r := rfl

theorem normal_none : Parts.normal rule ⟨none, none, none⟩ = .ofNat rule.base := rfl

end Parts

/-- **Nothing is rounded on the way:** the value of the parts is that of the composed number. -/
theorem Parts.normal_ofShares (two : 2 ≤ rule.radix) (le : rule.base ≤ n) (hn : n ≤ 2 ^ 53) :
    Parts.normal rule (ofShares rule n pieces) = .ofNat (rule.composed n pieces) := by
  have bound : rule.composed n pieces ≤ n := Rule.composed_le le
  have divisor : rule.divisor ≤ 2 ^ 53 := by
    rcases Nat.eq_zero_or_pos rule.base with zero | pos
    · rw [Rule.divisor_of_base_eq_zero zero]
      decide
    · exact Nat.le_trans (Rule.divisor_le_base two pos) (Nat.le_trans le hn)
  have product : n / rule.divisor * rule.divisor ≤ 2 ^ 53 :=
    Nat.le_trans (Nat.div_mul_le_self ..) hn
  have quotient : n / rule.divisor ≤ 2 ^ 53 := Nat.le_trans (Nat.div_le_self ..) hn
  have scaled : (Binary64.ofNat (n / rule.divisor)).mul (.ofNat rule.divisor) =
      .ofNat (n / rule.divisor * rule.divisor) := Binary64.mul_ofNat quotient divisor product
  rw [ofShares_eq]
  unfold Rule.composed at bound ⊢
  split at bound
  · rename_i same
    rw [same, if_pos rfl, normal_same]
  · rename_i same quotient remainder
    rw [same, quotient, remainder, if_pos rfl, if_pos rfl, if_neg Bool.false_ne_true, normal_both,
      scaled, Binary64.add_ofNat (Nat.le_trans bound hn)]
  · rename_i same quotient remainder
    rw [same, quotient, remainder, if_pos rfl, if_neg Bool.false_ne_true, if_neg Bool.false_ne_true,
      normal_quotient, scaled, Binary64.zero_eq, Binary64.add_ofNat product, Nat.add_zero]
  · rename_i same quotient remainder
    rw [same, quotient, remainder, if_pos rfl, if_neg Bool.false_ne_true, if_neg Bool.false_ne_true,
      normal_remainder, Binary64.add_ofNat (Nat.le_trans bound hn)]
  · rename_i same quotient remainder
    rw [same, quotient, remainder, if_neg Bool.false_ne_true, if_neg Bool.false_ne_true,
      if_neg Bool.false_ne_true, normal_none]

/-- The value of the parts is the number if and only if it can be recovered, and less otherwise. -/
theorem Parts.normal_eq_iff (two : 2 ≤ rule.radix) (le : rule.base ≤ n) (lt : n < 2 ^ 53)
    (pieces : List Piece) :
    (Parts.normal rule (ofShares rule n pieces) = .ofNat n ↔ rule.Recovers n pieces) ∧
      (¬ rule.Recovers n pieces → (Parts.normal rule (ofShares rule n pieces)).lt (.ofNat n)) := by
  have small : n ≤ 2 ^ 53 := Nat.le_of_lt lt
  have bound : rule.composed n pieces ≤ n := Rule.composed_le le
  have below (other : rule.composed n pieces ≠ n) :
      (Binary64.ofNat (rule.composed n pieces)).lt (.ofNat n) :=
    (Binary64.lt_ofNat (Nat.le_trans bound small) small).2 (Nat.lt_of_le_of_ne bound other)
  rw [Parts.normal_ofShares two le small, ← Rule.composed_eq_iff (Rule.divisor_pos two)]
  refine ⟨⟨fun same => ?_, fun same => by rw [same]⟩, below⟩
  -- a value does not stand before itself
  refine Decidable.byContradiction fun other => ?_
  have apart := below other
  rw [same] at apart
  exact absurd ((Binary64.lt_ofNat small small).1 apart) (Nat.lt_irrefl n)

namespace RuleBook

variable {description : Text} {book : RuleBook} {s : RuleSet}

/-- **The reader composes what division gave if and only if nothing is left out,** or what is left out
    is known: for every rule with a base value, every alternative of its template, and every number
    from the base value on whose value is exact.  Otherwise the composed value is too small.  What
    division gave is what the speller hands out, but for a quotient whose fraction a pattern can show,
    and the value of a match is composed of it if all substitutions read it. -/
theorem normal_ofShares_iff (compiled : ofDescription description = .ok book) (hs : s ∈ book.sets)
    {rule : Rule} (mem : rule ∈ s.ladder) {n : Nat} (le : rule.base ≤ n) (lt : n < 2 ^ 53) :
    (∀ pieces ∈ rule.template.alternatives,
      (Parts.normal rule (.ofShares rule n pieces) = .ofNat n ↔ rule.Recovers n pieces) ∧
        (¬ rule.Recovers n pieces →
          (Parts.normal rule (.ofShares rule n pieces)).lt (.ofNat n))) ∧
    (∀ (a : Applied) (below : List Rule) (sub : Substitution) (i : Insertion),
      a.application = .normal rule below n →
        (∀ p, sub = .quotient (.numeral p) → p.keepsFraction = false) →
          a.insertion book sub = .ok i → i.Shows (.whole (sub.share rule n))) ∧
    ∀ (r : Reader) (P : Question → Option Match → Prop) (read : SubReader) (start stop : Nat)
      (m : Match),
      (∀ sub ∈ rule.template.substitutions, ∀ i j m', Reader.readsBy P read sub i j m' →
        m'.value = .ofNat (sub.share rule n)) →
        (r.matchTemplate read (Parts.normal rule) rule.template start stop).Yields P (some m) →
          ∃ pieces ∈ rule.template.alternatives,
            m.value = Parts.normal rule (.ofShares rule n pieces) ∧
              (m.value = .ofNat n ↔ rule.Recovers n pieces) := by
  have two := (ordered_of_ofDescription compiled s hs).two_le_radix rule mem
  have composes := Parts.normal_eq_iff two le lt
  refine ⟨fun pieces _ => composes pieces, fun a below sub i normal plain h => a.shows_share normal plain h,
    fun r P read start stop m shares h => ?_⟩
  obtain ⟨pieces, hp, value⟩ := Reader.value_of_shares shares h
  exact ⟨pieces, hp, value, value ▸ (composes pieces).1⟩

/-- The rule `100: << hundred[ >>]`. -/
def hundred : Rule :=
  ⟨100, 10, 0, false,
    [.piece (.substitution (.quotient .owner)), .piece (.literal " hundred".toList),
      .optional [.literal [' '], .substitution (.remainder .owner)]]⟩

/-- The rule set of `%count: none; 100: << hundred[ >>];`. -/
def hundredSet : RuleSet where
  name := "%count".toList
  ladder := [hundred, ⟨0, 10, 0, true, [.piece (.literal "none".toList)]⟩]

/-- The rule is applied to 345. -/
def hundredApplied : Applied :=
  ⟨hundredSet, hundred.key, .whole 345, hundred.template, .normal hundred hundredSet.ladder.tail 345⟩

/-- Substitutions read their shares of 345, wherever they stand. -/
def readsShares : SubReader := fun sub _ stop => .done (some ⟨.ofNat (sub.share hundred 345), stop⟩)

section

-- what the search yields is told from its evaluation, and not by unfolding it
attribute [local irreducible] Search.Yields

/-- 345 is composed of 3 hundreds and 45; of the hundreds alone only 300 is.  The remainder shows 45, and
    a match that is read from the shares has the value 345. -/
theorem normal_ofShares_iff_hundreds :
    let kept := [.substitution (.quotient .owner), .literal " hundred".toList, .literal [' '],
      .substitution (.remainder .owner)]
    let dropped := [.substitution (.quotient .owner), .literal " hundred".toList]
    let r := Reader.ofText ⟨[hundredSet], .none⟩ .decimal false 64 "3 hundred 45".toList
    ofDescription "%count: none; 100: << hundred[ >>];".toList = .ok ⟨[hundredSet], .none⟩ ∧
      hundred.base ≤ 345 ∧ 345 < 2 ^ 53 ∧ hundred.template.alternatives = [kept, dropped] ∧
      Parts.normal hundred (.ofShares hundred 345 kept) = .ofNat 345 ∧
      (Parts.normal hundred (.ofShares hundred 345 dropped)).lt (.ofNat 345) ∧
      (∃ i, hundredApplied.insertion ⟨[hundredSet], .none⟩ (.remainder .owner) = .ok i ∧
        i.Shows (.whole 45)) ∧
      (r.matchTemplate readsShares (Parts.normal hundred) hundred.template 0 12).Yields
        (fun _ _ => False) (some ⟨.ofNat 345, 12⟩) ∧
      ∃ pieces ∈ [kept, dropped], hundred.Recovers 345 pieces := by
  intro kept dropped r
  have compiled : ofDescription "%count: none; 100: << hundred[ >>];".toList =
      .ok ⟨[hundredSet], .none⟩ := by decide +kernel
  have le : hundred.base ≤ 345 := by decide
  have lt : 345 < 2 ^ 53 := by decide
  have alternatives : hundred.template.alternatives = [kept, dropped] := by decide
  obtain ⟨composed, shown, read⟩ := normal_ofShares_iff compiled (List.mem_singleton_self _)
    (List.mem_cons_self ..) le lt
  rw [alternatives] at composed read
  have whole := composed kept (List.mem_cons_self ..)
  have part := composed dropped (List.mem_cons_of_mem _ (List.mem_singleton_self _))
  have remainder : (Substitution.remainder .owner).share hundred 345 = 45 := by decide
  have inserted : hundredApplied.insertion ⟨[hundredSet], .none⟩ (.remainder .owner) =
      .ok (.spelled (.value hundredSet (.whole 45))) := by decide +kernel
  have rest := shown hundredApplied _ (.remainder .owner) _ rfl (fun p other => by cases other) inserted
  have yields : (r.matchTemplate readsShares (Parts.normal hundred) hundred.template 0 12).Yields
      (fun _ _ => False) (some ⟨.ofNat 345, 12⟩) := by
    -- no question is asked
    have evaluated : (r.matchTemplate readsShares (Parts.normal hundred) hundred.template 0 12).eval
        (fun _ _ => .error .noPublicRuleSet) = .ok (some ⟨.ofNat 345, 12⟩) := by decide +kernel
    exact Search.yields_of_eval (fun _ _ _ answered => by cases answered) evaluated
  obtain ⟨pieces, mem, -, recovers⟩ := read r _ readsShares 0 12 _ (fun sub _ i j m' hm => by
    rw [← Option.some.inj (Search.yields_done.1 hm)]) yields
  dsimp only at recovers
  refine ⟨compiled, le, lt, alternatives, whole.1.2 (.both (by decide) (by decide)), part.2 ?_,
    ⟨_, inserted, remainder ▸ rest⟩, yields, pieces, mem, recovers.1 rfl⟩
  -- 300 is composed
  intro recovers
  have eq := Rule.composed_of_recovers recovers
  exact absurd eq (by decide)

end

end RuleBook
end Spellout
