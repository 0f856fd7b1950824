/-
  The rules that are applied to a value.

  To meet a request a rule is applied to it, and rules are applied to the requests that its
  substitutions make, and so on.  The steps that lead to a text tell which.

  * `RuleBook.Applies`: a rule is applied on the way to meet a request;
  * `RuleBook.Applies.sound`: it is a rule of the book, applied to numbers in range;
  * `Speller.applies_of_mem_steps`: the steps of a text are the applications of such rules.
-/
import Spellout.Proofs.Spelling.InRange
import Spellout.Proofs.Spelling.Writes

namespace Spellout

/-! ## Rules that are applied -/

/-- The requests that an insertion makes. -/
def Insertion.requests : Insertion → List Request
  | .spelled r => [r]
  | .numeral .. => []
  | .digits s v _ => v.fractionDigits.map fun d => .value s (.whole d)

/-- The rule is applied on the way to meet the request: to it, behind a minus sign, or to a request of
    a substitution that is written. -/
inductive RuleBook.Applies (book : RuleBook) : Request → Applied → Prop where
  | here {r : Request} {a : Applied} (planned : r.plan = .ok (.apply a)) : Applies book r a
  | behind {r next : Request} {a : Applied} (planned : r.plan = .ok (.minus next))
      (magnitude : Applies book next a) : Applies book r a
  | inside {r next : Request} {a b : Applied} {sub : Substitution} {i : Insertion}
      (planned : r.plan = .ok (.apply b)) (written : .substitution sub ∈ b.pieces)
      (inserted : b.insertion book sub = .ok i) (asked : next ∈ i.requests)
      (deeper : Applies book next a) : Applies book r a

namespace RuleBook

variable {book : RuleBook} {r : Request} {a : Applied}

theorem Meets.sound {i : Insertion} (h : book.Meets i) (hr : r ∈ i.requests) : r.Sound book := by
  cases i with
  | spelled next =>
    obtain rfl := List.mem_singleton.1 hr
    exact h
  | numeral v p => cases hr
  | digits s v separator =>
    obtain ⟨d, hd, rfl⟩ := List.mem_map.1 hr
    exact h d hd

/-- **The rules that are applied on the way to meet a sound request are sound.** -/
theorem Applies.sound (ordered : ∀ s ∈ book.sets, s.Ordered) (h : book.Applies r a)
    (sound : r.Sound book) : a.Sound book := by
  induction h with
  | here planned => exact (ends_plan ordered sound).of_ok planned
  | behind planned _ ih => exact ih ((ends_plan ordered sound).of_ok planned)
  | inside planned written inserted asked _ ih =>
    have rule : Applied.Sound book _ := (ends_plan ordered sound).of_ok planned
    have meets := ends_insertion ordered rule (Template.mem_substitutions written)
    exact ih ((meets.of_ok inserted).sound asked)

end RuleBook

/-! ## Steps -/

namespace Speller

/-- The steps of an insertion are those of the requests that it makes. -/
theorem steps_insert {sp : Speller} {ask : Request → Except Error Spelling} {P : Step → Prop}
    {i : Insertion}
    (h : ∀ r ∈ i.requests, Ends (fun _ => True) (fun x => ∀ step ∈ x.steps, P step) (ask r)) :
    Ends (fun _ => True) (fun x => ∀ step ∈ x.steps, P step) (sp.insert ask i) := by
  cases i with
  | spelled r => exact h r (List.mem_singleton_self r)
  | numeral v p =>
    simp only [insert]
    cases sp.numerals.render v p with
    | ok t => exact List.forall_mem_nil _
    | error e => trivial
  | digits set v separator =>
    refine (Ends.mapM fun d hd => h _ (List.mem_map_of_mem hd)).bind fun digits hdigits => ?_
    intro step hs
    rw [Spelling.steps_join] at hs
    obtain ⟨part, hpart, hs⟩ := List.mem_flatMap.1 hs
    rcases Spelling.mem_of_mem_intersperse hpart with rfl | mem
    · cases hs
    · exact hdigits part mem step hs

variable {book : RuleBook} {numerals : NumeralSystem} {limit : Nat}

/-- **The steps that lead to a text are the applications of rules on the way to it.** -/
theorem applies_of_mem_steps : ∀ (fuel depth : Nat) (r : Request),
    Ends (fun _ => True) (fun x => ∀ step ∈ x.steps, ∃ a d, book.Applies r a ∧ step = a.step d)
      (spell ⟨book, numerals, limit⟩ fuel depth r)
  | 0, _, _ => trivial
  | fuel + 1, depth, r => by
    have planned : Ends (fun _ => True) (fun _ => True) r.plan := .of_fails fun _ _ => trivial
    rw [spell]
    refine planned.result.bind fun plan found => ?_
    have hp := found.1
    cases plan with
    | minus next =>
      refine (applies_of_mem_steps fuel (depth + 1) next).bind fun x hx step hs => ?_
      obtain ⟨a, d, applied, rfl⟩ := hx step hs
      exact ⟨a, d, .behind hp applied, rfl⟩
    | apply b =>
      have pieces : ∀ p ∈ b.pieces, Ends (fun _ => True)
          (fun x => ∀ step ∈ x.steps, ∃ a d, book.Applies r a ∧ step = a.step d)
          (expandPiece ⟨book, numerals, limit⟩ (spell ⟨book, numerals, limit⟩ fuel (depth + 1)) b
            p) := by
        intro p written
        cases p with
        | literal t => exact List.forall_mem_nil _
        | substitution sub =>
          have inserted : Ends (fun _ => True) (fun _ => True) (b.insertion book sub) :=
            .of_fails fun _ _ => trivial
          refine inserted.result.bind fun i found => steps_insert fun next asked => ?_
          refine (applies_of_mem_steps fuel (depth + 1) next).mono fun x hx step hs => ?_
          obtain ⟨a, d, applied, rfl⟩ := hx step hs
          exact ⟨a, d, .inside hp written found.1 asked applied, rfl⟩
      refine (Ends.mapM pieces).bind fun parts hparts step hs => ?_
      rcases List.mem_cons.1 hs with rfl | hs
      · exact ⟨b, depth, .here hp, rfl⟩
      · rw [Spelling.steps_join] at hs
        obtain ⟨part, hpart, hs⟩ := List.mem_flatMap.1 hs
        exact hparts part hpart step hs

end Speller
end Spellout
