/-
  Lenient parsing of what is parsed strictly.

  Lenient parsing does not accept everything that strict parsing accepts.  It folds the text before
  the rules see it, and it finds longer matches, which a bound may refuse.  Where nothing of that kind
  gets in the way, it does.

  * `RuleBook.parse_lenient_of_strict`: lenient parsing accepts what strict parsing accepts, if
    nothing gets in the way of the lenient reader;
  * `RuleBook.StrictOnly`: a text that strict parsing accepts and lenient parsing does not;
  * `RuleBook.strictOnly_hindrances`: there is such a text for everything that can get in the way.
-/
import Spellout.Proofs.Reading.Limit
import Spellout.Proofs.Reading.Plain
import Spellout.Proofs.Reading.Unhindered

namespace Spellout

/-- A set that reads something strictly reads something leniently, if that comes to an end without a
    memory and does not give up. -/
theorem Reader.exists_read {r r' : Reader} {t : Text} (modes : r.Modes r' t)
    (free : r.Unhindered r' t) {s : RuleSet} (hs : s ∈ r.book.sets) {p : Binary64 × Nat}
    (h : r.read s = .ok (some p)) (settled : r'.Settled [] ⟨s, .full, 0, r'.symbols.size⟩)
    (budget : ¬ GivesUp (r'.read s)) : ∃ p', r'.read s = .ok (some p') := by
  obtain ⟨⟨m, memo⟩, ha, h⟩ := bind_eq_ok.1 h
  obtain ⟨m, hm, -⟩ := Option.map_eq_some_iff.1 (Except.ok.inj h)
  obtain ⟨rfl, pos⟩ := Option.filter_eq_some_iff.1 hm
  have given : r.Gives ⟨s, .full, 0, r.symbols.size⟩ (some m) := ⟨hs, _, _, _, _, .empty, ha⟩
  have hq : ⟨s, .full, 0, r.symbols.size⟩ ∈ r.book.questions t.length :=
    RuleBook.mem_questions.2
      ⟨hs, by simp [RuleBook.modes], Nat.zero_le _, by rw [modes.strict.size]⟩
  have last : r'.Border r'.symbols.size r.symbols.size := by
    rw [modes.strict.size]
    exact modes.folded.border_size
  obtain ⟨levels, found, ends⟩ := settled
  obtain ⟨-, leads⟩ := keeps_of_gives modes free given m rfl hq 0 (border_zero r').near
  obtain ⟨⟨v, k⟩, rfl, follows⟩ := leads _ last levels _ (Search.eval_ask.trans ends)
  -- the match is not empty, since the strict one is not
  have pos : 0 < k := follows.lt (of_decide_eq_true pos)
  have distinct : r'.book.Distinct := modes.book ▸ modes.distinct
  exact ⟨_, read_of_settled distinct (modes.book ▸ hs) ends pos budget⟩

namespace RuleBook

/-- **Lenient parsing accepts what strict parsing accepts,** if folding, longer numerals and longer
    matches do not get in the way of what is read strictly, and if the lenient reading comes to an
    end without a memory and does not give up. -/
theorem parse_lenient_of_strict {description : Text} {book : RuleBook}
    (compiled : ofDescription description = .ok book) {set : Option Text} {s : RuleSet}
    (entry : book.entry set = .ok s) (t : Text) (context : Context) (maxDepth maxDepth' : Nat)
    (free : (Reader.ofText book context.numerals false maxDepth t).Unhindered
      (Reader.ofText book context.numerals true maxDepth' t) t)
    (settled : (Reader.ofText book context.numerals true maxDepth' t).Settled []
      ⟨s, .full, 0, (book.equivalences.fold t).length⟩)
    (budget : ¬ GivesUp (book.parse t set context ⟨maxDepth', true⟩)) {o : Outcome}
    (strict : book.parse t set context ⟨maxDepth, false⟩ = .ok o) :
    ∃ o', book.parse t set context ⟨maxDepth', true⟩ = .ok o' := by
  have modes : (Reader.ofText book context.numerals false maxDepth t).Modes
      (Reader.ofText book context.numerals true maxDepth' t) t :=
    ⟨Reader.strict_ofText .., Reader.folded_ofText .., rfl, distinct_of_ofDescription compiled⟩
  have budget' : ¬ GivesUp ((Reader.ofText book context.numerals true maxDepth' t).read s) :=
    fun givesUp => budget (givesUp_bind.2 (.inr ⟨s, entry, givesUp.bind _⟩))
  obtain ⟨s', hs', strict⟩ := bind_eq_ok.1 strict
  obtain rfl : s = s' := Except.ok.inj (entry.symm.trans hs')
  obtain ⟨read, hread, ho⟩ := bind_eq_ok.1 strict
  cases read with
  | none => cases ho
  | some p =>
    obtain ⟨p', hp'⟩ :=
      Reader.exists_read modes free (mem_of_entry entry) hread settled budget'
    exact ⟨⟨p'.1, p'.2⟩, bind_eq_ok.2 ⟨s, entry, bind_eq_ok.2 ⟨some p', hp', rfl⟩⟩⟩

/-- The rule book of `Reader.counting` with `a` for `one`. -/
def countingOneOrA : RuleBook := ⟨[Reader.countingSet], ⟨[["one".toList, "a".toList]]⟩⟩

/-- Folding makes one symbol of `one`, and `-` can be ignored. -/
theorem parse_lenient_of_strict_counting :
    let t := "twoty-one!".toList
    let r := Reader.ofText countingOneOrA .decimal false 64 t
    let r' := Reader.ofText countingOneOrA .decimal true 64 t
    ofDescription (Reader.counting ++ "\n%%lenient-parse: & 'one' , 'a' ;".toList) =
        .ok countingOneOrA ∧
      countingOneOrA.entry none = .ok Reader.countingSet ∧ r.Unhindered r' t ∧
      r'.Settled [] ⟨Reader.countingSet, .full, 0, (countingOneOrA.equivalences.fold t).length⟩ ∧
      ¬ GivesUp (countingOneOrA.parse t none {} ⟨64, true⟩) ∧
      countingOneOrA.parse t none {} ⟨64, false⟩ = .ok ⟨.ofNat 21, 9⟩ ∧
      ∃ o, countingOneOrA.parse t none {} ⟨64, true⟩ = .ok o := by
  intro t r r'
  have compiled :
      ofDescription (Reader.counting ++ "\n%%lenient-parse: & 'one' , 'a' ;".toList) =
        .ok countingOneOrA := by decide +kernel
  have entry : countingOneOrA.entry none = .ok Reader.countingSet := by decide +kernel
  have free : r.Unhindered r' t := by
    refine Reader.unhindered_of_apart (by decide +kernel) (by decide +kernel) (by decide +kernel) ?_
    have bounds : ∀ mode ∈ countingOneOrA.modes, ∀ b ∈ mode.bound?, b ≤ 10 := by decide +kernel
    have plain : ∀ s ∈ countingOneOrA.sets, ∀ rule ∈ s.ladder, rule.base < 10 →
        rule.template.substitutions = [] := by
      decide +kernel
    intro s hs b hb rule hrule lt
    have := bounds _ hb b rfl
    exact plain s hs rule hrule (by omega)
  have settled :
      r'.Settled [] ⟨Reader.countingSet, .full, 0, (countingOneOrA.equivalences.fold t).length⟩ :=
    ⟨4, some ⟨.ofNat 21, 7⟩, by decide +kernel⟩
  have budget : ¬ GivesUp (countingOneOrA.parse t none {} ⟨64, true⟩) := by
    rw [show countingOneOrA.parse t none {} ⟨64, true⟩ = .ok ⟨.ofNat 21, 9⟩ by decide +kernel]
    exact not_givesUp_ok _
  have strict : countingOneOrA.parse t none {} ⟨64, false⟩ = .ok ⟨.ofNat 21, 9⟩ := by
    decide +kernel
  exact ⟨compiled, entry, free, settled, budget, strict,
    parse_lenient_of_strict compiled entry t {} 64 64 free settled budget strict⟩

/-! ## What gets in the way -/

/-- The text is parsed strictly, but leniently there is this error. -/
def StrictOnly (description t : Text) (e : Error) : Prop :=
  ∃ book o, ofDescription description = .ok book ∧ book.parse t none {} ⟨64, false⟩ = .ok o ∧
    book.parse t none {} ⟨64, true⟩ = .error e

instance (description t : Text) (e : Error) : Decidable (StrictOnly description t e) :=
  match compiled : ofDescription description with
  | .error _ => .isFalse fun ⟨_, _, h, _⟩ => by cases compiled.symm.trans h
  | .ok book =>
    decidable_of_iff ((book.parse t none {} ⟨64, false⟩).isOk ∧
        book.parse t none {} ⟨64, true⟩ = .error e) <| by
      constructor
      · rintro ⟨ok, refused⟩
        cases ho : book.parse t none {} ⟨64, false⟩ with
        | ok o => exact ⟨book, o, compiled, ho, refused⟩
        | error e =>
          rw [ho] at ok
          cases ok
      · rintro ⟨book', o, h, ho, refused⟩
        obtain rfl := Except.ok.inj (compiled.symm.trans h)
        rw [ho]
        exact ⟨rfl, refused⟩

/-- **Whatever can get in the way does so somewhere.** -/
theorem strictOnly_hindrances :
    let unread := Error.noMatch "%a".toList
    -- without the blank the numeral is `55`, which is not below 10
    StrictOnly "%a: 10: a>0>;".toList "a5 5".toList unread ∧
      -- without `-` there is a digit in the numeral that has no value
      StrictOnly "%a: =0=;".toList "5-\u0663".toList unread ∧
      -- the literal `a` ends inside the declared text `an`
      StrictOnly "%a: zero; n; 10: a>>;\n%%lenient-parse: & 'an' , 'x' ;".toList "an".toList
        unread ∧
      -- a literal that is a blank takes up the `-` behind it, too
      StrictOnly "%a: 1: -; 10: <%b< >>;\n%b: 2: c;".toList "c -".toList unread ∧
      -- `honeTY` is a longer match than `hone`, but its value is not below 1000
      StrictOnly "%a: zero; one; 10: <<ty; 100: h<<; 1000: t>>;".toList "thoneTY".toList unread ∧
      -- the digit `itu` is longer than `i`, and then `v` is no digit
      StrictOnly "%a: 1: i; iTu; t; uv; x.x: <%b<p>>>e;\n%b: o;".toList "opituve".toList unread ∧
      -- without `-` the numeral is `1.5`, which is no digit
      StrictOnly "%a: 2: =0.0=; x.x: <%b<p>>>;\n%b: o;".toList "op1-.5".toList unread ∧
      -- the blank between digits takes up the `-` behind it, too
      StrictOnly "%a: 1: i; 2: -=%x=; x.x: <%b<p>>e;\n%b: o;\n%x: 2: q;".toList "opi -qe".toList
        unread ∧
      -- the blank between digits is part of a declared text
      StrictOnly "%a: 1: i; t; x.x: <%b<p>>e;\n%b: o;\n%%lenient-parse: & ' i' , 'x' ;".toList
        "opt ie".toList unread ∧
      -- `%c` is asked first while `%b` is under way, and remembered without an answer
      StrictOnly "%a: 1: X=%c=; x=%b=>%d>;\n%b: 3: y; =%c=;\n%c: 5: =%b=;\n%d: 6: z;".toList
        "Xy".toList unread ∧
      -- the rule that starts with `X` names a set that does not exist
      StrictOnly "%a: X=%none=; x;".toList "x".toList (.undefinedRuleSet "%none".toList) := by
  refine ⟨?_, ?_, ?_, ?_, ?_, ?_, ?_, ?_, ?_, ?_, ?_⟩ <;> decide +kernel

end RuleBook
end Spellout
