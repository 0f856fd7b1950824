/-
  Sets that a book holds besides.

  What is made of a value or a text depends on the sets that can be reached from the set a caller
  asks for: those whose names are used in its rules, those whose names are used in theirs, and the
  default set.  Whatever other sets a book holds, and in whatever order, is of no concern.

  * `RuleBook.Extends`: the names that the rules of a part use mean the same in the whole book;
  * `Speller.spell_extends`, `Reader.answer_extends`: then the part is all that matters for its sets;
  * `RuleBook.Shares`: two books hold a family of sets that refers to nothing else;
  * `RuleBook.results_of_shares`: values and texts lead to the same results in both.
-/
import Spellout.Proofs.Reading.Agreement
import Spellout.Proofs.RuleBook.Shape
import Spellout.Proofs.Spelling.Plans

namespace Spellout

/-! ## Parts of a book -/

namespace RuleBook

/-- A set of the book has this name, or one of its rules refers to it. -/
inductive Mentions (book : RuleBook) (name : Text) : Prop where
  | header {s : RuleSet} (mem : s ∈ book.sets) (named : s.name = name)
  | rule {s : RuleSet} (mem : s ∈ book.sets) {t : Target} (ht : t ∈ s.targets)
      (named : t.setName? = some name)

/-- The names that the part mentions mean the same in the book, which has the same default set and
    takes the same texts as equal. -/
structure Extends (book part : RuleBook) : Prop where
  find? : ∀ name, part.Mentions name → book.find? name = part.find? name
  default? : book.default? = part.default?
  equivalences : book.equivalences = part.equivalences

theorem Extends.resolve {book part : RuleBook} (h : book.Extends part) {name : Text}
    (mentioned : part.Mentions name) : book.resolve name = part.resolve name := by
  simp only [RuleBook.resolve, h.find? name mentioned]

/-- A caller asks for the same set in both. -/
theorem Extends.entry {book part : RuleBook} (h : book.Extends part) {set : Option Text}
    (mentioned : ∀ name ∈ set, part.Mentions name) : book.entry set = part.entry set := by
  cases set with
  | none => simp only [RuleBook.entry, h.default?]
  | some name => simp only [RuleBook.entry, h.resolve (mentioned name rfl)]

end RuleBook

/-! ## Spelling out -/

/-- The request is to a set of the book, for one of its rules if it names one. -/
def Request.OfBook (book : RuleBook) : Request → Prop
  | .value s _ | .fraction s _ => s ∈ book.sets
  | .rung s rule below _ => s ∈ book.sets ∧ (rule :: below) <:+ s.ladder

/-- The rule is one of a set of the book. -/
structure Applied.OfBook (book : RuleBook) (a : Applied) : Prop where
  set : a.set ∈ book.sets
  template : a.template ∈ a.set.templates
  ladder : ∀ rule below n, a.application = .normal rule below n → (rule :: below) <:+ a.set.ladder

/-- The requests that the insertion makes are to sets of the book. -/
def Insertion.OfBook (book : RuleBook) : Insertion → Prop
  | .spelled r => r.OfBook book
  | .numeral .. => True
  | .digits s .. => s ∈ book.sets

variable {book part : RuleBook} {a : Applied}

theorem Request.OfBook.set {r : Request} (h : r.OfBook book) : r.set ∈ book.sets := by
  cases r with
  | value | fraction => exact h
  | rung => exact h.1

theorem Request.Planned.ofBook_minus {r next : Request} (hr : r.OfBook book)
    (h : r.Planned (.minus next)) : next.OfBook book := by
  cases h with
  | minus => exact hr

theorem Request.Planned.ofBook {r : Request} (hr : r.OfBook book) (h : r.Planned (.apply a)) :
    a.OfBook book := by
  cases h with
  | normal chosen =>
    have suffix := RuleSet.chosen?_suffix chosen
    refine ⟨hr, RuleSet.mem_templates_of_mem (suffix.subset List.mem_cons_self), ?_⟩
    rintro _ _ _ ⟨⟩
    exact suffix
  | special _ special => exact ⟨hr, RuleSet.mem_templates_of_special special, nofun⟩
  | negative _ _ special => exact ⟨hr, RuleSet.mem_templates_of_special special, nofun⟩
  | rung =>
    refine ⟨hr.1, RuleSet.mem_templates_of_mem (hr.2.subset List.mem_cons_self), ?_⟩
    rintro _ _ _ ⟨⟩
    exact hr.2
  | fraction chosen =>
    exact ⟨hr, RuleSet.mem_templates_of_mem (RuleSet.mem_of_denominator? chosen).1, nofun⟩

/-- What a rule of the book makes of a substitution are requests to sets of the book. -/
theorem Applied.OfBook.insertion (ha : a.OfBook book) {sub : Substitution} {i : Insertion}
    (h : a.insertion book sub = .ok i) : i.OfBook book := by
  obtain ⟨hs, -, ladder⟩ := ha
  cases inserts_of_ok h with
  | value _ held => exact held hs
  | numeral | divided => trivial
  | rung normal => exact ⟨hs, (List.suffix_cons ..).trans (ladder _ _ _ normal)⟩
  | fraction _ found => exact RuleBook.mem_of_find? found
  | digits | joinedDigits => exact hs

namespace RuleBook.Extends

variable (h : book.Extends part)

include h

theorem sent {s : RuleSet} (x : Operand) {t : Target}
    (mentioned : ∀ name, t.setName? = some name → part.Mentions name) :
    Applied.sent book s x t = Applied.sent part s x t := by
  cases t with
  | owner | numeral => rfl
  | ruleSet name => simp only [Applied.sent, h.resolve (mentioned name rfl)]

/-- What takes the place of a substitution in a rule of the part is the same in the book. -/
theorem insertion (ha : a.OfBook part) {sub : Substitution} (hsub : sub ∈ a.template.substitutions) :
    a.insertion book sub = a.insertion part sub := by
  have mentioned (t : Target) (ht : sub.target? = some t) (name : Text)
      (named : t.setName? = some name) : part.Mentions name :=
    .rule ha.set (RuleSet.mem_targets ha.template hsub ht) named
  rcases a with ⟨s, key, value, template, app⟩
  cases sub with
  | quotient t =>
    cases app with
    | numerator n => simp only [Applied.insertion, h.default?, h.sent _ (mentioned t rfl)]
    | normal | fraction | negative => exact h.sent _ (mentioned t rfl)
  | remainder t =>
    cases app with
    | fraction v whole =>
      cases t with
      | owner | numeral => rfl
      | ruleSet name => simp only [Applied.insertion, h.resolve (mentioned _ rfl name rfl)]
    | normal | negative | numerator => exact h.sent _ (mentioned t rfl)
  | forced =>
    cases app with
    | normal rule below n => cases below <;> rfl
    | fraction | negative | numerator => rfl
  | same t => exact h.sent _ (mentioned t rfl)

end RuleBook.Extends

namespace Speller

variable {numerals : NumeralSystem} {limit : Nat}

theorem insert_congr {ask ask' : Request → Except Error Spelling}
    (same : ∀ r, r.OfBook part → ask' r = ask r) {i : Insertion} (hi : i.OfBook part) :
    insert ⟨book, numerals, limit⟩ ask' i = insert ⟨part, numerals, limit⟩ ask i := by
  cases i with
  | spelled r => exact same r hi
  | numeral v p => rfl
  | digits set v separator =>
    simp only [insert, mapM_congr fun d _ => same (.value set (.whole d)) hi]

/-- **For the sets of a part, the part is all that matters.** -/
theorem spell_extends (h : book.Extends part) : ∀ (fuel depth : Nat) {r : Request},
    r.OfBook part →
      spell ⟨book, numerals, limit⟩ fuel depth r = spell ⟨part, numerals, limit⟩ fuel depth r
  | 0, _, _, _ => rfl
  | fuel + 1, depth, r, hr => by
    rw [spell, spell]
    refine bind_congr_of_ok fun plan hp => ?_
    have way := Request.planned_of_plan hp
    cases plan with
    | minus next =>
      dsimp only
      rw [spell_extends h fuel (depth + 1) (way.ofBook_minus hr)]
    | apply a =>
      have ha := way.ofBook hr
      have pieces : ∀ p ∈ a.pieces,
          expandPiece ⟨book, numerals, limit⟩ (spell ⟨book, numerals, limit⟩ fuel (depth + 1)) a p =
            expandPiece ⟨part, numerals, limit⟩ (spell ⟨part, numerals, limit⟩ fuel (depth + 1)) a
              p := by
        intro p hp
        cases p with
        | literal t => rfl
        | substitution sub =>
          rw [expandPiece, expandPiece, h.insertion ha (Template.mem_substitutions hp)]
          exact bind_congr_of_ok fun i hi =>
            insert_congr (fun r hr => spell_extends h fuel (depth + 1) hr) (ha.insertion hi)
      dsimp only
      rw [mapM_congr pieces]

end Speller

/-! ## Reading -/

namespace Reader

/-- **For the sets of a part, the part is all that is read with.** -/
theorem read_extends (h : book.Extends part) (numerals : NumeralSystem) (lenient : Bool)
    (limit : Nat) (t : Text) {s : RuleSet} (hs : s ∈ part.sets) :
    (ofText book numerals lenient limit t).read s = (ofText part numerals lenient limit t).read s := by
  have folds (l : Text) : symbolsOf book lenient l = symbolsOf part lenient l := by
    simp only [symbolsOf, h.equivalences]
  have same : (ofText part numerals lenient limit t).SameText
      (ofText book numerals lenient limit t) :=
    ⟨congrArg List.toArray (folds t), rfl, rfl⟩
  have concurs : (ofText part numerals lenient limit t).Concurs
      (ofText book numerals lenient limit t) fun target => ∃ s ∈ part.sets, target ∈ s.targets :=
    { lenient := rfl
      ignorable := same.ignorableAt
      fold := fun l => by
        unfold foldLiteral
        dsimp only [ofText]
        rw [folds]
      literal := same.matchLiteral?
      digitStart := same.digitStart?
      target := fun target known deeper owner mode i j => by
        obtain ⟨s, hs, ht⟩ := known
        cases target with
        | owner => rfl
        | ruleSet name => simp only [readTarget, ofText, h.resolve (.rule hs ht rfl)]
        | numeral p => simp only [readTarget, same.readNumeral?]
      default? := h.default? }
  exact concurs.read same rfl hs

end Reader

/-! ## Results -/

namespace RuleBook

variable {set : Option Text}

theorem Extends.formatVerbose (h : book.Extends part) (asked : ∀ name ∈ set, part.Mentions name)
    (v : Binary64) (context : Context) (options : Options) :
    book.formatVerbose v set context options = part.formatVerbose v set context options := by
  rw [RuleBook.formatVerbose, RuleBook.formatVerbose, h.entry asked]
  refine bind_congr_of_ok fun s entry => ?_
  have request : Request.OfBook part (.value s (.real v)) := mem_of_entry entry
  simp only [Speller.format, Speller.spell_extends h _ _ request]

theorem Extends.parse (h : book.Extends part) (asked : ∀ name ∈ set, part.Mentions name) (t : Text)
    (context : Context) (options : Options) :
    book.parse t set context options = part.parse t set context options := by
  rw [RuleBook.parse, RuleBook.parse, h.entry asked]
  refine bind_congr_of_ok fun s entry => ?_
  simp only [Reader.read_extends h _ _ _ t (mem_of_entry entry)]

/-! ## Families -/

/-- Both books hold the sets of a family, which contains the default set of both; a name that its rules
    use is one of the family or of no set at all.  The same texts are taken as equal. -/
structure Shares (book book' : RuleBook) (family : List RuleSet) : Prop where
  left : ∀ s ∈ family, s ∈ book.sets
  right : ∀ s ∈ family, s ∈ book'.sets
  closed : ∀ s ∈ family, ∀ t ∈ s.templates, ∀ sub ∈ t.substitutions, ∀ name ∈ sub.setName?,
    (∃ s' ∈ family, s'.name = name) ∨ book.find? name = none ∧ book'.find? name = none
  default? : ∃ d ∈ family, book.default? = some d ∧ book'.default? = some d
  equivalences : book.equivalences = book'.equivalences

/-- The sets of the book that belong to a family. -/
def restrict (book : RuleBook) (family : List RuleSet) : RuleBook :=
  ⟨book.sets.filter (· ∈ family), book.equivalences⟩

variable {book' : RuleBook} {family : List RuleSet} {s : RuleSet}

theorem mem_restrict : s ∈ (book.restrict family).sets ↔ s ∈ book.sets ∧ s ∈ family := by
  simp [restrict]

theorem Distinct.restrict (h : book.Distinct) (family : List RuleSet) :
    (book.restrict family).Distinct :=
  List.Nodup.sublist (List.filter_sublist.map _) h

/-- The default set is still the first public one, if it belongs to the family. -/
theorem default?_restrict (hd : book.default? = some s) (mem : s ∈ family) :
    (book.restrict family).default? = some s := by
  obtain ⟨isPublic, before, after, sets, others⟩ := List.find?_eq_some_iff_append.1 hd
  rw [default?, restrict, List.find?_filter]
  refine List.find?_eq_some_iff_append.2 ⟨by simp [mem, isPublic], before, after, sets, ?_⟩
  intro s' hs'
  have := others s' hs'
  simp_all

namespace Shares

variable (h : book.Shares book' family)

include h

theorem mem_restrict (hs : s ∈ family) : s ∈ (book.restrict family).sets :=
  RuleBook.mem_restrict.2 ⟨h.left s hs, hs⟩

theorem self : book.Shares book family where
  left := h.left
  right := h.left
  closed s hs t ht sub hsub name hname :=
    (h.closed s hs t ht sub hsub name hname).imp_right fun none => ⟨none.1, none.1⟩
  default? := by
    obtain ⟨d, mem, hd, -⟩ := h.default?
    exact ⟨d, mem, hd, hd⟩
  equivalences := rfl

/-- Both books extend the family, taken in the order of the first one. -/
theorem extends_restrict (distinct : book.Distinct) (distinct' : book'.Distinct) :
    book'.Extends (book.restrict family) where
  find? name mentioned := by
    have shared {s : RuleSet} (hs : s ∈ family) (named : s.name = name) :
        book'.find? name = (book.restrict family).find? name := by
      rw [distinct'.find?_eq_some.2 ⟨h.right s hs, named⟩,
        (distinct.restrict family).find?_eq_some.2 ⟨h.mem_restrict hs, named⟩]
    cases mentioned with
    | header mem named => exact shared (RuleBook.mem_restrict.1 mem).2 named
    | @rule s mem target ht named =>
      obtain ⟨t, ht, sub, hsub, htarget⟩ := RuleSet.exists_of_mem_targets ht
      have used : sub.setName? = some name := (Substitution.setName?_of_target? htarget).trans named
      rcases h.closed s (RuleBook.mem_restrict.1 mem).2 t ht sub hsub name used with
        ⟨s', hs', named'⟩ | ⟨none, none'⟩
      · exact shared hs' named'
      · rw [none']
        cases found : (book.restrict family).find? name with
        | none => rfl
        | some s' =>
          have held := (RuleBook.mem_restrict.1 (mem_of_find? found)).1
          have := distinct.find?_eq_some.2 ⟨held, name_of_find? found⟩
          rw [none] at this
          cases this
  default? := by
    obtain ⟨d, mem, hd, hd'⟩ := h.default?
    rw [hd', default?_restrict hd mem]
  equivalences := h.equivalences.symm

end Shares

/-- **Two books that share a family lead to the same results** for its sets: values have the same texts,
    by the same steps, and texts are read in the same way, or the same errors stand in the way. -/
theorem results_of_shares {description description' : Text}
    (compiled : ofDescription description = .ok book)
    (compiled' : ofDescription description' = .ok book') (shares : book.Shares book' family)
    (asked : ∀ name ∈ set, ∃ s ∈ family, s.name = name) (v : Binary64) (t : Text)
    (context : Context) (options : Options) :
    book'.format v set context options = book.format v set context options ∧
      book'.formatVerbose v set context options = book.formatVerbose v set context options ∧
      book'.parse t set context options = book.parse t set context options := by
  have distinct := distinct_of_ofDescription compiled
  have left := shares.self.extends_restrict distinct distinct
  have right := shares.extends_restrict distinct (distinct_of_ofDescription compiled')
  have mentioned : ∀ name ∈ set, (book.restrict family).Mentions name := by
    intro name hname
    obtain ⟨s, hs, named⟩ := asked name hname
    exact .header (shares.mem_restrict hs) named
  have verbose : book'.formatVerbose v set context options =
      book.formatVerbose v set context options :=
    (right.formatVerbose mentioned ..).trans (left.formatVerbose mentioned ..).symm
  refine ⟨?_, verbose, (right.parse mentioned ..).trans (left.parse mentioned ..).symm⟩
  rw [format, format, verbose]

/-- The rule book of `%small: zero; =%%more=; %%more: 1: one; 2: two;`. -/
def small : RuleBook where
  sets :=
    [{ name := "%small".toList
       ladder :=
         [⟨1, 10, 0, true, [.piece (.substitution (.same (.ruleSet "%%more".toList)))]⟩,
          ⟨0, 10, 0, true, [.piece (.literal "zero".toList)]⟩] },
     { name := "%%more".toList
       ladder :=
         [⟨2, 10, 0, false, [.piece (.literal "two".toList)]⟩,
          ⟨1, 10, 0, false, [.piece (.literal "one".toList)]⟩] }]
  equivalences := .none

/-- The same sets in another order, with a set before them and one behind them. -/
def surrounded : RuleBook where
  sets :=
    { name := "%%first".toList
      ladder := [⟨0, 10, 0, true, [.piece (.literal "first".toList)]⟩] } :: small.sets.reverse ++
    [{ name := "%other".toList
       ladder := [⟨0, 10, 0, true,
         [.piece (.substitution (.same (.ruleSet "%small".toList))), .piece (.literal ['!'])]⟩] }]
  equivalences := .none

theorem shares_small : small.Shares surrounded small.sets where
  left := by decide
  right := by decide
  closed := by decide
  default? := ⟨small.sets.head (by decide), by decide, by decide, by decide⟩
  equivalences := rfl

/-- In both 2 is `two`, spelled out and read. -/
theorem results_of_shares_small :
    ofDescription "%small: zero; =%%more=; %%more: 1: one; 2: two;".toList =
        .ok small ∧
      ofDescription ("%%first: first; %%more: 1: one; 2: two; " ++
        "%small: zero; =%%more=; %other: =%small=!;").toList = .ok surrounded ∧
      small.Shares surrounded small.sets ∧
      (∀ name ∈ some "%small".toList, ∃ s ∈ small.sets, s.name = name) ∧
      surrounded.format (.ofNat 2) (some "%small".toList) {} {} = .ok "two".toList ∧
      surrounded.formatVerbose (.ofNat 2) (some "%small".toList) {} {} =
        small.formatVerbose (.ofNat 2) (some "%small".toList) {} {} ∧
      surrounded.parse "two".toList (some "%small".toList) {} {} = .ok ⟨.ofNat 2, 3⟩ := by
  have compiled : ofDescription
      "%small: zero; =%%more=; %%more: 1: one; 2: two;".toList = .ok small := by
    decide +kernel
  have compiled' : ofDescription ("%%first: first; %%more: 1: one; 2: two; " ++
      "%small: zero; =%%more=; %other: =%small=!;").toList = .ok surrounded := by
    decide +kernel
  have asked : ∀ name ∈ some "%small".toList, ∃ s ∈ small.sets, s.name = name := by decide
  obtain ⟨text, spelling, value⟩ :=
    results_of_shares compiled compiled' shares_small asked (.ofNat 2) "two".toList {} {}
  refine ⟨compiled, compiled', shares_small, asked, text.trans ?_, spelling, value.trans ?_⟩
  · decide +kernel
  · decide +kernel

end RuleBook
end Spellout
