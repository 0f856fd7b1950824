/-
  Parsing stays inside the text.

  A numeral system may claim to have read anything, with any number of bytes.  Still no look at the
  text goes beyond its end, all questions are about stretches of the text, and answers lie inside the
  stretches they are asked for.  So the text that a value is read from is a start of the text, with
  something in it, that ends where a symbol ends.

  * `RuleBook.guardedParse`: parsing with all of that checked;
  * `RuleBook.guardedParse_eq`: nothing is ever found by the checks;
  * `RuleBook.consumed_of_parse`: what the number of bytes of an outcome counts;
  * `RuleBook.parse_inside`: both, for compiled descriptions.
-/
import Spellout.Proofs.Reading.Folding
import Spellout.Proofs.Reading.Guarded
import Spellout.Proofs.Reading.Numerals

namespace Spellout

namespace RuleBook

/-- As `parse`, with every look at the text, every question and every answer checked. -/
def guardedParse (book : RuleBook) (fault : Error) (t : Text) (set : Option Text)
    (context : Context) (options : Options) : Except Error Outcome := do
  let s ← book.entry set
  let reader := Reader.ofText book context.numerals options.lenient options.maxDepth t
  match ← reader.guardedRead fault s with
  | some (value, consumed) => return ⟨value, consumed⟩
  | none => .error (.noMatch s.name)

theorem guardedParse_eq {book : RuleBook} (distinct : book.Distinct) (fault : Error) (t : Text)
    (set : Option Text) (context : Context) (options : Options) :
    book.guardedParse fault t set context options = book.parse t set context options := by
  unfold guardedParse parse
  cases hs : book.entry set with
  | error e => rfl
  | ok s =>
    have same := Reader.guardedRead_eq
      (r := .ofText book context.numerals options.lenient options.maxDepth t) fault distinct
      (mem_of_entry hs)
    change (Reader.guardedRead _ fault s >>= _) = _
    exact congrArg (· >>= _) same

/-- **The bytes of an outcome are those of the first symbols of the text,** one of them at least. -/
theorem consumed_of_parse {book : RuleBook} (distinct : book.Distinct)
    (solid : book.equivalences.Solid) {t : Text} {set : Option Text} {context : Context}
    {options : Options} {out : Outcome} (h : book.parse t set context options = .ok out) :
    ∃ k, 0 < k ∧ k ≤ (Reader.symbolsOf book options.lenient t).length ∧ ∃ u rest,
      u = ((Reader.symbolsOf book options.lenient t).take k).flatMap Symbol.text ∧
        u ++ rest = t ∧ u ≠ [] ∧ out.consumed = Text.utf8Size u := by
  obtain ⟨s, hs, -⟩ := bind_eq_ok.1 h
  rw [parse_eq_found hs] at h
  obtain ⟨found, hf, h⟩ := bind_eq_ok.1 h
  cases found with
  | none => cases h
  | some m =>
    obtain rfl := Except.ok.inj h
    obtain ⟨pos, le⟩ := Reader.within_found distinct (mem_of_entry hs) hf
    generalize hl : Reader.symbolsOf book options.lenient t = symbols
    have le : m.stop ≤ symbols.length := by
      rw [← hl]
      exact le
    have texts : symbols.flatMap Symbol.text = t := by
      rw [← hl]
      exact Reader.flatMap_symbolsOf solid options.lenient t
    refine ⟨m.stop, pos, le, _, (symbols.drop m.stop).flatMap Symbol.text, rfl, ?_, ?_, ?_⟩
    · rw [← List.flatMap_append, List.take_append_drop, texts]
    · -- the first symbol has a text
      intro none
      cases symbols with
      | nil => exact absurd pos (Nat.not_lt.2 le)
      | cons first symbols =>
        have mem : first ∈ Reader.symbolsOf book options.lenient t := by
          rw [hl]
          exact List.mem_cons_self
        have some := solid.ne_nil ((Reader.mem_symbolsOf mem).imp_left And.right)
        obtain ⟨n, hn⟩ := Nat.exists_eq_succ_of_ne_zero (Nat.ne_of_gt pos)
        rw [hn, List.take_succ_cons, List.flatMap_cons] at none
        exact some (List.append_eq_nil_iff.1 none).1
    · change Text.utf8Size (((Reader.symbolsOf book options.lenient t).take m.stop).flatMap
        Symbol.text) = _
      rw [hl]

/-- **Whatever the numeral system claims to read, parsing stays inside the text.**  The checks find
    nothing, whatever the fault; answers lie inside the stretches they are given for, and numerals take
    up something; and the bytes of an outcome are those of a start of the text, not empty and not longer
    than the text, that ends where a symbol ends. -/
theorem parse_inside {description : Text} {book : RuleBook}
    (compiled : ofDescription description = .ok book) (t : Text) (set : Option Text)
    (context : Context) (options : Options) :
    let r := Reader.ofText book context.numerals options.lenient options.maxDepth t
    (∀ fault, book.guardedParse fault t set context options = book.parse t set context options) ∧
    (∀ q m, r.Gives q (some m) → q.start ≤ q.stop → q.start ≤ m.stop ∧ m.stop ≤ q.stop) ∧
    (∀ p i j m, r.readNumeral? p i j = some m → i < m.stop ∧ m.stop ≤ j) ∧
    ∀ out, book.parse t set context options = .ok out →
      0 < out.consumed ∧ out.consumed ≤ Text.utf8Size t ∧
      ∃ k, 0 < k ∧ k ≤ r.symbols.size ∧ ∃ u rest,
        u = (r.symbols.toList.take k).flatMap Symbol.text ∧ u ++ rest = t ∧
          out.consumed = Text.utf8Size u := by
  intro r
  have distinct := distinct_of_ofDescription compiled
  refine ⟨fun fault => guardedParse_eq distinct fault t set context options, ?_, ?_, ?_⟩
  · intro q m gives hij
    exact gives.holds distinct Reader.closed_spans hij m rfl
  · intro p i j m h
    exact Reader.within_readNumeral? h
  · intro out h
    obtain ⟨k, pos, le, u, rest, hu, split, some, consumed⟩ :=
      consumed_of_parse distinct (solid_of_ofDescription compiled) h
    refine ⟨?_, ?_, k, pos, le, u, rest, hu, split, consumed⟩
    · rw [consumed]
      exact Text.utf8Size_pos some
    · rw [consumed, ← split, Text.utf8Size_append]
      exact Nat.le_add_right ..

/-- Decimal numerals, but a numeral system that claims to read seven from a thousand bytes anywhere. -/
def boastful : NumeralSystem where
  render := NumeralSystem.renderDecimal
  read _ _ := some (.ofNat 7, 1000)

/-- A numeral system that claims to have read a thousand bytes is taken to have read the text. -/
theorem parse_inside_boastful :
    ofDescription "%main: =#,##0=;\n%%lenient-parse: & ' ' , ',' ;".toList = .ok Reader.spaced ∧
      Reader.spaced.parse "a bé".toList none ⟨boastful⟩ ⟨64, true⟩ = .ok ⟨.ofNat 7, 5⟩ ∧
      ∀ fault, Reader.spaced.guardedParse fault "a bé".toList none ⟨boastful⟩ ⟨64, true⟩ =
        .ok ⟨.ofNat 7, 5⟩ := by
  have compiled : ofDescription "%main: =#,##0=;\n%%lenient-parse: & ' ' , ',' ;".toList =
      .ok Reader.spaced := by
    decide +kernel
  have parsed : Reader.spaced.parse "a bé".toList none ⟨boastful⟩ ⟨64, true⟩ =
      .ok ⟨.ofNat 7, 5⟩ := by
    decide +kernel
  refine ⟨compiled, parsed, fun fault => ?_⟩
  rw [(parse_inside compiled "a bé".toList none ⟨boastful⟩ ⟨64, true⟩).1 fault, parsed]

end RuleBook
end Spellout
