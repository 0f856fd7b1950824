/-
  Lenient sections and the rule sets of a description.

  Only the first lenient section is lifted out of a description.  Blanks take its place, so what stands
  behind it may continue a rule that was begun before it.  The header of a second section is left in
  the text; where a body starts with it, it opens a rule set like any other header.

  * `Mark.splitAtHeader_eq_iff`: a split is at the first header, wherever one counts;
  * `Mark.LenientSection`: the first lenient section, with its header and what it holds;
  * `Mark.liftLenientSection_cases`: there is none, or it is the one that is lifted;
  * `Mark.Reopens`: behind the first section a body starts with the header of another one;
  * `RuleBook.lenient_mem_names_iff`: only then a rule set has the name of the section;
  * `RuleBook.forall_name_ne_lenient_iff`: so it is in every compiled description;
  * `RuleBook.name_ne_lenient_of_single`: a single section never turns into rules.
-/
import Spellout.Proofs.Description.Headers
import Spellout.Proofs.RuleBook.Shape

namespace Spellout

namespace Mark

/-! ## The first header -/

/-- A header counts behind these marks, given whether it does before them. -/
def headerCounts (fresh : Bool) (front : List Mark) : Bool :=
  front.foldl (fun _ m => m.mayPrecedeHeader) fresh

/-- No header stands in `front`, which `back` stands behind, at a place where it would count. -/
def Headless (header : List Mark → Bool) (fresh : Bool) (front back : List Mark) : Prop :=
  ∀ f b, front = f ++ b → b ≠ [] → headerCounts fresh f → header (b ++ back) = false

section

variable {header : List Mark → Bool} {fresh : Bool} {front back : List Mark}

theorem headless_nil : Headless header fresh [] back := by
  intro f b eq ne
  exact absurd (List.nil_eq_append_iff.1 eq).2 ne

theorem headless_cons {m : Mark} : Headless header fresh (m :: front) back ↔
    (fresh → header (m :: (front ++ back)) = false) ∧
      Headless header m.mayPrecedeHeader front back := by
  constructor
  · intro h
    refine ⟨fun counts => h [] (m :: front) rfl (by simp) counts, fun f b eq ne counts => ?_⟩
    exact h (m :: f) b (by rw [eq]; rfl) ne counts
  · rintro ⟨first, later⟩ f b eq ne counts
    rcases List.cons_eq_append_iff.1 eq with ⟨rfl, rfl⟩ | ⟨f, rfl, rfl⟩
    · exact first counts
    · exact later f b rfl ne counts

theorem splitAtHeader_cons (header : List Mark → Bool) (fresh : Bool) (m : Mark) (ms : List Mark) :
    splitAtHeader header fresh (m :: ms) = if fresh && header (m :: ms) then ([], m :: ms)
      else (m :: (splitAtHeader header m.mayPrecedeHeader ms).1,
        (splitAtHeader header m.mayPrecedeHeader ms).2) := rfl

/-- **A split is at the first header that counts,** or at the end if there is none. -/
theorem splitAtHeader_eq_iff : splitAtHeader header fresh (front ++ back) = (front, back) ↔
    Headless header fresh front back ∧ (back = [] ∨ headerCounts fresh front ∧ header back) := by
  induction front generalizing fresh with
  | nil =>
    have counts : headerCounts fresh [] = fresh := rfl
    simp only [headless_nil, true_and, List.nil_append, counts]
    cases back with
    | nil => simp [splitAtHeader]
    | cons m rest =>
      rw [splitAtHeader_cons]
      split <;> simp_all
  | cons m front ih =>
    have counts : headerCounts fresh (m :: front) = headerCounts m.mayPrecedeHeader front := rfl
    rw [headless_cons, counts, and_assoc, ← ih, List.cons_append, splitAtHeader_cons]
    split
    · rename_i found
      rw [Bool.and_eq_true] at found
      simp [found]
    · rename_i missing
      simp_all [Prod.ext_iff]

end

/-- Where a body starts, a header counts. -/
theorem headerCounts_of_startsBody {front : List Mark} (starts : startsBody front) :
    headerCounts true front := by
  rcases front.eq_nil_or_concat with rfl | ⟨f, m, rfl⟩
  · rfl
  · -- only the last mark matters
    have counts : headerCounts true (f.concat m) = m.mayPrecedeHeader := by simp [headerCounts]
    have last : bodyStarts (startsBody f) m := by simpa [startsBody] using starts
    rw [counts]
    rcases Bool.or_eq_true_iff.1 last with semicolon | blank
    · simp [mayPrecedeHeader, semicolon]
    · simp [mayPrecedeHeader, (Bool.and_eq_true_iff.1 blank).2]

/-- Blanks do not change whether a body starts. -/
theorem startsBody_blanks {front bs more : List Mark} (blank : ∀ b ∈ bs, b.isBlank) :
    startsBody (front ++ (bs ++ more)) = startsBody (front ++ more) := by
  suffices ∀ starts, bs.foldl bodyStarts starts = starts by
    simp only [startsBody, List.foldl_append, this]
  intro starts
  induction bs with
  | nil => rfl
  | cons b bs ih =>
    obtain ⟨hb, blank⟩ := List.forall_mem_cons.1 blank
    have char : b.char ≠ ';' := ne_of_isSolid hb (by decide)
    have same : bodyStarts starts b = starts := by simp [bodyStarts, hb, char]
    rw [List.foldl_cons, same, ih blank]

/-! ## The first lenient section -/

/-- A header of any name stands at the start. -/
def isHeader (ms : List Mark) : Bool := (header? ms).isSome

/-- The header of a lenient section stands at the start. -/
def isLenientHeader (ms : List Mark) : Bool := (lenientHeader? ms).isSome

theorem isLenientHeader_iff {ms : List Mark} :
    isLenientHeader ms ↔ ∃ rest, Headed SetName.lenient ms rest := by
  rw [isLenientHeader, Option.isSome_iff_exists]
  exact exists_congr fun _ => lenientHeader?_eq_some

/-- The first lenient section of a text: its header is `opening`, it holds `inner`, and it goes on to
    the next header of any name or to the end. -/
structure LenientSection (front opening inner back : List Mark) : Prop where
  /-- The header stands where it counts. -/
  counts : headerCounts true front
  /-- There is no header of a lenient section before it. -/
  first : Headless isLenientHeader true front (opening ++ (inner ++ back))
  header : Headed SetName.lenient (opening ++ (inner ++ back)) (inner ++ back)
  /-- There is no header in what it holds. -/
  inside : Headless isHeader true inner back
  ends : back = [] ∨ headerCounts true inner ∧ isHeader back

variable {front opening inner back : List Mark}

theorem LenientSection.opening_ne_nil (h : LenientSection front opening inner back) :
    opening ≠ [] := by
  rintro rfl
  obtain ⟨letters, bs, colon, eq, -⟩ := h.header
  have length := congrArg List.length eq
  simp only [List.nil_append, List.length_append, List.length_cons] at length
  omega

/-- **The first section is lifted,** and blanks take its place. -/
theorem LenientSection.lift (h : LenientSection front opening inner back) :
    liftLenientSection (front ++ (opening ++ (inner ++ back))) =
      (front ++ ((opening ++ inner).flatMap blanks ++ back), some inner) := by
  have found : splitAtHeader isLenientHeader true (front ++ (opening ++ (inner ++ back))) =
      (front, opening ++ (inner ++ back)) :=
    splitAtHeader_eq_iff.2 ⟨h.first, .inr ⟨h.counts, isLenientHeader_iff.2 ⟨_, h.header⟩⟩⟩
  have held : splitAtHeader isHeader true (inner ++ back) = (inner, back) :=
    splitAtHeader_eq_iff.2 ⟨h.inside, h.ends⟩
  have covered : (opening ++ (inner ++ back)).take
      ((opening ++ (inner ++ back)).length - back.length) = opening ++ inner := by
    rw [← List.append_assoc, List.length_append, Nat.add_sub_cancel, List.take_left]
  unfold liftLenientSection
  unfold isLenientHeader at found
  unfold isHeader at held
  simp only [found, lenientHeader?_eq_some.2 h.header, held, covered, List.append_assoc]

/-- A text has no lenient section, or its first one is the one that is lifted. -/
theorem liftLenientSection_cases (ms : List Mark) :
    (Headless isLenientHeader true ms [] ∧ liftLenientSection ms = (ms, none)) ∨
      ∃ front opening inner back, ms = front ++ (opening ++ (inner ++ back)) ∧
        LenientSection front opening inner back := by
  obtain ⟨front, found, hfound⟩ : ∃ front found, splitAtHeader isLenientHeader true ms = (front, found) :=
    ⟨_, _, rfl⟩
  obtain rfl : front ++ found = ms := by
    have parts := splitAtHeader_append isLenientHeader true ms
    rwa [hfound] at parts
  obtain ⟨first, ends⟩ := splitAtHeader_eq_iff.1 hfound
  cases hbody : lenientHeader? found with
  | none =>
    have empty : found = [] := by
      rcases ends with empty | ⟨-, header⟩
      · exact empty
      · rw [isLenientHeader, hbody] at header
        cases header
    subst empty
    rw [List.append_nil] at hfound ⊢
    refine .inl ⟨first, ?_⟩
    unfold liftLenientSection
    unfold isLenientHeader at hfound
    simp only [hfound, hbody]
  | some body =>
    obtain ⟨opening, rfl⟩ := lenientHeader?_suffix hbody
    have counts : headerCounts true front := by
      rcases ends with empty | ⟨counts, -⟩
      · rw [empty] at hbody
        cases hbody
      · exact counts
    obtain ⟨inner, back, hinner⟩ : ∃ inner back, splitAtHeader isHeader true body = (inner, back) :=
      ⟨_, _, rfl⟩
    obtain rfl : inner ++ back = body := by
      have parts := splitAtHeader_append isHeader true body
      rwa [hinner] at parts
    obtain ⟨inside, ends⟩ := splitAtHeader_eq_iff.1 hinner
    exact .inr ⟨front, opening, inner, back, rfl, counts, first, lenientHeader?_eq_some.1 hbody,
      inside, ends⟩

/-! ## Headers around the blanks -/

theorem isBlank_of_flatMap {covered : List Mark} : ∀ b ∈ covered.flatMap blanks, b.isBlank := by
  intro b hb
  obtain ⟨m, -, hm⟩ := List.mem_flatMap.1 hb
  exact isBlank_of_blanks hm

/-- A header in a text with blanks in the middle stands before them or behind them. -/
theorem Headed.cases_of_blanks {name : Text} {bs f b rest : List Mark} (ne : name ≠ [])
    (solid : ∀ c ∈ name, Mark.isSolid c) (header : Headed name b rest) (blank : ∀ x ∈ bs, x.isBlank)
    (filled : bs ≠ []) (eq : front ++ (bs ++ back) = f ++ b) :
    (∃ more, front = f ++ more ∧ more ≠ [] ∧ b = more ++ (bs ++ back)) ∨
      ∃ between, f = front ++ (bs ++ between) ∧ back = between ++ b := by
  -- a header does not start with a blank
  have apart {m : Mark} {ms : List Mark} (hm : m.isBlank) : b ≠ m :: ms := by
    rintro rfl
    have letter := header.isSolid ne solid
    rw [isSolid_char.2 hm] at letter
    cases letter
  rcases List.append_eq_append_iff.1 eq with ⟨more, rfl, parts⟩ | ⟨more, rfl, rfl⟩
  · rcases List.append_eq_append_iff.1 parts with ⟨between, rfl, rfl⟩ | ⟨others, rfl, hb⟩
    · exact .inr ⟨between, rfl, rfl⟩
    · cases others with
      | nil => exact .inr ⟨[], by simp, hb.symm⟩
      | cons m others => exact absurd hb (apart (blank m (by simp)))
  · cases more with
    | nil =>
      obtain ⟨m, others, rfl⟩ := List.exists_cons_of_ne_nil filled
      exact absurd rfl (apart (blank m (by simp)))
    | cons m more => exact .inl ⟨m :: more, rfl, by simp, rfl⟩

/-- No colon follows the blanks that take the place of a section. -/
theorem LenientSection.afterColon? (h : LenientSection front opening inner back) {bs : List Mark}
    (blank : ∀ b ∈ bs, Mark.isSolid b.char = false) : Mark.afterColon? (bs ++ back) = none := by
  rcases h.ends with rfl | ⟨-, header⟩
  · rw [List.append_nil, Mark.afterColon?, trimStart_eq_nil blank]
  · obtain ⟨⟨name, rest⟩, header⟩ := Option.isSome_iff_exists.1 header
    have percent := head?_of_header? header
    cases back with
    | nil => cases percent
    | cons m back =>
      have char : m.char = '%' := Option.some.inj percent
      have solid : Mark.isSolid m.char := by
        rw [char]
        decide
      rw [Mark.afterColon?, trimStart_append blank solid]
      exact if_neg (by rw [char]; decide)

/-- **No lenient header stands before the blanks** where it counts: it would have been found there. -/
theorem LenientSection.not_headed_before (h : LenientSection front opening inner back)
    {bs f more rest : List Mark} (blank : ∀ b ∈ bs, b.isBlank) (filled : bs ≠ [])
    (eq : front = f ++ more) (ne : more ≠ []) (counts : headerCounts true f) :
    ¬ Headed SetName.lenient (more ++ (bs ++ back)) rest := by
  intro header
  have head : ∀ m ∈ (bs ++ back).head?, m.isBlank := by
    intro m hm
    rw [List.head?_append_of_ne_nil _ filled] at hm
    exact blank m (List.mem_of_mem_head? hm)
  have colon : Mark.afterColon? (bs ++ back) = none :=
    h.afterColon? fun b hb => isSolid_char.2 (blank b hb)
  obtain ⟨rest, header⟩ := header.of_append isSolid_lenient head colon
  have found : isLenientHeader (more ++ (opening ++ (inner ++ back))) :=
    isLenientHeader_iff.2 ⟨_, header.append _⟩
  rw [h.first f more eq ne counts] at found
  cases found

/-! ## Further sections -/

/-- Behind the first lenient section a body starts with the header of another one. -/
def Reopens (ms : List Mark) : Prop :=
  ∃ front opening inner between again,
    ms = front ++ (opening ++ (inner ++ (between ++ again))) ∧
      LenientSection front opening inner (between ++ again) ∧ startsBody (front ++ between) ∧
        isLenientHeader again

/-- The header of a lenient section stands at one place at most, whether it counts there or not. -/
def Single (ms : List Mark) : Prop :=
  ∀ front back front' back', ms = front ++ back → ms = front' ++ back' → isLenientHeader back →
    isLenientHeader back' → front = front'

theorem Single.not_reopens {ms : List Mark} (single : Single ms) : ¬ Reopens ms := by
  rintro ⟨front, opening, inner, between, again, rfl, lifted, -, header⟩
  have same := single front _ (front ++ (opening ++ (inner ++ between))) again rfl (by simp)
    (isLenientHeader_iff.2 ⟨_, lifted.header⟩) header
  have none := List.self_eq_append_right.1 same
  exact lifted.opening_ne_nil (List.append_eq_nil_iff.1 none).1

/-- **A lenient header starts a body of what is left if and only if the text reopens the section.** -/
theorem opensFrom_liftLenientSection {ms : List Mark} :
    OpensFrom true SetName.lenient (liftLenientSection ms).1 ↔ Reopens ms := by
  constructor
  · rintro ⟨f, b, rest, eq, starts, header⟩
    rcases liftLenientSection_cases ms with ⟨none, lifted⟩ | ⟨front, opening, inner, back, rfl, first⟩
    · -- without a section the header itself would have been found
      rw [lifted] at eq
      have found : isLenientHeader b := isLenientHeader_iff.2 ⟨rest, header⟩
      have ne : b ≠ [] := by
        rintro rfl
        exact not_headed_nil header
      have missing := none f b eq ne (headerCounts_of_startsBody starts)
      rw [List.append_nil, found] at missing
      cases missing
    · rw [first.lift] at eq
      obtain ⟨m, more, hopening⟩ := List.exists_cons_of_ne_nil first.opening_ne_nil
      have filled : (opening ++ inner).flatMap blanks ≠ [] := by simp [hopening, blanks_ne_nil]
      rcases header.cases_of_blanks (by decide) isSolid_lenient isBlank_of_flatMap filled eq with
        ⟨more, rfl, ne, rfl⟩ | ⟨between, rfl, rfl⟩
      · exact absurd header (first.not_headed_before isBlank_of_flatMap filled rfl ne
          (headerCounts_of_startsBody starts))
      · refine ⟨front, opening, inner, between, b, rfl, first, ?_, isLenientHeader_iff.2 ⟨_, header⟩⟩
        exact (startsBody_blanks isBlank_of_flatMap).symm.trans starts
  · rintro ⟨front, opening, inner, between, again, rfl, first, starts, header⟩
    obtain ⟨rest, header⟩ := isLenientHeader_iff.1 header
    refine ⟨front ++ ((opening ++ inner).flatMap blanks ++ between), again, rest, ?_, ?_, header⟩
    · rw [first.lift]
      simp
    · exact (startsBody_blanks isBlank_of_flatMap).trans starts

end Mark

namespace RuleBook

variable {description : Text} {book : RuleBook}

/-- **A rule set has the name of the lenient section if and only if the section is reopened.** -/
theorem lenient_mem_names_iff (compiled : ofDescription description = .ok book) :
    (∃ s ∈ book.sets, s.name = SetName.lenient) ↔
      Mark.Reopens (Mark.blankComments (Mark.ofText description)) := by
  have names : SetName.lenient ∈ book.sets.map RuleSet.name ↔
      SetName.isName SetName.lenient ∧ Mark.OpensFrom true SetName.lenient
        (Mark.liftLenientSection (Mark.blankComments (Mark.ofText description))).1 := by
    rw [(wellFormed_of_ofDescription compiled).names]
    exact SetSource.mem_names_ofMarks (by decide) description.length
  rw [← List.mem_map, names, Mark.opensFrom_liftLenientSection]
  exact and_iff_right (by decide)

/-- **The lenient section turns into rules only where the description reopens it:** a rule book has no
    rule set of its name if and only if behind the first section no body starts with the header of
    another one. -/
theorem forall_name_ne_lenient_iff (compiled : ofDescription description = .ok book) :
    (∀ s ∈ book.sets, s.name ≠ SetName.lenient) ↔
      ¬ Mark.Reopens (Mark.blankComments (Mark.ofText description)) := by
  rw [← lenient_mem_names_iff compiled]
  simp

/-- The rule book of `%a: x; %%lenient-parse: & 'b' , 'c' ;`. -/
def sectioned : RuleBook where
  sets := [{ name := "%a".toList, ladder := [⟨0, 10, 0, true, [.piece (.literal ['x'])]⟩] }]
  equivalences := ⟨[[['b'], ['c']]]⟩

/-- The rule book of `%a: x; %%lenient-parse: & 'b' ; %%lenient-parse: & 'c' ;`. -/
def resectioned : RuleBook where
  sets :=
    [{ name := "%a".toList, ladder := [⟨0, 10, 0, true, [.piece (.literal ['x'])]⟩] },
     { name := SetName.lenient
       ladder := [⟨0, 10, 0, true, [.piece (.literal "& 'c' ".toList)]⟩] }]
  equivalences := ⟨[[['b']]]⟩

/-- One section is not reopened, two of them one after the other are. -/
theorem forall_name_ne_lenient_sections :
    let once := "%a: x; %%lenient-parse: & 'b' , 'c' ;".toList
    let twice := "%a: x; %%lenient-parse: & 'b' ; %%lenient-parse: & 'c' ;".toList
    (ofDescription once = .ok sectioned ∧ ¬ Mark.Reopens (Mark.blankComments (Mark.ofText once))) ∧
      ofDescription twice = .ok resectioned ∧
        Mark.Reopens (Mark.blankComments (Mark.ofText twice)) := by
  intro once twice
  have first : ofDescription once = .ok sectioned := by decide +kernel
  have second : ofDescription twice = .ok resectioned := by decide +kernel
  have named : ¬ ∀ s ∈ resectioned.sets, s.name ≠ SetName.lenient := by decide
  refine ⟨⟨first, (forall_name_ne_lenient_iff first).1 (by decide)⟩, second, ?_⟩
  exact not_not.1 fun closed => named ((forall_name_ne_lenient_iff second).2 closed)

/-- What a second section holds turns into a rule. -/
theorem not_forall_name_ne_lenient :
    ∃ book, ofDescription "%a: x; %%lenient-parse: & 'b' ; %%lenient-parse: & 'c' ;".toList = .ok book ∧
      ¬ ∀ s ∈ book.sets, s.name ≠ SetName.lenient :=
  ⟨resectioned, by decide +kernel, by decide⟩

/-- **A single lenient section never turns into rules,** wherever it stands. -/
theorem name_ne_lenient_of_single (compiled : ofDescription description = .ok book)
    (single : Mark.Single (Mark.blankComments (Mark.ofText description))) :
    ∀ s ∈ book.sets, s.name ≠ SetName.lenient := by
  intro s hs same
  exact single.not_reopens ((lenient_mem_names_iff compiled).1 ⟨s, hs, same⟩)

end RuleBook
end Spellout
