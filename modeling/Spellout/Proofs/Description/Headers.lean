/-
  Headers that open rule sets.

  A rule set is opened by a header at the start of a body.  A body starts at the start of the text and
  behind every semicolon, after the blanks that are there.  So whether a description has a rule set of
  some name can be told from its text alone: before one of the headers of that name nothing but blanks
  stands since the last semicolon.

  * `Mark.startsBody`: a body starts behind these marks;
  * `Mark.Headed.of_append`: a header does not reach into blanks without a colon behind them;
  * `Mark.headed_stretches`: semicolons do not cut a header in two;
  * `Mark.opens_stretches`: the stretches with a header at their start, and where these headers stand;
  * `SetSource.mem_names_ofBodies`: the names of rule sets are those of bodies with a header;
  * `SetSource.mem_names_ofMarks`: a text has a rule set of a name if and only if a body starts with a
    header of that name.
-/
import Spellout.Proofs.Description.Bodies

namespace Spellout

namespace Mark

variable {name : Text} {m : Mark} {ms front back rest : List Mark}

/-! ## Names -/

theorem ne_nil_of_isName (isName : SetName.isName name) : name ≠ [] := by
  rintro rfl
  cases isName

/-- No semicolon stands in the name of a rule set. -/
theorem ne_semicolon_of_isName (isName : SetName.isName name) : ∀ c ∈ name, c ≠ ';' := by
  obtain ⟨c, more, eq, -, all⟩ := isName_iff.1 isName
  rw [eq]
  rintro x hx rfl
  rcases List.mem_append.1 hx with hx | hx
  · cases eq_of_mem_sign hx
  · cases all _ hx

/-! ## Headers in a part of a text -/

/-- What follows does not matter to a header. -/
theorem Headed.append (h : Headed name ms rest) (back : List Mark) :
    Headed name (ms ++ back) (rest ++ back) := by
  obtain ⟨front, bs, colon, rfl, rfl, blank, char⟩ := h
  exact ⟨front, bs, colon, by simp, rfl, blank, char⟩

/-- **A header does not reach into blanks** that no colon stands behind. -/
theorem Headed.of_append (solid : ∀ c ∈ name, Mark.isSolid c) (h : Headed name (front ++ back) rest)
    (blank : ∀ m ∈ back.head?, m.isBlank) (none : afterColon? back = none) :
    ∃ rest, Headed name front rest := by
  have absent {bs : List Mark} {colon : Mark} (spaces : ∀ b ∈ bs, Mark.isSolid b.char = false)
      (char : colon.char = ':') : back ≠ bs ++ colon :: rest := by
    intro eq
    have colon : afterColon? back = some rest := afterColon?_eq_some.2 ⟨bs, colon, eq, spaces, char⟩
    rw [none] at colon
    cases colon
  obtain ⟨letters, bs, colon, eq, rfl, spaces, char⟩ := h
  rcases List.append_eq_append_iff.1 eq with ⟨more, rfl, hb⟩ | ⟨more, rfl, hm⟩
  · cases more with
    | nil => exact absurd hb (absent spaces char)
    | cons m more =>
      -- a letter stands where the blanks begin
      have letter : Mark.isSolid m.char := solid _ (by simp [text])
      rw [isSolid_char.2 (blank m (by simp [hb]))] at letter
      cases letter
  · rcases List.append_eq_append_iff.1 hm with ⟨more', rfl, hc⟩ | ⟨more', rfl, hb⟩
    · rcases List.cons_eq_append_iff.1 hc with ⟨rfl, hb⟩ | ⟨more, rfl, -⟩
      · have none : back ≠ [] ++ colon :: rest := absent (by simp) char
        exact absurd hb none
      · exact ⟨more, letters, bs, colon, rfl, rfl, spaces, char⟩
    · exact absurd hb (absent (fun b hb => spaces b (List.mem_append_right _ hb)) char)

/-- A header is not empty. -/
theorem not_headed_nil : ¬ Headed name [] rest := by
  rintro ⟨letters, bs, colon, eq, -⟩
  simp at eq

/-- No header starts with a semicolon. -/
theorem not_headed_semicolon (isName : SetName.isName name) (semicolon : m.char = ';') :
    ¬ Headed name (m :: ms) rest := by
  rintro ⟨letters, bs, colon, eq, rfl, -⟩
  cases letters with
  | nil => exact ne_nil_of_isName isName rfl
  | cons x letters =>
    obtain ⟨rfl, -⟩ := List.cons.inj eq
    exact ne_semicolon_of_isName isName _ (by simp [text]) semicolon

/-! ## Headers at the start of a body -/

/-- Whether a body starts behind a mark, given whether one starts before it: behind a semicolon one
    does, and blanks do not change it. -/
def bodyStarts (starts : Bool) (m : Mark) : Bool := m.char == ';' || starts && m.isBlank

/-- A body starts behind these marks: there are only blanks since the last semicolon, or since the start
    of the text. -/
def startsBody (front : List Mark) : Bool := front.foldl bodyStarts true

/-- A body starts with a header of the name; `starts` says whether one starts with the text. -/
def OpensFrom (starts : Bool) (name : Text) (ms : List Mark) : Prop :=
  ∃ front back rest, ms = front ++ back ∧ front.foldl bodyStarts starts ∧ Headed name back rest

theorem not_opensFrom_nil (starts : Bool) : ¬ OpensFrom starts name [] := by
  rintro ⟨front, back, rest, eq, -, header⟩
  obtain ⟨rfl, rfl⟩ := List.nil_eq_append_iff.1 eq
  exact not_headed_nil header

theorem opensFrom_cons (starts : Bool) : OpensFrom starts name (m :: ms) ↔
    (starts ∧ ∃ rest, Headed name (m :: ms) rest) ∨ OpensFrom (bodyStarts starts m) name ms := by
  constructor
  · rintro ⟨front, back, rest, eq, hs, header⟩
    rcases List.cons_eq_append_iff.1 eq with ⟨rfl, rfl⟩ | ⟨front, rfl, rfl⟩
    · exact .inl ⟨hs, rest, header⟩
    · exact .inr ⟨front, back, rest, rfl, hs, header⟩
  · rintro (⟨hs, rest, header⟩ | ⟨front, back, rest, rfl, hs, header⟩)
    · exact ⟨[], m :: ms, rest, rfl, hs, header⟩
    · exact ⟨m :: front, back, rest, rfl, hs, header⟩

/-- Behind blanks a header of the name stands. -/
def Opens (name : Text) (ms : List Mark) : Prop := ∃ rest, Headed name (trimStart ms) rest

theorem opens_cons (isName : SetName.isName name) :
    Opens name (m :: ms) ↔ m.isBlank ∧ Opens name ms ∨ ∃ rest, Headed name (m :: ms) rest := by
  cases hm : m.isBlank with
  | false => simp [Opens, trimStart, hm]
  | true =>
    have none : ¬ ∃ rest, Headed name (m :: ms) rest := by
      rintro ⟨rest, header⟩
      have solid := header.isSolid (ne_nil_of_isName isName) (isSolid_of_isName isName)
      rw [isSolid_char.2 hm] at solid
      cases solid
    simp [Opens, trimStart, hm, none]

theorem stretches_isPrefix (stop : Nat) {s : List Mark × Nat} {more : List (List Mark × Nat)}
    (eq : Body.stretches stop ms = s :: more) : s.1 <+: ms := by
  induction ms generalizing s more with
  | nil =>
    cases eq
    exact List.nil_prefix
  | cons m ms ih =>
    obtain ⟨next, others, hs⟩ := exists_stretches stop ms
    rw [Body.stretches, hs] at eq
    split at eq
    · cases eq
      exact List.nil_prefix
    · cases eq
      exact List.cons_prefix_cons.2 ⟨rfl, ih hs⟩

/-- **Semicolons do not cut a header in two.** -/
theorem headed_stretches (isName : SetName.isName name) (stop : Nat) {s : List Mark × Nat}
    {more : List (List Mark × Nat)} (eq : Body.stretches stop ms = s :: more) :
    (∃ rest, Headed name ms rest) ↔ ∃ rest, Headed name s.1 rest := by
  constructor
  · rintro ⟨rest, letters, bs, colon, rfl, rfl, spaces, char⟩
    obtain ⟨next, others, hs⟩ := exists_stretches stop rest
    have plain : ∀ m ∈ letters ++ (bs ++ [colon]), m.char ≠ ';' := by
      intro m hm
      rcases List.mem_append.1 hm with hm | hm
      · exact ne_semicolon_of_isName isName _ (List.mem_map_of_mem hm)
      · rcases List.mem_append.1 hm with hm | hm
        · exact ne_of_isSolid (isSolid_char.1 (spaces m hm)) (by decide)
        · rw [List.mem_singleton.1 hm, char]
          decide
    have cut := stretches_append plain hs
    rw [show letters ++ (bs ++ colon :: rest) = letters ++ (bs ++ [colon]) ++ rest by simp, cut] at eq
    cases eq
    exact ⟨next.1, letters, bs, colon, by simp, rfl, spaces, char⟩
  · rintro ⟨rest, header⟩
    obtain ⟨back, rfl⟩ := stretches_isPrefix stop eq
    exact ⟨_, header.append back⟩

/-- **A stretch opens with a header if and only if a body does.** -/
theorem opens_stretches (isName : SetName.isName name) (stop : Nat) (starts : Bool)
    {s : List Mark × Nat} {more : List (List Mark × Nat)} (eq : Body.stretches stop ms = s :: more) :
    (starts ∧ Opens name s.1 ∨ ∃ t ∈ more, Opens name t.1) ↔ OpensFrom starts name ms := by
  have none : ¬ Opens name [] := by
    rintro ⟨rest, header⟩
    exact not_headed_nil header
  induction ms generalizing starts s more with
  | nil =>
    cases eq
    simp [none, not_opensFrom_nil]
  | cons m ms ih =>
    obtain ⟨next, others, hs⟩ := exists_stretches stop ms
    have cut := eq
    rw [Body.stretches, hs] at eq
    rw [opensFrom_cons]
    split at eq
    · rename_i semicolon
      cases eq
      have first : ¬ ∃ rest, Headed name (m :: ms) rest := by
        rintro ⟨rest, header⟩
        exact not_headed_semicolon isName semicolon header
      have behind : bodyStarts starts m = true := by simp [bodyStarts, semicolon]
      have step := ih true hs
      rw [behind]
      simpa [none, first] using step
    · rename_i other
      cases eq
      have behind : bodyStarts starts m = (starts && m.isBlank) := by simp [bodyStarts, other]
      have step := ih (starts && m.isBlank) hs
      rw [Bool.and_eq_true] at step
      rw [headed_stretches isName stop cut, behind, opens_cons isName]
      constructor
      · rintro (⟨hs, ⟨blank, opens⟩ | header⟩ | later)
        · exact .inr (step.1 (.inl ⟨⟨hs, blank⟩, opens⟩))
        · exact .inl ⟨hs, header⟩
        · exact .inr (step.1 (.inr later))
      · rintro (⟨hs, header⟩ | later)
        · exact .inl ⟨hs, .inr header⟩
        · rcases step.2 later with ⟨⟨hs, blank⟩, opens⟩ | later
          · exact .inl ⟨hs, .inl ⟨blank, opens⟩⟩
          · exact .inr later

/-! ## Blanks at the end of a body -/

theorem exists_trimEnd (ms : List Mark) :
    ∃ bs, ms = Body.trimEnd ms ++ bs ∧ ∀ b ∈ bs, b.isBlank := by
  unfold Body.trimEnd
  dsimp only
  split
  · refine ⟨(ms.reverse.takeWhile isBlank).reverse, ?_, fun b hb => ?_⟩
    · rw [← List.reverse_append, List.takeWhile_append_dropWhile, List.reverse_reverse]
    · exact List.all_eq_true.1 List.all_takeWhile b (List.mem_reverse.1 hb)
  · exact ⟨[], by simp, by simp⟩

/-- Blanks at the end do not matter to a header. -/
theorem headed_trimEnd (isName : SetName.isName name) :
    (∃ rest, Headed name (Body.trimEnd ms) rest) ↔ ∃ rest, Headed name ms rest := by
  obtain ⟨bs, eq, blank⟩ := exists_trimEnd ms
  constructor
  · rintro ⟨rest, header⟩
    rw [eq]
    exact ⟨_, header.append bs⟩
  · rintro ⟨rest, header⟩
    have none : afterColon? bs = none := by
      rw [afterColon?, trimStart, List.dropWhile_eq_nil_iff.2 blank]
    rw [eq] at header
    exact header.of_append (isSolid_of_isName isName)
      (fun m hm => blank m (List.mem_of_mem_head? hm)) none

end Mark

/-! ## Bodies -/

namespace Body

variable {name : Text}

/-- The body starts with a header of the name. -/
def OpensSet (name : Text) (b : Body) : Prop := ∃ first, b.header? = some (name, first)

theorem opensSet_iff {b : Body} :
    b.OpensSet name ↔ SetName.isName name ∧ ∃ rest, Mark.Headed name b.marks rest := by
  constructor
  · rintro ⟨first, header⟩
    obtain ⟨⟨name', rest⟩, hm, eq⟩ := Option.map_eq_some_iff.1 header
    obtain ⟨rfl, -⟩ := Prod.mk.inj eq
    obtain ⟨isName, headed⟩ := Mark.header?_eq_some.1 hm
    exact ⟨isName, rest, headed⟩
  · rintro ⟨isName, rest, headed⟩
    exact ⟨_, Option.map_eq_some_iff.2 ⟨_, Mark.header?_eq_some.2 ⟨isName, headed⟩, rfl⟩⟩

theorem opensSet_ofStretch {s : List Mark × Nat} :
    (ofStretch s).OpensSet name ↔ SetName.isName name ∧ Mark.Opens name s.1 := by
  rw [opensSet_iff]
  exact and_congr_right Mark.headed_trimEnd

/-- The last stretch is left out only if it is empty, and then it has no header. -/
theorem exists_opensSet_stretches {ms : List Mark} (stop : Nat) :
    (∃ b ∈ ofMarks ms stop, b.OpensSet name) ↔
      ∃ b ∈ (stretches stop ms).map ofStretch, b.OpensSet name := by
  unfold ofMarks
  dsimp only
  generalize (stretches stop ms).map ofStretch = bodies
  split
  · rename_i empty
    obtain ⟨last, hl, none⟩ := Option.map_eq_some_iff.1 empty
    have closed : ¬ last.OpensSet name := by
      rintro hlast
      obtain ⟨-, rest, headed⟩ := opensSet_iff.1 hlast
      rw [none] at headed
      exact Mark.not_headed_nil headed
    have split := List.dropLast_append_getLast? last hl
    constructor
    · rintro ⟨b, hb, opens⟩
      exact ⟨b, List.dropLast_subset bodies hb, opens⟩
    · rintro ⟨b, hb, opens⟩
      rw [← split] at hb
      rcases List.mem_append.1 hb with hb | hb
      · exact ⟨b, hb, opens⟩
      · rw [List.mem_singleton.1 hb] at opens
        exact absurd opens closed
  · exact Iff.rfl

/-- **A body opens a rule set if and only if a header stands where a body starts.** -/
theorem exists_opensSet_ofMarks {ms : List Mark} (stop : Nat) :
    (∃ b ∈ ofMarks ms stop, b.OpensSet name) ↔
      SetName.isName name ∧ Mark.OpensFrom true name ms := by
  obtain ⟨s, more, eq⟩ := Mark.exists_stretches stop ms
  rw [exists_opensSet_stretches, eq]
  constructor
  · rintro ⟨_, hb, opens⟩
    obtain ⟨t, ht, rfl⟩ := List.mem_map.1 hb
    obtain ⟨isName, opens⟩ := opensSet_ofStretch.1 opens
    refine ⟨isName, (Mark.opens_stretches isName stop true eq).1 ?_⟩
    rcases List.mem_cons.1 ht with rfl | ht
    · exact .inl ⟨rfl, opens⟩
    · exact .inr ⟨t, ht, opens⟩
  · rintro ⟨isName, opens⟩
    have opened {t : List Mark × Nat} (ht : t ∈ s :: more) (opens : Mark.Opens name t.1) :
        ∃ b ∈ (s :: more).map ofStretch, b.OpensSet name :=
      ⟨_, List.mem_map_of_mem ht, opensSet_ofStretch.2 ⟨isName, opens⟩⟩
    rcases (Mark.opens_stretches isName stop true eq).2 opens with ⟨-, opens⟩ | ⟨t, ht, opens⟩
    · exact opened (List.mem_cons_self ..) opens
    · exact opened (List.mem_cons_of_mem _ ht) opens

end Body

/-! ## Rule sets -/

namespace SetSource

variable {name : Text} {bodies : List Body}

theorem mem_names_group : name ∈ (group bodies).2.map SetSource.name ↔
    ∃ b ∈ bodies, b.OpensSet name := by
  induction bodies with
  | nil => simp [group]
  | cons b bodies ih =>
    unfold group
    dsimp only
    cases hb : b.header? with
    | none =>
      have closed : ¬ b.OpensSet name := by simp [Body.OpensSet, hb]
      simp [ih, closed]
    | some found =>
      have opens : b.OpensSet name ↔ name = found.1 := by
        simp [Body.OpensSet, hb, Prod.ext_iff, eq_comm]
      simp [ih, opens]

/-- The names of rule sets are those of bodies with a header. -/
theorem mem_names_ofBodies (named : name ≠ SetName.unnamed) :
    name ∈ (ofBodies bodies).map SetSource.name ↔ ∃ b ∈ bodies, b.OpensSet name := by
  rw [← mem_names_group]
  unfold ofBodies
  split
  · rename_i eq
    rw [eq]
  · rename_i eq
    simp [eq, named]

/-- **A text has a rule set of a name if and only if a body starts with a header of that name.** -/
theorem mem_names_ofMarks (named : name ≠ SetName.unnamed) {ms : List Mark} (stop : Nat) :
    name ∈ (ofBodies (Body.ofMarks ms stop)).map SetSource.name ↔ SetName.isName name ∧
      ∃ front back rest, ms = front ++ back ∧ Mark.startsBody front ∧ Mark.Headed name back rest := by
  rw [mem_names_ofBodies named]
  exact Body.exists_opensSet_ofMarks stop

end SetSource
end Spellout
