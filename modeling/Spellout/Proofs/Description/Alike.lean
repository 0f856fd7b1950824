/-
  Marked texts that differ in covered blanks.

  Blanks that take the place of a comment are covered.  Two marked texts are alike if they have the
  same characters, but for stretches of covered blanks, which may be longer in one of them.  Scanning
  keeps texts alike: it looks for characters that are not blank, and asks of blanks only whether there
  are any.  At the end of a body it asks for line breaks, too, so that blanks may be left of one text
  and not of the other.

  * `Mark.Alike`: the texts are alike; if they are cut, blanks may be missing at the end of one;
  * `Mark.Alike.split`: the same characters that are not blank divide both texts;
  * `Mark.Alike.text_or`: either the texts are the same, or covered blanks are in both of them;
  * `Mark.Alike.headed`, `Mark.Alike.splitAtHeader`: headers are found at the same places;
  * `Mark.Alike.liftLenientSection`: so the lenient section is, and what is left is alike.
-/
import Mathlib.Data.List.Forall2
import Spellout.Proofs.Description.Marks

namespace Spellout.Mark

/-! ## Texts that are alike -/

/-- Blanks with covered offsets, at least one. -/
structure Gap (C : Nat → Prop) (bs : List Mark) : Prop where
  ne_nil : bs ≠ []
  isBlank : ∀ b ∈ bs, b.isBlank
  covered : ∀ b ∈ bs, C b.offset

/-- Blanks, a covered one among them, or nothing. -/
structure Trail (C : Nat → Prop) (bs : List Mark) : Prop where
  isBlank : ∀ b ∈ bs, b.isBlank
  covered : bs = [] ∨ ∃ b ∈ bs, C b.offset

/-- Marked texts with the same characters, but for gaps at the same places, and, if they are cut, what
    trails behind them. -/
inductive Alike (C C' : Nat → Prop) (cut : Bool) : List Mark → List Mark → Prop
  | nil : Alike C C' cut [] []
  | cons {m m' : Mark} {ms ms' : List Mark} :
      m'.char = m.char → Alike C C' cut ms ms' → Alike C C' cut (m :: ms) (m' :: ms')
  | gap {bs bs' ms ms' : List Mark} :
      Gap C bs → Gap C' bs' → Alike C C' cut ms ms' → Alike C C' cut (bs ++ ms) (bs' ++ ms')
  | trail {bs bs' : List Mark} : cut → Trail C bs → Trail C' bs' → Alike C C' cut bs bs'

variable {C C' : Nat → Prop} {cut : Bool} {ms ms' : List Mark}

theorem Gap.reverse {bs : List Mark} (h : Gap C bs) : Gap C bs.reverse where
  ne_nil := by simpa using h.ne_nil
  isBlank b hb := h.isBlank b (by simpa using hb)
  covered b hb := h.covered b (by simpa using hb)

theorem Gap.exists_mem {bs : List Mark} (h : Gap C bs) : ∃ b ∈ bs, b.isBlank ∧ C b.offset := by
  obtain ⟨b, mem⟩ := List.exists_mem_of_ne_nil _ h.ne_nil
  exact ⟨b, mem, h.isBlank b mem, h.covered b mem⟩

namespace Alike

theorem symm (h : Alike C C' cut ms ms') : Alike C' C cut ms' ms := by
  induction h with
  | nil => exact .nil
  | cons char _ ih => exact .cons char.symm ih
  | gap hb hb' _ ih => exact .gap hb' hb ih
  | trail hcut hb hb' => exact .trail hcut hb' hb

theorem append {a a' : List Mark} (ha : Alike C C' false a a') (h : Alike C C' cut ms ms') :
    Alike C C' cut (a ++ ms) (a' ++ ms') := by
  induction ha with
  | nil => exact h
  | cons char _ ih => exact .cons char ih
  | gap hb hb' _ ih =>
    rw [List.append_assoc, List.append_assoc]
    exact .gap hb hb' ih
  | trail hcut => cases hcut

theorem weaken (h : Alike C C' false ms ms') : Alike C C' cut ms ms' := by
  have whole : Alike C C' cut (ms ++ []) (ms' ++ []) := h.append .nil
  simpa using whole

theorem of_text : ∀ {ms ms' : List Mark}, text ms' = text ms → Alike C C' cut ms ms'
  | [], [], _ => .nil
  | _ :: _, _ :: _, h => .cons (List.cons.inj h).1 (of_text (List.cons.inj h).2)

theorem reverse (h : Alike C C' false ms ms') : Alike C C' false ms.reverse ms'.reverse := by
  induction h with
  | nil => exact .nil
  | cons char _ ih =>
    rw [List.reverse_cons, List.reverse_cons]
    exact ih.append (.cons char .nil)
  | gap hb hb' _ ih =>
    rw [List.reverse_append, List.reverse_append]
    simpa using ih.append (.gap hb.reverse hb'.reverse .nil)
  | trail hcut => cases hcut

/-- **Either the texts are the same, or covered blanks are in both of them.** -/
theorem text_or (h : Alike C C' false ms ms') : text ms' = text ms ∨
    (∃ b ∈ ms, b.isBlank ∧ C b.offset) ∧ ∃ b ∈ ms', b.isBlank ∧ C' b.offset := by
  induction h with
  | nil => exact .inl rfl
  | cons char _ ih =>
    rcases ih with same | ⟨⟨b, hb, covered⟩, b', hb', covered'⟩
    · exact .inl (congrArg₂ List.cons char same)
    · exact .inr ⟨⟨b, List.mem_cons_of_mem _ hb, covered⟩, b', List.mem_cons_of_mem _ hb', covered'⟩
  | gap hb hb' _ _ =>
    obtain ⟨b, mem, covered⟩ := hb.exists_mem
    obtain ⟨b', mem', covered'⟩ := hb'.exists_mem
    exact .inr ⟨⟨b, List.mem_append_left _ mem, covered⟩, b', List.mem_append_left _ mem', covered'⟩
  | trail hcut => cases hcut

/-- Without covered marks the texts are the same. -/
theorem text_eq (h : Alike C C' cut ms ms') (apart : ∀ m ∈ ms, ¬ C m.offset)
    (apart' : ∀ m ∈ ms', ¬ C' m.offset) : text ms' = text ms := by
  induction h with
  | nil => rfl
  | cons char _ ih =>
    exact congrArg₂ List.cons char (ih (fun m hm => apart m (List.mem_cons_of_mem _ hm))
      fun m hm => apart' m (List.mem_cons_of_mem _ hm))
  | gap hb _ _ _ =>
    obtain ⟨b, mem, -, covered⟩ := hb.exists_mem
    exact absurd covered (apart b (List.mem_append_left _ mem))
  | trail _ hb hb' =>
    rcases hb.covered with rfl | ⟨b, mem, covered⟩
    · rcases hb'.covered with rfl | ⟨b, mem, covered⟩
      · rfl
      · exact absurd covered (apart' b mem)
    · exact absurd covered (apart b mem)

/-! ## Characters that are not blank -/

/-- If there is no character of a kind that blanks are not of in one text, there is none in the
    other. -/
theorem forall_of_forall {q : Char → Bool} (hq : ∀ c, Text.isBlank c → q c = false)
    (h : Alike C C' cut ms ms') (none : ∀ m ∈ ms, q m.char = false) :
    ∀ m ∈ ms', q m.char = false := by
  induction h with
  | nil => exact none
  | cons char _ ih =>
    obtain ⟨hm, none⟩ := List.forall_mem_cons.1 none
    exact List.forall_mem_cons.2 ⟨char ▸ hm, ih none⟩
  | gap _ hb' _ ih =>
    have none := (List.forall_mem_append.1 none).2
    exact List.forall_mem_append.2 ⟨fun b hb => hq _ (hb'.isBlank b hb), ih none⟩
  | trail _ _ hb' => exact fun b hb => hq _ (hb'.isBlank b hb)

/-- **The first character of a kind that blanks are not of divides both texts.** -/
theorem split {q : Char → Bool} (hq : ∀ c, Text.isBlank c → q c = false)
    (h : Alike C C' cut ms ms') {f rest : List Mark} {m : Mark} (eq : ms = f ++ m :: rest)
    (none : ∀ x ∈ f, q x.char = false) (first : q m.char) :
    ∃ f' m' rest', ms' = f' ++ m' :: rest' ∧ (∀ x ∈ f', q x.char = false) ∧
      m'.char = m.char ∧ Alike C C' false f f' ∧ Alike C C' cut rest rest' := by
  induction h generalizing f with
  | nil => simp at eq
  | @cons a a' as as' char h ih =>
    cases f with
    | nil =>
      obtain ⟨rfl, rfl⟩ := List.cons.inj eq
      exact ⟨[], a', as', rfl, nofun, char, .nil, h⟩
    | cons x f =>
      obtain ⟨rfl, later⟩ := List.cons.inj eq
      obtain ⟨hx, none⟩ := List.forall_mem_cons.1 none
      obtain ⟨f', m', rest', rfl, none', char', front, back⟩ := ih later none
      exact ⟨a' :: f', m', rest', rfl, List.forall_mem_cons.2 ⟨char ▸ hx, none'⟩, char',
        .cons char front, back⟩
  | @gap bs bs' as as' hb hb' h ih =>
    have other : m ∉ bs := fun mem => by
      rw [hq _ (hb.isBlank m mem)] at first
      cases first
    obtain ⟨g, rfl, later⟩ : ∃ g, f = bs ++ g ∧ as = g ++ m :: rest := by
      rcases List.append_eq_append_iff.1 eq with ⟨g, eq, h⟩ | ⟨g, eq, h⟩
      · exact ⟨g, eq, h⟩
      · cases g with
        | nil => exact ⟨[], by simpa using eq.symm, by simpa using h.symm⟩
        | cons x g =>
          obtain ⟨rfl, -⟩ := List.cons.inj h
          exact absurd (by simp [eq]) other
    obtain ⟨f', m', rest', rfl, none', char', front, back⟩ :=
      ih later (List.forall_mem_append.1 none).2
    refine ⟨bs' ++ f', m', rest', by simp, ?_, char', .gap hb hb' front, back⟩
    exact List.forall_mem_append.2 ⟨fun b mem => hq _ (hb'.isBlank b mem), none'⟩
  | trail _ hb _ =>
    rw [hq _ (hb.isBlank m (by simp [eq]))] at first
    cases first

/-- A character that is not blank at the start of one text is at the start of the other. -/
theorem split_head (h : Alike C C' cut ms ms') {m : Mark} {rest : List Mark} (eq : ms = m :: rest)
    (solid : m.isBlank = false) :
    ∃ m' rest', ms' = m' :: rest' ∧ m'.char = m.char ∧ Alike C C' cut rest rest' := by
  cases h with
  | nil => cases eq
  | cons char h =>
    obtain ⟨rfl, rfl⟩ := List.cons.inj eq
    exact ⟨_, _, rfl, char, h⟩
  | @gap bs _ _ _ hb _ _ =>
    cases bs with
    | nil => exact absurd rfl hb.ne_nil
    | cons b bs =>
      obtain ⟨rfl, -⟩ := List.cons.inj eq
      rw [hb.isBlank b (by simp)] at solid
      cases solid
  | trail _ hb _ =>
    rw [hb.isBlank m (by simp [eq])] at solid
    cases solid

/-- A text without blanks at the start of one text is at the start of the other. -/
theorem split_text {front after : List Mark} (h : Alike C C' cut (front ++ after) ms')
    (solid : ∀ m ∈ front, m.isBlank = false) :
    ∃ front' after', ms' = front' ++ after' ∧ text front' = text front ∧
      Alike C C' cut after after' := by
  induction front generalizing ms' with
  | nil => exact ⟨[], ms', rfl, rfl, h⟩
  | cons m front ih =>
    obtain ⟨hm, solid⟩ := List.forall_mem_cons.1 solid
    obtain ⟨m', rest', rfl, char, h⟩ := h.split_head rfl hm
    obtain ⟨front', after', rfl, same, h⟩ := ih h solid
    exact ⟨m' :: front', after', rfl, congrArg₂ List.cons char same, h⟩

end Alike

/-! ## Blanks at the start -/

/-- The characters that are not blank. -/
def isSolid (c : Char) : Bool := !Text.isBlank c

theorem isSolid_of_isBlank (c : Char) (h : Text.isBlank c) : isSolid c = false := by
  simp [isSolid, h]

theorem ne_of_isSolid {c d : Char} (blank : Text.isBlank c) (solid : isSolid d) : c ≠ d := by
  rintro rfl
  rw [isSolid_of_isBlank c blank] at solid
  cases solid

theorem isSolid_char {m : Mark} : isSolid m.char = false ↔ m.isBlank := by
  simp [isSolid, isBlank]

/-- There is a first mark of a kind, or none. -/
theorem exists_first (q : Char → Bool) : ∀ ms : List Mark, (∀ m ∈ ms, q m.char = false) ∨
    ∃ f m rest, ms = f ++ m :: rest ∧ (∀ x ∈ f, q x.char = false) ∧ q m.char
  | [] => .inl nofun
  | m :: ms => by
    cases hm : q m.char with
    | true => exact .inr ⟨[], m, ms, rfl, nofun, hm⟩
    | false =>
      rcases exists_first q ms with none | ⟨f, x, rest, rfl, none, first⟩
      · exact .inl (List.forall_mem_cons.2 ⟨hm, none⟩)
      · exact .inr ⟨m :: f, x, rest, rfl, List.forall_mem_cons.2 ⟨hm, none⟩, first⟩

theorem trimStart_eq_nil (blank : ∀ m ∈ ms, isSolid m.char = false) : trimStart ms = [] := by
  rw [trimStart, ← List.append_nil ms, List.dropWhile_append_of_pos fun m hm => isSolid_char.1 (blank m hm)]
  rfl

theorem trimStart_append {f rest : List Mark} {m : Mark} (blank : ∀ x ∈ f, isSolid x.char = false)
    (solid : isSolid m.char) : trimStart (f ++ m :: rest) = m :: rest := by
  have head : m.isBlank = false := by simpa [isSolid, isBlank] using solid
  rw [trimStart, List.dropWhile_append_of_pos fun x hx => isSolid_char.1 (blank x hx),
    List.dropWhile_cons_of_neg (by simp [head])]

theorem Alike.trimStart (h : Alike C C' cut ms ms') :
    Alike C C' cut (trimStart ms) (Mark.trimStart ms') := by
  rcases exists_first isSolid ms with blank | ⟨f, m, rest, eq, blank, solid⟩
  · rw [trimStart_eq_nil blank, trimStart_eq_nil (h.forall_of_forall isSolid_of_isBlank blank)]
    exact .nil
  · obtain ⟨f', m', rest', rfl, blank', char, -, back⟩ := h.split isSolid_of_isBlank eq blank solid
    rw [eq, trimStart_append blank solid, trimStart_append blank' (char ▸ solid)]
    exact .cons char back

/-! ## Headers -/

/-- A name and a colon stand at the start, perhaps with blanks in between, and `rest` behind them. -/
def Headed (name : Text) (ms rest : List Mark) : Prop :=
  ∃ front bs colon, ms = front ++ (bs ++ colon :: rest) ∧ text front = name ∧
    (∀ b ∈ bs, isSolid b.char = false) ∧ colon.char = ':'

theorem afterColon?_eq_some {rest : List Mark} : afterColon? ms = some rest ↔
    ∃ bs colon, ms = bs ++ colon :: rest ∧ (∀ b ∈ bs, isSolid b.char = false) ∧ colon.char = ':' := by
  have colon_solid {m : Mark} (colon : m.char = ':') : isSolid m.char := by
    rw [colon]
    decide
  constructor
  · intro h
    rcases exists_first isSolid ms with blank | ⟨f, m, tail, rfl, blank, solid⟩
    · rw [afterColon?, trimStart_eq_nil blank] at h
      cases h
    · rw [afterColon?, trimStart_append blank solid] at h
      dsimp only at h
      split at h
      · rename_i colon
        cases h
        exact ⟨f, m, rfl, blank, colon⟩
      · cases h
  · rintro ⟨bs, m, rfl, blank, colon⟩
    rw [afterColon?, trimStart_append blank (colon_solid colon)]
    exact if_pos colon

theorem lenientHeader?_eq_some {rest : List Mark} :
    lenientHeader? ms = some rest ↔ Headed SetName.lenient ms rest := by
  unfold lenientHeader?
  dsimp only
  constructor
  · intro h
    split at h
    · rename_i name
      obtain ⟨bs, colon, eq, blank, char⟩ := afterColon?_eq_some.1 h
      exact ⟨_, bs, colon, by rw [← eq, List.take_append_drop], name, blank, char⟩
    · cases h
  · rintro ⟨front, bs, colon, rfl, name, blank, char⟩
    have length : front.length = SetName.lenient.length := by rw [← name, text, List.length_map]
    rw [List.take_left' length, List.drop_left' length, if_pos name]
    exact afterColon?_eq_some.2 ⟨bs, colon, rfl, blank, char⟩

theorem sign_isPrefix (t : Text) : SetName.sign t <+: t := by
  unfold SetName.sign
  split
  · exact ⟨_, rfl⟩
  · exact ⟨_, rfl⟩
  · exact List.nil_prefix

theorem eq_of_mem_sign {t : Text} {c : Char} (h : c ∈ SetName.sign t) : c = '%' := by
  have percent : ∀ x ∈ SetName.sign t, x = '%' := by
    unfold SetName.sign
    split <;> simp
  exact percent c h

/-- Two characters decide on the sign. -/
theorem sign_cons_cons (a b : Char) (t : Text) : SetName.sign [a, b] = SetName.sign (a :: b :: t) := by
  by_cases ha : a = '%' <;> by_cases hb : b = '%' <;> simp [SetName.sign, ha, hb]

/-- A name is its sign and characters that are allowed in names, at least one. -/
theorem isName_iff {t : Text} : SetName.isName t ↔
    ∃ c rest, t = SetName.sign t ++ c :: rest ∧ SetName.sign t ≠ [] ∧
      ∀ x ∈ c :: rest, SetName.isNameChar x := by
  obtain ⟨rest, hrest⟩ := sign_isPrefix t
  have drop : t.drop (SetName.sign t).length = rest := List.append_cancel_left
    ((List.prefix_iff_eq_append.1 (sign_isPrefix t)).trans hrest.symm)
  simp only [SetName.isName, drop, Bool.and_eq_true, decide_eq_true_eq, List.all_eq_true]
  constructor
  · rintro ⟨⟨sign, ne⟩, all⟩
    obtain ⟨c, rest, rfl⟩ := List.exists_cons_of_ne_nil ne
    exact ⟨c, rest, hrest.symm, sign, all⟩
  · rintro ⟨c, rest', eq, sign, all⟩
    obtain rfl : rest = c :: rest' := List.append_cancel_left (hrest.trans eq)
    exact ⟨⟨sign, by simp⟩, all⟩

theorem isSolid_of_isName {name : Text} (h : SetName.isName name) : ∀ c ∈ name, isSolid c := by
  obtain ⟨c, rest, eq, -, all⟩ := isName_iff.1 h
  rw [eq]
  intro x hx
  rcases List.mem_append.1 hx with hx | hx
  · rw [eq_of_mem_sign hx]
    decide
  · have := all x hx
    simp only [SetName.isNameChar, Bool.not_eq_true', Bool.or_eq_false_iff] at this
    simp [isSolid, this.1]

/-- The name in front of a colon is made of the first characters of the text. -/
theorem headed_of_header? {name : Text} {rest : List Mark} (h : header? ms = some (name, rest)) :
    SetName.isName name ∧ Headed name ms rest := by
  unfold header? at h
  dsimp only at h
  split at h
  · rename_i isName
    obtain ⟨rest', hr, eq⟩ := Option.map_eq_some_iff.1 h
    obtain ⟨rfl, rfl⟩ := Prod.mk.inj eq
    obtain ⟨bs, colon, eq, blank, char⟩ := afterColon?_eq_some.1 hr
    refine ⟨isName, _, bs, colon, by rw [← eq, List.take_append_drop], ?_, blank, char⟩
    generalize hs : SetName.sign (text (ms.take 2)) = sign
    have front : sign <+: text ms := by
      rw [← hs]
      refine (sign_isPrefix _).trans ?_
      rw [text, List.map_take]
      exact List.take_prefix ..
    have letters : text ((ms.drop sign.length).takeWhile fun m => SetName.isNameChar m.char) <+:
        (text ms).drop sign.length := by
      rw [text, text, ← List.map_drop]
      exact (List.takeWhile_prefix _).map _
    have name := (List.prefix_append_right_inj sign).2 letters
    rw [List.prefix_iff_eq_append.1 front] at name
    rw [text, List.map_take]
    exact (List.prefix_iff_eq_take.1 name).symm
  · cases h

/-- The sign of a name can be told from the first two characters of a text that starts with it. -/
theorem sign_take_two {front : List Mark} (isName : SetName.isName (text front)) (rest : List Mark) :
    SetName.sign (text ((front ++ rest).take 2)) = SetName.sign (text front) := by
  obtain ⟨c, more, eq, signed, -⟩ := isName_iff.1 isName
  obtain ⟨a, sign, hs⟩ := List.exists_cons_of_ne_nil signed
  obtain ⟨b, t, hb⟩ : ∃ b t, sign ++ c :: more = b :: t := by
    cases sign with
    | nil => exact ⟨c, more, rfl⟩
    | cons b sign => exact ⟨b, sign ++ c :: more, rfl⟩
  have start : text front = a :: b :: t := by rw [eq, hs, List.cons_append, hb]
  rw [text, List.map_take, List.map_append, ← text, start]
  exact sign_cons_cons a b t

/-- Neither blanks nor a colon belong to a name. -/
theorem takeWhile_isNameChar {bs rest : List Mark} {colon : Mark}
    (blank : ∀ b ∈ bs, isSolid b.char = false) (char : colon.char = ':') :
    (bs ++ colon :: rest).takeWhile (fun m => SetName.isNameChar m.char) = [] := by
  cases bs with
  | nil => exact List.takeWhile_cons_of_neg (by rw [char]; decide)
  | cons b bs =>
    have blank : Text.isBlank b.char := isSolid_char.1 (blank b (by simp))
    exact List.takeWhile_cons_of_neg (by simp [SetName.isNameChar, blank])

theorem header?_of_headed {name : Text} {rest : List Mark} (isName : SetName.isName name)
    (headed : Headed name ms rest) : header? ms = some (name, rest) := by
  obtain ⟨front, bs, colon, rfl, rfl, blank, char⟩ := headed
  obtain ⟨c, more, eq, -, all⟩ := isName_iff.1 isName
  have sign := sign_take_two isName (bs ++ colon :: rest)
  generalize SetName.sign (text front) = start at eq sign
  have drop : text (front.drop start.length) = c :: more := by
    rw [text, List.map_drop, ← text, eq, List.drop_left]
  have letters : ((front ++ (bs ++ colon :: rest)).drop start.length).takeWhile
      (fun m => SetName.isNameChar m.char) = front.drop start.length := by
    have le : start.length ≤ front.length := by
      rw [← List.length_map (f := Mark.char), ← text, eq, List.length_append]
      omega
    rw [List.drop_append_of_le_length le, List.takeWhile_append_of_pos,
      takeWhile_isNameChar blank char, List.append_nil]
    intro m hm
    exact all _ (drop ▸ List.mem_map_of_mem hm)
  have length : (text front).length = front.length := List.length_map ..
  unfold header?
  simp only [sign, letters, drop, ← eq, isName, if_true, length, List.drop_left]
  rw [afterColon?_eq_some.2 ⟨bs, colon, rfl, blank, char⟩]
  rfl

theorem header?_eq_some {name : Text} {rest : List Mark} :
    header? ms = some (name, rest) ↔ SetName.isName name ∧ Headed name ms rest :=
  ⟨headed_of_header?, fun ⟨isName, headed⟩ => header?_of_headed isName headed⟩

/-- A header at the start of one text is at the start of the other. -/
theorem Alike.headed (h : Alike C C' cut ms ms') {name : Text} {rest : List Mark}
    (solid : ∀ c ∈ name, isSolid c) (header : Headed name ms rest) :
    ∃ f f' rest', ms = f ++ rest ∧ ms' = f' ++ rest' ∧ Headed name ms' rest' ∧
      Alike C C' false f f' ∧ Alike C C' cut rest rest' := by
  obtain ⟨front, bs, colon, rfl, rfl, blank, char⟩ := header
  obtain ⟨front', after', rfl, same, h⟩ := h.split_text fun m hm => by
    have := solid m.char (List.mem_map_of_mem hm)
    simpa [isSolid, isBlank] using this
  obtain ⟨bs', colon', rest', rfl, blank', char', gap, h⟩ :=
    h.split isSolid_of_isBlank rfl blank (by rw [char]; decide)
  refine ⟨front ++ (bs ++ [colon]), front' ++ (bs' ++ [colon']), rest', by simp, by simp,
    ⟨front', bs', colon', rfl, same, blank', char'.trans char⟩, ?_, h⟩
  exact (of_text same).append (gap.append (.cons char' .nil))

/-- A header starts with a character that is not blank. -/
theorem Headed.isSolid {name : Text} {m : Mark} {rest : List Mark} (header : Headed name (m :: ms) rest)
    (ne : name ≠ []) (solid : ∀ c ∈ name, isSolid c) : Mark.isSolid m.char := by
  obtain ⟨front, bs, colon, eq, rfl, -⟩ := header
  cases front with
  | nil => exact absurd rfl ne
  | cons x front =>
    obtain ⟨rfl, -⟩ := List.cons.inj eq
    exact solid _ (by simp [text])

/-- A way to tell whether there is a header at the start, which texts that are alike agree on. -/
structure FindsHeaders (header : List Mark → Bool) : Prop where
  isSolid : ∀ {m ms}, header (m :: ms) → isSolid m.char
  alike : ∀ {C C' : Nat → Prop} {cut ms ms'}, Alike C C' cut ms ms' → header ms → header ms'

theorem isSolid_lenient : ∀ c ∈ SetName.lenient, isSolid c := List.all_eq_true.1 (by decide)

theorem findsHeaders_lenient : FindsHeaders fun ms => (lenientHeader? ms).isSome where
  isSolid h := by
    obtain ⟨rest, h⟩ := Option.isSome_iff_exists.1 h
    exact (lenientHeader?_eq_some.1 h).isSolid (by decide) isSolid_lenient
  alike alike h := by
    obtain ⟨rest, h⟩ := Option.isSome_iff_exists.1 h
    obtain ⟨-, -, rest', -, -, h, -⟩ := alike.headed isSolid_lenient (lenientHeader?_eq_some.1 h)
    exact Option.isSome_iff_exists.2 ⟨rest', lenientHeader?_eq_some.2 h⟩

theorem findsHeaders_header : FindsHeaders fun ms => (header? ms).isSome where
  isSolid h := by
    obtain ⟨⟨name, rest⟩, h⟩ := Option.isSome_iff_exists.1 h
    obtain ⟨isName, h⟩ := header?_eq_some.1 h
    refine h.isSolid ?_ (isSolid_of_isName isName)
    rintro rfl
    cases isName
  alike alike h := by
    obtain ⟨⟨name, rest⟩, h⟩ := Option.isSome_iff_exists.1 h
    obtain ⟨isName, h⟩ := header?_eq_some.1 h
    obtain ⟨-, -, rest', -, -, h, -⟩ := alike.headed (isSolid_of_isName isName) h
    exact Option.isSome_iff_exists.2 ⟨(name, rest'), header?_eq_some.2 ⟨isName, h⟩⟩

/-! ## The lenient section -/

section

variable {header : List Mark → Bool}

/-- Behind a blank a header may start, whatever stands before it. -/
theorem splitAtHeader_gap (finds : FindsHeaders header) (ms : List Mark) :
    ∀ {bs : List Mark} (fresh : Bool), bs ≠ [] → (∀ b ∈ bs, b.isBlank) →
      splitAtHeader header fresh (bs ++ ms) =
        (bs ++ (splitAtHeader header true ms).1, (splitAtHeader header true ms).2)
  | [], _, ne, _ => absurd rfl ne
  | b :: bs, fresh, _, blank => by
    obtain ⟨hb, blank⟩ := List.forall_mem_cons.1 blank
    have no : header (b :: (bs ++ ms)) = false := Bool.eq_false_iff.2 fun yes => by
      have solid := finds.isSolid yes
      rw [isSolid_char.2 hb] at solid
      cases solid
    have next : b.mayPrecedeHeader = true := by simp [mayPrecedeHeader, hb]
    rw [List.cons_append, splitAtHeader, no, Bool.and_false, next]
    cases bs with
    | nil => rfl
    | cons x bs => rw [splitAtHeader_gap finds ms true (by simp) blank]; rfl

theorem FindsHeaders.eq (finds : FindsHeaders header) (h : Alike C C' cut ms ms') :
    header ms' = header ms :=
  Bool.eq_iff_iff.2 ⟨finds.alike h.symm, finds.alike h⟩

/-- **A header is found at the same place.** -/
theorem Alike.splitAtHeader (finds : FindsHeaders header) (h : Alike C C' false ms ms')
    (fresh : Bool) :
    Alike C C' false (splitAtHeader header fresh ms).1 (Mark.splitAtHeader header fresh ms').1 ∧
      Alike C C' false (Mark.splitAtHeader header fresh ms).2
        (Mark.splitAtHeader header fresh ms').2 := by
  induction h generalizing fresh with
  | nil => exact ⟨.nil, .nil⟩
  | @cons m m' ms ms' char h ih =>
    have same : header (m' :: ms') = header (m :: ms) := finds.eq (.cons char h)
    have next : m'.mayPrecedeHeader = m.mayPrecedeHeader := by
      simp only [mayPrecedeHeader, isBlank, char]
    unfold Mark.splitAtHeader
    rw [same, next]
    split
    · exact ⟨.nil, .cons char h⟩
    · exact ⟨.cons char (ih _).1, (ih _).2⟩
  | @gap bs bs' ms ms' hb hb' h ih =>
    rw [splitAtHeader_gap finds ms fresh hb.ne_nil hb.isBlank,
      splitAtHeader_gap finds ms' fresh hb'.ne_nil hb'.isBlank]
    exact ⟨.gap hb hb' (ih true).1, (ih true).2⟩
  | trail hcut => cases hcut

end

theorem blanks_ne_nil (m : Mark) : m.blanks ≠ [] := by
  unfold blanks
  split
  · simp
  · have := m.char.utf8Size_pos
    simp
    omega

/-- What takes the place of a character is at its offset. -/
theorem offset_of_blanks {m b : Mark} (h : b ∈ m.blanks) : b.offset = m.offset := by
  unfold blanks at h
  split at h
  · rw [List.mem_singleton.1 h]
  · rw [(List.mem_replicate.1 h).2]

theorem isBlank_of_blanks {m b : Mark} (h : b ∈ m.blanks) : b.isBlank := by
  have space : Text.isBlank ' ' = true := by decide
  have breaks : Text.isBlank '\n' = true ∧ Text.isBlank '\r' = true := by decide
  unfold blanks at h
  split at h
  · rename_i lineBreak
    rw [List.mem_singleton.1 h]
    simp only [isLineBreak, Bool.or_eq_true, beq_iff_eq] at lineBreak
    rcases lineBreak with char | char <;> simp only [isBlank, char, breaks]
  · rw [(List.mem_replicate.1 h).2]
    exact space

/-- Overwriting covered marks leaves a gap. -/
theorem gap_blanks {ms : List Mark} (ne : ms ≠ []) (covered : ∀ m ∈ ms, C m.offset) :
    Gap C (ms.flatMap blanks) where
  ne_nil := by
    obtain ⟨m, ms, rfl⟩ := List.exists_cons_of_ne_nil ne
    simp [blanks_ne_nil]
  isBlank b hb := by
    obtain ⟨m, -, hb⟩ := List.mem_flatMap.1 hb
    exact isBlank_of_blanks hb
  covered b hb := by
    obtain ⟨m, hm, hb⟩ := List.mem_flatMap.1 hb
    rw [offset_of_blanks hb]
    exact covered m hm

theorem Alike.flatMap_blanks (h : Alike C C' false ms ms') :
    Alike C C' false (ms.flatMap blanks) (ms'.flatMap blanks) := by
  induction h with
  | nil => exact .nil
  | @cons m m' ms ms' char h ih =>
    have same : text m'.blanks = text m.blanks := by
      unfold blanks isLineBreak
      rw [char]
      split <;> simp [text, char]
    rw [List.flatMap_cons, List.flatMap_cons]
    exact (of_text same).append ih
  | gap hb hb' _ ih =>
    rw [List.flatMap_append, List.flatMap_append]
    exact .gap (gap_blanks hb.ne_nil hb.covered) (gap_blanks hb'.ne_nil hb'.covered) ih
  | trail hcut => cases hcut

/-- **The lenient section is found at the same place,** and what is left is alike, as are the
    sections. -/
theorem Alike.liftLenientSection (h : Alike C C' false ms ms') :
    Alike C C' false (liftLenientSection ms).1 (Mark.liftLenientSection ms').1 ∧
      Option.Rel (Alike C C' false) (Mark.liftLenientSection ms).2 (Mark.liftLenientSection ms').2 := by
  obtain ⟨before, found⟩ := h.splitAtHeader findsHeaders_lenient true
  unfold Mark.liftLenientSection
  dsimp only
  generalize (Mark.splitAtHeader (fun ms => (lenientHeader? ms).isSome) true ms) = parts at *
  generalize (Mark.splitAtHeader (fun ms => (lenientHeader? ms).isSome) true ms') = parts' at *
  cases hb : lenientHeader? parts.2 with
  | none =>
    have none : lenientHeader? parts'.2 = none := by
      have := findsHeaders_lenient.eq found
      simpa [hb] using this
    simp only [none]
    exact ⟨h, .none⟩
  | some body =>
    obtain ⟨f, f', body', eq, eq', header, front, back⟩ :=
      found.headed isSolid_lenient (lenientHeader?_eq_some.1 hb)
    rw [lenientHeader?_eq_some.2 header]
    dsimp only
    obtain ⟨inner, after⟩ := back.splitAtHeader findsHeaders_header true
    have whole := splitAtHeader_append (fun ms => (header? ms).isSome) true body
    have whole' := splitAtHeader_append (fun ms => (header? ms).isSome) true body'
    generalize (Mark.splitAtHeader (fun ms => (header? ms).isSome) true body) = sides at *
    generalize (Mark.splitAtHeader (fun ms => (header? ms).isSome) true body') = sides' at *
    have covered : parts.2.take (parts.2.length - sides.2.length) = f ++ sides.1 := by
      rw [eq, ← whole, ← List.append_assoc, List.length_append, Nat.add_sub_cancel, List.take_left]
    have covered' : parts'.2.take (parts'.2.length - sides'.2.length) = f' ++ sides'.1 := by
      rw [eq', ← whole', ← List.append_assoc, List.length_append, Nat.add_sub_cancel, List.take_left]
    rw [covered, covered']
    exact ⟨(before.append (front.append inner).flatMap_blanks).append after, .some inner⟩

end Spellout.Mark
