/-
  The shape of a compiled description.

  A rule set is read from one header with its bodies, and the sets of a book stand in the order of
  their headers.  While a set is read, the classes of its rules are noted; a class has been noted if
  and only if the set holds rules of it.

  * `RuleSet.WellFormed`: rules ascend, keys are within their bounds, and templates are tidy;
  * `DeclaredSet.Faithful`: the classes noted so far are those of the rules so far;
  * `RuleBook.WellFormed`: names, order, rules, classes and templates of a book are as they should be;
  * `RuleBook.wellFormed_of_ofDescription`: so they are in every compiled description.
-/
import Spellout.Description.Classes
import Spellout.Proofs.Description.Tidy
import Spellout.Proofs.RuleBook.Names
import Spellout.Proofs.RuleBook.Rules

namespace Spellout

/-! ## Rule sets -/

namespace RuleSet

/-- The set holds rules of the class. -/
def Fills (s : RuleSet) : RuleClass → Prop
  | .special form => (s.special form).isSome
  | .normal => s.rules ≠ []

/-- Base values ascend, keys are within their bounds, and templates are tidy. -/
structure WellFormed (s : RuleSet) : Prop where
  ascending : s.rules.Pairwise fun r r' => r.base < r'.base
  base_le : ∀ rule ∈ s.rules, rule.base ≤ Key.maxBase
  two_le_radix : ∀ rule ∈ s.rules, 2 ≤ rule.radix
  special : ∀ form, (s.special form).isSome → (Key.special form).base = 0 ∧
    (Key.special form).radix = 10 ∧ (Key.special form).divisor = 1
  tidy : ∀ t ∈ s.templates, t.Tidy

variable {s s' : RuleSet}

theorem special_withSpecial (s : RuleSet) (form form' : SpecialForm) (t : Template) :
    (s.withSpecial form t).special form' = if form' = form then some t else s.special form' := by
  cases form <;> cases form' <;> rfl

theorem ladder_withSpecial (s : RuleSet) (form : SpecialForm) (t : Template) :
    (s.withSpecial form t).ladder = s.ladder := by
  cases form <;> rfl

theorem mem_templates {t : Template} : t ∈ s.templates ↔
    (∃ form, s.special form = some t) ∨ ∃ rule ∈ s.ladder, rule.template = t := by
  constructor
  · intro h
    rcases List.mem_append.1 h with h | h
    · have slots : s.negative = some t ∨ s.improper = some t ∨ s.proper = some t ∨ s.whole = some t := by
        simpa [specialTemplates, eq_comm] using h
      rcases slots with h | h | h | h
      · exact .inl ⟨.negative, h⟩
      · exact .inl ⟨.improper, h⟩
      · exact .inl ⟨.proper, h⟩
      · exact .inl ⟨.whole, h⟩
    · exact .inr (List.mem_map.1 h)
  · rintro (⟨form, h⟩ | ⟨rule, mem, rfl⟩)
    · exact mem_templates_of_special h
    · exact mem_templates_of_mem mem

/-! ### Templates -/

variable {P : Template → Prop}

theorem templates_withSpecial (hs : ∀ t ∈ s.templates, P t) (form : SpecialForm) {t : Template}
    (ht : P t) : ∀ t' ∈ (s.withSpecial form t).templates, P t' := by
  intro t' mem
  rcases mem_templates.1 mem with ⟨form', h⟩ | ⟨rule, hr, rfl⟩
  · rw [special_withSpecial] at h
    split at h
    · cases h
      exact ht
    · exact hs t' (mem_templates_of_special h)
  · rw [ladder_withSpecial] at hr
    exact hs _ (mem_templates_of_mem hr)

theorem templates_cons (hs : ∀ t ∈ s.templates, P t) {rule : Rule} (ht : P rule.template) :
    ∀ t ∈ ({ s with ladder := rule :: s.ladder } : RuleSet).templates, P t := by
  intro t mem
  rcases mem_templates.1 mem with ⟨form, h⟩ | ⟨rule', hr, rfl⟩
  · have old : s.special form = some t := by
      cases form <;> exact h
    exact hs t (mem_templates_of_special old)
  · rcases List.mem_cons.1 hr with rfl | hr
    · exact ht
    · exact hs _ (mem_templates_of_mem hr)

theorem templates_adds {body : RuleBody} (hs : ∀ t ∈ s.templates, P t) (ht : P body.template)
    (added : s.Adds body s') : ∀ t ∈ s'.templates, P t := by
  cases added with
  | special => exact templates_withSpecial hs _ ht
  | keyed | keyless => exact templates_cons hs ht

/-- What holds of every template that is read holds of the templates of a set. -/
theorem templates_ofSource (read : ∀ ms t, Template.ofMarks ms = .ok t → P t) {source : SetSource}
    (h : ofSource source = .ok s) : ∀ t ∈ s.templates, P t := by
  refine ofSource_preserves (P := fun s => ∀ t ∈ s.templates, P t)
    (by simp [templates, specialTemplates]) (fun hb added hs => ?_) h
  obtain ⟨-, -, ht⟩ | ⟨_, _, _, -, -, -, ht⟩ := RuleBody.parts_of_ofBody hb
  · exact templates_adds hs (read _ _ ht) added
  · exact templates_adds hs (read _ _ ht) added

/-! ### Classes -/

theorem fills_withSpecial (s : RuleSet) (form : SpecialForm) (t : Template) (c : RuleClass) :
    (s.withSpecial form t).Fills c ↔ c = .special form ∨ s.Fills c := by
  cases c with
  | special form' =>
    simp only [Fills, special_withSpecial, RuleClass.special.injEq]
    split
    · simp [*]
    · simp [*]
  | normal => simp [Fills, rules, ladder_withSpecial]

theorem fills_cons (s : RuleSet) (rule : Rule) (c : RuleClass) :
    ({ s with ladder := rule :: s.ladder } : RuleSet).Fills c ↔ c = .normal ∨ s.Fills c := by
  cases c with
  | special form => cases form <;> simp [Fills, special]
  | normal => simp [Fills, rules]

/-- One more rule adds its class. -/
theorem Adds.fills {body : RuleBody} (h : s.Adds body s') (c : RuleClass) :
    s'.Fills c ↔ c = body.ruleClass ∨ s.Fills c := by
  cases h with
  | special key =>
    rw [RuleBody.ruleClass, key]
    exact fills_withSpecial ..
  | keyed key | keyless key =>
    rw [RuleBody.ruleClass, key]
    exact fills_cons ..

theorem wellFormed_ofSource {source : SetSource} (h : ofSource source = .ok s) : s.WellFormed where
  ascending := List.pairwise_reverse.2 (ordered_ofSource h).descending
  base_le rule mem := (ordered_ofSource h).base_le rule (List.mem_reverse.1 mem)
  two_le_radix rule mem := (ordered_ofSource h).two_le_radix rule (List.mem_reverse.1 mem)
  special _ _ := ⟨rfl, rfl, rfl⟩
  tidy := templates_ofSource (fun _ _ => Template.tidy_ofMarks) h

end RuleSet

/-! ## Classes -/

namespace DeclaredSet

/-- The classes that have been noted are those of which there are rules. -/
def Faithful (d : DeclaredSet) : Prop := ∀ c, c ∈ d.classes ↔ d.set.Fills c

variable {d d' : DeclaredSet}

theorem map_add (h : d.Faithful) (body : RuleBody) :
    (d.add body).map DeclaredSet.set = d.set.add body := by
  have keyed (s : Except CompileFault RuleSet) :
      (do return ⟨← s, body.ruleClass :: d.classes⟩ : Except _ DeclaredSet).map DeclaredSet.set = s := by
    cases s <;> rfl
  unfold add
  split
  · rename_i form key
    have filled : body.ruleClass ∈ d.classes ↔ (d.set.special form).isSome := by
      rw [RuleBody.ruleClass, key]
      exact h (.special form)
    simp only [RuleSet.add, RuleSet.addSpecial, key, filled]
    split <;> rfl
  all_goals exact keyed _

theorem classes_add {body : RuleBody} (hd : d.add body = .ok d') :
    d'.classes = body.ruleClass :: d.classes := by
  unfold add at hd
  split at hd
  · split at hd
    · cases hd
    · cases hd
      rfl
  all_goals
    obtain ⟨s, -, hd⟩ := bind_eq_ok.1 hd
    cases hd
    rfl

theorem faithful_add (h : d.Faithful) {body : RuleBody} (hd : d.add body = .ok d') :
    d'.Faithful := by
  intro c
  have hs := map_add h body
  rw [hd] at hs
  rw [classes_add hd, List.mem_cons, (RuleSet.add_eq_ok.1 hs.symm).fills, h c]

theorem faithful_addBody (h : d.Faithful) {b : Body} (hd : d.addBody b = .ok d') : d'.Faithful := by
  obtain ⟨body, -, hd⟩ := bind_eq_ok.1 hd
  exact faithful_add h (mapError_eq_ok hd)

theorem map_addBody (h : d.Faithful) (b : Body) :
    (d.addBody b).map DeclaredSet.set = d.set.addBody b := by
  unfold addBody RuleSet.addBody
  cases RuleBody.ofBody b with
  | error e => rfl
  | ok body =>
    have add := map_add h body
    simp only [bind, Except.bind]
    rw [← add]
    cases d.add body <;> rfl

theorem faithful_start (name : Text) : Faithful { set := { name } } := by
  intro c
  cases c with
  | special form => cases form <;> simp [RuleSet.Fills, RuleSet.special]
  | normal => simp [RuleSet.Fills, RuleSet.rules]

/-- **A set that is read with its classes is the set that is read without them,** and a class has been
    noted if and only if the set holds rules of it. -/
theorem exists_ofSource {source : SetSource} {s : RuleSet} (h : RuleSet.ofSource source = .ok s) :
    ∃ d, ofSource source = .ok d ∧ d.set = s ∧ d.Faithful := by
  have h := mapError_eq_ok h
  have fold := map_foldlM (l := source.bodies) (p := Faithful) (fun _ b hc => map_addBody hc b)
    (fun _ _ _ hc => faithful_addBody hc) (faithful_start source.name)
  rw [h] at fold
  cases hd : source.bodies.foldlM addBody { set := { name := source.name } } with
  | error e =>
    rw [hd] at fold
    cases fold
  | ok d =>
    rw [hd] at fold
    refine ⟨d, by rw [ofSource, hd]; rfl, Except.ok.inj fold, ?_⟩
    exact foldlM_preserves (p := Faithful) (fun _ _ _ hc => faithful_addBody hc)
      (faithful_start source.name) hd

end DeclaredSet

/-! ## Rule books -/

namespace RuleBook

theorem isPublic_iff {name : Text} : SetName.isPublic name ↔ ¬ ['%', '%'] <+: name := by
  unfold SetName.isPublic SetName.sign
  split
  · simp
  · rename_i rest other
    have once : ¬ ['%'] <+: rest := fun ⟨tail, eq⟩ => other tail (by rw [← eq]; rfl)
    simp [List.cons_prefix_cons, once]
  · rename_i other
    have never : ¬ ['%', '%'] <+: name := fun ⟨tail, eq⟩ => other ('%' :: tail) eq.symm
    simp [never]

theorem name_of_find? {book : RuleBook} {name : Text} {s : RuleSet}
    (h : book.find? name = some s) : s.name = name := by
  unfold find? at h
  simpa using List.find?_some h

/-- The name of a set leads to the set. -/
theorem Distinct.find?_eq_some {book : RuleBook} (h : book.Distinct) {name : Text} {s : RuleSet} :
    book.find? name = some s ↔ s ∈ book.sets ∧ s.name = name := by
  constructor
  · exact fun hs => ⟨mem_of_find? hs, name_of_find? hs⟩
  · rintro ⟨mem, rfl⟩
    cases hs' : book.find? s.name with
    | none =>
      have other := List.find?_eq_none.1 hs' s mem
      simp at other
    | some s' => rw [h.eq (mem_of_find? hs') mem (name_of_find? hs')]

/-- The default set is the first one whose name does not start with two percent signs. -/
theorem default?_eq_some {book : RuleBook} {s : RuleSet} : book.default? = some s ↔
    ∃ before after, book.sets = before ++ s :: after ∧ ¬ ['%', '%'] <+: s.name ∧
      ∀ s' ∈ before, ['%', '%'] <+: s'.name := by
  have isPrivate (s' : RuleSet) : (!s'.isPublic) = true ↔ ['%', '%'] <+: s'.name := by
    rw [Bool.not_eq_true', ← Bool.not_eq_true, RuleSet.isPublic, isPublic_iff, not_not]
  simp only [default?, List.find?_eq_some_iff_append, isPrivate]
  constructor
  · rintro ⟨hs, before, after, eq, rest⟩
    exact ⟨before, after, eq, isPublic_iff.1 hs, rest⟩
  · rintro ⟨before, after, eq, hs, rest⟩
    exact ⟨isPublic_iff.2 hs, before, after, eq, rest⟩

/-- The book is as it should be when it is compiled from these sources. -/
structure WellFormed (book : RuleBook) (sources : List SetSource) : Prop where
  /-- Sets have the names of their headers, in the same order. -/
  names : book.sets.map RuleSet.name = sources.map SetSource.name
  distinct : book.Distinct
  find? : ∀ name s, book.find? name = some s ↔ s ∈ book.sets ∧ s.name = name
  default? : ∀ s, book.default? = some s ↔ ∃ before after, book.sets = before ++ s :: after ∧
    ¬ ['%', '%'] <+: s.name ∧ ∀ s' ∈ before, ['%', '%'] <+: s'.name
  sets : ∀ s ∈ book.sets, s.WellFormed
  /-- A class is declared if and only if the set holds rules of it. -/
  classes : List.Forall₂ (fun source s => ∃ d, DeclaredSet.ofSource source = .ok d ∧ d.set = s ∧
    ∀ c, c ∈ d.classes ↔ s.Fills c) sources book.sets

/-- **Every compiled description is well formed.** -/
theorem wellFormed_of_ofDescription {description : Text} {book : RuleBook}
    (h : ofDescription description = .ok book) : book.WellFormed (sources description).1 := by
  have distinct := distinct_of_ofDescription h
  have read := forall₂_of_ofDescription h
  refine ⟨?_, distinct, fun _ _ => distinct.find?_eq_some, fun _ => default?_eq_some, ?_, ?_⟩
  · generalize (sources description).1 = headers, book.sets = sets at read
    induction read with
    | nil => rfl
    | cons hs _ ih => rw [List.map_cons, List.map_cons, RuleSet.name_ofSource hs, ih]
  · generalize (sources description).1 = headers, book.sets = sets at read
    induction read with
    | nil => simp
    | cons hs _ ih => exact List.forall_mem_cons.2 ⟨RuleSet.wellFormed_ofSource hs, ih⟩
  · refine read.imp fun source s hs => ?_
    obtain ⟨d, hd, rfl, faithful⟩ := DeclaredSet.exists_ofSource hs
    exact ⟨d, hd, rfl, faithful⟩

/-- The rule book of `%%help: a; %main: -x: minus >>; =%%help=; 20: <<ty[->>];`. -/
def helped : RuleBook where
  sets :=
    [{ name := "%%help".toList, ladder := [⟨0, 10, 0, true, [.piece (.literal ['a'])]⟩] },
     { name := "%main".toList
       negative := some
         [.piece (.literal "minus ".toList), .piece (.substitution (.remainder .owner))]
       ladder :=
         [⟨20, 10, 0, false,
           [.piece (.substitution (.quotient .owner)), .piece (.literal "ty".toList),
             .optional [.literal ['-'], .substitution (.remainder .owner)]]⟩,
          ⟨0, 10, 0, true, [.piece (.substitution (.same (.ruleSet "%%help".toList)))]⟩] }]
  equivalences := .none

/-- A private set that is declared first is not the default. -/
theorem wellFormed_helped :
    let description := "%%help: a; %main: -x: minus >>; =%%help=; 20: <<ty[->>];".toList
    ofDescription description = .ok helped ∧ helped.WellFormed (sources description).1 ∧
      helped.default?.map RuleSet.name = some "%main".toList := by
  intro description
  have compiled : ofDescription description = .ok helped := by decide +kernel
  exact ⟨compiled, wellFormed_of_ofDescription compiled, by decide +kernel⟩

end RuleBook
end Spellout
