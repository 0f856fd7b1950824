/-
  What the rules and sets of a description add.

  A description is compiled body by body and header by header.  A step that succeeds adds one rule to a
  set, or one set to a book.  So what is said of compiled sets and books is shown of one such step.

  * `RuleBody.parts_of_ofBody`: a body is a template, or a key with a template behind it;
  * `RuleSet.Adds`: the ways in which a rule is added to a set, one constructor for each;
  * `RuleSet.add_eq_ok`: a rule is added in one of these ways, or not at all;
  * `RuleSet.ofSource_preserves`: what every rule that is added preserves holds of the whole set;
  * `RuleBook.addSource_eq_ok`: a set is added if no other one has its name;
  * `RuleBook.forall₂_of_ofDescription`: every set of a book is read from a header of its own.
-/
import Spellout.Description
import Spellout.Proofs.Success

namespace Spellout

/-! ## Rules -/

/-- A body that is read has no key or a well-formed one, and a template behind it. -/
theorem RuleBody.parts_of_ofBody {b : Body} {body : RuleBody} (h : ofBody b = .ok body) :
    (splitKey? b.marks = none ∧ body.key = none ∧
      Template.ofMarks (dropApostrophe b.marks) = .ok body.template) ∨
    ∃ key rest k, splitKey? b.marks = some (key, rest) ∧ body.key = some k ∧
      Key.ofText? (Text.trimBy Text.isBlank (Mark.text key)) = some k ∧
      Template.ofMarks (dropApostrophe rest) = .ok body.template := by
  unfold ofBody at h
  split at h
  · rename_i none
    obtain ⟨t, ht, h⟩ := bind_eq_ok.1 h
    cases h
    exact .inl ⟨none, rfl, ht⟩
  · rename_i key rest some
    dsimp only at h
    split at h
    · cases h
    · rename_i k hk
      obtain ⟨t, ht, h⟩ := bind_eq_ok.1 h
      cases h
      exact .inr ⟨key, rest, k, some, rfl, hk, ht⟩

namespace RuleSet

variable {s s' : RuleSet} {body : RuleBody}

/-- The ways in which the rule of a body is added to a set. -/
inductive Adds (s : RuleSet) (body : RuleBody) : RuleSet → Prop where
  /-- A special rule takes the place of its form, which is free. -/
  | special {form : SpecialForm} (key : body.key = some (.special form))
      (free : s.special form = none) : Adds s body (s.withSpecial form body.template)
  /-- A rule with a key is put on top of the ladder, below its base value. -/
  | keyed {base radix marks : Nat} (key : body.key = some (.numeric base radix marks))
      (above : ∀ last ∈ s.ladder.head?, last.base < base) :
      Adds s body { s with ladder := ⟨base, radix, marks, false, body.template⟩ :: s.ladder }
  /-- A rule without a key goes on with the count. -/
  | keyless (key : body.key = none) (above : ∀ last ∈ s.ladder.head?, last.base < s.nextBase) :
      Adds s body { s with ladder := ⟨s.nextBase, 10, 0, true, body.template⟩ :: s.ladder }

theorem addSpecial_eq_ok {form : SpecialForm} {t : Template} :
    s.addSpecial form t = .ok s' ↔ s.special form = none ∧ s' = s.withSpecial form t := by
  unfold addSpecial
  split
  · rename_i taken
    simp [Option.isSome_iff_ne_none.1 taken]
  · rename_i free
    simp [Option.not_isSome_iff_eq_none.1 free, eq_comm]

theorem addRule_eq_ok {r : Rule} : s.addRule r = .ok s' ↔
    (∀ last ∈ s.ladder.head?, last.base < r.base) ∧ s' = { s with ladder := r :: s.ladder } := by
  unfold addRule
  split
  · rename_i empty
    simp [empty, eq_comm]
  · rename_i last below ladder
    simp only [ladder, List.head?_cons, Option.mem_some_iff, forall_eq']
    split
    · simp [*]
    · split
      · rename_i lt
        simp [Nat.lt_asymm lt]
      · have above : last.base < r.base := by omega
        simp [above, eq_comm]

/-- **A rule is added in one of these ways,** or not at all. -/
theorem add_eq_ok : s.add body = .ok s' ↔ s.Adds body s' := by
  unfold add
  constructor
  · intro h
    split at h
    · obtain ⟨free, rfl⟩ := addSpecial_eq_ok.1 h
      exact .special ‹_› free
    · obtain ⟨above, rfl⟩ := addRule_eq_ok.1 h
      exact .keyed ‹_› above
    · obtain ⟨above, rfl⟩ := addRule_eq_ok.1 h
      exact .keyless ‹_› above
  · intro h
    cases h with
    | special key free =>
      rw [key]
      exact addSpecial_eq_ok.2 ⟨free, rfl⟩
    | keyed key above =>
      rw [key]
      exact addRule_eq_ok.2 ⟨above, rfl⟩
    | keyless key above =>
      rw [key]
      exact addRule_eq_ok.2 ⟨above, rfl⟩

/-- **What every rule that is added preserves holds of the whole set,** if it holds of the empty one. -/
theorem ofSource_preserves {P : RuleSet → Prop} {source : SetSource}
    (start : P { name := source.name })
    (step : ∀ {s s' b body}, RuleBody.ofBody b = .ok body → s.Adds body s' → P s → P s')
    (h : ofSource source = .ok s) : P s := by
  refine foldlM_preserves (fun s b s' hs h => ?_) start (mapError_eq_ok h)
  obtain ⟨body, hb, h⟩ := bind_eq_ok.1 h
  exact step hb (add_eq_ok.1 (mapError_eq_ok h)) hs

end RuleSet

/-! ## Rule sets -/

namespace RuleBook

variable {sets sets' : List RuleSet} {source : SetSource} {description : Text} {book : RuleBook}

/-- A set is added if no other one has its name. -/
theorem addSource_eq_ok : addSource sets source = .ok sets' ↔
    (∀ s ∈ sets, s.name ≠ source.name) ∧ ∃ s, RuleSet.ofSource source = .ok s ∧ sets' = s :: sets := by
  unfold addSource
  split
  · rename_i taken
    obtain ⟨s, hs, name⟩ := List.any_eq_true.1 taken
    exact ⟨nofun, fun ⟨new, _⟩ => absurd (of_decide_eq_true name) (new s hs)⟩
  · rename_i new
    have new : ∀ s ∈ sets, s.name ≠ source.name := by simpa using new
    simp only [bind_eq_ok, pure, Except.pure, Except.ok.injEq, @eq_comm _ sets']
    exact (and_iff_right new).symm

theorem forall₂_of_foldlM : ∀ {sources : List SetSource} {sets sets' : List RuleSet},
    sources.foldlM addSource sets = .ok sets' → ∃ new, sets' = new.reverse ++ sets ∧
      List.Forall₂ (fun source s => RuleSet.ofSource source = .ok s) sources new
  | [], sets, sets', h => by
    cases h
    exact ⟨[], rfl, .nil⟩
  | source :: sources, sets, sets', h => by
    rw [List.foldlM_cons] at h
    obtain ⟨next, hn, h⟩ := bind_eq_ok.1 h
    obtain ⟨-, s, hs, rfl⟩ := addSource_eq_ok.1 hn
    obtain ⟨new, rfl, read⟩ := forall₂_of_foldlM h
    exact ⟨s :: new, by simp, .cons hs read⟩

/-- The sets of a compiled description have been added one after the other. -/
theorem foldlM_of_ofDescription (h : ofDescription description = .ok book) :
    (sources description).1.foldlM addSource [] = .ok book.sets.reverse := by
  unfold ofDescription at h
  obtain ⟨sets, hs, h⟩ := bind_eq_ok.1 h
  obtain ⟨equivalences, -, h⟩ := bind_eq_ok.1 h
  cases h
  rw [List.reverse_reverse]
  exact hs

/-- **Every set of a compiled description is read from a header of its own,** in their order. -/
theorem forall₂_of_ofDescription (h : ofDescription description = .ok book) :
    List.Forall₂ (fun source s => RuleSet.ofSource source = .ok s) (sources description).1
      book.sets := by
  obtain ⟨new, sets, read⟩ := forall₂_of_foldlM (foldlM_of_ofDescription h)
  rw [List.append_nil] at sets
  rwa [List.reverse_injective sets]

theorem exists_source_of_mem (h : ofDescription description = .ok book) {s : RuleSet}
    (hs : s ∈ book.sets) : ∃ source ∈ (sources description).1, RuleSet.ofSource source = .ok s := by
  obtain ⟨i, hi, rfl⟩ := List.mem_iff_getElem.1 hs
  have read := forall₂_of_ofDescription h
  have lt : i < (sources description).1.length := by rwa [read.length_eq]
  exact ⟨_, List.getElem_mem lt, read.get lt hi⟩

end RuleBook
end Spellout
