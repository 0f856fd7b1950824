/-
  Names in compiled descriptions.

  * `RuleSet.name_ofSource`: a rule set has the name of its header;
  * `RuleBook.distinct_of_ofDescription`: the rule sets of a compiled description have names of
    their own;
  * `RuleBook.mem_of_resolve`, `RuleBook.default_mem`, `RuleBook.mem_of_entry`: the sets that rules
    and callers refer to are sets of the book.
-/
import Mathlib.Data.List.Nodup
import Spellout.Proofs.Description.Adding

namespace Spellout

namespace RuleSet

theorem Adds.name {s s' : RuleSet} {body : RuleBody} (h : s.Adds body s') : s'.name = s.name := by
  cases h with
  | @special form => cases form <;> rfl
  | keyed | keyless => rfl

/-- A rule set has the name of its header. -/
theorem name_ofSource {source : SetSource} {s : RuleSet} (h : ofSource source = .ok s) :
    s.name = source.name :=
  ofSource_preserves (P := fun s => s.name = source.name) rfl
    (fun _ added hs => added.name.trans hs) h

end RuleSet

namespace RuleBook

/-- No two rule sets have the same name. -/
def Distinct (book : RuleBook) : Prop := (book.sets.map RuleSet.name).Nodup

theorem Distinct.eq {book : RuleBook} (h : book.Distinct) {s s' : RuleSet} (hs : s ∈ book.sets)
    (hs' : s' ∈ book.sets) (name : s.name = s'.name) : s = s' :=
  List.inj_on_of_nodup_map h hs hs' name

theorem nodup_addSource {sets sets' : List RuleSet} {source : SetSource}
    (nodup : (sets.map RuleSet.name).Nodup) (h : addSource sets source = .ok sets') :
    (sets'.map RuleSet.name).Nodup := by
  obtain ⟨new, s, hs, rfl⟩ := addSource_eq_ok.1 h
  rw [List.map_cons, List.nodup_cons]
  refine ⟨fun mem => ?_, nodup⟩
  obtain ⟨s', hs', name⟩ := List.mem_map.1 mem
  exact new s' hs' (name.trans (RuleSet.name_ofSource hs))

/-- **The rule sets of a compiled description have names of their own.** -/
theorem distinct_of_ofDescription {description : Text} {book : RuleBook}
    (h : ofDescription description = .ok book) : book.Distinct := by
  have nodup := foldlM_preserves (p := fun sets => (sets.map RuleSet.name).Nodup)
    (fun _ _ _ => nodup_addSource) List.nodup_nil (foldlM_of_ofDescription h)
  simpa [Distinct] using nodup

end RuleBook
/-! ## Sets that are referred to -/

namespace RuleBook

variable {book : RuleBook} {name : Text} {s : RuleSet}

theorem mem_of_find? (h : book.find? name = some s) : s ∈ book.sets := List.mem_of_find?_eq_some h

theorem find?_of_resolve (h : book.resolve name = .ok s) : book.find? name = some s := by
  unfold resolve at h
  split at h
  · cases h
    assumption
  · cases h

theorem mem_of_resolve (h : book.resolve name = .ok s) : s ∈ book.sets :=
  mem_of_find? (find?_of_resolve h)

theorem default_mem (h : s ∈ book.sets) : book.default?.getD s ∈ book.sets := by
  cases hd : book.default? with
  | none => exact h
  | some d => exact List.mem_of_find?_eq_some hd

theorem mem_of_entry {set : Option Text} (h : book.entry set = .ok s) : s ∈ book.sets := by
  unfold entry at h
  split at h
  · obtain ⟨s', hs, h⟩ := bind_eq_ok.1 h
    split at h
    · cases h
      exact mem_of_resolve hs
    · cases h
  · split at h
    · cases h
      exact List.mem_of_find?_eq_some ‹_›
    · cases h

end RuleBook

end Spellout
