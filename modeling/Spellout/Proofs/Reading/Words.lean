/-
  Reading words for the first numbers.

  A set has words for the numbers below a bound, and none of the words is the start of another one.
  When it is asked for a number below the bound, the rules that are tried are those of the words, and
  these ask nothing.  So there is one answer at every place: the number whose word stands there, if
  there is one.

  * `PrefixCode`: none of the words is empty or the start of another one;
  * `RuleSet.Distinguishes`: the set has such words;
  * `Reader.exists_search_words`: the search for a number below the bound asks nothing;
  * `Reader.Strict.search_word`, `Reader.Strict.search_end`: it finds the number whose word stands at
    the start of its stretch, and nothing in an empty one.
-/
import Spellout.Proofs.Reading.Reach
import Spellout.Proofs.Reading.Soundness
import Spellout.Proofs.Spelling.Words

namespace Spellout

/-! ## Words that can be told apart -/

/-- None of the words for the numbers below a bound is empty or the start of another one. -/
structure PrefixCode (bound : Nat) (w : Nat → Text) : Prop where
  ne_nil : ∀ d < bound, w d ≠ []
  apart : ∀ d < bound, ∀ e < bound, w d <+: w e → d = e

/-- The set has words for the numbers below a bound that can be told apart. -/
structure RuleSet.Distinguishes (s : RuleSet) (bound : Nat) (w : Nat → Text) : Prop where
  ordered : s.Ordered
  spells : s.Spells bound w
  code : PrefixCode bound w
  small : bound ≤ 2 ^ 53

variable {s : RuleSet} {bound d e i stop : Nat} {w : Nat → Text} {t : Text}

/-- Of the words one at most starts a text. -/
theorem PrefixCode.eq_of_start (code : PrefixCode bound w) (hd : d < bound) (he : e < bound)
    (start : w d <+: t) (start' : w e <+: t) : d = e := by
  rcases List.prefix_or_prefix_of_prefix start start' with h | h
  · exact code.apart d hd e he h
  · exact (code.apart e he d hd h).symm

/-- The rule for a number below the bound is its word. -/
theorem RuleSet.Distinguishes.template (words : s.Distinguishes bound w) {rule : Rule}
    (mem : rule ∈ s.ladder) (lt : rule.base < bound) : rule.template = .word (w rule.base) := by
  obtain ⟨rule', mem', base, word⟩ := words.spells rule.base lt
  rw [← words.ordered.eq_of_base mem' mem base, word, base]

/-! ## Rules -/

namespace Reader

variable {r : Reader} {rule : Rule}

/-- A rule that is a word reads it where it stands. -/
theorem matchRung_word {l : Text} (ne : l ≠ []) (word : rule.template = .word l) (below : List Rule)
    (within : Option Nat) (deeper : Nat) : r.matchRung s (rule :: below) within deeper i stop =
      .done ((r.matchLiteral? (r.foldLiteral l) i stop).map fun j => ⟨.ofNat rule.base, j⟩) := by
  obtain ⟨forced, -, eq⟩ := exists_forced (r := r) s rule below within deeper
  have alternatives : rule.template.alternatives = [[.literal l]] := by
    rw [word, Template.word, if_neg ne]
    rfl
  rw [eq, matchTemplate, alternatives]
  simp only [Search.longest, List.map_cons, List.map_nil, element, matchElements]
  cases r.matchLiteral? (r.foldLiteral l) i stop <;> rfl

theorem matchCandidate_normal (words : s.Distinguishes bound w) (mem : rule ∈ s.ladder)
    (lt : rule.base < bound) (below : List Rule) :
    r.matchCandidate ⟨s, .integer (some bound), i, stop⟩ (.normal rule below) =
      .done ((r.matchLiteral? (r.foldLiteral (w rule.base)) i stop).map
        fun j => ⟨.ofNat rule.base, j⟩) := by
  have admitted : Mode.admits (.integer (some bound)) (.ofNat rule.base) = true :=
    Mode.admits_ofNat lt words.small
  rw [matchCandidate, matchRung_word (words.code.ne_nil _ lt) (words.template mem lt),
    Search.bind_eq, Search.bind]
  cases r.matchLiteral? (r.foldLiteral (w rule.base)) i stop with
  | none => rfl
  | some j => rw [Option.map_some, Option.filter_some, admitted, if_pos rfl, Search.pure_eq]

/-- A rule that is tried reads the word for a number. -/
theorem exists_number (r : Reader) (i stop : Nat) (words : s.Distinguishes bound w) {c : Candidate}
    (mem : c ∈ s.candidates (.integer (some bound))) :
    ∃ d < bound, r.matchCandidate ⟨s, .integer (some bound), i, stop⟩ c =
      .done ((r.matchLiteral? (r.foldLiteral (w d)) i stop).map fun j => ⟨.ofNat d, j⟩) := by
  cases Mode.allows_of_mem mem with
  | bounded suffix below =>
    have lt := below bound rfl
    exact ⟨_, lt, matchCandidate_normal words (suffix.subset List.mem_cons_self) lt _⟩

/-- A rule is tried that reads the word for a given number. -/
theorem exists_candidate (r : Reader) (i stop : Nat) (words : s.Distinguishes bound w)
    (lt : d < bound) : ∃ c ∈ s.candidates (.integer (some bound)),
      r.matchCandidate ⟨s, .integer (some bound), i, stop⟩ c =
        .done ((r.matchLiteral? (r.foldLiteral (w d)) i stop).map fun j => ⟨.ofNat d, j⟩) := by
  obtain ⟨rule, mem, rfl, -⟩ := words.spells d lt
  obtain ⟨below, candidate⟩ := RuleSet.exists_mem_candidates mem lt words.small
  exact ⟨.normal rule below, candidate, matchCandidate_normal words mem lt below⟩

end Reader

/-! ## Searches -/

/-- A row of searches that ask nothing asks nothing. -/
theorem Search.exists_done_longest {β : Type} {f : β → Search (Option Match)} :
    ∀ {l : List β} (best : Option Match), (∀ b ∈ l, ∃ m, f b = .done m) →
      ∃ m, longest f l best = .done m
  | [], best, _ => ⟨best, rfl⟩
  | b :: rest, best, h => by
    obtain ⟨m, hm⟩ := h b List.mem_cons_self
    rw [longest, hm]
    exact exists_done_longest _ fun b' hb' => h b' (List.mem_cons_of_mem b hb')

namespace Reader

/-- **For a number that has a word nothing is asked.** -/
theorem exists_search_words (r : Reader) (words : s.Distinguishes bound w) (i stop : Nat) :
    ∃ m, r.search ⟨s, .integer (some bound), i, stop⟩ = .done m :=
  Search.exists_done_longest none fun _ mem =>
    have ⟨_, _, eq⟩ := r.exists_number i stop words mem
    ⟨_, eq⟩

namespace Strict

variable {r : Reader} (h : r.Strict t) (words : s.Distinguishes bound w)
include h words

/-- What is found is a number whose word stands at the start of the stretch. -/
theorem word_of_search (hi : i ≤ stop) (hstop : stop ≤ t.length) {m : Match}
    (found : r.search ⟨s, .integer (some bound), i, stop⟩ = .done (some m)) :
    ∃ d < bound, m = ⟨.ofNat d, i + (w d).length⟩ ∧ w d <+: t.drop i ∧
      i + (w d).length ≤ stop := by
  have yields : (r.search ⟨s, .integer (some bound), i, stop⟩).Yields (fun _ _ => True) (some m) := by
    rw [found]
    rfl
  rcases Search.yields_longest yields with none | ⟨c, mem, yields⟩
  · cases none
  · obtain ⟨d, lt, eq⟩ := r.exists_number i stop words mem
    rw [eq] at yields
    obtain ⟨j, hj, rfl⟩ := Option.map_eq_some_iff.1 (Search.yields_done.1 yields)
    obtain ⟨start, rfl, le⟩ := (h.matchLiteral?_eq_some hi hstop).1 hj
    exact ⟨d, lt, rfl, start, le⟩

/-- **The number whose word stands at a place is found there,** and no other one. -/
theorem search_word (lt : d < bound) (hstop : stop ≤ t.length) (start : w d <+: t.drop i)
    (le : i + (w d).length ≤ stop) :
    r.search ⟨s, .integer (some bound), i, stop⟩ =
      .done (some ⟨.ofNat d, i + (w d).length⟩) := by
  have hi : i ≤ stop := by omega
  obtain ⟨m, hm⟩ := r.exists_search_words words i stop
  obtain ⟨c, mem, eq⟩ := r.exists_candidate i stop words lt
  rw [(h.matchLiteral?_eq_some hi hstop).2 ⟨start, rfl, le⟩] at eq
  -- the rule for this word finds it, so that there is a longest match
  have searched : (r.search ⟨s, .integer (some bound), i, stop⟩).eval (r.fresh [] 0) = .ok m := by
    rw [hm]
    rfl
  obtain ⟨n, rfl, -⟩ :=
    Search.reaches_longest (congrArg (Search.eval _) eq) ⟨_, rfl, Nat.le_refl _⟩ mem searched
  obtain ⟨e, he, rfl, start', -⟩ := h.word_of_search words hi hstop hm
  obtain rfl := words.code.eq_of_start lt he start start'
  exact hm

/-- In an empty stretch no number is found. -/
theorem search_end (hstop : stop ≤ t.length) :
    r.search ⟨s, .integer (some bound), stop, stop⟩ = .done none := by
  obtain ⟨m, hm⟩ := r.exists_search_words words stop stop
  cases m with
  | none => exact hm
  | some m =>
    obtain ⟨d, lt, -, -, le⟩ := h.word_of_search words (Nat.le_refl _) hstop hm
    have pos := List.length_pos_of_ne_nil (words.code.ne_nil d lt)
    omega

end Strict
end Reader
end Spellout
