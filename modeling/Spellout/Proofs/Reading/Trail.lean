/-
  Ways through a template.

  A template is matched along a `Trail`: every literal stands where the trail has come to, every
  substitution reads a match that covers the stretch up to the next element, and the last one reads
  any match.

  * `Reader.yields_matchElements`: what an alternative is matched with is the end of a trail;
  * `Reader.Trail.of_substitution`: where a trail goes on behind a substitution;
  * `Reader.yields_matchTemplate`: the same for a template, whose alternatives are tried in turn;
  * `Reader.asks_matchTemplate`: a template asks what its substitutions ask.
-/
import Spellout.Proofs.Reading.Search

namespace Spellout

variable {P : Question → Option Match → Prop} {A : Question → Prop}

namespace Search

theorem asks_overSplits {stop : Nat} {attempt : Nat → Search (Option Progress)}
    (h : ∀ split, (attempt split).Asks A) : ∀ (splits : List Nat) (best : Option Progress),
      (overSplits stop attempt splits best).Asks A
  | [], _ => trivial
  | split :: rest, best => Asks.bind (h split) fun p => by
      dsimp only
      split
      · trivial
      · exact asks_overSplits h rest _

theorem further_eq_some {best p : Option Progress} {p' : Progress}
    (h : Progress.further best p = some p') : best = some p' ∨ p = some p' := by
  cases best <;> cases p <;> simp only [Progress.further] at h
  · exact .inl h
  · exact .inr h
  · exact .inl h
  · split at h
    · exact .inr h
    · exact .inl h

/-- The furthest progress comes from one of the trials. -/
theorem yields_overSplits {stop : Nat} {attempt : Nat → Search (Option Progress)} {p : Progress} :
    ∀ {splits : List Nat} {best : Option Progress},
      (overSplits stop attempt splits best).Yields P (some p) →
        best = some p ∨ ∃ split ∈ splits, (attempt split).Yields P (some p)
  | [], _, h => .inl h
  | split :: rest, best, h => by
    obtain ⟨found, hf, h⟩ := yields_bind.1 h
    have last : Progress.further best found = some p ∨
        ∃ split' ∈ rest, (attempt split').Yields P (some p) := by
      dsimp only at h
      split at h
      · exact .inl h
      · exact yields_overSplits h
    rcases last with h | ⟨split', hs, h⟩
    · rcases further_eq_some h with h | h
      · exact .inl h
      · exact .inr ⟨split, by simp, h ▸ hf⟩
    · exact .inr ⟨split', by simp [hs], h⟩

end Search

/-! ## Trails -/

namespace Reader

variable {r : Reader} {read : SubReader} {stop : Nat}

theorem substitution_mem_of_element {pieces : List Piece} {sub : Substitution}
    (h : .substitution sub ∈ pieces.map r.element) : .substitution sub ∈ pieces := by
  obtain ⟨piece, mem, eq⟩ := List.mem_map.1 h
  cases piece with
  | literal l => cases eq
  | substitution sub' =>
    cases eq
    exact mem

/-- A way through a sequence of elements, from a place on to some progress; `reads` says which
    matches a substitution may read in a stretch. -/
inductive Trail (r : Reader) (reads : Substitution → (start stop : Nat) → Match → Prop)
    (stop : Nat) : List Element → Nat → Parts → Progress → Prop
  | finish {place : Nat} {parts : Parts} : Trail r reads stop [] place parts ⟨place, parts⟩
  | literal {l : Literal} {rest : List Element} {place next : Nat} {parts : Parts} {p : Progress} :
      r.matchLiteral? l place stop = some next → Trail r reads stop rest next parts p →
        Trail r reads stop (.literal l :: rest) place parts p
  | last {sub : Substitution} {place : Nat} {parts : Parts} {m : Match} :
      reads sub place stop m →
        Trail r reads stop [.substitution sub] place parts ⟨m.stop, parts.add sub m.value⟩
  | split {sub : Substitution} {rest : List Element} {place split : Nat} {parts : Parts} {m : Match}
      {p : Progress} : rest ≠ [] → place ≤ split → split ≤ stop → reads sub place split m →
        r.covers m split → Trail r reads stop rest split (parts.add sub m.value) p →
          Trail r reads stop (.substitution sub :: rest) place parts p

theorem Trail.mono {reads reads' : Substitution → (start stop : Nat) → Match → Prop}
    (h : ∀ sub i j m, reads sub i j m → reads' sub i j m) {els : List Element} {place : Nat}
    {parts : Parts} {p : Progress} (t : Trail r reads stop els place parts p) :
    Trail r reads' stop els place parts p := by
  induction t with
  | finish => exact .finish
  | literal hl _ ih => exact .literal hl ih
  | last hm => exact .last (h _ _ _ _ hm)
  | split ne lo hi hm hc _ ih => exact .split ne lo hi (h _ _ _ _ hm) hc ih

/-- A trail through a substitution ends with it, or goes on behind the stretch of its match. -/
theorem Trail.of_substitution {reads : Substitution → (start stop : Nat) → Match → Prop}
    {sub : Substitution} {rest : List Piece} {place : Nat} {parts : Parts} {p : Progress}
    (trail : Trail r reads stop ((Piece.substitution sub :: rest).map r.element) place parts p) :
    (∃ m, rest = [] ∧ p = ⟨m.stop, parts.add sub m.value⟩ ∧ reads sub place stop m) ∨
      ∃ split m, rest ≠ [] ∧ place ≤ split ∧ split ≤ stop ∧ reads sub place split m ∧
        r.covers m split ∧
          Trail r reads stop (rest.map r.element) split (parts.add sub m.value) p := by
  rw [List.map_cons] at trail
  generalize elements : rest.map r.element = els at trail
  cases trail with
  | last hm => exact .inl ⟨_, List.map_eq_nil_iff.1 elements, rfl, hm⟩
  | split ne lo hi hm hc trail =>
    subst elements
    exact .inr ⟨_, _, by simpa using ne, lo, hi, hm, hc, trail⟩

/-- The matches that a substitution may read when all answers satisfy `P`. -/
def readsBy (P : Question → Option Match → Prop) (read : SubReader) (sub : Substitution)
    (start stop : Nat) (m : Match) : Prop :=
  (read sub start stop).Yields P (some m)

theorem covering?_eq_some {m : Option Match} {v : Binary64} (h : r.covering? stop m = some v) :
    ∃ n, m = some n ∧ r.covers n stop ∧ n.value = v := by
  simp only [covering?, Option.map_eq_some_iff, Option.filter_eq_some_iff] at h
  obtain ⟨n, ⟨rfl, hc⟩, rfl⟩ := h
  exact ⟨n, rfl, hc, rfl⟩

/-- **What an alternative is matched with is the end of a trail.** -/
theorem yields_matchElements {els : List Element} {place : Nat} {parts : Parts} {p : Progress}
    (h : (r.matchElements read stop els place parts).Yields P (some p)) :
    Trail r (readsBy P read) stop els place parts p := by
  fun_induction matchElements r read stop els place parts with
  | case1 place parts =>
    cases h
    exact .finish
  | case2 l rest place parts next hl ih => exact .literal hl (ih h)
  | case3 => cases h
  | case4 sub place parts =>
    obtain ⟨m, hm, h⟩ := Search.yields_bind.1 h
    obtain ⟨n, rfl, rfl⟩ := Option.map_eq_some_iff.1 h
    exact .last hm
  | case5 sub rest place parts ne ih =>
    rcases Search.yields_overSplits h with h | ⟨split, hs, h⟩
    · cases h
    · have range : place ≤ split ∧ split < place + (stop + 1 - place) := by
        simpa [List.mem_range'_1] using hs
      split at h
      · obtain ⟨m, hm, h⟩ := Search.yields_bind.1 h
        split at h
        · rename_i v hv
          obtain ⟨n, rfl, hc, rfl⟩ := covering?_eq_some hv
          exact .split (by simpa using ne) range.1 (by omega) hm hc (ih _ _ h)
        · cases h
      · cases h

/-- **The match of a template ends a trail through one of its alternatives.** -/
theorem yields_matchTemplate {value : Parts → Binary64} {t : Template} {start : Nat} {m : Match}
    (h : (r.matchTemplate read value t start stop).Yields P (some m)) :
    ∃ pieces ∈ t.alternatives, ∃ p, m = ⟨value p.parts, p.place⟩ ∧
      Trail r (readsBy P read) stop (pieces.map r.element) start {} p := by
  rcases Search.yields_longest h with h | ⟨pieces, hp, h⟩
  · cases h
  · obtain ⟨found, hf, h⟩ := Search.yields_bind.1 h
    obtain ⟨p, rfl, rfl⟩ := Option.map_eq_some_iff.1 h
    exact ⟨pieces, hp, p, rfl, yields_matchElements hf⟩

/-- Literals alone read no value. -/
theorem Trail.parts_eq {reads : Substitution → (start stop : Nat) → Match → Prop}
    {els : List Element} {place : Nat} {parts : Parts} {p : Progress}
    (plain : ∀ sub, .substitution sub ∉ els) (h : Trail r reads stop els place parts p) :
    p.parts = parts := by
  induction h with
  | finish => rfl
  | literal _ _ ih => exact ih fun sub mem => plain sub (List.mem_cons_of_mem _ mem)
  | last | split => exact absurd List.mem_cons_self (plain _)

/-! ## Questions -/

theorem asks_matchElements (h : ∀ sub i j, (read sub i j).Asks A) (els : List Element)
    (place : Nat) (parts : Parts) : (r.matchElements read stop els place parts).Asks A := by
  fun_induction matchElements r read stop els place parts with
  | case1 | case3 => trivial
  | case2 l rest place parts next hl ih => exact ih
  | case4 sub place parts => exact Search.Asks.bind (h _ _ _) fun _ => trivial
  | case5 sub rest place parts ne ih =>
    refine Search.asks_overSplits (fun split => ?_) _ _
    split
    · refine Search.Asks.bind (h _ _ _) fun m => ?_
      split
      · exact ih _ _
      · trivial
    · trivial

theorem asks_matchTemplate (h : ∀ sub i j, (read sub i j).Asks A) (value : Parts → Binary64)
    (t : Template) (start : Nat) : (r.matchTemplate read value t start stop).Asks A :=
  Search.asks_longest _ fun _ _ => Search.Asks.bind (asks_matchElements h _ _ _) fun _ => trivial

end Reader
end Spellout
