/-
  Matches stay inside their stretch of the text.

  * `Reader.within_matchLiteral?`, `Reader.within_readNumeral?`: literals and numerals end inside the
    stretch they are looked for in;
  * `Reader.Trail.within`: so do trails, if what substitutions read does;
  * `Reader.closed_spans`: so do answers.
-/
import Spellout.Proofs.Reading.Answer

namespace Spellout

/-- A match lies inside the stretch that the question is about. -/
def Question.Spans (q : Question) (m : Option Match) : Prop :=
  q.start ≤ q.stop → ∀ n, m = some n → q.start ≤ n.stop ∧ n.stop ≤ q.stop

namespace Reader

variable {r : Reader} {stop : Nat}

/-! ## Literals and numerals -/

theorem within_skip : ∀ n i : Nat, i ≤ r.skip n i ∧ r.skip n i ≤ i + n
  | 0, i => by simp [skip]
  | n + 1, i => by
    unfold skip
    split
    · have := within_skip n (i + 1)
      omega
    · omega

theorem within_matchKeys? : ∀ {keys : List SymbolKey} {i j : Nat},
    r.matchKeys? stop keys i = some j → i ≤ stop → i ≤ j ∧ j ≤ stop
  | [], i, j, h, hi => by
    cases h
    exact ⟨Nat.le_refl _, hi⟩
  | k :: keys, i, j, h, hi => by
    unfold matchKeys? at h
    have skipped := within_skip (r := r) (stop - i) i
    have start : i ≤ (if r.lenient then r.skip (stop - i) i else i) := by
      split <;> omega
    dsimp only at h
    generalize (if r.lenient then r.skip (stop - i) i else i) = i' at h start
    split at h
    · rename_i hlt
      simp only [Bool.and_eq_true, decide_eq_true_eq] at hlt
      have := within_matchKeys? h (by omega)
      omega
    · cases h

theorem within_matchLiteral? {l : Literal} {i j : Nat} (h : r.matchLiteral? l i stop = some j)
    (hi : i ≤ stop) : i ≤ j ∧ j ≤ stop := by
  have skipped := within_skip (r := r) (stop - i) i
  unfold matchLiteral? at h
  split at h
  · dsimp only at h
    split at h
    · cases h
      omega
    · cases h
  · exact within_matchKeys? h hi

theorem mem_of_placeBehind? : ∀ {places : List Nat} {bytes j : Nat},
    r.placeBehind? bytes places = some j → ∃ i ∈ places, j = i + 1
  | [], _, _, h => by simp [placeBehind?] at h
  | i :: rest, bytes, j, h => by
    unfold placeBehind? at h
    dsimp only at h
    split at h
    · cases hr : r.placeBehind? (bytes - Text.utf8Size (r.textAt i)) rest with
      | none => exact ⟨i, by simp, by simpa [hr] using h.symm⟩
      | some k =>
        obtain ⟨i', hi', rfl⟩ := mem_of_placeBehind? hr
        exact ⟨i', by simp [hi'], by simpa [hr] using h.symm⟩
    · cases h

/-- A numeral takes up at least one symbol of its stretch. -/
theorem within_readNumeral? {p : NumeralPattern} {i j : Nat} {m : Match}
    (h : r.readNumeral? p i j = some m) : i < m.stop ∧ m.stop ≤ j := by
  unfold readNumeral? at h
  dsimp only at h
  split at h
  · obtain ⟨stop, hs, rfl⟩ := Option.map_eq_some_iff.1 h
    obtain ⟨k, hk, rfl⟩ := mem_of_placeBehind? hs
    simp only [numeralPlaces, List.mem_filter, List.mem_range'_1] at hk
    dsimp only
    omega
  · cases h

/-! ## Trails -/

/-- Whatever a substitution reads in a stretch lies inside it. -/
def ReadsWithin (read : SubReader) : Prop :=
  ∀ sub i j m, i ≤ j → (read sub i j).Yields Question.Spans (some m) → i ≤ m.stop ∧ m.stop ≤ j

theorem Trail.within {reads : Substitution → (start stop : Nat) → Match → Prop}
    (h : ∀ sub i j m, i ≤ j → reads sub i j m → i ≤ m.stop ∧ m.stop ≤ j) {els : List Element}
    {place : Nat} {parts : Parts} {p : Progress} (t : Trail r reads stop els place parts p)
    (hp : place ≤ stop) : place ≤ p.place ∧ p.place ≤ stop := by
  induction t with
  | finish => exact ⟨Nat.le_refl _, hp⟩
  | literal hl _ ih =>
    have hn := within_matchLiteral? hl hp
    have := ih hn.2
    omega
  | last hm => exact h _ _ _ _ hp hm
  | split _ lo hi _ _ _ ih =>
    have := ih hi
    omega

theorem within_matchTemplate {read : SubReader} (h : ReadsWithin read) {value : Parts → Binary64}
    {t : Template} {i : Nat} {m : Match} (hi : i ≤ stop)
    (hm : (r.matchTemplate read value t i stop).Yields Question.Spans (some m)) :
    i ≤ m.stop ∧ m.stop ≤ stop := by
  obtain ⟨_, _, p, rfl, trail⟩ := yields_matchTemplate hm
  exact trail.within h hi

/-! ## Substitutions and rules -/

theorem within_readTarget {owner : RuleSet} {deeper : Nat} {mode : Mode} {t : Target} {i j : Nat}
    {m : Match} (hij : i ≤ j)
    (h : (r.readTarget deeper owner mode t i j).Yields Question.Spans (some m)) :
    i ≤ m.stop ∧ m.stop ≤ j := by
  cases t with
  | owner => exact Search.yields_ask.1 h hij m rfl
  | ruleSet name =>
    obtain ⟨s, -, h⟩ := Search.yields_bind.1 h
    exact Search.yields_ask.1 h hij m rfl
  | numeral p =>
    have := within_readNumeral? (Search.yields_done.1 h)
    omega

theorem within_digitStart? {spaced : Bool} {place start : Nat}
    (h : r.digitStart? spaced place stop = some start) (hp : place ≤ stop) :
    place ≤ start ∧ start ≤ stop := by
  have skipped := within_skip (r := r) (stop - place) place
  unfold digitStart? at h
  split at h
  · cases h
    exact ⟨Nat.le_refl _, hp⟩
  · split at h
    · cases h
      omega
    · split at h
      · rename_i hlt
        simp only [Bool.and_eq_true, decide_eq_true_eq] at hlt
        cases h
        omega
      · cases h

theorem within_readDigitsFrom {s : RuleSet} {spaced : Bool} : ∀ {fuel : Nat} {digits : Text}
    {place : Nat} {d : Text × Nat}, place ≤ stop →
      (r.readDigitsFrom s spaced stop fuel digits place).Yields Question.Spans d →
        place ≤ d.2 ∧ d.2 ≤ stop
  | 0, _, _, _, hp, h => by
    cases h
    exact ⟨Nat.le_refl _, hp⟩
  | fuel + 1, digits, place, d, hp, h => by
    unfold readDigitsFrom at h
    split at h
    · cases h
      exact ⟨Nat.le_refl _, hp⟩
    · rename_i start hs
      have hstart := within_digitStart? hs hp
      obtain ⟨m, hm, h⟩ := h
      dsimp only at h
      split at h
      · cases h
        exact ⟨Nat.le_refl _, hp⟩
      · rename_i n
        have hn := hm hstart.2 n rfl
        split at h
        · cases h
          exact ⟨Nat.le_refl _, hp⟩
        · have := within_readDigitsFrom hn.2 h
          dsimp only at hn
          omega

theorem within_readDigits {s : RuleSet} {spaced : Bool} {i j : Nat} {m : Match} (hij : i ≤ j)
    (h : (r.readDigits s spaced i j).Yields Question.Spans (some m)) :
    i ≤ m.stop ∧ m.stop ≤ j := by
  obtain ⟨d, hd, h⟩ := Search.yields_bind.1 h
  have := within_readDigitsFrom hij hd
  dsimp only at h
  split at h
  · cases h
  · obtain rfl := Option.some.inj (Search.yields_done.1 h)
    exact this

theorem readsWithin_readNormal {s : RuleSet} {rule : Rule} {bound : Option Nat} {deeper : Nat}
    {forced : (start stop : Nat) → Search (Option Match)}
    (hf : ∀ i j m, i ≤ j → (forced i j).Yields Question.Spans (some m) → i ≤ m.stop ∧ m.stop ≤ j) :
    ReadsWithin (r.readNormal s rule bound deeper forced) := by
  intro sub i j m hij h
  cases sub with
  | quotient t | same t => exact within_readTarget hij h
  | remainder t =>
    obtain ⟨found, hfound, h⟩ := Search.yields_bind.1 h
    obtain ⟨rfl, -⟩ := Option.filter_eq_some_iff.1 h
    exact within_readTarget hij hfound
  | forced => exact hf i j m hij h

theorem within_special {s : RuleSet} {sub : Substitution} {digital : Prop}
    {x : Reader → (start stop : Nat) → Search (Option Match)} (reads : SpecialRead s sub digital x)
    {i j : Nat} {m : Match} (hij : i ≤ j) (h : (x r i j).Yields Question.Spans (some m)) :
    i ≤ m.stop ∧ m.stop ≤ j := by
  cases reads with
  | target mode t unbound named => exact within_readTarget hij h
  | default => exact within_readTarget hij h
  | digits spaced _ => exact within_readDigits hij h

theorem readsWithin_readFraction (s : RuleSet) : ReadsWithin (r.readFraction s) :=
  fun sub _ _ _ => within_special (special_readFraction s sub)

theorem readsWithin_readNegative (s : RuleSet) : ReadsWithin (r.readNegative s) :=
  fun sub _ _ _ => within_special (special_readNegative s sub)

theorem readsWithin_readNumerator (s : RuleSet) : ReadsWithin (r.readNumerator s) :=
  fun sub _ _ _ => within_special (special_readNumerator s sub)

theorem within_matchRung {s : RuleSet} : ∀ {ladder : List Rule} {bound : Option Nat}
    {deeper i j : Nat} {m : Match}, i ≤ j →
      (r.matchRung s ladder bound deeper i j).Yields Question.Spans (some m) →
        i ≤ m.stop ∧ m.stop ≤ j
  | [], _, _, _, _, _, _, h => by cases h
  | [rule], _, _, _, _, _, hij, h =>
    within_matchTemplate (readsWithin_readNormal fun _ _ _ hij h => within_readTarget hij h) hij h
  | rule :: rule' :: below, _, _, _, _, _, hij, h =>
    within_matchTemplate (readsWithin_readNormal fun _ _ _ hij h => within_matchRung hij h) hij h

/-- The first rule of a ladder is matched as a template; whatever `>>>` reads lies in its stretch. -/
theorem exists_forced (s : RuleSet) (rule : Rule) (below : List Rule) (bound : Option Nat)
    (deeper : Nat) : ∃ forced : (start stop : Nat) → Search (Option Match),
      (∀ i j m, i ≤ j → (forced i j).Yields Question.Spans (some m) → i ≤ m.stop ∧ m.stop ≤ j) ∧
        ∀ i j, r.matchRung s (rule :: below) bound deeper i j =
          r.matchTemplate (r.readNormal s rule bound deeper forced) (Parts.normal rule)
            rule.template i j := by
  cases below with
  | nil => exact ⟨_, fun _ _ _ hij h => within_readTarget hij h, fun _ _ => rfl⟩
  | cons rule' below => exact ⟨_, fun _ _ _ hij h => within_matchRung hij h, fun _ _ => rfl⟩

theorem within_matchCandidate {q : Question} {c : Candidate} {m : Match} (hq : q.start ≤ q.stop)
    (h : (r.matchCandidate q c).Yields Question.Spans (some m)) :
    q.start ≤ m.stop ∧ m.stop ≤ q.stop := by
  cases c with
  | negative t => exact within_matchTemplate (readsWithin_readNegative q.set) hq h
  | fraction t => exact within_matchTemplate (readsWithin_readFraction q.set) hq h
  | normal rule below =>
    obtain ⟨found, hfound, h⟩ := Search.yields_bind.1 h
    obtain ⟨rfl, -⟩ := Option.filter_eq_some_iff.1 h
    exact within_matchRung hq hfound
  | numerator rule => exact within_matchTemplate (readsWithin_readNumerator q.set) hq h

/-- **Answers lie inside the stretches they are asked for.** -/
theorem closed_spans : r.Closed Question.Spans where
  none q _ n h := by cases h
  search q m h hq n hn := by
    subst hn
    rcases Search.yields_longest h with h | ⟨c, -, h⟩
    · cases h
    · exact within_matchCandidate hq h

end Reader
end Spellout
