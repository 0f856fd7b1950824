/-
  What is read strictly leads what is read leniently.

  One reader reads the characters of a text, the other one the symbols they are folded to.  Wherever
  the first one has a match, the second one is to come as far.  It may find another match, and a longer
  one, but none that stops short: its match ends where the other one ends, or before that with only
  symbols in between that can be ignored, or further on.

  * `Reader.Modes`: two readers of a text with one rule book, a strict one and a lenient one;
  * `Reader.Leads`: a match of the strict reader, and searches of the lenient one that come as far;
  * `Reader.LeadsElements`, `Reader.leads_trail`: the elements of a template come as far if its
    substitutions do;
  * `Reader.leads_matchTemplate`: so does the template.
-/
import Spellout.Proofs.Reading.Borders
import Spellout.Proofs.Reading.Memory
import Spellout.Proofs.Reading.Questions
import Spellout.Proofs.Reading.Reach

namespace Spellout.Reader

/-! ## Two modes -/

/-- One reader reads a text strictly and the other one leniently, with the same rule book. -/
structure Modes (r r' : Reader) (t : Text) : Prop where
  strict : r.Strict t
  folded : r'.Folded t
  book : r'.book = r.book
  distinct : r.book.Distinct

/-- Reading symbols from `a` to `b` comes as far as reading characters from `i` to `j`, but for
    ignorable symbols, and gets on if the latter does. -/
structure Follows (r : Reader) (i j a b : Nat) : Prop where
  passes : r.Passes b j
  le : a ≤ b
  lt : i < j → a < b

/-- A match of characters from `i` on ends at a border, and what searches of the symbols from `a` to
    the border `j` find comes as far. -/
def Leads (r : Reader) (i j a : Nat) (m : Match) (x : Nat → Search (Option Match)) : Prop :=
  (∃ b, r.Border b m.stop) ∧ ∀ c, r.Border c j → ∀ levels found,
    (x c).eval (r.fresh [] levels) = .ok found →
      ∃ n, found = some n ∧ r.Follows i m.stop a n.stop

/-- The lenient reader comes as far as this answer of the strict one, wherever it starts. -/
def Keeps (r r' : Reader) (t : Text) (q : Question) (m : Option Match) : Prop :=
  ∀ n, m = some n → q ∈ r.book.questions t.length → ∀ a, r'.Near a q.start →
    r'.Leads q.start q.stop a n fun c => .ask 0 ⟨q.set, q.mode, a, c⟩ .done

/-- The strict reader gives this answer, and the lenient one comes as far. -/
def Kept (r r' : Reader) (t : Text) (q : Question) (m : Option Match) : Prop :=
  r.Gives q m ∧ r.Keeps r' t q m

variable {r r' : Reader} {t : Text} {i j a b : Nat} {m : Match}

theorem Follows.mono (h : r.Follows i j a b) {b' : Nat} (le : b ≤ b') : r.Follows i j a b' :=
  ⟨h.passes.mono le, Nat.le_trans h.le le, fun lt => Nat.lt_of_lt_of_le (h.lt lt) le⟩

theorem Near.follows (h : r.Near a i) {b : Nat} (le : a ≤ b) : r.Follows i i a b :=
  ⟨h.passes.mono le, le, fun lt => absurd lt (Nat.lt_irrefl i)⟩

/-- To come to a border behind the end of a stretch is to come as far. -/
theorem Near.follows_border (h : r.Near a i) (hij : i ≤ j) {k c b : Nat} (border : r.Border b j)
    (last : r.Border c k) (hjk : j ≤ k) : r.Follows i j a c := by
  have le := (border.le_iff last).2 hjk
  exact ⟨⟨b, border, fun k lo hi => by omega⟩, Nat.le_trans (h.le border hij) le, fun lt =>
    Nat.lt_of_lt_of_le (h.lt border lt) le⟩

/-- A condition on matches does no harm if what is found satisfies it. -/
theorem Leads.filter {x : Nat → Search (Option Match)} (h : r.Leads i j a m x) {P : Match → Bool}
    (admits : ∀ c levels n, r.Border c j → (x c).eval (r.fresh [] levels) = .ok (some n) → P n) :
    r.Leads i j a m fun c => do return (← x c).filter P := by
  obtain ⟨border, leads⟩ := h
  refine ⟨border, ?_⟩
  intro c last levels found hf
  obtain ⟨y, hy, hf⟩ := Search.eval_bind.1 hf
  cases hf
  obtain ⟨n, rfl, follows⟩ := leads c last _ _ hy
  exact ⟨n, by rw [Option.filter_some, if_pos (admits c levels n last hy)], follows⟩

namespace Kept

theorem spans (modes : r.Modes r' t) {q : Question} {m : Option Match} (h : r.Kept r' t q m) :
    q.Spans m :=
  h.1.holds modes.distinct closed_spans

theorem gives {q : Question} {m : Option Match} (h : r.Kept r' t q m) : r.Gives q m := h.1

end Kept

/-- What substitutions of the strict reader read leads on what those of the lenient one do. -/
def ReadsLead (r r' : Reader) (t : Text) (read read' : SubReader) (sub : Substitution) : Prop :=
  ∀ i j m a, i ≤ j → j ≤ t.length → (read sub i j).Yields (r.Kept r' t) (some m) → r'.Near a i →
    r'.Leads i j a m (read' sub a)

theorem spans_of_eval {α : Type} {x : Search α} {levels : Nat} {y : α}
    (h : x.eval (r.fresh [] levels) = .ok y) : x.Yields Question.Spans y :=
  Search.yields_of_eval (fun _ _ _ h => fresh_holds closed_spans h) h

/-! ## Templates -/

section Templates
variable {read read' : SubReader} {stop : Nat}

/-- The lenient reader may go on wherever a trail of the strict one does. -/
theorem mayStart_of_lead (modes : r.Modes r' t) (hstop : stop ≤ t.length)
    {reads : Substitution → (start stop : Nat) → Match → Prop} {pieces : List Piece} {place : Nat}
    {parts : Parts} {p : Progress} (apart : ∀ l, .literal l ∈ pieces → r'.Apart t l)
    (hp : place ≤ stop) (trail : Trail r reads stop (pieces.map r.element) place parts p)
    {a c : Nat} (near : r'.Near a place) (last : r'.Border c stop) :
    r'.mayStart c (pieces.map r'.element) a := by
  cases pieces with
  | nil => rfl
  | cons piece rest =>
    cases piece with
    | substitution sub => rfl
    | literal l =>
      cases trail with
      | literal hl _ =>
        obtain ⟨stands, rfl, -⟩ := (modes.strict.matchLiteral?_eq_some hp hstop).1 hl
        have next := (within_matchLiteral? hl hp).2
        obtain ⟨a', matched, -⟩ := modes.folded.exists_matchLiteral? (apart l (by simp)) near stands
          last next
        simp [mayStart, element, matched]

/-- A trail of characters from `i` to `k` ends at a border, and to match the elements from `a` on
    comes as far. -/
def LeadsElements (r : Reader) (read : SubReader) (stop : Nat) (els : List Element) (i k a : Nat) :
    Prop :=
  (∃ b, r.Border b k) ∧ ∀ c, r.Border c stop → ∀ parts levels found,
    (r.matchElements read c els a parts).eval (r.fresh [] levels) = .ok found →
      ∃ p, found = some p ∧ r.Follows i k a p.place

theorem leadsElements_literal (modes : r.Modes r' t) (hstop : stop ≤ t.length) {l : Text}
    {els : List Element} {place next k : Nat} (apart : r'.Apart t l)
    (hl : r.matchLiteral? (r.foldLiteral l) place stop = some next) (hp : place ≤ stop)
    (ih : ∀ a, r'.Near a next → r'.LeadsElements read' stop els next k a) (near : r'.Near a place) :
    r'.LeadsElements read' stop (.literal (r'.foldLiteral l) :: els) place k a := by
  obtain ⟨stands, rfl, -⟩ := (modes.strict.matchLiteral?_eq_some hp hstop).1 hl
  have hnext := within_matchLiteral? hl hp
  obtain ⟨b, first⟩ := near.border
  obtain ⟨b', second, -⟩ := apart _ _ first stands
  refine ⟨(ih b' second.near).1, ?_⟩
  intro c last parts levels found h
  obtain ⟨a', matched, near', le, lt⟩ :=
    modes.folded.exists_matchLiteral? apart near stands last hnext.2
  simp only [matchElements, matched] at h
  obtain ⟨p, rfl, follows⟩ := (ih a' near').2 c last _ _ _ h
  refine ⟨p, rfl, follows.passes, Nat.le_trans le follows.le, ?_⟩
  intro moves
  -- an empty literal does not get on, so what follows it does
  by_cases empty : l = []
  · subst empty
    exact Nat.lt_of_le_of_lt le (follows.lt moves)
  · exact Nat.lt_of_lt_of_le (lt empty) follows.le

/-- The lenient reader tries the same split.  It may find another one first, that leads to the end of
    the stretch; then it has come as far. -/
theorem leadsElements_split (modes : r.Modes r' t) (within' : ReadsWithin read')
    {sub : Substitution} {els : List Element} {place split k : Nat} (ne : els ≠ [])
    (lo : place ≤ split) (hi : split ≤ stop) (hk : split ≤ k) (hk' : k ≤ stop)
    (starts : ∀ b c, r'.Border b split → r'.Border c stop → r'.mayStart c els b)
    (hc : r.covers m split) (lead : r'.Leads place split a m (read' sub a))
    (ih : ∀ b, r'.Near b split → r'.LeadsElements read' stop els split k b)
    (near : r'.Near a place) :
    r'.LeadsElements read' stop (.substitution sub :: els) place k a := by
  have whole := modes.strict.covers hc
  obtain ⟨⟨b, middle⟩, leads⟩ := lead
  rw [whole] at middle
  obtain ⟨⟨e, border⟩, behind⟩ := ih b middle.near
  refine ⟨⟨e, border⟩, ?_⟩
  intro c last parts levels found h
  rw [matchElements_split ne] at h
  have hb := (middle.le_iff last).2 hi
  have ha : a ≤ b := near.le middle lo
  have mem : b ∈ List.range' a (c + 1 - a) := List.mem_range'_1.2 ⟨ha, by omega⟩
  rcases Search.exists_eval_of_overSplits mem h with ⟨p, rfl, hp⟩ | ⟨x, hx, further⟩
  · exact ⟨p, rfl, hp ▸ near.follows_border (by omega) border last hk'⟩
  · rw [if_pos (starts b c middle last)] at hx
    obtain ⟨m', hm', hx⟩ := Search.eval_bind.1 hx
    obtain ⟨n, rfl, follows⟩ := leads b middle _ _ hm'
    have hn := (within' sub a b n ha (spans_of_eval hm')).2
    have covers : r'.covers n b := by
      obtain ⟨b', border', skips⟩ := follows.passes
      rw [whole] at border'
      exact modes.folded.covers_of_skips hn (border'.unique middle ▸ skips)
    rw [covering?_of_covers covers] at hx
    obtain ⟨p, rfl, follows'⟩ := behind c last _ _ _ hx
    obtain ⟨p', rfl, le⟩ := further p.place ⟨p, rfl, Nat.le_refl _⟩
    refine ⟨p', rfl, Follows.mono ?_ le⟩
    refine ⟨follows'.passes, Nat.le_trans ha follows'.le, ?_⟩
    intro moves
    rcases Nat.lt_or_eq_of_le lo with lt | rfl
    · exact Nat.lt_of_lt_of_le (near.lt middle lt) follows'.le
    · exact Nat.lt_of_le_of_lt ha (follows'.lt moves)

/-- **A trail of the strict reader leads the lenient one.** -/
theorem leads_trail (modes : r.Modes r' t) (within : ReadsWithin read) (within' : ReadsWithin read')
    (hstop : stop ≤ t.length) :
    ∀ {pieces : List Piece} {place : Nat} {parts : Parts} {p : Progress},
      (∀ l, .literal l ∈ pieces → r'.Apart t l) →
      (∀ sub, .substitution sub ∈ pieces → r.ReadsLead r' t read read' sub) → place ≤ stop →
        Trail r (readsBy (r.Kept r' t) read) stop (pieces.map r.element) place parts p →
          ∀ a, r'.Near a place →
            r'.LeadsElements read' stop (pieces.map r'.element) place p.place a
  | [], place, _, _, _, _, hp, trail, a, near => by
    cases trail with
    | finish =>
      refine ⟨near.border, ?_⟩
      intro c _ parts levels found h
      cases h
      exact ⟨_, rfl, near.follows (Nat.le_refl a)⟩
  | .literal l :: rest, place, _, p, apart, lead, hp, trail, a, near => by
    cases trail with
    | literal hl trail =>
      have ih := leads_trail modes within within' hstop (fun l hl => apart l (by simp [hl]))
        (fun sub hs => lead sub (by simp [hs])) (within_matchLiteral? hl hp).2 trail
      exact leadsElements_literal modes hstop (apart l (by simp)) hl hp ih near
  | .substitution sub :: rest, place, parts, p, apart, lead, hp, trail, a, near => by
    have lead_sub := lead sub (by simp)
    have apart' : ∀ l, .literal l ∈ rest → r'.Apart t l := fun l hl => apart l (by simp [hl])
    rcases trail.of_substitution with ⟨m, rfl, rfl, hm⟩ | ⟨split, m, ne, lo, hi, hm, hc, trail⟩
    · obtain ⟨border, leads⟩ := lead_sub _ _ _ _ hp hstop hm near
      refine ⟨border, ?_⟩
      intro c last parts levels found h
      simp only [List.map_cons, List.map_nil, element, matchElements] at h
      obtain ⟨m', hm', h⟩ := Search.eval_bind.1 h
      cases h
      obtain ⟨n, rfl, follows⟩ := leads c last _ _ hm'
      exact ⟨_, rfl, follows⟩
    · have ih := leads_trail modes within within' hstop apart'
        (fun sub hs => lead sub (by simp [hs])) hi trail
      have inside := trail.within (fun sub i j m hij hm =>
        within sub i j m hij (hm.mono fun _ _ kept => kept.spans modes)) hi
      refine leadsElements_split modes within' (by simpa using ne) lo hi inside.1 inside.2 ?_ hc
        (lead_sub _ _ _ _ lo (by omega) hm near) ih near
      exact fun b c middle last => mayStart_of_lead modes hstop apart' hi trail middle.near last

/-- **A template that the strict reader matches leads the lenient one.** -/
theorem leads_matchTemplate (modes : r.Modes r' t) (within : ReadsWithin read)
    (within' : ReadsWithin read') {value : Parts → Binary64} {template : Template}
    (apart : ∀ l ∈ template.literals, r'.Apart t l)
    (lead : ∀ sub ∈ template.substitutions, r.ReadsLead r' t read read' sub) (hij : i ≤ j)
    (hj : j ≤ t.length)
    (h : (r.matchTemplate read value template i j).Yields (r.Kept r' t) (some m))
    (near : r'.Near a i) : r'.Leads i j a m (r'.matchTemplate read' value template a) := by
  obtain ⟨pieces, mem, p, rfl, trail⟩ := yields_matchTemplate h
  obtain ⟨border, leads⟩ := leads_trail modes within within' hj
    (fun l hl => apart l (Template.mem_literals_of_alternatives mem hl))
    (fun sub hs => lead sub (Template.mem_substitutions_of_alternatives mem hs)) hij trail a near
  refine ⟨border, ?_⟩
  intro c last levels found h
  unfold matchTemplate at h
  obtain ⟨m', hm'⟩ := Search.exists_eval_of_longest mem h
  obtain ⟨x, hx, -⟩ := Search.eval_bind.1 hm'
  obtain ⟨p', rfl, follows⟩ := leads c last {} levels x hx
  have reaches : Search.MatchReaches p'.place found := by
    refine Search.reaches_longest (m := some ⟨value p'.parts, p'.place⟩) ?_
      ⟨_, rfl, Nat.le_refl _⟩ mem h
    exact Search.eval_bind.2 ⟨_, hx, rfl⟩
  obtain ⟨n, rfl, le⟩ := reaches
  exact ⟨n, rfl, follows.mono le⟩

end Templates

end Spellout.Reader
