/-
  Lenient reading where nothing gets in its way.

  * `Reader.Unhindered`: folding leaves the literals of the rules whole, and a longer match that the
    lenient reader finds is not one that a bound or a digit refuses;
  * `Reader.unhindered_of_apart`: where rules below bounds read nothing, only literals can get in the way;
  * `Reader.leads_readTarget`, `Reader.leads_matchRung`, `Reader.leads_readDigits`: then what is read
    strictly with a substitution, a rule or digits leads what is read leniently with it;
  * `Reader.keeps_of_gives`: the lenient reader comes as far as every answer of the strict one.
-/
import Spellout.Proofs.Reading.Leads
import Spellout.Proofs.Reading.Remainder

namespace Spellout

/-- A rule for values with a fraction spells out the digits behind the point. -/
def RuleSet.spellsDigits (s : RuleSet) : Bool :=
  s.fractionTemplates.any fun t =>
    t.substitutions.any fun sub => sub = .forced || sub = .remainder .owner

theorem RuleSet.spellsDigits_of_mem {s : RuleSet} {t : Template} (ht : t ∈ s.fractionTemplates)
    {sub : Substitution} (hsub : sub ∈ t.substitutions)
    (digits : sub = .forced ∨ sub = .remainder .owner) : s.spellsDigits :=
  List.any_eq_true.2 ⟨t, ht, List.any_eq_true.2 ⟨sub, hsub, by simpa using digits⟩⟩

/-- The second value is let in by each mode of the book that lets the first one in. -/
def RuleBook.AdmitsLike (book : RuleBook) (v w : Binary64) : Prop :=
  ∀ mode ∈ book.modes, mode.admits v → mode.admits w

namespace Reader

/-- Folding and skipping do not get in the way of what is read strictly. -/
structure Unhindered (r r' : Reader) (t : Text) : Prop where
  /-- Literals stand apart from what follows them. -/
  literal : ∀ l ∈ r.book.literals, r'.Apart t l
  /-- So does the blank between digits that are spelled out. -/
  separator : ∀ s ∈ r.book.sets, s.spellsDigits → r'.Apart t [' ']
  /-- Where a numeral is read strictly, one is read leniently, as far and within the same bounds. -/
  numeral : ∀ p ∈ r.book.patterns, ∀ i j m, r.readNumeral? p i j = some m → ∀ a, r'.Near a i →
    (∃ b, r'.Border b m.stop) ∧ ∀ c, r'.Border c j → ∃ n, r'.readNumeral? p a c = some n ∧
      r'.Passes n.stop m.stop ∧ r.book.AdmitsLike m.value n.value
  /-- Where a rule reads a value strictly that the mode lets in, the longest match that it has
      leniently is let in, too. -/
  value : ∀ s ∈ r.book.sets, ∀ mode ∈ r.book.modes, ∀ rule below,
    .normal rule below ∈ s.candidates mode → ∀ i j m,
      (r.matchCandidate ⟨s, mode, i, j⟩ (.normal rule below)).Yields r.Gives (some m) →
        ∀ a c, r'.Near a i → r'.Border c j → ∀ levels n,
          (r'.matchRung s (rule :: below) mode.bound? 0 a c).eval (r'.fresh [] levels) =
            .ok (some n) → mode.admits n.value
  /-- Where a digit is read strictly, a digit is read leniently that ends no further. -/
  digit : ∀ s ∈ r.book.sets, s.spellsDigits → ∀ i j m,
    r.Gives ⟨s, .integer (some 10), i, j⟩ (some m) → (digit? i m).isSome →
      ∀ a c, r'.Near a i → r'.Border c j → ∀ levels n,
        r'.fresh [] levels 0 ⟨s, .integer (some 10), a, c⟩ = .ok (some n) →
          (digit? a n).isSome ∧ r'.charsBefore n.stop ≤ m.stop

variable {r r' : Reader} {t : Text} {i j a b : Nat} {m : Match}

/-! ## Substitutions -/

theorem Kept.leads_ask {q : Question} (h : r.Kept r' t q (some m))
    (hq : q ∈ r.book.questions t.length) (near : r'.Near a q.start) (deeper : Nat) :
    r'.Leads q.start q.stop a m fun c => .ask deeper ⟨q.set, q.mode, a, c⟩ .done := by
  obtain ⟨border, leads⟩ := h.2 m rfl hq a near
  refine ⟨border, fun c last levels found hf => leads c last levels found ?_⟩
  rw [Search.eval_ask] at hf ⊢
  exact fresh_zero_of_deeper hf

/-- A value that is read leniently with a target is let in by the mode, if the one that is read
    strictly is. -/
theorem admits_readTarget (free : r.Unhindered r' t) {owner : RuleSet} {mode : Mode}
    (hm : mode ∈ r.book.modes) {deeper : Nat} {target : Target}
    (known : ∀ p, target.pattern? = some p → p ∈ r.book.patterns)
    (h : (r.readTarget deeper owner mode target i j).Yields (r.Kept r' t) (some m))
    (admitted : mode.admits m.value) (near : r'.Near a i) {c levels : Nat} (last : r'.Border c j)
    {n : Match} (hn : (r'.readTarget deeper owner mode target a c).eval (r'.fresh [] levels) =
      .ok (some n)) : mode.admits n.value := by
  cases target with
  | owner =>
    rw [readTarget, Search.eval_ask] at hn
    exact fresh_holds (closed_admits r') hn n rfl
  | ruleSet name =>
    obtain ⟨s, -, hn⟩ := Search.eval_bind.1 hn
    rw [Search.eval_ask] at hn
    exact fresh_holds (closed_admits r') hn n rfl
  | numeral p =>
    obtain ⟨-, reads⟩ := free.numeral p (known p rfl) i j m (Search.yields_done.1 h) a near
    obtain ⟨n', hn', -, like⟩ := reads c last
    obtain rfl : n' = n := Option.some.inj (hn'.symm.trans (Except.ok.inj hn))
    exact like mode hm admitted

/-- More digits are put in front of those that have been read. -/
theorem digits_ne_nil_of_readDigitsFrom {P : Question → Option Match → Prop} {s : RuleSet}
    {spaced : Bool} {stop : Nat} : ∀ {fuel : Nat} {digits : Text} {place : Nat} {d : Text × Nat},
      (r.readDigitsFrom s spaced stop fuel digits place).Yields P d → digits ≠ [] → d.1 ≠ []
  | 0, _, _, _, h, ne => by
    cases h
    exact ne
  | fuel + 1, digits, place, d, h, ne => by
    unfold readDigitsFrom at h
    split at h
    · cases h
      exact ne
    · obtain ⟨m, -, h⟩ := h
      dsimp only at h
      split at h
      · cases h
        exact ne
      · split at h
        · cases h
          exact ne
        · exact digits_ne_nil_of_readDigitsFrom h (List.cons_ne_nil _ _)

/-- Where a row of digits has come to, if `digits` have been read before: it ends at a border, and
    what the lenient reader reads from `a` on comes as far, with a digit if there is one. -/
def LeadsDigits (r : Reader) (s : RuleSet) (spaced : Bool) (stop place a : Nat) (digits : Text)
    (d : Text × Nat) : Prop :=
  (∃ b, r.Border b d.2) ∧ ∀ c, r.Border c stop → ∀ levels fuel digits' d',
    (digits' = [] ↔ digits = []) → c - a < fuel →
      (r.readDigitsFrom s spaced c fuel digits' a).eval (r.fresh [] levels) = .ok d' →
        r.Follows place d.2 a d'.2 ∧ (d.1 ≠ [] → d'.1 ≠ [])

/-- The lenient reader does not fall back from where the strict one stops. -/
theorem Near.leadsDigits (near : r'.Near a i) {stop : Nat} (hi : i ≤ stop) (s : RuleSet)
    (spaced : Bool) (digits : Text) : r'.LeadsDigits s spaced stop i a digits (digits, i) := by
  refine ⟨near.border, ?_⟩
  intro c last levels fuel digits' d' same _ h
  have yields := spans_of_eval h
  exact ⟨near.follows (within_readDigitsFrom (near.le last hi) yields).1, fun ne =>
    digits_ne_nil_of_readDigitsFrom yields (mt same.1 ne)⟩

/-! ## Bounds -/

/-- A template without substitutions has one value, whatever it is matched with. -/
theorem value_of_matchTemplate {P : Question → Option Match → Prop} {read : SubReader}
    {value : Parts → Binary64} {template : Template} (plain : template.substitutions = [])
    (h : (r.matchTemplate read value template i j).Yields P (some m)) : m.value = value {} := by
  obtain ⟨pieces, mem, p, rfl, trail⟩ := yields_matchTemplate h
  have same : p.parts = {} := trail.parts_eq fun sub hsub => by
    have := Template.mem_substitutions_of_alternatives mem (substitution_mem_of_element hsub)
    simp [plain] at this
  rw [same]

/-- A rule that a mode tries has a base value that the mode lets in. -/
theorem admits_of_mem_candidates {s : RuleSet} {mode : Mode} {rule : Rule} {below : List Rule}
    (h : .normal rule below ∈ s.candidates mode) : mode.admits (.ofNat rule.base) := by
  cases mode with
  | integer bound => exact (List.mem_filter.1 h).2
  | full | denominators => rfl

/-- Bounds let in what rules without substitutions read. -/
theorem admits_of_matchRung {P : Question → Option Match → Prop} {s : RuleSet} {mode : Mode}
    {rule : Rule} {below : List Rule} {bound : Option Nat} {deeper : Nat}
    (mem : .normal rule below ∈ s.candidates mode) (plain : rule.template.substitutions = [])
    (h : (r.matchRung s (rule :: below) bound deeper i j).Yields P (some m)) :
    mode.admits m.value := by
  rw [matchRung_cons] at h
  rw [value_of_matchTemplate plain h]
  exact admits_of_mem_candidates mem

/-- Rules without substitutions below every bound, no numerals and no digits: then only literals can
    get in the way. -/
theorem unhindered_of_apart (literal : ∀ l ∈ r.book.literals, r'.Apart t l)
    (numerals : r.book.patterns = []) (digits : ∀ s ∈ r.book.sets, ¬ s.spellsDigits)
    (plain : ∀ s ∈ r.book.sets, ∀ b, .integer (some b) ∈ r.book.modes → ∀ rule ∈ s.ladder,
      rule.base < b → rule.template.substitutions = []) : r.Unhindered r' t where
  literal := literal
  separator s hs spells := absurd spells (digits s hs)
  numeral p hp := by simp [numerals] at hp
  value s hs mode hmode rule below mem i j m _ a c _ _ levels n hn := by
    cases Mode.allows_of_mem mem with
    | normal suffix => rfl
    | @bounded _ _ bound suffix below' =>
      cases bound with
      | none => rfl
      | some b =>
        have plain := plain s hs b hmode rule (suffix.subset List.mem_cons_self) (below' b rfl)
        exact admits_of_matchRung mem plain (spans_of_eval hn)
  digit s hs spells := absurd spells (digits s hs)

section Substitutions
variable (modes : r.Modes r' t) (free : r.Unhindered r' t)
include modes free

theorem leads_readTarget {owner : RuleSet} (hs : owner ∈ r.book.sets) {mode : Mode}
    (hm : mode ∈ r.book.modes) (deeper : Nat) {target : Target}
    (known : ∀ p, target.pattern? = some p → p ∈ r.book.patterns) (hij : i ≤ j)
    (hj : j ≤ t.length)
    (h : (r.readTarget deeper owner mode target i j).Yields (r.Kept r' t) (some m))
    (near : r'.Near a i) : r'.Leads i j a m (r'.readTarget deeper owner mode target a) := by
  cases target with
  | owner =>
    have hq : ⟨owner, mode, i, j⟩ ∈ r.book.questions t.length :=
      RuleBook.mem_questions.2 ⟨hs, hm, hij, hj⟩
    exact (Search.yields_ask.1 h).leads_ask hq near deeper
  | ruleSet name =>
    obtain ⟨s, hr, h⟩ := Search.yields_bind.1 h
    have resolved := Search.yields_ofExcept.1 hr
    have same : r'.readTarget deeper owner mode (.ruleSet name) a =
        fun c => .ask deeper ⟨s, mode, a, c⟩ .done := by
      funext c
      simp only [readTarget, modes.book, resolved]
      rfl
    have hq : ⟨s, mode, i, j⟩ ∈ r.book.questions t.length :=
      RuleBook.mem_questions.2 ⟨RuleBook.mem_of_resolve resolved, hm, hij, hj⟩
    exact same ▸ (Search.yields_ask.1 h).leads_ask hq near deeper
  | numeral p =>
    obtain ⟨border, reads⟩ := free.numeral p (known p rfl) i j m (Search.yields_done.1 h) a near
    refine ⟨border, ?_⟩
    intro c last levels found hf
    obtain ⟨n, hn, passes, -⟩ := reads c last
    have moves := (within_readNumeral? hn).1
    exact ⟨n, (Except.ok.inj hf).symm.trans hn, passes, Nat.le_of_lt moves, fun _ => moves⟩

theorem leads_owner {owner : RuleSet} (hs : owner ∈ r.book.sets) {mode : Mode}
    (hm : mode ∈ r.book.modes) (deeper : Nat) (hij : i ≤ j) (hj : j ≤ t.length)
    (h : (r.readTarget deeper owner mode .owner i j).Yields (r.Kept r' t) (some m))
    (near : r'.Near a i) : r'.Leads i j a m (r'.readTarget deeper owner mode .owner a) :=
  leads_readTarget modes free hs hm deeper (fun p hp => by cases hp) hij hj h near

/-! ## Rules with a base value -/

theorem leads_matchRung {s : RuleSet} (hs : s ∈ r.book.sets) : ∀ {ladder : List Rule}
    {bound : Option Nat} {deeper i j a : Nat} {m : Match}, ladder <:+ s.ladder →
      .integer bound ∈ r.book.modes → i ≤ j → j ≤ t.length →
        (r.matchRung s ladder bound deeper i j).Yields (r.Kept r' t) (some m) → r'.Near a i →
          r'.Leads i j a m (r'.matchRung s ladder bound deeper a)
  | [], _, _, _, _, _, _, _, _, _, _, h, _ => by cases h
  | rule :: below, bound, deeper, i, j, a, m, suffix, hb, hij, hj, h, near => by
    have mem := suffix.subset (List.mem_cons_self (a := rule))
    have divisor := RuleBook.mem_modes_of_mem hs mem
    have template := RuleSet.mem_templates_of_mem mem
    have same : r'.matchRung s (rule :: below) bound deeper a =
        r'.matchTemplate (r'.readRung s rule below bound deeper) (Parts.normal rule) rule.template
          a :=
      funext fun c => matchRung_cons ..
    rw [matchRung_cons] at h
    rw [same]
    refine leads_matchTemplate modes readsWithin_readRung readsWithin_readRung
      (fun l hl => free.literal l (RuleBook.mem_literals hs template hl)) ?_ hij hj h near
    intro sub hsub i j m a hij hj h near
    have known := @RuleBook.mem_patterns _ _ hs _ template _ hsub
    cases sub with
    | quotient target =>
      exact leads_readTarget modes free hs divisor deeper (known rfl) hij hj h near
    | same target => exact leads_readTarget modes free hs hb deeper (known rfl) hij hj h near
    | remainder target =>
      obtain ⟨found, hfound, h⟩ := Search.yields_bind.1 h
      obtain ⟨rfl, lt⟩ := Option.filter_eq_some_iff.1 (Search.yields_done.1 h)
      have leads := leads_readTarget modes free hs divisor deeper (known rfl) hij hj hfound near
      exact leads.filter fun c levels n last hx =>
        admits_readTarget free divisor (known rfl) hfound lt near last hx
    | forced =>
      cases below with
      | nil => exact leads_owner modes free hs divisor deeper hij hj h near
      | cons rule' below =>
        have rest : (rule' :: below) <:+ s.ladder := (List.suffix_cons ..).trans suffix
        exact leads_matchRung hs rest divisor hij hj h near

/-! ## Digits -/

theorem leads_digitStart? {s : RuleSet} (hs : s ∈ r.book.sets) (spells : s.spellsDigits)
    {spaced : Bool} {place start stop : Nat} (h : r.digitStart? spaced place stop = some start)
    (hstop : stop ≤ t.length) (near : r'.Near a place) :
    (∃ b, r'.Border b start) ∧ ∀ c, r'.Border c stop →
      ∃ a', r'.digitStart? spaced a c = some a' ∧ r'.Near a' start ∧ a ≤ a' := by
  unfold digitStart? at h
  split at h
  · rename_i together
    obtain rfl := Option.some.inj h
    refine ⟨near.border, fun c _ => ⟨a, ?_, near, Nat.le_refl a⟩⟩
    rw [digitStart?, if_pos together]
  · rename_i apart
    rw [modes.strict.lenient, if_neg Bool.false_ne_true] at h
    split at h
    · rename_i blank
      obtain rfl := Option.some.inj h
      obtain ⟨lt, key⟩ := Bool.and_eq_true_iff.1 blank
      have lt := of_decide_eq_true lt
      have near' {c k : Nat} (last : r'.Border c k) (lt : place < k) :
          r'.Near (r'.skip (c - a) a) (place + 1) :=
        modes.folded.near_skip (by decide) (free.separator s hs spells) near
          (modes.strict.hasKey key) last lt
      refine ⟨(near' modes.folded.border_size (by omega)).border, fun c last =>
        ⟨_, ?_, near' last lt, (within_skip _ _).1⟩⟩
      rw [digitStart?, if_neg apart, if_pos modes.folded.lenient]
    · cases h

/-- The lenient reader reads a digit that ends where that of the strict one ends, and goes on from
    there. -/
theorem leadsDigits_digit {s : RuleSet} (hs : s ∈ r.book.sets) (spells : s.spellsDigits)
    {spaced : Bool} {place start stop : Nat} {digits : Text} {digit : Char} {d : Text × Nat}
    (hp : place ≤ stop) (hstop : stop ≤ t.length)
    (hstart : r.digitStart? (spaced && digits ≠ []) place stop = some start)
    (kept : r.Kept r' t ⟨s, .integer (some 10), start, stop⟩ (some m))
    (hdigit : digit? start m = some digit)
    (ih : ∀ a, r'.Near a m.stop → r'.LeadsDigits s spaced stop m.stop a (digit :: digits) d)
    (near : r'.Near a place) : r'.LeadsDigits s spaced stop place a digits d := by
  have start_le := within_digitStart? hstart hp
  have ten : .integer (some 10) ∈ r.book.modes := by simp [RuleBook.modes]
  have hq : ⟨s, .integer (some 10), start, stop⟩ ∈ r.book.questions t.length :=
    RuleBook.mem_questions.2 ⟨hs, ten, start_le.2, hstop⟩
  obtain ⟨⟨b₀, first⟩, starts⟩ := leads_digitStart? modes free hs spells hstart hstop near
  obtain ⟨⟨b, border⟩, -⟩ := kept.leads_ask hq first.near 0
  refine ⟨(ih b border.near).1, ?_⟩
  intro c last levels fuel digits' d' same enough h
  obtain ⟨a', hstart', near', le⟩ := starts c last
  obtain ⟨n, rfl⟩ : ∃ n, fuel = n + 1 := ⟨fuel - 1, by omega⟩
  have flags : (spaced && decide (digits' ≠ [])) = (spaced && decide (digits ≠ [])) := by
    simp only [ne_eq, same]
  rw [readDigitsFrom, flags, hstart'] at h
  obtain ⟨x, hx, h⟩ := Search.eval_ask_eq_ok.1 h
  obtain ⟨m', rfl, follows⟩ :=
    (kept.leads_ask hq near' 0).2 c last levels x (Search.eval_ask.trans hx)
  obtain ⟨isDigit, short⟩ := free.digit s hs spells start stop m kept.gives
    (by rw [hdigit]; rfl) a' c near' last levels m' hx
  obtain ⟨digit', hdigit'⟩ := Option.isSome_iff_exists.1 isDigit
  have inside : a' ≤ m'.stop ∧ m'.stop ≤ c :=
    fresh_holds closed_spans hx (near'.le last start_le.2) m' rfl
  have moves := (isDigit_of_digit? hdigit').1
  have near'' := follows.passes.near short (inside.2.trans last.le)
  dsimp only at h
  rw [hdigit'] at h
  obtain ⟨follows', keeps⟩ :=
    (ih m'.stop near'').2 c last levels n (digit' :: digits') d' (by simp) (by omega) h
  have further : a < d'.2 := Nat.lt_of_lt_of_le (by omega) follows'.le
  exact ⟨⟨follows'.passes, Nat.le_of_lt further, fun _ => further⟩, keeps⟩

/-- **A row of digits that the strict reader reads leads the lenient one.** -/
theorem leads_readDigitsFrom {s : RuleSet} (hs : s ∈ r.book.sets) (spells : s.spellsDigits)
    {spaced : Bool} {stop : Nat} (hstop : stop ≤ t.length) : ∀ {fuel : Nat} {digits : Text}
      {place : Nat} {d : Text × Nat} (a : Nat), place ≤ stop → r'.Near a place →
        (r.readDigitsFrom s spaced stop fuel digits place).Yields (r.Kept r' t) d →
          r'.LeadsDigits s spaced stop place a digits d
  | 0, _, _, _, _, hp, near, h => by
    cases h
    exact near.leadsDigits hp ..
  | fuel + 1, digits, place, d, a, hp, near, h => by
    unfold readDigitsFrom at h
    split at h
    · cases h
      exact near.leadsDigits hp ..
    · rename_i start hstart
      have start_le := within_digitStart? hstart hp
      obtain ⟨found, kept, h⟩ := h
      dsimp only at h
      split at h
      · cases h
        exact near.leadsDigits hp ..
      · rename_i m
        split at h
        · cases h
          exact near.leadsDigits hp ..
        · rename_i digit hdigit
          have inside := kept.spans modes start_le.2 m rfl
          have ih (a : Nat) (near : r'.Near a m.stop) :=
            leads_readDigitsFrom hs spells hstop a inside.2 near h
          exact leadsDigits_digit modes free hs spells hp hstop hstart kept hdigit ih near

theorem leads_readDigits {s : RuleSet} (hs : s ∈ r.book.sets) (spells : s.spellsDigits)
    {spaced : Bool} (hij : i ≤ j) (hj : j ≤ t.length)
    (h : (r.readDigits s spaced i j).Yields (r.Kept r' t) (some m)) (near : r'.Near a i) :
    r'.Leads i j a m (r'.readDigits s spaced a) := by
  obtain ⟨d, hd, h⟩ := Search.yields_bind.1 h
  obtain ⟨border, leads⟩ := leads_readDigitsFrom modes free hs spells hj a hij near hd
  dsimp only at h
  split at h
  · cases h
  · rename_i ne
    obtain rfl := Option.some.inj (Search.yields_done.1 h)
    refine ⟨border, ?_⟩
    intro c last levels found hf
    obtain ⟨d', hd', hf⟩ := Search.eval_bind.1 hf
    obtain ⟨follows, keeps⟩ := leads c last levels _ [] d' Iff.rfl (Nat.lt_succ_self _) hd'
    dsimp only at hf
    rw [if_neg (keeps ne)] at hf
    cases hf
    exact ⟨_, rfl, follows⟩

/-! ## Other rules -/

theorem leads_special {s : RuleSet} (hs : s ∈ r.book.sets) {template : Template}
    (mem : template ∈ s.templates) {sub : Substitution} (hsub : sub ∈ template.substitutions)
    {digital : Prop} (spells : digital → s.spellsDigits)
    {x : Reader → (start stop : Nat) → Search (Option Match)} (reads : SpecialRead s sub digital x)
    (hij : i ≤ j) (hj : j ≤ t.length) (h : (x r i j).Yields (r.Kept r' t) (some m))
    (near : r'.Near a i) : r'.Leads i j a m (x r' a) := by
  cases reads with
  | target mode target unbound named =>
    have known : ∀ p, target.pattern? = some p → p ∈ r.book.patterns := by
      rcases named with rfl | named
      · exact fun p hp => by cases hp
      · exact RuleBook.mem_patterns hs mem hsub named
    exact leads_readTarget modes free hs (r.book.mem_modes_of_unbound unbound) 0 known hij hj h near
  | default =>
    have integer : .integer none ∈ r.book.modes := r.book.mem_modes_of_unbound rfl
    dsimp only
    rw [modes.book]
    exact leads_owner modes free (RuleBook.default_mem hs) integer 0 hij hj h near
  | digits spaced digital => exact leads_readDigits modes free hs (spells digital) hij hj h near

/-! ## Answers -/

theorem leads_normal {q : Question} (hq : q ∈ r.book.questions t.length) {rule : Rule}
    {below : List Rule} (suffix : (rule :: below) <:+ q.set.ladder)
    (hb : .integer q.mode.bound? ∈ r.book.modes) (mem : .normal rule below ∈ q.set.candidates q.mode)
    (h : (r.matchCandidate q (.normal rule below)).Yields (r.Kept r' t) (some m))
    (near : r'.Near a q.start) : r'.Leads q.start q.stop a m
      fun e => r'.matchCandidate ⟨q.set, q.mode, a, e⟩ (.normal rule below) := by
  obtain ⟨hs, hmode, hij, hj⟩ := RuleBook.mem_questions.1 hq
  have given := h.mono fun _ _ kept => kept.gives
  obtain ⟨found, hfound, h⟩ := Search.yields_bind.1 h
  obtain ⟨rfl, -⟩ := Option.filter_eq_some_iff.1 (Search.yields_done.1 h)
  have leads := leads_matchRung modes free hs suffix hb hij hj hfound near
  exact leads.filter fun e levels n last hx =>
    free.value q.set hs q.mode hmode rule below mem q.start q.stop m given a e near last levels n hx

theorem leads_matchCandidate {q : Question} (hq : q ∈ r.book.questions t.length) {c : Candidate}
    (mem : c ∈ q.set.candidates q.mode)
    (h : (r.matchCandidate q c).Yields (r.Kept r' t) (some m)) (near : r'.Near a q.start) :
    r'.Leads q.start q.stop a m fun e => r'.matchCandidate ⟨q.set, q.mode, a, e⟩ c := by
  obtain ⟨hs, hmode, hij, hj⟩ := RuleBook.mem_questions.1 hq
  have apart {template : Template} (ht : template ∈ q.set.templates) :
      ∀ l ∈ template.literals, r'.Apart t l :=
    fun l hl => free.literal l (RuleBook.mem_literals hs ht hl)
  rcases q with ⟨s, mode, i, j⟩
  cases Mode.allows_of_mem mem with
  | @negative template ht =>
    have special : s.special .negative = some template := ht
    have mem := RuleSet.mem_templates_of_special special
    exact leads_matchTemplate modes (readsWithin_readNegative s) (readsWithin_readNegative s)
      (apart mem) (fun sub hsub _ _ _ _ =>
        leads_special modes free hs mem hsub False.elim (special_readNegative s sub)) hij hj h near
  | fraction ne ht =>
    have mem := RuleSet.mem_templates_of_special ht
    exact leads_matchTemplate modes (readsWithin_readFraction s) (readsWithin_readFraction s)
      (apart mem) (fun sub hsub _ _ _ _ => leads_special modes free hs mem hsub
        (RuleSet.spellsDigits_of_mem (RuleSet.mem_fractionTemplates ht ne) hsub)
        (special_readFraction s sub)) hij hj h near
  | normal suffix =>
    exact leads_normal modes free hq suffix (by simp [RuleBook.modes, Mode.bound?]) mem h near
  | bounded suffix _ => exact leads_normal modes free hq suffix hmode mem h near
  | @numerator rule hrule _ =>
    have mem := RuleSet.mem_templates_of_mem hrule
    exact leads_matchTemplate modes (readsWithin_readNumerator s) (readsWithin_readNumerator s)
      (apart mem) (fun sub hsub _ _ _ _ =>
        leads_special modes free hs mem hsub False.elim (special_readNumerator s sub)) hij hj h near

/-- **The lenient reader comes as far as every answer of the strict one.** -/
theorem keeps_of_gives {q : Question} {found : Option Match} (h : r.Gives q found) :
    r.Keeps r' t q found := by
  refine h.holds_of_search modes.distinct (fun _ _ => id) (fun _ _ none => by cases none)
    fun q _ _ h m hm hq a near => ?_
  subst hm
  rcases Search.yields_longest h with h | ⟨c, mem, h⟩
  · cases h
  · obtain ⟨border, leads⟩ := leads_matchCandidate modes free hq mem h near
    refine ⟨border, ?_⟩
    intro e last levels found hf
    rw [Search.eval_ask] at hf
    cases levels with
    | zero => exact absurd hf (fresh_zero List.not_mem_nil _ _)
    | succ levels =>
      rw [fresh_succ_zero List.not_mem_nil] at hf
      obtain ⟨x, hx⟩ := Search.exists_eval_of_longest mem hf
      obtain ⟨n, rfl, follows⟩ := leads e last _ _ hx
      obtain ⟨n', rfl, le⟩ := Search.reaches_longest hx ⟨n, rfl, Nat.le_refl _⟩ mem hf
      exact ⟨n', rfl, follows.mono le⟩

end Substitutions

end Reader
end Spellout
