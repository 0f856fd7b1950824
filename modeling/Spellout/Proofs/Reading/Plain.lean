/-
  Reading plainly: without a memory, and with all trials made.

  The plain reader tries every split of a stretch, also behind one that has come to the end, and it
  searches for a question each time the question comes up.  It refuses a question on the same levels
  as the other reader does.

  * `Reader.plainRead` is the plain reader, from `Search.overAllSplits` upwards;
  * `Search.Refines`: one search ends as another one does;
  * `Reader.fresh_of_plainAnswer`: a trial behind one that has come to the end changes nothing;
  * `Reader.read_of_plainRead`: what is read plainly is read.
-/
import Spellout.Numeral.Decimal
import Spellout.Proofs.Reading.Memory
import Spellout.Proofs.Reading.Span

namespace Spellout

/-! ## The plain reader -/

/-- Tries all splits; the furthest trial counts, the first one of two at the same place. -/
def Search.overAllSplits (attempt : Nat → Search (Option Progress)) :
    List Nat → Option Progress → Search (Option Progress)
  | [], best => .done best
  | split :: rest, best => do
    overAllSplits attempt rest (Progress.further best (← attempt split))

namespace Reader

/-- Matches a sequence of elements from `place` on, with all splits tried. -/
def plainElements (r : Reader) (read : SubReader) (stop : Nat) :
    List Element → Nat → Parts → Search (Option Progress)
  | [], place, parts => .done (some ⟨place, parts⟩)
  | .literal l :: rest, place, parts =>
    match r.matchLiteral? l place stop with
    | some next => r.plainElements read stop rest next parts
    | none => .done none
  | [.substitution sub], place, parts => do
    return (← read sub place stop).map fun m => ⟨m.stop, parts.add sub m.value⟩
  | .substitution sub :: rest, place, parts =>
    Search.overAllSplits
      (fun split =>
        if r.mayStart stop rest split then do
          match r.covering? split (← read sub place split) with
          | some v => r.plainElements read stop rest split (parts.add sub v)
          | none => .done none
        else .done none)
      (List.range' place (stop + 1 - place)) none

/-- The longest match of a template at the start of a stretch, with all splits tried. -/
def plainTemplate (r : Reader) (read : SubReader) (value : Parts → Binary64) (t : Template)
    (start stop : Nat) : Search (Option Match) :=
  Search.longest
    (fun pieces => do
      return (← r.plainElements read stop (pieces.map r.element) start {}).map
        fun p => ⟨value p.parts, p.place⟩)
    t.alternatives none

/-- The longest match of the first rule of a ladder, with all splits tried. -/
def plainRung (r : Reader) (s : RuleSet) : List Rule → Option Nat → Nat → (start stop : Nat) →
    Search (Option Match)
  | [], _, _, _, _ => .done none
  | rule :: below, bound, deeper, start, stop =>
    let forced : (start stop : Nat) → Search (Option Match) :=
      match below with
      | [] => r.readTarget deeper s (.integer (some rule.divisor)) .owner
      | _ :: _ => r.plainRung s below (some rule.divisor) (deeper + 1)
    r.plainTemplate (r.readNormal s rule bound deeper forced) (Parts.normal rule) rule.template
      start stop

/-- The longest match of a candidate for a question, with all splits tried. -/
def plainCandidate (r : Reader) (q : Question) : Candidate → Search (Option Match)
  | .negative t => r.plainTemplate (r.readNegative q.set) Parts.negative t q.start q.stop
  | .fraction t => r.plainTemplate (r.readFraction q.set) Parts.fraction t q.start q.stop
  | .normal rule below => do
    let found ← r.plainRung q.set (rule :: below) q.mode.bound? 0 q.start q.stop
    return found.filter fun m => q.mode.admits m.value
  | .numerator rule =>
    r.plainTemplate (r.readNumerator q.set) (Parts.numerator rule) rule.template q.start q.stop

/-- The search for the answer to a question, with all splits tried. -/
def plainSearch (r : Reader) (q : Question) : Search (Option Match) :=
  Search.longest (r.plainCandidate q) (q.set.candidates q.mode) none

/-- The answer to a question, searched for each time: `levels` are left, and `deeper` of them are
    passed over. -/
def plainAnswer (r : Reader) : (levels deeper : Nat) → Question → Except Error (Option Match)
  | 0, _, q => .error (.depthExceeded q.set.name r.limit)
  | levels + 1, 0, q => (r.plainSearch q).eval (r.plainAnswer levels)
  | levels + 1, deeper + 1, q => r.plainAnswer levels deeper q

/-- The value that a set reads plainly at the start of the text, and the number of bytes it is read
    from. -/
def plainRead (r : Reader) (s : RuleSet) : Except Error (Option (Binary64 × Nat)) := do
  let found ← r.plainAnswer (r.limit + 1) 0 ⟨s, .full, 0, r.symbols.size⟩
  return (found.filter fun m => 0 < m.stop).map fun m => (m.value, r.bytesBefore m.stop)

end Reader

/-! ## Searches that end alike -/

namespace Search

variable {α β : Type} {answer : Nat → Question → Except Error (Option Match)}

/-- Whatever `x` ends with, `y` ends with. -/
def Refines (answer : Nat → Question → Except Error (Option Match)) (x y : Search α) : Prop :=
  ∀ a, x.eval answer = .ok a → y.eval answer = .ok a

theorem Refines.refl (x : Search α) : Refines answer x x := fun _ h => h

theorem Refines.bind {x y : Search α} {f g : α → Search β} (h : Refines answer x y)
    (hfg : ∀ a, Refines answer (f a) (g a)) : Refines answer (x.bind f) (y.bind g) := by
  intro b hb
  obtain ⟨a, ha, hb⟩ := eval_bind.1 hb
  exact eval_bind.2 ⟨a, h a ha, hfg a b hb⟩

theorem Refines.longest {f g : β → Search (Option Match)} (h : ∀ b, Refines answer (f b) (g b)) :
    ∀ (l : List β) (best : Option Match), Refines answer (longest f l best) (longest g l best)
  | [], _ => .refl _
  | b :: rest, best => Refines.bind (h b) fun m => Refines.longest h rest (Match.longer best m)

/-- A match that has come to the end of the stretch is not replaced. -/
theorem further_of_place_eq {stop : Nat} {b : Progress} {p : Option Progress} (hb : b.place = stop)
    (hp : ∀ p', p = some p' → p'.place ≤ stop) : Progress.further (some b) p = some b := by
  cases p with
  | none => rfl
  | some p' =>
    have := hp p' rfl
    simp only [Progress.further]
    rw [if_neg (by omega)]

theorem eval_overAllSplits_of_place_eq {stop : Nat} {attempt : Nat → Search (Option Progress)}
    {b : Progress} (hb : b.place = stop) : ∀ {splits : List Nat} {res : Option Progress},
      (∀ split ∈ splits, ∀ p, (attempt split).eval answer = .ok (some p) → p.place ≤ stop) →
        (overAllSplits attempt splits (some b)).eval answer = .ok res → res = some b
  | [], _, _, h => (Except.ok.inj h).symm
  | split :: rest, res, hs, h => by
    obtain ⟨p, hp, h⟩ := eval_bind.1 h
    rw [further_of_place_eq hb fun p' hp' => hs split (by simp) p' (hp' ▸ hp)] at h
    exact eval_overAllSplits_of_place_eq hb (fun s hs' => hs s (by simp [hs'])) h

/-- A row of trials may end when one has come to the end of the stretch. -/
theorem Refines.overSplits {stop : Nat} {attempt attempt' : Nat → Search (Option Progress)} :
    ∀ {splits : List Nat} (_ : ∀ split ∈ splits, Refines answer (attempt split) (attempt' split))
      (_ : ∀ split ∈ splits, ∀ p, (attempt' split).eval answer = .ok (some p) → p.place ≤ stop)
      (best : Option Progress),
        Refines answer (overAllSplits attempt splits best)
          (Search.overSplits stop attempt' splits best)
  | [], _, _, _ => .refl _
  | split :: rest, href, hstop, best => by
    intro res h
    obtain ⟨p, hp, h⟩ := eval_bind.1 h
    refine eval_bind.2 ⟨p, href split (by simp) p hp, ?_⟩
    dsimp only
    split
    · rename_i reached
      cases hb : Progress.further best p with
      | none => simp [hb] at reached
      | some b =>
        have hbs : b.place = stop := by simpa [hb] using reached
        rw [hb] at h
        rw [eval_overAllSplits_of_place_eq hbs (fun s hs q hq =>
          hstop s (by simp [hs]) q (href s (by simp [hs]) _ hq)) h]
        rfl
    · exact Refines.overSplits (fun s hs => href s (by simp [hs]))
        (fun s hs => hstop s (by simp [hs])) _ res h

end Search

/-! ## The two readers -/

namespace Reader

variable {r : Reader} {answer : Nat → Question → Except Error (Option Match)}

/-- Answers lie inside the stretches they are asked for. -/
def AnswersWithin (answer : Nat → Question → Except Error (Option Match)) : Prop :=
  ∀ deeper q m, answer deeper q = .ok m → q.Spans m

/-- Two ways to read substitutions: where the first one has a result the second one has it, and that
    one stays inside its stretch. -/
structure ReadsAlike (answer : Nat → Question → Except Error (Option Match))
    (read read' : SubReader) : Prop where
  refines : ∀ sub i j, Search.Refines answer (read sub i j) (read' sub i j)
  within : ReadsWithin read'

theorem refines_plainElements (spans : AnswersWithin answer) {read read' : SubReader} {stop : Nat}
    (alike : ReadsAlike answer read read') (els : List Element) (place : Nat) (parts : Parts) :
    Search.Refines answer (r.plainElements read stop els place parts)
      (r.matchElements read' stop els place parts) := by
  fun_induction plainElements r read stop els place parts with
  | case1 place parts => exact .refl _
  | case2 l rest place parts next hl ih =>
    simp only [matchElements, hl]
    exact ih
  | case3 l rest place parts hl =>
    simp only [matchElements, hl]
    exact .refl _
  | case4 sub place parts => exact (alike.refines _ _ _).bind fun _ => .refl _
  | case5 sub rest place parts ne ih =>
    rw [matchElements.eq_4 _ _ _ _ _ _ _ ne]
    refine Search.Refines.overSplits (fun split hs => ?_) (fun split hs p hp => ?_) none
    · split
      · refine (alike.refines _ _ _).bind fun m => ?_
        cases r.covering? split m with
        | some v => exact ih _ _
        | none => exact .refl _
      · exact .refl _
    · -- the trial goes on with the elements behind the substitution, from the split on
      have hsplit : split ≤ stop := by
        have := List.mem_range'_1.1 hs
        omega
      split at hp
      · obtain ⟨m, -, hp⟩ := Search.eval_bind.1 hp
        split at hp
        · have trail := yields_matchElements (Search.yields_of_eval spans hp)
          exact (trail.within alike.within hsplit).2
        · cases hp
      · cases hp

theorem refines_plainTemplate (spans : AnswersWithin answer) {read read' : SubReader} {stop : Nat}
    (alike : ReadsAlike answer read read') (value : Parts → Binary64) (t : Template) (start : Nat) :
    Search.Refines answer (r.plainTemplate read value t start stop)
      (r.matchTemplate read' value t start stop) :=
  Search.Refines.longest
    (fun _ => (refines_plainElements spans alike _ _ _).bind fun _ => .refl _) _ _

theorem readsAlike_readNormal {s : RuleSet} {rule : Rule} {bound : Option Nat} {deeper : Nat}
    {forced forced' : (start stop : Nat) → Search (Option Match)}
    (href : ∀ i j, Search.Refines answer (forced i j) (forced' i j))
    (hw : ∀ i j m, i ≤ j → (forced' i j).Yields Question.Spans (some m) →
      i ≤ m.stop ∧ m.stop ≤ j) :
    ReadsAlike answer (r.readNormal s rule bound deeper forced)
      (r.readNormal s rule bound deeper forced') where
  refines sub i j := by
    cases sub with
    | forced => exact href i j
    | quotient | remainder | same => exact .refl _
  within := readsWithin_readNormal hw

theorem refines_plainRung (spans : AnswersWithin answer) {s : RuleSet} :
    ∀ (ladder : List Rule) (bound : Option Nat) (deeper i j : Nat),
      Search.Refines answer (r.plainRung s ladder bound deeper i j)
        (r.matchRung s ladder bound deeper i j)
  | [], _, _, _, _ => .refl _
  | [_], _, _, _, _ =>
    refines_plainTemplate spans
      (readsAlike_readNormal (fun _ _ => .refl _) fun _ _ _ hij h => within_readTarget hij h) _ _ _
  | _ :: rule' :: below, _, _, _, _ =>
    refines_plainTemplate spans
      (readsAlike_readNormal (refines_plainRung spans (rule' :: below) _ _)
        fun _ _ _ hij h => within_matchRung hij h) _ _ _

theorem refines_plainCandidate (spans : AnswersWithin answer) (q : Question) (c : Candidate) :
    Search.Refines answer (r.plainCandidate q c) (r.matchCandidate q c) := by
  have same {read : SubReader} (h : ReadsWithin read) : ReadsAlike answer read read :=
    ⟨fun _ _ _ => .refl _, h⟩
  cases c with
  | negative t => exact refines_plainTemplate spans (same (readsWithin_readNegative _)) _ _ _
  | fraction t => exact refines_plainTemplate spans (same (readsWithin_readFraction _)) _ _ _
  | normal rule below => exact (refines_plainRung spans _ _ _ _ _).bind fun _ => .refl _
  | numerator rule => exact refines_plainTemplate spans (same (readsWithin_readNumerator _)) _ _ _

/-- **What the plain reader answers is the answer without a memory,** trials that can change nothing
    being left out. -/
theorem fresh_of_plainAnswer : ∀ {levels deeper : Nat} {q : Question} {m : Option Match},
    r.plainAnswer levels deeper q = .ok m → r.fresh [] levels deeper q = .ok m
  | 0, _, _, _, h => by cases h
  | levels + 1, 0, q, m, h => by
    rw [fresh_succ_zero (by simp)]
    have spans : AnswersWithin (r.fresh [] levels) := fun _ _ _ => fresh_holds closed_spans
    exact Search.Refines.longest (refines_plainCandidate spans q) _ _ _
      (Search.eval_mono (fun _ _ _ => fresh_of_plainAnswer) h)
  | levels + 1, deeper + 1, q, m, h => @fresh_of_plainAnswer levels deeper q m h

theorem answer_of_plainAnswer (distinct : r.book.Distinct) {q : Question} (hq : r.InBook q)
    {levels : Nat} {m : Option Match} (h : r.plainAnswer levels 0 q = .ok m) :
    ∃ memo, r.answer levels 0 q Memo.empty = .ok (m, memo) :=
  answer_empty_of_fresh distinct hq (fresh_of_plainAnswer h) (Nat.le_refl _)

theorem read_eq_of_plainRead (distinct : r.book.Distinct) {s : RuleSet} (hs : s ∈ r.book.sets)
    {result : Option (Binary64 × Nat)} (h : r.plainRead s = .ok result) : r.read s = .ok result := by
  unfold plainRead at h
  unfold read
  obtain ⟨found, ha, h⟩ := bind_eq_ok.1 h
  obtain ⟨memo, ha'⟩ := answer_of_plainAnswer distinct (q := ⟨s, .full, 0, r.symbols.size⟩) hs ha
  exact bind_eq_ok.2 ⟨(found, memo), ha', h⟩

/-- **What is read plainly is read:** a memory, and leaving out trials behind one that has come to
    the end, change no result.  The text may have a match or none. -/
theorem read_of_plainRead {description : Text} {book : RuleBook}
    (compiled : RuleBook.ofDescription description = .ok book) (numerals : NumeralSystem)
    (lenient : Bool) (limit : Nat) (t : Text) {s : RuleSet} (hs : s ∈ book.sets)
    {result : Option (Binary64 × Nat)}
    (h : (ofText book numerals lenient limit t).plainRead s = .ok result) :
    (ofText book numerals lenient limit t).read s = .ok result :=
  read_eq_of_plainRead (RuleBook.distinct_of_ofDescription compiled) hs h

/-- Numbers in words made of four digits, from a digit's tens downwards. -/
def counting : Text := "-x: minus >>; zero; one; two; three; 10: <<ty[->>];".toList

/-- The rule set of `counting`. -/
def countingSet : RuleSet where
  name := SetName.unnamed
  negative := some [.piece (.literal "minus ".toList), .piece (.substitution (.remainder .owner))]
  ladder :=
    [⟨10, 10, 0, false,
      [.piece (.substitution (.quotient .owner)), .piece (.literal "ty".toList),
        .optional [.literal "-".toList, .substitution (.remainder .owner)]]⟩,
     ⟨3, 10, 0, true, [.piece (.literal "three".toList)]⟩,
     ⟨2, 10, 0, true, [.piece (.literal "two".toList)]⟩,
     ⟨1, 10, 0, true, [.piece (.literal "one".toList)]⟩,
     ⟨0, 10, 0, true, [.piece (.literal "zero".toList)]⟩]

/-- A value below zero is read with questions inside questions. -/
theorem read_of_plainRead_counting :
    let r := ofText ⟨[countingSet], .none⟩ NumeralSystem.decimal false 64 "minus twoty-one!".toList
    RuleBook.ofDescription counting = .ok ⟨[countingSet], .none⟩ ∧
      r.plainRead countingSet = .ok (some ((Binary64.ofNat 21).neg, 15)) ∧
      r.read countingSet = .ok (some ((Binary64.ofNat 21).neg, 15)) := by
  intro r
  have compiled : RuleBook.ofDescription counting = .ok ⟨[countingSet], .none⟩ := by decide +kernel
  have plain : r.plainRead countingSet = .ok (some ((Binary64.ofNat 21).neg, 15)) := by
    decide +kernel
  exact ⟨compiled, plain, read_of_plainRead compiled _ _ _ _ (by simp) plain⟩

end Reader
end Spellout
