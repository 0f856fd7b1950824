/-
  Reading with every look at the text checked.

  A text has so many symbols, and there is nothing to see beyond them.  Here is a reader that fails
  with a fault where it would look there all the same: at a symbol behind the last one, or along a
  stretch that does not lie in the text.  It also fails with the fault where it is asked about such a
  stretch, where an answer does not lie inside the stretch it was asked about, and where a numeral
  takes up nothing.  Whatever the fault is, the reader reads as if nothing were checked; so none of
  this ever happens.

  * `Reader.symbolAt`, `Reader.stretch`: checked looks at the text;
  * `Reader.guardedLiteral`, `Reader.guardedNumeral` and so on: what looks at the text, checked;
  * `Reader.guardedSearch`, `Reader.guardedAnswer`: searches and answers made of these;
  * `Search.Coincides`: two searches are the same as long as answers satisfy a predicate;
  * `Reader.coincides_guardedSearch`: a question about the text is searched as without checks;
  * `Reader.guardedRead_eq`: so the text is read as without checks.
-/
import Spellout.Proofs.Reading.Questions

namespace Spellout

namespace Reader

variable (r : Reader) (fault : Error)

/-! ## Looking at the text -/

/-- The symbol at a place. -/
def symbolAt (i : Nat) : Except Error Symbol :=
  match r.symbols[i]? with
  | some s => .ok s
  | none => .error fault

/-- The symbols of a stretch. -/
def stretch (i j : Nat) : Except Error (List Symbol) :=
  if i ≤ j ∧ j ≤ r.symbols.size then .ok ((r.symbols.toList.take j).drop i) else .error fault

/-- As `skip`. -/
def guardedSkip : Nat → Nat → Except Error Nat
  | 0, i => .ok i
  | n + 1, i => do
    let s ← r.symbolAt fault i
    if s.ignorable then guardedSkip n (i + 1) else return i

/-- Where `matchKeys?` looks for the next key. -/
def guardedStart (i stop : Nat) : Except Error Nat :=
  if r.lenient then r.guardedSkip fault (stop - i) i else .ok i

/-- As `matchKeys?`. -/
def guardedKeys (stop : Nat) : List SymbolKey → Nat → Except Error (Option Nat)
  | [], i => .ok (some i)
  | k :: keys, i => do
    let i ← r.guardedStart fault i stop
    if i < stop then
      let s ← r.symbolAt fault i
      if s.key = k then guardedKeys stop keys (i + 1) else return none
    else return none

/-- As `matchLiteral?`. -/
def guardedLiteral (l : Literal) (i stop : Nat) : Except Error (Option Nat) :=
  if l.keys = [] ∧ l.blank then do
    let j ← r.guardedSkip fault (stop - i) i
    return if i < j then some j else none
  else r.guardedKeys fault stop l.keys i

/-- As `covers`; only in lenient mode there is a look at what the match leaves. -/
def guardedCovers (m : Match) (stop : Nat) : Except Error Bool :=
  if m.stop = stop then .ok true
  else if r.lenient then do
    let left ← r.stretch fault m.stop stop
    return left.all Symbol.ignorable
  else .ok false

/-- As `readNumeral?`, which looks along the whole stretch; a numeral takes up something. -/
def guardedNumeral (p : NumeralPattern) (start stop : Nat) : Except Error (Option Match) := do
  let _ ← r.stretch fault start stop
  let found := r.readNumeral? p start stop
  if found.all fun m => start < m.stop then return found else .error fault

/-- As `digitStart?`. -/
def guardedDigitStart (separated : Bool) (place stop : Nat) : Except Error (Option Nat) :=
  if !separated then .ok (some place)
  else if r.lenient then do
    let next ← r.guardedSkip fault (stop - place) place
    return some next
  else if place < stop then do
    let s ← r.symbolAt fault place
    return if s.key = .char ' ' then some (place + 1) else none
  else .ok none

/-! ## Templates -/

/-- As `mayStart`. -/
def guardedMayStart (stop : Nat) (elements : List Element) (place : Nat) : Except Error Bool :=
  match elements with
  | .literal l :: _ => do
    let next ← r.guardedLiteral fault l place stop
    return next.isSome
  | _ => .ok true

/-- As `covering?`. -/
def guardedCovering (stop : Nat) : Option Match → Except Error (Option Binary64)
  | some m => do
    let covers ← r.guardedCovers fault m stop
    return if covers then some m.value else none
  | none => .ok none

/-- As `matchElements`. -/
def guardedElements (read : SubReader) (stop : Nat) :
    List Element → Nat → Parts → Search (Option Progress)
  | [], place, parts => .done (some ⟨place, parts⟩)
  | .literal l :: rest, place, parts => do
    match ← Search.ofExcept (r.guardedLiteral fault l place stop) with
    | some next => guardedElements read stop rest next parts
    | none => .done none
  | [.substitution sub], place, parts => do
    return (← read sub place stop).map fun m => ⟨m.stop, parts.add sub m.value⟩
  | .substitution sub :: rest, place, parts =>
    Search.overSplits stop
      (fun split => do
        if ← Search.ofExcept (r.guardedMayStart fault stop rest split) then
          match ← Search.ofExcept (r.guardedCovering fault split (← read sub place split)) with
          | some v => guardedElements read stop rest split (parts.add sub v)
          | none => .done none
        else .done none)
      (List.range' place (stop + 1 - place)) none

/-- As `matchTemplate`. -/
def guardedTemplate (read : SubReader) (value : Parts → Binary64) (t : Template)
    (start stop : Nat) : Search (Option Match) :=
  Search.longest
    (fun pieces => do
      return (← r.guardedElements fault read stop (pieces.map r.element) start {}).map
        fun p => ⟨value p.parts, p.place⟩)
    t.alternatives none

/-! ## Substitutions -/

/-- As `readTarget`. -/
def guardedTarget (deeper : Nat) (owner : RuleSet) (mode : Mode) (t : Target) (start stop : Nat) :
    Search (Option Match) :=
  match t with
  | .numeral p => Search.ofExcept (r.guardedNumeral fault p start stop)
  | t => r.readTarget deeper owner mode t start stop

/-- As `readDigitsFrom`. -/
def guardedDigitsFrom (s : RuleSet) (spaced : Bool) (stop : Nat) :
    Nat → Text → Nat → Search (Text × Nat)
  | 0, digits, place => .done (digits, place)
  | fuel + 1, digits, place => do
    match ← Search.ofExcept (r.guardedDigitStart fault (spaced && digits ≠ []) place stop) with
    | none => .done (digits, place)
    | some start =>
      .ask 0 ⟨s, .integer (some 10), start, stop⟩ fun found =>
        match found with
        | none => .done (digits, place)
        | some m =>
          match digit? start m with
          | none => .done (digits, place)
          | some c => guardedDigitsFrom s spaced stop fuel (c :: digits) m.stop

/-- As `readDigits`. -/
def guardedDigits (s : RuleSet) (spaced : Bool) (start stop : Nat) : Search (Option Match) := do
  let (digits, place) ← r.guardedDigitsFrom fault s spaced stop (stop - start + 1) [] start
  return if digits = [] then none
    else some ⟨Decimal.nearest false (.ofDigits [] digits.reverse), place⟩

/-- As `readNormal`. -/
def guardedNormal (s : RuleSet) (rule : Rule) (bound : Option Nat) (deeper : Nat)
    (forced : (start stop : Nat) → Search (Option Match)) : SubReader
  | .quotient t, start, stop =>
    r.guardedTarget fault deeper s (.integer (some rule.divisor)) t start stop
  | .remainder t, start, stop => do
    let found ← r.guardedTarget fault deeper s (.integer (some rule.divisor)) t start stop
    return found.filter fun m => m.value.lt (.ofNat rule.divisor)
  | .forced, start, stop => forced start stop
  | .same t, start, stop => r.guardedTarget fault deeper s (.integer bound) t start stop

/-- As `readFraction`. -/
def guardedFraction (s : RuleSet) : SubReader
  | .quotient t, start, stop => r.guardedTarget fault 0 s (.integer none) t start stop
  | .remainder .owner, start, stop => r.guardedDigits fault s true start stop
  | .remainder (.ruleSet name), start, stop =>
    r.guardedTarget fault 0 s .denominators (.ruleSet name) start stop
  | .forced, start, stop => r.guardedDigits fault s false start stop
  | .remainder t, start, stop | .same t, start, stop =>
    r.guardedTarget fault 0 s .full t start stop

/-- As `readNegative`. -/
def guardedNegative (s : RuleSet) : SubReader
  | .forced, start, stop => r.guardedTarget fault 0 s .full .owner start stop
  | .quotient t, start, stop | .remainder t, start, stop | .same t, start, stop =>
    r.guardedTarget fault 0 s .full t start stop

/-- As `readNumerator`. -/
def guardedNumerator (s : RuleSet) : SubReader
  | .quotient .owner, start, stop =>
    r.guardedTarget fault 0 (r.book.default?.getD s) (.integer none) .owner start stop
  | .forced, start, stop => r.guardedTarget fault 0 s (.integer none) .owner start stop
  | .quotient t, start, stop | .remainder t, start, stop | .same t, start, stop =>
    r.guardedTarget fault 0 s (.integer none) t start stop

/-! ## Rules and questions -/

/-- As `matchRung`. -/
def guardedRung (s : RuleSet) : List Rule → Option Nat → Nat → (start stop : Nat) →
    Search (Option Match)
  | [], _, _, _, _ => .done none
  | rule :: below, bound, deeper, start, stop =>
    let forced : (start stop : Nat) → Search (Option Match) :=
      match below with
      | [] => r.guardedTarget fault deeper s (.integer (some rule.divisor)) .owner
      | _ :: _ => guardedRung s below (some rule.divisor) (deeper + 1)
    r.guardedTemplate fault (r.guardedNormal fault s rule bound deeper forced) (Parts.normal rule)
      rule.template start stop

/-- As `matchCandidate`. -/
def guardedCandidate (q : Question) : Candidate → Search (Option Match)
  | .negative t =>
    r.guardedTemplate fault (r.guardedNegative fault q.set) Parts.negative t q.start q.stop
  | .fraction t =>
    r.guardedTemplate fault (r.guardedFraction fault q.set) Parts.fraction t q.start q.stop
  | .normal rule below => do
    let found ← r.guardedRung fault q.set (rule :: below) q.mode.bound? 0 q.start q.stop
    return found.filter fun m => q.mode.admits m.value
  | .numerator rule =>
    r.guardedTemplate fault (r.guardedNumerator fault q.set) (Parts.numerator rule) rule.template
      q.start q.stop

/-- As `search`. -/
def guardedSearch (q : Question) : Search (Option Match) :=
  Search.longest (r.guardedCandidate fault q) (q.set.candidates q.mode) none

/-- The answer to a question about a stretch of the text, if it lies inside the stretch. -/
def guard (q : Question) (answer : Remembered (Option Match)) : Remembered (Option Match) :=
  fun memo =>
    if q.start ≤ q.stop ∧ q.stop ≤ r.symbols.size then do
      let (found, memo) ← answer memo
      if found.all fun m => q.start ≤ m.stop && m.stop ≤ q.stop then return (found, memo)
      else .error fault
    else .error fault

/-- As `answer`. -/
def guardedAnswer : (levels deeper : Nat) → Question → Remembered (Option Match)
  | 0, _, q => r.guard fault q (Memo.recall q (r.refuse q))
  | levels + 1, 0, q => r.guard fault q (Memo.recall q fun memo =>
      (r.guardedSearch fault q).run (guardedAnswer levels) memo)
  | levels + 1, deeper + 1, q => guardedAnswer levels deeper q

/-- As `read`; the last symbol that was read is looked at for the place where it ends. -/
def guardedRead (s : RuleSet) : Except Error (Option (Binary64 × Nat)) := do
  let (found, _) ← r.guardedAnswer fault (r.limit + 1) 0 ⟨s, .full, 0, r.symbols.size⟩ Memo.empty
  match found.filter fun m => 0 < m.stop with
  | some m => do
    let _ ← r.symbolAt fault (m.stop - 1)
    return some (m.value, r.bytesBefore m.stop)
  | none => return none

/-! ## Looks that stay in the text -/

variable {r} {fault} {i j stop : Nat}

theorem symbolAt_eq (h : i < r.symbols.size) : r.symbolAt fault i = .ok r.symbols[i] := by
  rw [symbolAt, Array.getElem?_eq_getElem h]

theorem ignorableAt_eq (h : i < r.symbols.size) : r.ignorableAt i = r.symbols[i].ignorable := by
  rw [ignorableAt, Array.getElem?_eq_getElem h, Option.any_some]

theorem hasKey_eq (h : i < r.symbols.size) (k : SymbolKey) :
    r.hasKey i k = decide (r.symbols[i].key = k) := by
  rw [hasKey, Array.getElem?_eq_getElem h, Option.any_some]

theorem guardedSkip_eq : ∀ {n i : Nat}, i + n ≤ r.symbols.size →
    r.guardedSkip fault n i = .ok (r.skip n i)
  | 0, _, _ => rfl
  | n + 1, i, h => by
    have lt : i < r.symbols.size := by omega
    rw [guardedSkip, symbolAt_eq lt, skip, ignorableAt_eq lt]
    change (if r.symbols[i].ignorable then _ else _) = _
    split
    · exact guardedSkip_eq (by omega)
    · rfl

theorem guardedSkip_eq_of_le (hi : i ≤ stop) (hstop : stop ≤ r.symbols.size) :
    r.guardedSkip fault (stop - i) i = .ok (r.skip (stop - i) i) :=
  guardedSkip_eq (by omega)

theorem guardedStart_eq (hi : i ≤ stop) (hstop : stop ≤ r.symbols.size) :
    r.guardedStart fault i stop = .ok (if r.lenient then r.skip (stop - i) i else i) := by
  unfold guardedStart
  split
  · exact guardedSkip_eq_of_le hi hstop
  · rfl

theorem guardedKeys_eq (hstop : stop ≤ r.symbols.size) : ∀ {keys : List SymbolKey} {i : Nat},
    i ≤ stop → r.guardedKeys fault stop keys i = .ok (r.matchKeys? stop keys i)
  | [], _, _ => rfl
  | k :: keys, i, hi => by
    rw [guardedKeys, guardedStart_eq hi hstop, matchKeys?]
    generalize (if r.lenient then r.skip (stop - i) i else i) = i'
    change (if i' < stop then _ else _) = _
    by_cases inside : i' < stop
    · have lt : i' < r.symbols.size := by omega
      rw [if_pos inside, symbolAt_eq lt, hasKey_eq lt]
      simp only [inside, decide_true, Bool.true_and, decide_eq_true_eq]
      change (if _ then _ else _) = _
      split
      · exact guardedKeys_eq hstop (by omega)
      · rfl
    · rw [if_neg inside]
      simp only [inside, decide_false, Bool.false_and]
      rfl

theorem guardedLiteral_eq (l : Literal) (hi : i ≤ stop) (hstop : stop ≤ r.symbols.size) :
    r.guardedLiteral fault l i stop = .ok (r.matchLiteral? l i stop) := by
  unfold guardedLiteral matchLiteral?
  split
  · rw [guardedSkip_eq_of_le hi hstop]
    rfl
  · exact guardedKeys_eq hstop hi

theorem guardedDigitStart_eq (separated : Bool) (hi : i ≤ stop) (hstop : stop ≤ r.symbols.size) :
    r.guardedDigitStart fault separated i stop = .ok (r.digitStart? separated i stop) := by
  unfold guardedDigitStart digitStart?
  split
  · rfl
  · split
    · rw [guardedSkip_eq_of_le hi hstop]
      rfl
    · by_cases inside : i < stop
      · have lt : i < r.symbols.size := by omega
        rw [if_pos inside, symbolAt_eq lt, hasKey_eq lt]
        simp only [inside, decide_true, Bool.true_and, decide_eq_true_eq]
        change Except.ok (if _ then _ else _) = _
        rfl
      · rw [if_neg inside]
        simp only [inside, decide_false, Bool.false_and]
        rfl

theorem stretch_eq (hij : i ≤ j) (hj : j ≤ r.symbols.size) :
    r.stretch fault i j = .ok ((r.symbols.toList.take j).drop i) :=
  if_pos ⟨hij, hj⟩

theorem all_ignorableAt (hj : j ≤ r.symbols.size) : ∀ {n i : Nat}, i + n = j →
    (List.range' i n).all r.ignorableAt =
      ((r.symbols.toList.take j).drop i).all Symbol.ignorable
  | 0, i, h => by
    have done : (r.symbols.toList.take j).drop i = [] :=
      List.drop_eq_nil_of_le (by rw [List.length_take]; omega)
    rw [done]
    rfl
  | n + 1, i, h => by
    have lt : i < r.symbols.size := by omega
    have inside : i < (r.symbols.toList.take j).length := by
      rw [List.length_take, Array.length_toList]
      omega
    rw [List.range'_succ, List.all_cons, ignorableAt_eq lt, all_ignorableAt hj (by omega),
      List.drop_eq_getElem_cons inside, List.all_cons, List.getElem_take, Array.getElem_toList]

theorem guardedCovers_eq {m : Match} (hi : m.stop ≤ stop) (hstop : stop ≤ r.symbols.size) :
    r.guardedCovers fault m stop = .ok (r.covers m stop) := by
  unfold guardedCovers covers
  by_cases last : m.stop = stop
  · simp only [last, if_true, decide_true, Bool.true_or]
  · have lt : m.stop < stop := by omega
    rw [if_neg last, stretch_eq hi hstop, all_ignorableAt hstop (Nat.add_sub_cancel' hi)]
    simp only [last, lt, decide_false, decide_true, Bool.false_or, Bool.and_true]
    cases r.lenient with
    | false => rfl
    | true => rfl

theorem guardedNumeral_eq (p : NumeralPattern) (hij : i ≤ j) (hj : j ≤ r.symbols.size) :
    r.guardedNumeral fault p i j = .ok (r.readNumeral? p i j) := by
  have some : (r.readNumeral? p i j).all fun m => i < m.stop := by
    cases found : r.readNumeral? p i j with
    | none => rfl
    | some m => exact decide_eq_true (within_readNumeral? found).1
  rw [guardedNumeral, stretch_eq hij hj]
  exact if_pos some

end Reader

/-! ## Searches that are the same -/

namespace Search

variable {α β : Type} {P : Question → Option Match → Prop}

/-- The searches are the same, as long as answers satisfy `P`. -/
inductive Coincides (P : Question → Option Match → Prop) : Search α → Search α → Prop
  | done (a : α) : Coincides P (.done a) (.done a)
  | fail (e : Error) : Coincides P (.fail e) (.fail e)
  | ask (deeper : Nat) (q : Question) {next next' : Option Match → Search α} :
      (∀ m, P q m → Coincides P (next m) (next' m)) →
        Coincides P (.ask deeper q next) (.ask deeper q next')

namespace Coincides

theorem refl (x : Search α) : Coincides P x x := by
  induction x with
  | done a => exact .done a
  | fail e => exact .fail e
  | ask deeper q next ih => exact .ask deeper q fun m _ => ih m

theorem bind {x y : Search α} {f g : α → Search β} (h : Coincides P x y)
    (hf : ∀ a, y.Yields P a → Coincides P (f a) (g a)) : Coincides P (x.bind f) (y.bind g) := by
  induction h with
  | done a => exact hf a rfl
  | fail e => exact .fail e
  | ask deeper q _ ih => exact .ask deeper q fun m hm => ih m hm fun a ha => hf a ⟨m, hm, ha⟩

theorem bind_right {x y : Search α} (h : Coincides P x y) (f : α → Search β) :
    Coincides P (x.bind f) (y.bind f) :=
  h.bind fun a _ => .refl (f a)

theorem longest {f g : β → Search (Option Match)} : ∀ {l : List β} (best : Option Match),
    (∀ b ∈ l, Coincides P (f b) (g b)) →
      Coincides P (Search.longest f l best) (Search.longest g l best)
  | [], best, _ => .done best
  | b :: _, best, h =>
    (h b List.mem_cons_self).bind fun m _ =>
      longest (Match.longer best m) fun b' hb' => h b' (List.mem_cons_of_mem b hb')

theorem overSplits {stop : Nat} {attempt attempt' : Nat → Search (Option Progress)} :
    ∀ {splits : List Nat} (best : Option Progress),
      (∀ split ∈ splits, Coincides P (attempt split) (attempt' split)) →
        Coincides P (Search.overSplits stop attempt splits best)
          (Search.overSplits stop attempt' splits best)
  | [], best, _ => .done best
  | split :: _, best, h =>
    (h split List.mem_cons_self).bind fun p _ => by
      dsimp only
      split
      · exact .done _
      · exact overSplits _ fun split' hs' => h split' (List.mem_cons_of_mem split hs')

/-- Such searches are carried out in the same way, if all answers satisfy `P` and leave the memory
    good. -/
theorem run_eq {A : Nat → Question → Prop} {G : Memo → Prop}
    {answer answer' : Nat → Question → Remembered (Option Match)}
    (step : ∀ deeper q memo m memo', A deeper q → G memo →
      answer deeper q memo = .ok (m, memo') → P q m ∧ G memo')
    (same : ∀ deeper q memo, A deeper q → G memo → answer' deeper q memo = answer deeper q memo)
    {x y : Search α} (h : Coincides P x y) (bounded : y.Bounded P A) {memo : Memo}
    (good : G memo) : x.run answer' memo = y.run answer memo := by
  induction h generalizing memo with
  | done | fail => rfl
  | ask deeper q _ ih =>
    simp only [run, same deeper q memo bounded.1 good]
    cases ha : answer deeper q memo with
    | error e => rfl
    | ok found =>
      obtain ⟨hm, good'⟩ := step deeper q memo found.1 found.2 bounded.1 good ha
      exact ih found.1 hm (bounded.2 found.1 hm) good'

end Coincides
end Search

/-! ## Guarded searches -/

namespace Reader

variable {r : Reader} {fault : Error} {stop : Nat}

/-- Substitutions read alike in stretches of the text. -/
def ReadsSame (r : Reader) (read' read : SubReader) : Prop :=
  ∀ sub i j, i ≤ j → j ≤ r.symbols.size →
    Search.Coincides Question.Spans (read' sub i j) (read sub i j)

theorem guardedMayStart_eq (els : List Element) {i : Nat} (hi : i ≤ stop)
    (hstop : stop ≤ r.symbols.size) :
    r.guardedMayStart fault stop els i = .ok (r.mayStart stop els i) := by
  rcases els with _ | ⟨l | sub, rest⟩
  · rfl
  · rw [guardedMayStart, guardedLiteral_eq l hi hstop]
    rfl
  · rfl

theorem guardedCovering_eq {m : Option Match} (hm : ∀ n, m = some n → n.stop ≤ stop)
    (hstop : stop ≤ r.symbols.size) :
    r.guardedCovering fault stop m = .ok (r.covering? stop m) := by
  cases m with
  | none => rfl
  | some m =>
    rw [guardedCovering, guardedCovers_eq (hm m rfl) hstop, covering?, Option.filter_some]
    change Except.ok (if _ then _ else _) = _
    split <;> rfl

theorem coincides_guardedElements {read read' : SubReader} (same : r.ReadsSame read' read)
    (within : ReadsWithin read) (hstop : stop ≤ r.symbols.size) (els : List Element) (place : Nat)
    (parts : Parts) (hplace : place ≤ stop) :
    Search.Coincides Question.Spans (r.guardedElements fault read' stop els place parts)
      (r.matchElements read stop els place parts) := by
  fun_induction matchElements r read stop els place parts with
  | case1 place parts => exact .done _
  | case2 l rest place parts next hl ih =>
    rw [guardedElements, guardedLiteral_eq l hplace hstop, hl]
    exact ih (within_matchLiteral? hl hplace).2
  | case3 l rest place parts hl =>
    rw [guardedElements, guardedLiteral_eq l hplace hstop, hl]
    exact .done _
  | case4 sub place parts =>
    exact (same sub place stop hplace hstop).bind_right _
  | case5 sub rest place parts ne ih =>
    rw [guardedElements]
    swap
    · exact ne
    refine Search.Coincides.overSplits _ fun split hs => ?_
    have range := List.mem_range'_1.1 hs
    have le : split ≤ stop := by omega
    have inside : split ≤ r.symbols.size := Nat.le_trans le hstop
    rw [guardedMayStart_eq _ le hstop]
    change Search.Coincides _ (if r.mayStart stop rest split then _ else _) _
    split
    · refine (same sub place split range.1 inside).bind fun m hm => ?_
      have ends : ∀ n, m = some n → n.stop ≤ split := by
        rintro n rfl
        exact (within sub place split n range.1 hm).2
      rw [guardedCovering_eq ends inside]
      change Search.Coincides _ (match r.covering? split m with | some v => _ | none => _) _
      cases r.covering? split m with
      | some v => exact ih split v le
      | none => exact .done _
    · exact .done _

theorem coincides_guardedTemplate {read read' : SubReader} (same : r.ReadsSame read' read)
    (within : ReadsWithin read) (value : Parts → Binary64) (t : Template) {i j : Nat} (hij : i ≤ j)
    (hj : j ≤ r.symbols.size) :
    Search.Coincides Question.Spans (r.guardedTemplate fault read' value t i j)
      (r.matchTemplate read value t i j) :=
  .longest none fun _ _ =>
    (coincides_guardedElements same within hj _ _ _ hij).bind_right _

theorem coincides_guardedTarget (fault : Error) (deeper : Nat) (owner : RuleSet) (mode : Mode) (t : Target)
    {i j : Nat} (hij : i ≤ j) (hj : j ≤ r.symbols.size) :
    Search.Coincides Question.Spans (r.guardedTarget fault deeper owner mode t i j)
      (r.readTarget deeper owner mode t i j) := by
  cases t with
  | owner | ruleSet name => exact .refl _
  | numeral p =>
    rw [guardedTarget, guardedNumeral_eq p hij hj]
    exact .done _

theorem coincides_guardedDigitsFrom (s : RuleSet) (spaced : Bool) (hstop : stop ≤ r.symbols.size) :
    ∀ (fuel : Nat) (digits : Text) {place : Nat}, place ≤ stop →
      Search.Coincides Question.Spans (r.guardedDigitsFrom fault s spaced stop fuel digits place)
        (r.readDigitsFrom s spaced stop fuel digits place)
  | 0, digits, place, _ => .done (digits, place)
  | fuel + 1, digits, place, hplace => by
    rw [guardedDigitsFrom, guardedDigitStart_eq _ hplace hstop, readDigitsFrom]
    change Search.Coincides _ (match r.digitStart? _ place stop with | none => _ | some start => _) _
    cases hstart : r.digitStart? (spaced && digits ≠ []) place stop with
    | none => exact .done _
    | some start =>
      have start_le := (within_digitStart? hstart hplace).2
      refine .ask 0 _ fun m spans => ?_
      cases m with
      | none => exact .done _
      | some m =>
        dsimp only
        cases digit? start m with
        | none => exact .done _
        | some c =>
          -- the next digit starts where the match of this one ends
          exact coincides_guardedDigitsFrom s spaced hstop fuel _ (spans start_le m rfl).2

theorem coincides_guardedDigits (s : RuleSet) (spaced : Bool) {i j : Nat} (hij : i ≤ j)
    (hj : j ≤ r.symbols.size) :
    Search.Coincides Question.Spans (r.guardedDigits fault s spaced i j)
      (r.readDigits s spaced i j) :=
  (coincides_guardedDigitsFrom s spaced hj _ _ hij).bind_right _

theorem readsSame_guardedNormal (s : RuleSet) (rule : Rule) (bound : Option Nat) (deeper : Nat)
    {forced forced' : (start stop : Nat) → Search (Option Match)}
    (same : ∀ i j, i ≤ j → j ≤ r.symbols.size →
      Search.Coincides Question.Spans (forced' i j) (forced i j)) :
    r.ReadsSame (r.guardedNormal fault s rule bound deeper forced')
      (r.readNormal s rule bound deeper forced) := by
  intro sub i j hij hj
  cases sub with
  | quotient t | same t => exact coincides_guardedTarget fault _ _ _ t hij hj
  | remainder t => exact (coincides_guardedTarget fault _ _ _ t hij hj).bind_right _
  | forced => exact same i j hij hj

theorem readsSame_guardedFraction (s : RuleSet) :
    r.ReadsSame (r.guardedFraction fault s) (r.readFraction s) := by
  intro sub i j hij hj
  cases sub with
  | forced => exact coincides_guardedDigits s false hij hj
  | quotient t | same t => exact coincides_guardedTarget fault _ _ _ t hij hj
  | remainder t =>
    cases t with
    | owner => exact coincides_guardedDigits s true hij hj
    | ruleSet name => exact coincides_guardedTarget fault 0 s .denominators (.ruleSet name) hij hj
    | numeral p => exact coincides_guardedTarget fault 0 s .full (.numeral p) hij hj

theorem readsSame_guardedNegative (s : RuleSet) :
    r.ReadsSame (r.guardedNegative fault s) (r.readNegative s) := by
  intro sub i j hij hj
  cases sub with
  | forced => exact coincides_guardedTarget fault 0 s .full .owner hij hj
  | quotient t | remainder t | same t => exact coincides_guardedTarget fault _ _ _ t hij hj

theorem readsSame_guardedNumerator (s : RuleSet) :
    r.ReadsSame (r.guardedNumerator fault s) (r.readNumerator s) := by
  intro sub i j hij hj
  cases sub with
  | forced => exact coincides_guardedTarget fault 0 s (.integer none) .owner hij hj
  | remainder t | same t => exact coincides_guardedTarget fault _ _ _ t hij hj
  | quotient t =>
    cases t with
    | owner => exact coincides_guardedTarget fault 0 _ (.integer none) .owner hij hj
    | ruleSet name => exact coincides_guardedTarget fault 0 s (.integer none) (.ruleSet name) hij hj
    | numeral p => exact coincides_guardedTarget fault 0 s (.integer none) (.numeral p) hij hj

theorem coincides_guardedRung (s : RuleSet) : ∀ (ladder : List Rule) (bound : Option Nat)
    (deeper : Nat) {i j : Nat}, i ≤ j → j ≤ r.symbols.size →
      Search.Coincides Question.Spans (r.guardedRung fault s ladder bound deeper i j)
        (r.matchRung s ladder bound deeper i j)
  | [], _, _, _, _, _, _ => .done none
  | [rule], bound, deeper, _, _, hij, hj =>
    coincides_guardedTemplate
      (readsSame_guardedNormal s rule bound deeper fun _ _ hij hj =>
        coincides_guardedTarget fault _ _ _ .owner hij hj)
      (readsWithin_readNormal fun _ _ _ hij h => within_readTarget hij h) _ _ hij hj
  | rule :: rule' :: below, bound, deeper, _, _, hij, hj =>
    coincides_guardedTemplate
      (readsSame_guardedNormal s rule bound deeper fun _ _ hij hj =>
        coincides_guardedRung s (rule' :: below) _ _ hij hj)
      (readsWithin_readNormal fun _ _ _ hij h => within_matchRung hij h) _ _ hij hj

theorem coincides_guardedCandidate {q : Question} (hij : q.start ≤ q.stop)
    (hj : q.stop ≤ r.symbols.size) (c : Candidate) :
    Search.Coincides Question.Spans (r.guardedCandidate fault q c) (r.matchCandidate q c) := by
  cases c with
  | negative t =>
    exact coincides_guardedTemplate (readsSame_guardedNegative q.set)
      (readsWithin_readNegative q.set) _ _ hij hj
  | fraction t =>
    exact coincides_guardedTemplate (readsSame_guardedFraction q.set)
      (readsWithin_readFraction q.set) _ _ hij hj
  | normal rule below => exact (coincides_guardedRung q.set _ _ 0 hij hj).bind_right _
  | numerator rule =>
    exact coincides_guardedTemplate (readsSame_guardedNumerator q.set)
      (readsWithin_readNumerator q.set) _ _ hij hj

/-- **A question about a stretch of the text is searched as without checks,** as long as answers lie
    inside the stretches they are asked for. -/
theorem coincides_guardedSearch {q : Question} (hij : q.start ≤ q.stop)
    (hj : q.stop ≤ r.symbols.size) :
    Search.Coincides Question.Spans (r.guardedSearch fault q) (r.search q) :=
  .longest none fun c _ => coincides_guardedCandidate hij hj c

/-! ## Guarded answers -/

theorem guard_eq {q : Question} {answer answer' : Remembered (Option Match)} {memo : Memo}
    (hij : q.start ≤ q.stop) (hj : q.stop ≤ r.symbols.size) (same : answer' memo = answer memo)
    (spans : ∀ found memo', answer memo = .ok (found, memo') → q.Spans found) :
    r.guard fault q answer' memo = answer memo := by
  rw [guard, if_pos ⟨hij, hj⟩, same]
  cases ha : answer memo with
  | error e => rfl
  | ok result =>
    obtain ⟨found, memo'⟩ := result
    have inside : found.all fun m => q.start ≤ m.stop && m.stop ≤ q.stop := by
      cases found with
      | none => rfl
      | some m =>
        have := spans _ _ ha hij m rfl
        simpa using this
    exact if_pos inside

theorem recall_congr {q : Question} {answer answer' : Remembered (Option Match)} {memo : Memo}
    (h : answer' (memo.record q .pending) = answer (memo.record q .pending)) :
    Memo.recall q answer' memo = Memo.recall q answer memo := by
  unfold Memo.recall
  rw [h]

/-- **Answers to questions about the text are those without checks.** -/
theorem guardedAnswer_eq (fault : Error) (distinct : r.book.Distinct) :
    ∀ (levels deeper : Nat) {q : Question} {memo : Memo}, q ∈ r.book.questions r.symbols.size →
      memo.Holds r Question.Spans →
        r.guardedAnswer fault levels deeper q memo = r.answer levels deeper q memo
  | 0, deeper, q, memo, hq, holds => by
    obtain ⟨hs, -, hij, hj⟩ := RuleBook.mem_questions.1 hq
    have spans (found : Option Match) (memo' : Memo)
        (ha : r.answer 0 deeper q memo = .ok (found, memo')) : q.Spans found :=
      (answer_holds distinct closed_spans hs holds ha).1
    exact guard_eq hij hj rfl spans
  | levels + 1, 0, q, memo, hq, holds => by
    obtain ⟨hs, -, hij, hj⟩ := RuleBook.mem_questions.1 hq
    have spans (found : Option Match) (memo' : Memo)
        (ha : r.answer (levels + 1) 0 q memo = .ok (found, memo')) : q.Spans found :=
      (answer_holds distinct closed_spans hs holds ha).1
    refine guard_eq hij hj (recall_congr ?_) spans
    exact (coincides_guardedSearch hij hj).run_eq (A := r.Poses)
      (G := fun memo => memo.Holds r Question.Spans)
      (fun deeper q' memo m memo' poses good ha =>
        answer_holds distinct closed_spans (RuleBook.mem_questions.1 poses.2).1 good ha)
      (fun deeper q' memo poses good => guardedAnswer_eq fault distinct levels deeper poses.2 good)
      (bounded_search hq) (holds.record_pending q)
  | levels + 1, deeper + 1, q, memo, hq, holds =>
    guardedAnswer_eq fault distinct levels deeper hq holds

/-- **A text is read as without checks.** -/
theorem guardedRead_eq (fault : Error) (distinct : r.book.Distinct) {s : RuleSet}
    (hs : s ∈ r.book.sets) : r.guardedRead fault s = r.read s := by
  have inBook : r.InBook ⟨s, .full, 0, r.symbols.size⟩ := hs
  have top : (⟨s, .full, 0, r.symbols.size⟩ : Question) ∈ r.book.questions r.symbols.size :=
    RuleBook.mem_questions.2 ⟨hs, by simp [RuleBook.modes], Nat.zero_le _, Nat.le_refl _⟩
  rw [guardedRead, read, guardedAnswer_eq fault distinct _ _ top (Memo.holds_empty r)]
  cases ha : r.answer (r.limit + 1) 0 ⟨s, .full, 0, r.symbols.size⟩ Memo.empty with
  | error e => rfl
  | ok result =>
    obtain ⟨found, memo⟩ := result
    have spans := (answer_holds distinct closed_spans inBook (Memo.holds_empty r) ha).1
    change (match found.filter fun m => 0 < m.stop with | some m => _ | none => _) =
      Except.ok ((found.filter fun m => 0 < m.stop).map fun m => (m.value, r.bytesBefore m.stop))
    cases hm : found.filter fun m => 0 < m.stop with
    | none => rfl
    | some m =>
      obtain ⟨rfl, pos⟩ := Option.filter_eq_some_iff.1 hm
      have le : m.stop ≤ r.symbols.size := (spans (Nat.zero_le _) m rfl).2
      have lt : m.stop - 1 < r.symbols.size := by
        have := of_decide_eq_true pos
        omega
      dsimp only
      rw [symbolAt_eq lt]
      rfl

end Reader

end Spellout
