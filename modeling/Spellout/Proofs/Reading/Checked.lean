/-
  Reading with the limit on nesting checked at every rule.

  A question is refused when no level is left for it.  A rule that `>>>` reads with is not asked for:
  it is tried on the next level without a check, and so is the one below it.  Here is a reader that
  checks the level of every rule before it is tried, with any error for a rule that is nested too
  deeply.  Where this makes no difference, whatever the error, no such rule is tried.

  * `Reader.checkedRung`, `Reader.checkedSearch`: searches that try no rule beyond a level;
  * `RuleSet.ForcedWithin`: the chains of `>>>` in a set are no longer than a bound;
  * `Reader.checkedSearch_eq`: with so many spare levels the check makes no difference;
  * `RuleBook.checkedParse_eq`: so no rule is tried deeper than the limit and the longest chain;
  * `RuleBook.parse_within_limit`: without `>>>` above other rules, none is tried beyond the limit;
  * `RuleBook.not_parse_within_limit`: with `>>>`, some are.
-/
import Spellout.Proofs.RuleBook.Limit

namespace Spellout

namespace Reader

/-! ## The check -/

/-- The longest match of the first rule of a ladder, as in `matchRung`, but a rule that is tried more
    than `spare` levels deeper than the question is an error. -/
def checkedRung (r : Reader) (excess : RuleSet → Error) (spare : Nat) (s : RuleSet) :
    List Rule → Option Nat → Nat → (start stop : Nat) → Search (Option Match)
  | [], _, _, _, _ => .done none
  | rule :: below, bound, deeper, start, stop =>
    if spare < deeper then .fail (excess s)
    else
      let forced : (start stop : Nat) → Search (Option Match) :=
        match below with
        | [] => r.readTarget deeper s (.integer (some rule.divisor)) .owner
        | _ :: _ => r.checkedRung excess spare s below (some rule.divisor) (deeper + 1)
      r.matchTemplate (r.readNormal s rule bound deeper forced) (Parts.normal rule) rule.template
        start stop

/-- The longest match of a candidate.  Only a rule with a base value reads with other rules by
    itself; any other candidate is tried on the level of the question. -/
def checkedCandidate (r : Reader) (excess : RuleSet → Error) (spare : Nat) (q : Question) :
    Candidate → Search (Option Match)
  | .normal rule below => do
    let found ← r.checkedRung excess spare q.set (rule :: below) q.mode.bound? 0 q.start q.stop
    return found.filter fun m => q.mode.admits m.value
  | c => r.matchCandidate q c

/-- The search for the answer to a question that tries no rule more than `spare` levels deeper. -/
def checkedSearch (r : Reader) (excess : RuleSet → Error) (spare : Nat) (q : Question) :
    Search (Option Match) :=
  Search.longest (r.checkedCandidate excess spare q) (q.set.candidates q.mode) none

/-- What `read` reads, if no rule is tried more than `slack` levels beyond the limit.  With `levels`
    left below a question, a rule may be tried so many levels deeper. -/
def checkedRead (r : Reader) (excess : RuleSet → Error) (slack : Nat) (s : RuleSet) :
    Except Error (Option (Binary64 × Nat)) := do
  let (found, _) ← r.answerBy (fun levels => r.checkedSearch excess (levels + slack)) (r.limit + 1) 0
    ⟨s, .full, 0, r.symbols.size⟩ Memo.empty
  return (found.filter fun m => 0 < m.stop).map fun m => (m.value, r.bytesBefore m.stop)

end Reader

/-- The value at the start of a text, if no rule is tried more than `slack` levels beyond the limit. -/
def RuleBook.checkedParse (book : RuleBook) (excess : RuleSet → Error) (slack : Nat) (t : Text)
    (set : Option Text) (context : Context) (options : Options) : Except Error Outcome := do
  let s ← book.entry set
  let reader := Reader.ofText book context.numerals options.lenient options.maxDepth t
  match ← reader.checkedRead excess slack s with
  | some (value, consumed) => return ⟨value, consumed⟩
  | none => .error (.noMatch s.name)

/-! ## Chains of `>>>` -/

/-- The number of rules that may be tried one inside the other from the first rule of a ladder
    downwards, besides that one: each by the `>>>` of the one above it. -/
def forcedChain : List Rule → Nat
  | rule :: rule' :: below =>
    if .forced ∈ rule.template.substitutions then forcedChain (rule' :: below) + 1 else 0
  | _ => 0

/-- No chain of `>>>` in the set is longer than `k`. -/
def RuleSet.ForcedWithin (s : RuleSet) (k : Nat) : Prop :=
  ∀ ladder, ladder <:+ s.ladder → forcedChain ladder ≤ k

theorem RuleSet.forcedWithin_zero {s : RuleSet}
    (h : ∀ rule below, (rule :: below) <:+ s.ladder → .forced ∈ rule.template.substitutions →
      below = []) : s.ForcedWithin 0 := by
  intro ladder suffix
  unfold forcedChain
  split
  · rename_i rule rule' below
    by_cases forced : .forced ∈ rule.template.substitutions
    · cases h rule (rule' :: below) suffix forced
    · rw [if_neg forced]
  · exact Nat.le_refl 0

namespace Reader

variable {r : Reader}

/-- A template that does not use `>>>` does not depend on how it reads. -/
theorem matchTemplate_forced {s : RuleSet} {rule : Rule} (bound : Option Nat) (deeper : Nat)
    {forced forced' : (start stop : Nat) → Search (Option Match)}
    (same : .forced ∈ rule.template.substitutions → forced' = forced) (i j : Nat) :
    r.matchTemplate (r.readNormal s rule bound deeper forced') (Parts.normal rule) rule.template i j =
      r.matchTemplate (r.readNormal s rule bound deeper forced) (Parts.normal rule) rule.template
        i j := by
  refine (agrees_withLimit r r.limit fun _ => True).concurs.matchTemplate _ (fun sub mem => ?_) i j
  cases sub with
  | forced => rw [same mem]
  | quotient | remainder | same => rfl

/-- **With as many spare levels as a chain of `>>>` is long, the check makes no difference.** -/
theorem checkedRung_eq (excess : RuleSet → Error) {spare : Nat} (s : RuleSet) :
    ∀ (ladder : List Rule) (bound : Option Nat) (deeper i j : Nat),
      deeper + forcedChain ladder ≤ spare →
        r.checkedRung excess spare s ladder bound deeper i j = r.matchRung s ladder bound deeper i j
  | [], _, _, _, _, _ => rfl
  | [rule], _, _, _, _, enough => if_neg (Nat.not_lt.2 (Nat.le_of_add_right_le enough))
  | rule :: rule' :: below, bound, deeper, i, j, enough => by
    rw [checkedRung.eq_3, if_neg (by omega), matchRung.eq_3]
    refine matchTemplate_forced bound deeper (fun forced => ?_) i j
    rw [forcedChain, if_pos forced] at enough
    funext i j
    exact checkedRung_eq excess s (rule' :: below) _ _ i j (by omega)

theorem checkedCandidate_eq (excess : RuleSet → Error) {spare : Nat} {q : Question} {c : Candidate}
    (chains : q.set.ForcedWithin spare) (allowed : q.mode.Allows q.set c) :
    r.checkedCandidate excess spare q c = r.matchCandidate q c := by
  have normal {rule : Rule} {below : List Rule} (suffix : (rule :: below) <:+ q.set.ladder) :
      r.checkedCandidate excess spare q (.normal rule below) =
        r.matchCandidate q (.normal rule below) := by
    have chain : 0 + forcedChain (rule :: below) ≤ spare := by
      rw [Nat.zero_add]
      exact chains _ suffix
    simp only [checkedCandidate, checkedRung_eq excess _ _ _ _ _ _ chain, matchCandidate]
  rcases q with ⟨s, mode, i, j⟩
  cases allowed with
  | normal suffix | bounded suffix => exact normal suffix
  | negative | fraction | numerator => rfl

theorem checkedSearch_eq (excess : RuleSet → Error) {spare : Nat} {q : Question}
    (chains : q.set.ForcedWithin spare) : r.checkedSearch excess spare q = r.search q :=
  Search.longest_congr none fun _ mem => checkedCandidate_eq excess chains (Mode.allows_of_mem mem)

/-- Each question is answered on its own level, so that chains do not add up. -/
theorem checkedRead_eq (excess : RuleSet → Error) {slack : Nat}
    (chains : ∀ s ∈ r.book.sets, s.ForcedWithin slack) {s : RuleSet} (hs : s ∈ r.book.sets) :
    r.checkedRead excess slack s = r.read s := by
  have same (levels : Nat) (q : Question) (hq : r.InBook q) :
      r.checkedSearch excess (levels + slack) q = r.search q :=
    checkedSearch_eq excess fun ladder suffix =>
      Nat.le_trans (chains q.set hq ladder suffix) (Nat.le_add_left ..)
  rw [checkedRead, read,
    answerBy_eq same (r.limit + 1) 0 (q := ⟨s, .full, 0, r.symbols.size⟩) Memo.empty hs]

end Reader

/-! ## Parsing -/

namespace RuleBook

/-- **No rule is tried deeper than the limit and the longest chain of `>>>`:** it would make no
    difference, whatever error it led to. -/
theorem checkedParse_eq {book : RuleBook} {slack : Nat}
    (chains : ∀ s ∈ book.sets, s.ForcedWithin slack) (excess : RuleSet → Error) (t : Text)
    (set : Option Text) (context : Context) (options : Options) :
    book.checkedParse excess slack t set context options = book.parse t set context options := by
  unfold checkedParse parse
  cases hs : book.entry set with
  | error e => rfl
  | ok s =>
    have same := Reader.checkedRead_eq
      (r := .ofText book context.numerals options.lenient options.maxDepth t) excess chains
      (mem_of_entry hs)
    change (Reader.checkedRead _ excess slack s >>= _) = _
    exact congrArg (· >>= _) same

/-- **No rule is tried beyond the limit on nesting,** if no rule above another one uses `>>>`: an error
    for every such rule makes no difference, be it that of the limit or any other. -/
theorem parse_within_limit {book : RuleBook}
    (plain : ∀ s ∈ book.sets, ∀ rule below, (rule :: below) <:+ s.ladder →
      .forced ∈ rule.template.substitutions → below = [])
    (excess : RuleSet → Error) (t : Text) (set : Option Text) (context : Context)
    (options : Options) :
    book.parse t set context options = book.checkedParse excess 0 t set context options :=
  (checkedParse_eq (fun s hs => RuleSet.forcedWithin_zero (plain s hs)) excess t set context
    options).symm

/-- In `tens` no rule uses `>>>`, and what needs two levels is refused on one. -/
theorem parse_within_limit_tens :
    (∀ s ∈ tens.sets, ∀ rule below, (rule :: below) <:+ s.ladder →
      .forced ∈ rule.template.substitutions → below = []) ∧
      (∀ excess, tens.checkedParse excess 0 "twoty-one".toList none {} ⟨1, false⟩ =
        .ok ⟨.ofNat 21, 9⟩) ∧
      ∀ excess, tens.checkedParse excess 0 "twoty-one".toList none {} ⟨0, false⟩ =
        .error (.depthExceeded "%tens".toList 0) := by
  have unforced : ∀ s ∈ tens.sets, ∀ rule ∈ s.ladder,
      .forced ∉ rule.template.substitutions := by decide
  have plain : ∀ s ∈ tens.sets, ∀ rule below, (rule :: below) <:+ s.ladder →
      .forced ∈ rule.template.substitutions → below = [] := fun s hs rule _ suffix forced =>
    absurd forced (unforced s hs rule (suffix.subset List.mem_cons_self))
  refine ⟨plain, fun excess => ?_, fun excess => ?_⟩
  · rw [← parse_within_limit plain excess]
    decide +kernel
  · rw [← parse_within_limit plain excess]
    decide +kernel

/-- The rule book of `%chain: 0: x; 1: y>>>; 2: z>>>;`. -/
def chain : RuleBook where
  sets :=
    [{ name := "%chain".toList
       ladder :=
         [⟨2, 10, 0, false, [.piece (.literal ['z']), .piece (.substitution .forced)]⟩,
          ⟨1, 10, 0, false, [.piece (.literal ['y']), .piece (.substitution .forced)]⟩,
          ⟨0, 10, 0, false, [.piece (.literal ['x'])]⟩] }]
  equivalences := .none

/-- **A chain of `>>>` is read beyond the limit.**  To read `zyx` a rule is tried two levels deep, and
    that is not refused when no level is allowed; to write it is. -/
theorem not_parse_within_limit :
    ofDescription "%chain: 0: x; 1: y>>>; 2: z>>>;".toList = .ok chain ∧
      chain.parse "zyx".toList none {} ⟨0, false⟩ = .ok ⟨.ofNat 3, 3⟩ ∧
      chain.checkedParse (fun s => .depthExceeded s.name 0) 0 "zyx".toList none {} ⟨0, false⟩ =
        .error (.depthExceeded "%chain".toList 0) ∧
      chain.format (.ofNat 2) none {} ⟨2, false⟩ = .ok "zyx".toList ∧
      chain.format (.ofNat 2) none {} ⟨0, false⟩ = .error (.depthExceeded "%chain".toList 0) := by
  refine ⟨?_, ?_, ?_, ?_, ?_⟩ <;> decide +kernel

end RuleBook
end Spellout
