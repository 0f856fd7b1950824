/-
  Candidates side by side.

  The candidates for a question are matched one after the other, with one memory.  `Reader.alone` is
  what a candidate gives with a memory of its own.  A question that is answered while others are
  under way may get an answer that is cut short, and the memory hands this answer to candidates
  behind; then they are not independent.

  * `Memo.Alike`: two memories that agree on what a candidate may ask, settled questions aside;
  * `Reader.alike_answer`, `Reader.alike_run_of_step`: with such memories answers are the same;
  * `Reader.read_eq_longest_alone`: what is read is the longest of the matches that the candidates
    give alone, if no two of them ask a question that is not settled;
  * `Reader.not_longest_alone`: without this condition a candidate that does not match may take away
    the match of another one.
-/
import Spellout.Numeral.Decimal
import Spellout.Proofs.Reading.Memory

namespace Spellout

/-! ## What a memory knows -/

namespace Memo

/-- The question has come up. -/
def Knows (memo : Memo) (q : Question) : Prop := memo.find? q ≠ none

theorem knows_record (memo : Memo) (q : Question) (slot : Slot) : (memo.record q slot).Knows q := by
  simp [Knows, find?_record_self]

theorem Knows.record {memo : Memo} {q : Question} (h : memo.Knows q) (q' : Question) (slot : Slot) :
    (memo.record q' slot).Knows q := by
  rw [Knows, find?_record]
  split
  · simp
  · exact h

end Memo

namespace Reader

variable {r : Reader}

/-- What has come up stays known. -/
theorem knows_answer {z : Question} {levels deeper : Nat} {q : Question} {memo memo' : Memo}
    {m : Option Match} (hq : r.InBook q) (h : memo.Knows z)
    (ha : r.answer levels deeper q memo = .ok (m, memo')) : memo'.Knows z :=
  answer_keeps (G := fun memo => memo.Knows z) (fun _ q h => h.record q _) (fun _ q _ h => h.record q _)
    hq h ha

theorem knows_run {α : Type} {levels : Nat} {x : Search α} {memo memo' : Memo} {a : α} {z : Question}
    (asks : x.Asks r.InBook) (h : memo.Knows z) (hr : x.run (r.answer levels) memo = .ok (a, memo')) :
    memo'.Knows z :=
  (Search.run_yields (P := fun _ _ => True) (G := fun memo => memo.Knows z)
    (fun _ _ _ _ _ hq' good h' => ⟨trivial, knows_answer hq' good h'⟩) asks h hr).2

/-- What is asked comes up. -/
theorem knows_answer_self {levels deeper : Nat} {q : Question} {memo memo' : Memo} {m : Option Match}
    (ha : r.answer levels deeper q memo = .ok (m, memo')) : memo'.Knows q := by
  cases hf : memo.find? q with
  | some slot =>
    rw [answer_of_find? hf] at ha
    cases ha
    simp [Memo.Knows, hf]
  | none =>
    obtain ⟨-, memo₁, -, rfl⟩ := answer_of_new hf ha
    exact memo₁.knows_record q _

end Reader

/-! ## Two memories -/

variable {r : Reader} {shut : List Question} {F : Question → Prop}

/-- A memory that is used for several candidates and one that is used for one of them only.  Both are
    sound, no settled question is under way, and they agree on the other questions in `F`. -/
structure Memo.Alike (memo alone : Memo) (r : Reader) (shut : List Question)
    (F : Question → Prop) : Prop where
  sound : memo.Sound r shut
  soundAlone : alone.Sound r shut
  quiet : ∀ levels, memo.Ahead r shut levels
  quietAlone : ∀ levels, alone.Ahead r shut levels
  same : ∀ q, r.InBook q → F q → ¬ r.Settled shut q → memo.find? q = alone.find? q

/-- The memories differ on questions in `F` and on settled ones only. -/
def Memo.KeepsOutside (memo memo' : Memo) (r : Reader) (shut : List Question)
    (F : Question → Prop) : Prop :=
  ∀ q, r.InBook q → ¬ F q → ¬ r.Settled shut q → memo'.find? q = memo.find? q

namespace Memo

variable {memo memo₁ memo₂ alone : Memo} {q : Question} {m : Option Match}

theorem KeepsOutside.trans (h : memo.KeepsOutside memo₁ r shut F)
    (h' : memo₁.KeepsOutside memo₂ r shut F) : memo.KeepsOutside memo₂ r shut F :=
  fun q hq hf hs => (h' q hq hf hs).trans (h q hq hf hs)

theorem Settles.eq_of_not_settled (h : memo.Settles memo₁ r shut) (hq : r.InBook q)
    (hs : ¬ r.Settled shut q) : memo₁.find? q = memo.find? q := by
  rcases h q hq with eq | ⟨settled, -⟩
  · exact eq
  · exact absurd settled hs

theorem keepsOutside_record (distinct : r.book.Distinct) (hq : r.InBook q) (hf : F q) (slot : Slot) :
    memo.KeepsOutside (memo.record q slot) r shut F := by
  intro q' hq' hf' _
  exact find?_record_of_ne distinct hq hq' (fun hqq => hf' (hqq ▸ hf)) memo slot

theorem ahead_of_not_settled (hs : ¬ r.Settled shut q) (levels : Nat) (m : Option Match) :
    r.fresh shut levels 0 q ≠ .ok m :=
  fun h => hs ⟨levels, m, h⟩

theorem Alike.record_pending (distinct : r.book.Distinct) (h : memo.Alike alone r shut F)
    (hq : r.InBook q) (hs : ¬ r.Settled shut q) :
    (memo.record q .pending).Alike (alone.record q .pending) r shut F where
  sound := h.sound.record_pending q
  soundAlone := h.soundAlone.record_pending q
  quiet levels := (h.quiet levels).record_pending distinct hq (ahead_of_not_settled hs levels)
  quietAlone levels :=
    (h.quietAlone levels).record_pending distinct hq (ahead_of_not_settled hs levels)
  same q' hq' hf' hs' := by
    rw [find?_record, find?_record, h.same q' hq' hf' hs']

theorem Ahead.record_answered (distinct : r.book.Distinct) {levels : Nat}
    (h : memo.Ahead r shut levels) (hq : r.InBook q) :
    (memo.record q (.answered m)).Ahead r shut levels := by
  intro q' hq' hp hs
  by_cases hqq : q = q'
  · subst hqq
    rw [find?_record_self] at hp
    cases hp
  · rw [find?_record_of_ne distinct hq hq' hqq] at hp
    exact h q' hq' hp hs

theorem Alike.record_answered (distinct : r.book.Distinct) (inBook : ∀ q ∈ shut, r.InBook q)
    (h : memo.Alike alone r shut F) (hq : r.InBook q) (hs : ¬ r.Settled shut q) :
    (memo.record q (.answered m)).Alike (alone.record q (.answered m)) r shut F := by
  have open' : q ∉ shut := fun hmem => hs ⟨0, none, Reader.fresh_of_mem hmem 0 0⟩
  have answered : ∀ levels m', r.fresh shut levels 0 q = .ok m' → m = m' :=
    fun levels m' h' => absurd ⟨levels, m', h'⟩ hs
  exact
    { sound := h.sound.record_answered distinct inBook hq open' answered
      soundAlone := h.soundAlone.record_answered distinct inBook hq open' answered
      quiet := fun levels => (h.quiet levels).record_answered distinct hq
      quietAlone := fun levels => (h.quietAlone levels).record_answered distinct hq
      same := fun q' hq' hf' hs' => by rw [find?_record, find?_record, h.same q' hq' hf' hs'] }

end Memo

namespace Reader

/-- Carrying out a search with both memories is the same, if answering is. -/
theorem alike_run_of_step {α : Type} {levels : Nat}
    (step : ∀ {deeper : Nat} {q : Question} {m n : Option Match} {memo memo' alone alone' : Memo},
      r.InBook q → memo.Alike alone r shut F → r.answer levels deeper q memo = .ok (m, memo') →
        r.answer levels deeper q alone = .ok (n, alone') →
          (∀ z, r.InBook z → alone'.Knows z → F z) →
            m = n ∧ memo'.Alike alone' r shut F ∧ memo.KeepsOutside memo' r shut F)
    {x : Search α} : ∀ {a b : α} {memo memo' alone alone' : Memo}, x.Asks r.InBook →
      memo.Alike alone r shut F → x.run (r.answer levels) memo = .ok (a, memo') →
        x.run (r.answer levels) alone = .ok (b, alone') →
          (∀ z, r.InBook z → alone'.Knows z → F z) →
            a = b ∧ memo'.Alike alone' r shut F ∧ memo.KeepsOutside memo' r shut F := by
  induction x with
  | done =>
    intro a b memo memo' alone alone' _ alike hr hr' _
    cases hr
    cases hr'
    exact ⟨rfl, alike, fun _ _ _ _ => rfl⟩
  | fail e =>
    intro a b memo memo' alone alone' _ _ hr _ _
    cases hr
  | ask deeper q next ih =>
    intro a b memo memo' alone alone' asks alike hr hr' knows
    obtain ⟨m, memo₁, hm, hr⟩ := Search.run_ask.1 hr
    obtain ⟨n, alone₁, hn, hr'⟩ := Search.run_ask.1 hr'
    obtain ⟨rfl, alike₁, keeps₁⟩ := step asks.1 alike hm hn fun z hz known =>
      knows z hz (knows_run (asks.2 n) known hr')
    obtain ⟨eq, alike', keeps'⟩ := ih m (asks.2 m) alike₁ hr hr' knows
    exact ⟨eq, alike', keeps₁.trans keeps'⟩

/-- **With alike memories a question has the same answer,** and the memories stay alike.  `F` holds of
    what comes up for the one candidate. -/
theorem alike_answer (distinct : r.book.Distinct) (inBook : ∀ q ∈ shut, r.InBook q) {levels : Nat} :
    ∀ {deeper : Nat} {q : Question} {m n : Option Match} {memo memo' alone alone' : Memo},
      r.InBook q → memo.Alike alone r shut F → r.answer levels deeper q memo = .ok (m, memo') →
        r.answer levels deeper q alone = .ok (n, alone') →
          (∀ z, r.InBook z → alone'.Knows z → F z) →
            m = n ∧ memo'.Alike alone' r shut F ∧ memo.KeepsOutside memo' r shut F := by
  induction levels using Nat.strongRecOn with
  | ind levels ih =>
    intro deeper q m n memo memo' alone alone' hq alike hm hn knows
    by_cases hs : r.Settled shut q
    · -- both answers are the one without a memory
      obtain ⟨l, v, hv⟩ := hs
      obtain ⟨rfl, sound, settles⟩ := eq_of_answer distinct inBook l hq hv alike.sound
        (alike.quiet l) hm
      obtain ⟨rfl, soundAlone, settlesAlone⟩ := eq_of_answer distinct inBook l hq hv
        alike.soundAlone (alike.quietAlone l) hn
      refine ⟨rfl, ⟨sound, soundAlone, fun l => (alike.quiet l).settles settles,
        fun l => (alike.quietAlone l).settles settlesAlone, fun z hz hf hs => ?_⟩,
        fun z hz _ hs => settles.eq_of_not_settled hz hs⟩
      rw [settles.eq_of_not_settled hz hs, settlesAlone.eq_of_not_settled hz hs,
        alike.same z hz hf hs]
    · have hf : F q := knows q hq (knows_answer_self hn)
      have same := alike.same q hq hf hs
      cases hslot : memo.find? q with
      | some slot =>
        rw [answer_of_find? hslot] at hm
        rw [answer_of_find? (same ▸ hslot)] at hn
        cases hm
        cases hn
        exact ⟨rfl, alike, fun _ _ _ _ => rfl⟩
      | none =>
        obtain ⟨lt, memo₁, hrun, rfl⟩ := answer_of_new hslot hm
        obtain ⟨-, alone₁, hrun', rfl⟩ := answer_of_new (same ▸ hslot) hn
        obtain ⟨rfl, alike₁, keeps⟩ := alike_run_of_step (ih (levels - deeper - 1) (by omega))
          (asks_search hq) (alike.record_pending distinct hq hs) hrun hrun'
          fun z hz known => knows z hz (known.record q _)
        exact ⟨rfl, alike₁.record_answered distinct inBook hq hs,
          ((Memo.keepsOutside_record distinct hq hf _).trans keeps).trans
            (Memo.keepsOutside_record distinct hq hf _)⟩

/-! ## Candidates -/

/-- What a candidate gives when it alone is matched: its match, and a memory of what came up. -/
def alone (r : Reader) (q : Question) (c : Candidate) : Except Error (Option Match × Memo) :=
  (r.matchCandidate q c).run (r.answer r.limit) (Memo.empty.record q .pending)

/-- The longest of the matches that candidates have given, the first of equally long ones. -/
def longestOf (results : List (Option Match × Memo)) (best : Option Match) : Option Match :=
  results.foldl (fun best result => Match.longer best result.1) best

/-- No two candidates ask a question that is not settled. -/
def Unshared (r : Reader) (q : Question) (results : List (Option Match × Memo)) : Prop :=
  results.Pairwise fun a b => ∀ z, r.InBook z → a.2.Knows z → b.2.Knows z → r.Settled [q] z

/-- The memory a candidate starts with alone. -/
theorem sound_start (r : Reader) (q : Question) : (Memo.empty.record q .pending).Sound r [q] where
  answered := (Memo.holds_empty r).record_pending q
  shut z hz := by
    rw [List.mem_singleton.1 hz, Memo.find?_record_self]

theorem find?_start {q z : Question} (distinct : r.book.Distinct) (hq : r.InBook q)
    (hz : r.InBook z) (ne : z ≠ q) : (Memo.empty.record q .pending).find? z = none := by
  rw [Memo.find?_record_of_ne distinct hq hz (Ne.symm ne), Memo.find?_empty]

theorem ahead_start {q : Question} (distinct : r.book.Distinct) (hq : r.InBook q) (levels : Nat) :
    (Memo.empty.record q .pending).Ahead r [q] levels := by
  intro z hz hp hs
  rw [find?_start distinct hq hz (by simpa using hs)] at hp
  cases hp

theorem settled_of_mem {z : Question} (h : z ∈ shut) : r.Settled shut z :=
  ⟨0, none, fresh_of_mem h 0 0⟩

variable {q : Question}

/-- **One candidate after the other gives the longest match that one of them gives alone.**  The
    memory may hold answers from candidates before, but not to what those behind ask, settled
    questions aside. -/
theorem found_eq_longestOf (distinct : r.book.Distinct) (hq : r.InBook q) :
    ∀ {cs : List Candidate} {results : List (Option Match × Memo)} {best found : Option Match}
      {memo memo' : Memo}, cs.mapM (r.alone q) = .ok results → r.Unshared q results →
        memo.Sound r [q] → (∀ levels, memo.Ahead r [q] levels) →
          (∀ result ∈ results, ∀ z, r.InBook z → result.2.Knows z → ¬ r.Settled [q] z →
            memo.find? z = none) →
            (Search.longest (r.matchCandidate q) cs best).run (r.answer r.limit) memo =
              .ok (found, memo') → found = longestOf results best
  | [], results, best, found, memo, memo', hcs, _, _, _, _, hr => by
    cases hcs
    cases hr
    rfl
  | c :: cs, results, best, found, memo, memo', hcs, unshared, sound, quiet, new, hr => by
    obtain ⟨⟨n, alone'⟩, results', halone, rest, rfl⟩ := mapM_cons_eq_ok hcs
    obtain ⟨behind, unsharedRest⟩ := List.pairwise_cons.1 unshared
    obtain ⟨m, memo₁, hm, hrest⟩ := Search.run_bind.1 hr
    -- so far neither memory knows what the candidate is going to ask, settled questions aside
    have alike : memo.Alike (Memo.empty.record q .pending) r [q] alone'.Knows :=
      { sound := sound
        soundAlone := sound_start r q
        quiet := quiet
        quietAlone := ahead_start distinct hq
        same := fun z hz known hs => by
          have ne : z ≠ q := fun eq => hs (settled_of_mem (by simp [eq]))
          rw [new (n, alone') (by simp) z hz known hs, find?_start distinct hq hz ne] }
    have inBook : ∀ z ∈ [q], r.InBook z := fun z hz => List.mem_singleton.1 hz ▸ hq
    obtain ⟨rfl, alike₁, keeps⟩ := alike_run_of_step (alike_answer distinct inBook)
      (asks_matchCandidate hq c) alike hm halone fun _ _ known => known
    have last : found = longestOf results' (Match.longer best m) := by
      refine found_eq_longestOf distinct hq rest unsharedRest alike₁.sound alike₁.quiet
        (fun result hresult z hz known hs => ?_) hrest
      rw [keeps z hz (fun known' => hs (behind result hresult z hz known' known)) hs]
      exact new result (by simp [hresult]) z hz known hs
    exact last

/-- The question that reading a text begins with. -/
def top (r : Reader) (s : RuleSet) : Question := ⟨s, .full, 0, r.symbols.size⟩

/-- The value and the number of bytes of a match at the start of the text, unless it is empty. -/
def outcome (r : Reader) (found : Option Match) : Option (Binary64 × Nat) :=
  (found.filter fun m => 0 < m.stop).map fun m => (m.value, r.bytesBefore m.stop)

/-- **What is read is the longest match that a candidate gives alone,** the earliest of equally long
    ones, if no two candidates ask a question that is not settled. -/
theorem read_eq_longest_alone {description : Text} {book : RuleBook}
    (compiled : RuleBook.ofDescription description = .ok book) (numerals : NumeralSystem)
    (lenient : Bool) (limit : Nat) (t : Text) {s : RuleSet} (hs : s ∈ book.sets)
    {results : List (Option Match × Memo)} {found : Option (Binary64 × Nat)} :
    let r := ofText book numerals lenient limit t
    (s.candidates .full).mapM (r.alone (r.top s)) = .ok results → r.Unshared (r.top s) results →
      r.read s = .ok found → found = r.outcome (longestOf results none) := by
  intro r halone unshared hr
  have distinct : r.book.Distinct := RuleBook.distinct_of_ofDescription compiled
  have hq : r.InBook (r.top s) := hs
  unfold read at hr
  obtain ⟨⟨m, memo'⟩, ha, hr⟩ := bind_eq_ok.1 hr
  obtain ⟨-, memo₁, hrun, -⟩ := answer_of_new (by simp) ha
  obtain rfl := found_eq_longestOf distinct hq halone unshared (sound_start r (r.top s))
    (ahead_start distinct hq) (fun _ _ z hz _ hz' => find?_start distinct hq hz fun eq =>
      hz' (settled_of_mem (by simp [eq]))) hrun
  exact (Except.ok.inj hr).symm

theorem longestOf_eq_foldl (results : List (Option Match × Memo)) (best : Option Match) :
    longestOf results best = (results.map Prod.fst).foldl Match.longer best := by
  rw [longestOf, List.foldl_map]

theorem exists_results {α β ε : Type} {x : Except ε (List (α × β))} {l : List α}
    (h : x.map (List.map Prod.fst) = .ok l) : ∃ results, x = .ok results ∧ results.map Prod.fst = l := by
  cases x with
  | error e => cases h
  | ok results => exact ⟨results, rfl, Except.ok.inj h⟩

/-- A rule whose value is what another set reads. -/
def sameAs (name : String) (base : Nat) : Rule :=
  ⟨base, 10, 0, true, [.piece (.substitution (.same (.ruleSet name.toList)))]⟩

/-- A set with one candidate that comes back to it and one that asks nothing. -/
def circularSet : RuleSet where
  name := "%a".toList
  ladder := [sameAs "%b" 1, ⟨0, 10, 0, true, [.piece (.literal ['x'])]⟩]

/-- The rule book of `%a: x; =%b=; %b: y; =%a=;`. -/
def circular : RuleBook where
  sets :=
    [circularSet,
     { name := "%b".toList
       ladder := [sameAs "%a" 1, ⟨0, 10, 0, true, [.piece (.literal ['y'])]⟩] }]
  equivalences := .none

/-- Sets that refer to one another do not matter as long as one candidate only asks for them. -/
theorem read_eq_longest_alone_circular :
    RuleBook.ofDescription "%a: x; =%b=; %b: y; =%a=;".toList = .ok circular ∧
      let r := ofText circular .decimal false 64 "y".toList
      ∃ results, (circularSet.candidates .full).mapM (r.alone (r.top circularSet)) = .ok results ∧
        r.Unshared (r.top circularSet) results ∧ r.read circularSet = .ok (some (.ofNat 0, 1)) ∧
          some (.ofNat 0, 1) = r.outcome (longestOf results none) := by
  have compiled : RuleBook.ofDescription "%a: x; =%b=; %b: y; =%a=;".toList = .ok circular := by
    decide +kernel
  refine ⟨compiled, ?_⟩
  intro r
  have distinct : r.book.Distinct := RuleBook.distinct_of_ofDescription compiled
  have read : r.read circularSet = .ok (some (.ofNat 0, 1)) := by
    decide +kernel
  have alone : ((circularSet.candidates .full).mapM (r.alone (r.top circularSet))).map
      (List.map Prod.fst) = .ok [some ⟨.ofNat 0, 1⟩, none] := by
    decide +kernel
  obtain ⟨results, hr, -⟩ := exists_results alone
  have unshared : r.Unshared (r.top circularSet) results := by
    obtain ⟨a, rest, -, hrest, rfl⟩ := mapM_cons_eq_ok hr
    obtain ⟨b, rest', hb, hnil, rfl⟩ := mapM_cons_eq_ok hrest
    cases hnil
    -- the candidate without substitutions asks nothing
    have memo : b.2 = Memo.empty.record (r.top circularSet) .pending := by
      have hb' : r.alone (r.top circularSet) (.normal ⟨0, 10, 0, true, [.piece (.literal ['x'])]⟩ []) =
          .ok (none, Memo.empty.record (r.top circularSet) .pending) := rfl
      exact congrArg Prod.snd (Except.ok.inj (hb.symm.trans hb'))
    refine List.pairwise_pair.2 fun z hz _ known => settled_of_mem (List.mem_singleton.2 ?_)
    by_contra ne
    rw [memo] at known
    exact known (find?_start distinct (List.mem_cons_self ..) hz ne)
  exact ⟨results, hr, unshared, read,
    read_eq_longest_alone compiled .decimal false 64 "y".toList (List.mem_cons_self ..) hr unshared
      read⟩

/-- A set whose first candidate asks `%q` while `%p` is under way, and whose second asks `%q`. -/
def clashingSet : RuleSet where
  name := "%a".toList
  ladder :=
    [⟨2, 10, 0, true,
      [.piece (.substitution (.same (.ruleSet "%p".toList))),
        .piece (.substitution (.same (.ruleSet "%r".toList)))]⟩,
     sameAs "%q" 1, ⟨0, 10, 0, true, [.piece (.literal ['x'])]⟩]

/-- The rule book of `%a: x; =%q=; =%p==%r=; %p: 5: xx; =%q=; %q: =%p=; %r: y;`. -/
def clashing : RuleBook where
  sets :=
    [clashingSet,
     { name := "%p".toList
       ladder := [sameAs "%q" 6, ⟨5, 10, 0, false, [.piece (.literal "xx".toList)]⟩] },
     { name := "%q".toList, ladder := [sameAs "%p" 0] },
     { name := "%r".toList, ladder := [⟨0, 10, 0, true, [.piece (.literal ['y'])]⟩] }]
  equivalences := .none

/-- **Candidates are not independent in general.**  The one that is tried first has no match, but it
    leaves an answer behind that takes away the longest match. -/
theorem not_longest_alone :
    RuleBook.ofDescription
        "%a: x; =%q=; =%p==%r=; %p: 5: xx; =%q=; %q: =%p=; %r: y;".toList = .ok clashing ∧
      let r := ofText clashing .decimal false 64 "xx".toList
      r.read clashingSet = .ok (some (.ofNat 0, 1)) ∧
        ∃ results, (clashingSet.candidates .full).mapM (r.alone (r.top clashingSet)) = .ok results ∧
          r.outcome (longestOf results none) = some (.ofNat 5, 2) := by
  refine ⟨by decide +kernel, by decide +kernel, ?_⟩
  have alone : ((clashingSet.candidates .full).mapM
      ((ofText clashing .decimal false 64 "xx".toList).alone
        ((ofText clashing .decimal false 64 "xx".toList).top clashingSet))).map
          (List.map Prod.fst) = .ok [none, some ⟨.ofNat 5, 2⟩, some ⟨.ofNat 0, 1⟩] := by
    decide +kernel
  obtain ⟨results, hr, hm⟩ := exists_results alone
  refine ⟨results, hr, ?_⟩
  rw [longestOf_eq_foldl, hm]
  decide +kernel

end Reader
end Spellout
