/-
  Remainders of what is read.

  A rule with a base value puts its value together: quotient times divisor, plus remainder.  If the
  remainder stands below the divisor, division takes the value apart again.  The reader sees to that
  for `>>`, whatever its target is; it does not for `>>>`, which takes any match of the rule below.

  * `Binary64.below_of_lt_ofNat`: what is compared with a rounded divisor stands below the divisor;
  * `Binary64.place_compose`: without rounding, quotient and remainder compose to the exact value;
  * `Reader.closed_admits`: the mode of a question lets the value of its answer in;
  * `Reader.below_of_readRung`: a remainder that is read stands below the divisor;
  * `Reader.remainder_below_divisor`: so it is in every match of a rule, and division gives quotient
    and remainder back, if `>>>` does not read with the rule below;
  * `Reader.not_remainder_below_divisor`: with `>>>` the remainder may be above the divisor.
-/
import Spellout.Proofs.Number.Whole
import Spellout.Proofs.Reading.Plain

namespace Spellout

/-! ## Values below a number -/

namespace Binary64

/-- The value stands below the natural number, which need not be a value itself. -/
def Below (v : Binary64) (n : Nat) : Prop :=
  ∃ k : Int, v.place = some k ∧ k < (n * stepsPerUnit : Nat)

/-- A place within the bound of finite values is that of a finite value. -/
theorem eq_finite_of_place {v : Binary64} {i : Int} (h : v.place = some i)
    (lt : i.natAbs < overflow) : ∃ s m, v = finite s m ∧ signed s m.steps = i := by
  cases v with
  | nan => cases h
  | infinite s =>
    obtain rfl : signed s overflow = i := Option.some.inj h
    rw [natAbs_signed] at lt
    exact absurd lt (Nat.lt_irrefl _)
  | finite s m => exact ⟨s, m, rfl, Option.some.inj h⟩

/-- A value that stands before the rounded number stands below the number: a number that is not
    above a value is not rounded beyond it. -/
theorem below_of_lt_ofNat {v : Binary64} {n : Nat} (h : v.lt (ofNat n)) : v.Below n := by
  obtain ⟨k, hk⟩ : ∃ k, v.place = some k := by
    cases v with
    | nan => cases h
    | infinite | finite => exact ⟨_, rfl⟩
  have lt := (lt_iff hk (place_nearest _)).1 h
  refine ⟨k, hk, Decidable.byContradiction fun ge => ?_⟩
  have small : k.natAbs < overflow := by
    generalize roundToGrid (n * stepsPerUnit) 1 = a, overflow = o at lt
    omega
  obtain ⟨s, m, rfl, rfl⟩ := eq_finite_of_place hk small
  have le : n * stepsPerUnit ≤ m.steps * 1 := by
    have := natAbs_signed s m.steps
    omega
  have rounded := roundToGrid_le Nat.one_pos le m.onGrid.2
  have := natAbs_signed s m.steps
  generalize roundToGrid (n * stepsPerUnit) 1 = a, overflow = o at lt rounded
  omega

/-! ## Quotient times divisor plus remainder -/

theorem signed_mul (s : Bool) (a b : Nat) : signed s (a * b) = signed s a * b := by
  cases s
  · exact Int.natCast_mul a b
  · exact (congrArg Neg.neg (Int.natCast_mul a b)).trans (Int.neg_mul ..).symm

theorem signed_of_sign (zeroSign : Bool) (i : Int) :
    signed (if i = 0 then zeroSign else i < 0) i.natAbs = i := by
  by_cases zero : i = 0
  · subst zero
    cases zeroSign <;> rfl
  · rw [if_neg zero, signed]
    split
    · rename_i neg
      have neg := of_decide_eq_true neg
      omega
    · rename_i pos
      have pos : ¬ i < 0 := fun neg => pos (decide_eq_true neg)
      omega

/-- A count of steps that is on the grid is not moved. -/
theorem place_ofSteps (zeroSign : Bool) {i : Int} (grid : OnGrid i.natAbs) :
    (ofSteps zeroSign i).place = some i := by
  have exact := nearest_steps (if i = 0 then zeroSign else i < 0) ⟨i.natAbs, grid⟩
  rw [ofSteps, exact]
  exact congrArg some (signed_of_sign zeroSign i)

/-- The divisor `d`, its product with `n`, and that product with `k` steps more are values, so that
    nothing is rounded. -/
structure Unrounded (d : Nat) (n k : Int) : Prop where
  divisor : OnGrid (d * stepsPerUnit)
  product : OnGrid (n * (d * stepsPerUnit : Nat)).natAbs
  sum : OnGrid (n * (d * stepsPerUnit : Nat) + k).natAbs

theorem mul_ofNat_of_onGrid {s : Bool} {x : Magnitude} {d n : Nat} (hx : x.steps = n * stepsPerUnit)
    (divisor : OnGrid (d * stepsPerUnit)) (product : OnGrid (n * (d * stepsPerUnit))) :
    (finite s x).mul (ofNat d) = .finite s ⟨n * (d * stepsPerUnit), product⟩ := by
  have exact : ofNat d = .finite false ⟨d * stepsPerUnit, divisor⟩ := nearest_steps false ⟨_, divisor⟩
  have steps : x.steps * (d * stepsPerUnit) = n * (d * stepsPerUnit) * stepsPerUnit := by
    rw [hx, Nat.mul_right_comm]
  rw [exact, mul, Bool.bne_false, steps]
  exact nearest_mul s ⟨n * (d * stepsPerUnit), product⟩ stepsPerUnit_pos

/-- **Without rounding, quotient and remainder compose to the exact value.** -/
theorem place_compose {q r : Binary64} {d : Nat} {n k : Int}
    (hq : q.place = some (n * stepsPerUnit)) (hr : r.place = some k) (nonneg : 0 ≤ k)
    (below : k < (d * stepsPerUnit : Nat)) (exact : Unrounded d n k) :
    ((q.mul (ofNat d)).add r).place = some (n * (d * stepsPerUnit : Nat) + k) := by
  have small : k.natAbs < overflow := by
    have := exact.divisor.1
    omega
  obtain ⟨t, y, rfl, hy⟩ := eq_finite_of_place hr small
  have product : OnGrid (n.natAbs * (d * stepsPerUnit)) := by
    simpa only [Int.natAbs_mul, Int.natAbs_natCast] using exact.product
  have whole : (n * stepsPerUnit).natAbs < overflow := by
    have pos : 0 < d := Nat.pos_of_ne_zero fun zero => by
      subst zero
      omega
    rw [Int.natAbs_mul, Int.natAbs_natCast]
    refine Nat.lt_of_le_of_lt (Nat.mul_le_mul_left _ ?_) product.1
    exact Nat.le_mul_of_pos_left _ pos
  obtain ⟨s, x, rfl, hx⟩ := eq_finite_of_place hq whole
  have steps : x.steps = n.natAbs * stepsPerUnit := by
    rw [← natAbs_signed s x.steps, hx, Int.natAbs_mul, Int.natAbs_natCast]
  rw [mul_ofNat_of_onGrid steps exact.divisor product]
  have sum : signed s (n.natAbs * (d * stepsPerUnit)) = n * (d * stepsPerUnit : Nat) := by
    rw [Nat.mul_left_comm, ← steps, Nat.mul_comm, signed_mul, hx, Int.mul_assoc, Int.natCast_mul,
      Int.mul_comm (d : Int)]
  rw [add, sum, hy]
  exact place_ofSteps _ exact.sum

end Binary64

/-- The remainder of the parts stands below the divisor, and if quotient and remainder are put
    together without rounding, division takes the value apart again. -/
structure Parts.Divide (rule : Rule) (p : Parts) : Prop where
  below : ∀ r, p.remainder = some r → r.Below rule.divisor
  divide : ∀ q r (n k : Int), p.same = none → p.quotient = some q → p.remainder = some r →
    q.place = some (n * Binary64.stepsPerUnit) → r.place = some k → 0 ≤ k →
      Binary64.Unrounded rule.divisor n k → ∃ total, (Parts.normal rule p).place = some total ∧
        total / (rule.divisor * Binary64.stepsPerUnit : Nat) = n ∧
          total % (rule.divisor * Binary64.stepsPerUnit : Nat) = k

theorem Parts.divide_of_below {rule : Rule} {p : Parts}
    (below : ∀ r, p.remainder = some r → r.Below rule.divisor) : p.Divide rule where
  below := below
  divide := by
    intro q r n k same quotient remainder hq hr nonneg exact
    obtain ⟨k', hk', lt⟩ := below r remainder
    obtain rfl : k' = k := Option.some.inj (hk'.symm.trans hr)
    have composed : Parts.normal rule p = (q.mul (.ofNat rule.divisor)).add r := by
      simp only [Parts.normal, same, quotient, remainder, Option.getD_some]
    refine ⟨_, composed ▸ Binary64.place_compose hq hr nonneg lt exact, ?_, ?_⟩
    · rw [Int.add_comm, Int.add_mul_ediv_right _ _ (by omega), Int.ediv_eq_zero_of_lt nonneg lt,
        Int.zero_add]
    · rw [Int.add_comm, Int.add_mul_emod_self_right, Int.emod_eq_of_lt nonneg lt]

/-- The substitution reads a remainder. -/
def Substitution.IsRemainder : Substitution → Prop
  | .remainder _ | .forced => True
  | .quotient _ | .same _ => False

theorem Parts.remainder_add {p : Parts} {sub : Substitution} {v w : Binary64}
    (h : (p.add sub v).remainder = some w) : p.remainder = some w ∨ sub.IsRemainder ∧ v = w := by
  cases sub with
  | quotient | same => exact .inl h
  | remainder | forced => exact .inr ⟨trivial, Option.some.inj h⟩

/-! ## Answers below a bound -/

/-- The mode of the question lets the value of the answer in. -/
def Question.Admits (q : Question) (m : Option Match) : Prop :=
  ∀ n, m = some n → q.mode.admits n.value

/-- An answer to a question with a bound stands below the bound. -/
def Question.Bounds (q : Question) (m : Option Match) : Prop :=
  ∀ b n, q.mode = .integer (some b) → m = some n → n.value.Below b

namespace Reader

variable {r : Reader} {P : Question → Option Match → Prop} {s : RuleSet}

/-- Matches with values that the mode does not let in are left out. -/
theorem admits_of_search {q : Question} {m : Option Match} (h : (r.search q).Yields P m) :
    q.Admits m := by
  rintro n rfl
  rcases q with ⟨s, _ | _ | _, start, stop⟩
  · rfl
  · rcases Search.yields_longest h with h | ⟨c, mem, h⟩
    · cases h
    · cases c with
      | normal rule below =>
        obtain ⟨found, -, h⟩ := Search.yields_bind.1 h
        exact (Option.filter_eq_some_iff.1 h).2
      | negative | fraction | numerator => simp [RuleSet.candidates] at mem
  · rfl

theorem closed_admits (r : Reader) : r.Closed Question.Admits where
  none := fun _ _ h => by cases h
  search := fun _ _ h => admits_of_search h

theorem closed_bounds (r : Reader) : r.Closed Question.Bounds where
  none := fun _ _ _ _ h => by cases h
  search := by
    rintro q _ h b n mode rfl
    have admitted := admits_of_search h n rfl
    rw [mode] at admitted
    exact Binary64.below_of_lt_ofNat admitted

/-! ## Remainders of a match -/

/-- How `>>>` reads in the first rule of a ladder: with the rule below, or else with the set. -/
def readBelow (r : Reader) (s : RuleSet) (rule : Rule) (below : List Rule) (deeper : Nat) :
    (start stop : Nat) → Search (Option Match) :=
  match below with
  | [] => r.readTarget deeper s (.integer (some rule.divisor)) .owner
  | _ :: _ => r.matchRung s below (some rule.divisor) (deeper + 1)

/-- How the substitutions of the first rule of a ladder read. -/
def readRung (r : Reader) (s : RuleSet) (rule : Rule) (below : List Rule) (bound : Option Nat)
    (deeper : Nat) : SubReader :=
  r.readNormal s rule bound deeper (r.readBelow s rule below deeper)

theorem matchRung_cons (r : Reader) (s : RuleSet) (rule : Rule) (below : List Rule)
    (bound : Option Nat) (deeper start stop : Nat) :
    r.matchRung s (rule :: below) bound deeper start stop =
      r.matchTemplate (r.readRung s rule below bound deeper) (Parts.normal rule) rule.template
        start stop := by
  cases below <;> rfl

theorem readsWithin_readRung {rule : Rule} {below : List Rule} {bound : Option Nat} {deeper : Nat} :
    ReadsWithin (r.readRung s rule below bound deeper) :=
  readsWithin_readNormal fun i j m hij h => by
    unfold readBelow at h
    split at h
    · exact within_readTarget hij h
    · exact within_matchRung hij h

/-- **A remainder that is read stands below the divisor,** unless `>>>` reads it with the rule
    below. -/
theorem below_of_readRung {rule : Rule} {below : List Rule} {bound : Option Nat}
    {deeper i j : Nat} {sub : Substitution} {m : Match}
    (bounds : ∀ q m, P q m → q.Bounds m) (remainder : sub.IsRemainder)
    (alone : sub = .forced → below = [])
    (h : readsBy P (r.readRung s rule below bound deeper) sub i j m) :
    m.value.Below rule.divisor := by
  cases sub with
  | quotient | same => cases remainder
  | remainder t =>
    obtain ⟨found, -, h⟩ := Search.yields_bind.1 h
    exact Binary64.below_of_lt_ofNat (Option.filter_eq_some_iff.1 h).2
  | forced =>
    cases alone rfl
    exact bounds _ _ (Search.yields_ask.1 h) _ _ rfl rfl

/-- The remainder at the end of a trail was there before or has been read on the way. -/
theorem Trail.remainder {reads : Substitution → (start stop : Nat) → Match → Prop} {stop : Nat}
    {els : List Element} {place : Nat} {parts : Parts} {p : Progress}
    (trail : Trail r reads stop els place parts p) {v : Binary64}
    (hv : p.parts.remainder = some v) : parts.remainder = some v ∨
      ∃ sub i j m, .substitution sub ∈ els ∧ sub.IsRemainder ∧ reads sub i j m ∧ m.value = v := by
  induction trail with
  | finish => exact .inl hv
  | literal _ _ ih =>
    rcases ih hv with h | ⟨sub, i, j, m, mem, h⟩
    · exact .inl h
    · exact .inr ⟨sub, i, j, m, by simp [mem], h⟩
  | last hm =>
    rcases Parts.remainder_add hv with h | ⟨remainder, rfl⟩
    · exact .inl h
    · exact .inr ⟨_, _, _, _, by simp, remainder, hm, rfl⟩
  | split _ _ _ hm _ _ ih =>
    rcases ih hv with h | ⟨sub, i, j, m, mem, h⟩
    · rcases Parts.remainder_add h with h | ⟨remainder, rfl⟩
      · exact .inl h
      · exact .inr ⟨_, _, _, _, by simp, remainder, hm, rfl⟩
    · exact .inr ⟨sub, i, j, m, by simp [mem], h⟩

/-- The matches that a substitution of the first rule of a ladder reads when the reader gives the
    answers. -/
def ReadsRung (r : Reader) (s : RuleSet) (rule : Rule) (below : List Rule) (bound : Option Nat)
    (deeper : Nat) (sub : Substitution) (start stop : Nat) (m : Match) : Prop :=
  readsBy r.Gives (r.readRung s rule below bound deeper) sub start stop m

/-- **Remainders stand below the divisor, and division takes the value of a match apart again.**
    That is so for every match of a rule with a base value, but for remainders that `>>>` reads with
    the rule below. -/
theorem remainder_below_divisor {description : Text} {book : RuleBook}
    (compiled : RuleBook.ofDescription description = .ok book) (numerals : NumeralSystem)
    (lenient : Bool) (limit : Nat) (t : Text) {s : RuleSet} (hs : s ∈ book.sets) {rule : Rule}
    {below : List Rule} {bound : Option Nat} {deeper i j levels : Nat} {memo memo' : Memo}
    {m : Match} (arises : (ofText book numerals lenient limit t).Arises memo)
    (h : ((ofText book numerals lenient limit t).matchRung s (rule :: below) bound deeper i j).run
      ((ofText book numerals lenient limit t).answer levels) memo = .ok (some m, memo')) :
    ∃ pieces ∈ rule.template.alternatives, ∃ p, m = ⟨Parts.normal rule p.parts, p.place⟩ ∧
      Trail (ofText book numerals lenient limit t)
        (fun sub start stop m =>
          (ofText book numerals lenient limit t).ReadsRung s rule below bound deeper sub start stop m ∧
            (sub.IsRemainder → (sub = .forced → below = []) → m.value.Below rule.divisor))
        j (pieces.map (ofText book numerals lenient limit t).element) i {} p ∧
      ((.substitution .forced ∈ pieces → below = []) → p.parts.Divide rule) := by
  generalize hr : ofText book numerals lenient limit t = r at *
  have distinct : r.book.Distinct := hr ▸ RuleBook.distinct_of_ofDescription compiled
  have bounds : ∀ q m, r.Gives q m → q.Bounds m := fun q m given =>
    given.holds distinct (closed_bounds r)
  have hs : s ∈ r.book.sets := hr ▸ hs
  obtain ⟨h, -⟩ := yields_of_run (asks_matchRung hs _ _ _ _ _) arises h
  rw [matchRung_cons] at h
  obtain ⟨pieces, mem, p, hm, trail⟩ := yields_matchTemplate h
  refine ⟨pieces, mem, p, hm, trail.mono fun sub i j m reads => ⟨reads, fun remainder alone =>
    below_of_readRung bounds remainder alone reads⟩, fun alone => Parts.divide_of_below ?_⟩
  intro v hv
  rcases trail.remainder hv with h | ⟨sub, i, j, m, mem, remainder, reads, rfl⟩
  · cases h
  · exact below_of_readRung bounds remainder
      (fun forced => alone (forced ▸ substitution_mem_of_element mem)) reads

/-- What a search with a memory ends with, the memory left out. -/
theorem exists_run {α β : Type} {x : Search α}
    {answer : Nat → Question → Remembered (Option Match)} {memo : Memo} (f : α → β) {b : β}
    (h : (x.run answer memo).toOption.map (fun y => f y.1) = some b) :
    ∃ a memo', x.run answer memo = .ok (a, memo') ∧ f a = b := by
  obtain ⟨⟨a, memo'⟩, hx, rfl⟩ := Option.map_eq_some_iff.1 h
  refine ⟨a, memo', ?_, rfl⟩
  cases hr : x.run answer memo with
  | error e =>
    rw [hr] at hx
    cases hx
  | ok y =>
    rw [hr] at hx
    cases hx
    rfl

/-- A remainder behind the tens. -/
theorem remainder_below_divisor_counting :
    let r := ofText ⟨[countingSet], .none⟩ .decimal false 64 "twoty-one!".toList
    RuleBook.ofDescription counting = .ok ⟨[countingSet], .none⟩ ∧
      ∃ rule below, countingSet.ladder = rule :: below ∧ ∃ memo',
        (r.matchRung countingSet (rule :: below) none 0 0 10).run (r.answer 64)
            (Memo.empty.record ⟨countingSet, .full, 0, 10⟩ .pending) =
          .ok (some ⟨.ofNat 21, 9⟩, memo') ∧
        ∃ p : Progress, Match.mk (.ofNat 21) 9 = ⟨Parts.normal rule p.parts, p.place⟩ ∧
          p.parts.Divide rule := by
  intro r
  have compiled : RuleBook.ofDescription counting = .ok ⟨[countingSet], .none⟩ := by decide +kernel
  refine ⟨compiled, _, _, rfl, ?_⟩
  have run : ((r.matchRung countingSet countingSet.ladder none 0 0 10).run (r.answer 64)
      (Memo.empty.record ⟨countingSet, .full, 0, 10⟩ .pending)).toOption.map (fun y => id y.1) =
        some (some ⟨.ofNat 21, 9⟩) := by
    decide +kernel
  obtain ⟨_, memo', h, rfl⟩ := exists_run id run
  obtain ⟨pieces, mem, p, hm, -, divide⟩ :=
    remainder_below_divisor compiled .decimal false 64 "twoty-one!".toList (List.mem_cons_self ..)
      (.pending _ .empty) h
  have plain : ∀ pieces ∈ Template.alternatives
      [.piece (.substitution (.quotient .owner)), .piece (.literal "ty".toList),
        .optional [.literal "-".toList, .substitution (.remainder .owner)]],
      .substitution .forced ∉ pieces := by decide
  exact ⟨memo', h, p, hm, divide fun forced => absurd forced (plain pieces mem)⟩

/-- The rule for thousands of `digitwise`. -/
def thousands : Rule where
  base := 1000
  radix := 10
  marks := 0
  keyless := false
  template := [.piece (.substitution (.quotient .owner)), .piece (.substitution .forced)]

/-- Decimal digits, the last three places of which are read by `>>>` and `>>`. -/
def digitwise : RuleSet where
  name := SetName.unnamed
  ladder :=
    [thousands, { thousands with base := 100 },
      { thousands with
        base := 10
        template :=
          [.piece (.substitution (.quotient .owner)),
            .piece (.substitution (.remainder .owner))] }] ++
      (List.range 10).reverse.map fun d =>
        ⟨d, 10, 0, true, [.piece (.literal [Nat.digitChar d])]⟩

/-- **`>>>` may read a remainder above the divisor.**  Of `12345` it takes all but the first digit
    as the remainder of thousands. -/
theorem not_remainder_below_divisor :
    RuleBook.ofDescription
        "0; 1; 2; 3; 4; 5; 6; 7; 8; 9;\n10: <<>>;\n100: <<>>>;\n1000: <<>>>;".toList =
          .ok ⟨[digitwise], .none⟩ ∧
      let r := ofText ⟨[digitwise], .none⟩ .decimal false 64 "12345".toList
      r.read digitwise = .ok (some (.ofNat 3345, 5)) ∧
        ∃ p memo', (r.matchElements (r.readRung digitwise thousands digitwise.ladder.tail none 0) 5
            [.substitution (.quotient .owner), .substitution .forced] 0 {}).run (r.answer 64)
              (Memo.empty.record ⟨digitwise, .full, 0, 5⟩ .pending) = .ok (some p, memo') ∧
          p.parts.quotient = some (.ofNat 1) ∧ p.parts.remainder = some (.ofNat 2345) ∧
            ¬ (Binary64.ofNat 2345).Below thousands.divisor := by
  refine ⟨by decide +kernel, by decide +kernel, ?_⟩
  have run : ((Reader.matchElements (ofText ⟨[digitwise], .none⟩ .decimal false 64 "12345".toList)
      ((ofText ⟨[digitwise], .none⟩ .decimal false 64 "12345".toList).readRung digitwise thousands
        digitwise.ladder.tail none 0) 5
      [.substitution (.quotient .owner), .substitution .forced] 0 {}).run
        ((ofText ⟨[digitwise], .none⟩ .decimal false 64 "12345".toList).answer 64)
        (Memo.empty.record ⟨digitwise, .full, 0, 5⟩ .pending)).toOption.map
          (fun y => y.1.map Progress.parts) =
        some (some ⟨some (.ofNat 1), some (.ofNat 2345), none⟩) := by
    decide +kernel
  obtain ⟨found, memo', h, parts⟩ := exists_run (Option.map Progress.parts) run
  obtain ⟨p, rfl, known⟩ := Option.map_eq_some_iff.1 parts
  refine ⟨p, memo', h, by rw [known], by rw [known], ?_⟩
  rintro ⟨k, hk, lt⟩
  rw [Binary64.place_ofNat (by decide)] at hk
  obtain rfl := Option.some.inj hk
  have divisor : thousands.divisor = 1000 := by decide
  rw [divisor, Int.ofNat_lt] at lt
  exact absurd (Nat.lt_of_mul_lt_mul_right lt) (by decide)

end Reader
end Spellout
