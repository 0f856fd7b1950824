/-
  The numerals of a pattern.

  They are an optional minus sign, digits, and a point with digits behind it if the pattern has
  places; if the pattern has groups, single commas may stand between the digits before the point,
  anywhere.  What is read from a text is the longest numeral at its start.  A comma, point or minus
  sign without a digit behind it is left in the text and spoils nothing that stands before it.

  * `NumeralPattern.Numeral`: the numerals of a pattern;
  * `NumeralSystem.exists_numeral`: the parts of a text are those of a numeral;
  * `NumeralSystem.length_le_of_isStart`: and of the longest one that the text starts with;
  * `NumeralSystem.read_eq_longest`: its value is read, the one nearest to its digits.
-/
import Spellout.Proofs.Number.Nearest
import Spellout.Proofs.Numeral.RoundTrip

namespace Spellout

/-! ## The grammar -/

/-- Digits, one at least. -/
def Text.IsRun (t : Text) : Prop := t ≠ [] ∧ t.all Char.isDigit

theorem Text.isRun_cons {c : Char} {t : Text} :
    IsRun (c :: t) ↔ c.isDigit ∧ t.all Char.isDigit := by
  simp [IsRun]

/-- A numeral of a pattern. -/
structure NumeralPattern.Numeral (p : NumeralPattern) where
  /-- There is a minus sign. -/
  negative : Bool
  /-- The digits before the first comma. -/
  first : Text
  /-- The digits behind each comma. -/
  rest : List Text
  /-- The digits behind the point; without any there is no point. -/
  fraction : Text
  runs : ∀ run ∈ first :: rest, Text.IsRun run
  single : p.grouping = none → rest = []
  digits : fraction.all Char.isDigit
  kept : fraction ≠ [] → p.keepsFraction

namespace NumeralPattern.Numeral

variable {p : NumeralPattern} (n : p.Numeral)

/-- The sign of a numeral. -/
def sign : Text := if n.negative then ['-'] else []

/-- The digits before the point, with commas. -/
def whole : Text := [','].intercalate (n.first :: n.rest)

/-- A numeral as it is written. -/
def text : Text := n.sign ++ n.whole ++ NumeralSystem.pointed n.fraction

/-- The number that a numeral without its sign and commas shows. -/
def decimal : Decimal := .ofDigits (n.first :: n.rest).flatten n.fraction

end NumeralPattern.Numeral

theorem Text.isDigit_of_ascii {c : Char} (ascii : c.toNat < 128) (h : isDecimalDigit c) :
    c.isDigit := by
  obtain ⟨z, mem, range⟩ := List.any_eq_true.1 h
  simp only [Bool.and_eq_true, decide_eq_true_eq] at range
  have zeros : ∀ z ∈ digitZeros, z = 0x30 ∨ 128 ≤ z := by decide
  have low : 48 ≤ c.toNat ∧ c.toNat ≤ 57 := by
    rcases zeros z mem with rfl | high <;> omega
  simpa [Char.isDigit, UInt32.le_iff_toNat_le] using low

namespace NumeralSystem

variable {p : NumeralPattern} {t u : Text} {commas : Bool}

/-! ## Runs of digits -/

theorem head?_intercalate {first : Text} (h : first.IsRun) (rest : List Text) (u : Text) :
    ([','].intercalate (first :: rest) ++ u).head?.any Text.isDecimalDigit := by
  obtain ⟨some, digits⟩ := h
  cases first with
  | nil => exact absurd rfl some
  | cons c first =>
    have digit : Text.isDecimalDigit c := isDecimalDigit_of_all digits (by simp)
    cases rest <;> simpa using digit

/-- Runs of digits are read, whatever follows them. -/
theorem wholePart_intercalate {rest : List Text} (single : commas = false → rest = []) (u : Text) :
    ∀ {first : Text}, (∀ run ∈ first :: rest, Text.IsRun run) →
      wholePart commas ([','].intercalate (first :: rest) ++ u) =
        [','].intercalate (first :: rest) ++ wholePart commas u := by
  induction rest with
  | nil =>
    intro first runs
    rw [List.intercalate_singleton]
    exact wholePart_digits_append (runs first (by simp)).2 u
  | cons second rest ih =>
    intro first runs
    cases commas with
    | false => cases single rfl
    | true =>
      have digits := (runs first (by simp)).2
      have next : ([','].intercalate (second :: rest) ++ u).head?.any Text.isDecimalDigit :=
        head?_intercalate (runs second (by simp)) rest u
      have behind := ih (by simp) fun run mem => runs run (List.mem_cons_of_mem _ mem)
      have comma : ¬ Text.isDecimalDigit ',' := by decide
      rw [List.intercalate_cons_cons, List.append_assoc, List.append_assoc,
        wholePart_digits_append digits, List.singleton_append, wholePart, if_neg comma,
        if_pos (by simpa using next), behind]
      simp

/-- The whole part of a text is made of runs of digits. -/
theorem exists_runs (commas : Bool) : ∀ {t : Text}, t.head?.any Text.isDecimalDigit →
    (∀ c ∈ t, Text.isDecimalDigit c → c.isDigit) →
    ∃ first rest, wholePart commas t = [','].intercalate (first :: rest) ∧
      (∀ run ∈ first :: rest, Text.IsRun run) ∧ (commas = false → rest = [])
  | [], h, _ => by cases h
  | c :: t, h, ascii => by
    have digit : Text.isDecimalDigit c := by simpa using h
    have isDigit : c.isDigit := ascii c (by simp) digit
    have behind : ∀ d ∈ t, Text.isDecimalDigit d → d.isDigit :=
      fun d mem => ascii d (List.mem_cons_of_mem _ mem)
    have alone : Text.IsRun [c] := Text.isRun_cons.2 ⟨isDigit, rfl⟩
    rw [wholePart, if_pos digit]
    by_cases more : t.head?.any Text.isDecimalDigit
    · -- the run goes on
      obtain ⟨first, rest, eq, runs, single⟩ := exists_runs commas more behind
      refine ⟨c :: first, rest, ?_, ?_, single⟩
      · rw [eq]
        cases rest <;> simp
      · rintro run (_ | ⟨_, mem⟩)
        · exact Text.isRun_cons.2 ⟨isDigit, (runs first (by simp)).2⟩
        · exact runs run (List.mem_cons_of_mem _ mem)
    · cases t with
      | nil => exact ⟨[c], [], by simp [wholePart], by simpa using alone, fun _ => rfl⟩
      | cons d t =>
        have other : ¬ Text.isDecimalDigit d := by simpa using more
        rw [wholePart, if_neg other]
        split
        · -- a comma ends the run, and another one follows
          rename_i comma
          simp only [Bool.and_eq_true, beq_iff_eq] at comma
          obtain ⟨⟨grouped, rfl⟩, next⟩ := comma
          obtain ⟨first, rest, eq, runs, -⟩ :=
            exists_runs commas next fun d mem => behind d (List.mem_cons_of_mem _ mem)
          refine ⟨[c], first :: rest, ?_, ?_, by simp [grouped]⟩
          · rw [eq, List.intercalate_cons_cons]
            rfl
          · rintro run (_ | ⟨_, mem⟩)
            · exact alone
            · exact runs run mem
        · exact ⟨[c], [], by simp, by simpa using alone, fun _ => rfl⟩

theorem filter_intercalate {rest : List Text} :
    ∀ {first : Text}, (∀ run ∈ first :: rest, Text.IsRun run) →
      ([','].intercalate (first :: rest)).filter (· ≠ ',') = (first :: rest).flatten := by
  induction rest with
  | nil =>
    intro first runs
    simpa using filter_digits (runs first (by simp)).2
  | cons second rest ih =>
    intro first runs
    have behind := ih fun run mem => runs run (List.mem_cons_of_mem _ mem)
    rw [List.intercalate_cons_cons, List.filter_append, List.filter_append, behind,
      filter_digits (runs first (by simp)).2]
    simp

/-! ## The longest numeral -/

theorem exists_fraction (keep : Bool) (ascii : ∀ c ∈ t, Text.isDecimalDigit c → c.isDigit) :
    ∃ fraction, keptFraction keep t = pointed fraction ∧ fraction.all Char.isDigit ∧
      (fraction ≠ [] → keep) := by
  cases keep with
  | false => exact ⟨[], rfl, rfl, by simp⟩
  | true =>
    have start : fractionPart t <+: t := fractionPart_isStart t
    rcases fractionPart_eq t with none | ⟨digits, some, all, eq⟩
    · exact ⟨[], none, rfl, by simp⟩
    · refine ⟨digits, ?_, List.all_eq_true.2 fun c mem => ?_, fun _ => rfl⟩
      · rw [pointed, if_neg some]
        exact eq
      · rw [eq] at start
        exact ascii c (start.subset (List.mem_cons_of_mem _ mem))
          (List.takeWhile_eq_self_iff.1 all c mem)

/-- **The parts of a text** are those of a numeral, if its digits are those of ASCII. -/
theorem exists_numeral (ascii : ∀ c ∈ t, Text.isDecimalDigit c → c.isDigit)
    {sign whole fraction : Text} (h : numeralParts? t p = some (sign, whole, fraction)) :
    ∃ n : p.Numeral, n.sign = sign ∧ n.whole = whole ∧ pointed n.fraction = fraction := by
  obtain ⟨digit, rfl, rfl, rfl⟩ := numeralParts?_eq_some.1 h
  have ascii : ∀ c ∈ t.drop (signPart t).length, Text.isDecimalDigit c → c.isDigit :=
    fun c mem => ascii c (List.mem_of_mem_drop mem)
  obtain ⟨first, rest, whole, runs, single⟩ := exists_runs p.grouping.isSome digit ascii
  obtain ⟨fraction, kept, digits, keep⟩ := exists_fraction p.keepsFraction fun c mem =>
    ascii c (List.mem_of_mem_drop (i := (wholePart p.grouping.isSome _).length) mem)
  refine ⟨⟨signPart t ≠ [], first, rest, fraction, runs, ?_, digits, keep⟩, ?_, whole.symm,
    kept.symm⟩
  · intro none
    exact single (by rw [none]; rfl)
  · have signs : signPart t = ['-'] ∨ signPart t = [] := by
      unfold signPart
      split <;> simp
    rcases signs with eq | eq <;> simp [NumeralPattern.Numeral.sign, eq]

/-- The value of a numeral is read from its parts. -/
theorem readDecimal_of_parts (n : p.Numeral)
    (h : numeralParts? t p = some (n.sign, n.whole, pointed n.fraction)) :
    readDecimal t p = some (Decimal.nearest n.negative n.decimal, Text.utf8Size n.text) := by
  have plain : n.whole.filter (· ≠ ',') = (n.first :: n.rest).flatten := filter_intercalate n.runs
  have digits : ((n.first :: n.rest).flatten ++ n.fraction).all Char.isDigit := by
    rw [List.all_append, n.digits, Bool.and_true, List.all_flatten, List.all_eq_true]
    exact fun run mem => (n.runs run mem).2
  have sign : decide (n.sign ≠ []) = n.negative := by
    unfold NumeralPattern.Numeral.sign
    cases n.negative <;> rfl
  rw [readDecimal, h]
  simp only [plain, drop_pointed, digits, if_true, sign]
  rfl

/-- **A text has parts if a numeral stands at its start,** and they are not shorter than it. -/
theorem length_le_of_isStart (n : p.Numeral) (h : n.text <+: t) :
    ∃ sign whole fraction, numeralParts? t p = some (sign, whole, fraction) ∧
      n.text.length ≤ (sign ++ whole ++ fraction).length := by
  obtain ⟨u, rfl⟩ := h
  have split : n.text ++ u = n.sign ++ (n.whole ++ (pointed n.fraction ++ u)) := by
    simp [NumeralPattern.Numeral.text]
  have start : (n.whole ++ (pointed n.fraction ++ u)).head?.any Text.isDecimalDigit :=
    head?_intercalate (n.runs _ (by simp)) ..
  have signed : signPart (n.sign ++ (n.whole ++ (pointed n.fraction ++ u))) = n.sign := by
    unfold NumeralPattern.Numeral.sign
    cases n.negative with
    | true => rfl
    | false => exact signPart_of_digit start
  have whole : wholePart p.grouping.isSome (n.whole ++ (pointed n.fraction ++ u)) =
      n.whole ++ wholePart p.grouping.isSome (pointed n.fraction ++ u) :=
    wholePart_intercalate (fun none => n.single (by simpa using none)) _ n.runs
  refine ⟨n.sign, _, _, numeralParts?_eq_some.2 ⟨?_, ?_, rfl, rfl⟩, ?_⟩
  · rw [split, signed, List.drop_left]
    exact start
  · rw [split, signed]
  · rw [split, List.drop_left, whole]
    by_cases none : n.fraction = []
    · have pointless : pointed n.fraction = [] := if_pos none
      simp only [NumeralPattern.Numeral.text, pointless, List.length_append, List.length_nil]
      omega
    · -- the whole part ends at the point, and the digits behind it are read
      have point : pointed n.fraction = '.' :: n.fraction := if_neg none
      have ends : EndsWhole ('.' :: (n.fraction ++ u)) := by
        intro c hc
        obtain rfl : '.' = c := by simpa using hc
        decide
      have digits : (n.fraction ++ u).takeWhile Text.isDecimalDigit =
          n.fraction ++ u.takeWhile Text.isDecimalDigit :=
        List.takeWhile_append_of_pos fun c mem => isDecimalDigit_of_all n.digits mem
      have read : keptFraction p.keepsFraction ('.' :: (n.fraction ++ u)) =
          '.' :: (n.fraction ++ u.takeWhile Text.isDecimalDigit) := by
        rw [keptFraction, n.kept none, if_pos rfl, fractionPart_point, digits]
        rw [digits]
        exact List.append_ne_nil_of_left_ne_nil none _
      rw [point, List.cons_append, wholePart_of_endsWhole ends, List.append_nil, List.drop_left, read]
      simp only [NumeralPattern.Numeral.text, point, List.length_append, List.length_cons]
      omega

/-- Every character of ASCII is one byte. -/
theorem utf8Size_eq_length (ascii : ∀ c ∈ t, c.toNat < 128) : Text.utf8Size t = t.length := by
  induction t with
  | nil => rfl
  | cons c t ih =>
    have one : c.utf8Size = 1 := by
      rw [Char.utf8Size_eq_one_iff]
      have := ascii c (by simp)
      exact UInt32.le_iff_toNat_le.2 (Nat.le_of_lt_succ this)
    rw [Text.utf8Size_cons, one, ih fun d mem => ascii d (List.mem_cons_of_mem _ mem),
      List.length_cons, Nat.add_comm]

/-- **The longest numeral at the start of a text is read,** all of it and nothing behind it: there is
    a value if there is a numeral, and it is the one nearest to what the longest one shows. -/
theorem read_eq_longest {p : NumeralPattern} {t : Text} (ascii : ∀ c ∈ t, c.toNat < 128) :
    (decimal.read t p = none ↔ ∀ n : p.Numeral, ¬ n.text <+: t) ∧
      ∀ v size, decimal.read t p = some (v, size) →
        ∃ n : p.Numeral, n.text <+: t ∧ n.text.length = size ∧
          (∀ k : p.Numeral, k.text <+: t → k.text.length ≤ size) ∧
            n.decimal.IsNearest n.negative v := by
  have digits : ∀ c ∈ t, Text.isDecimalDigit c → c.isDigit :=
    fun c mem => Text.isDigit_of_ascii (ascii c mem)
  cases parts : numeralParts? t p with
  | none =>
    have nothing : decimal.read t p = none := by
      show readDecimal t p = none
      rw [readDecimal, parts]
    refine ⟨iff_of_true nothing fun n start => ?_, by simp [nothing]⟩
    obtain ⟨_, _, _, found, -⟩ := length_le_of_isStart n start
    rw [parts] at found
    cases found
  | some found =>
    obtain ⟨sign, whole, fraction⟩ := found
    obtain ⟨n, rfl, rfl, rfl⟩ := exists_numeral digits parts
    have start : n.text <+: t := (numeralParts?_append parts).1
    have size : Text.utf8Size n.text = n.text.length :=
      utf8Size_eq_length fun c mem => ascii c (start.subset mem)
    have read : decimal.read t p = some (Decimal.nearest n.negative n.decimal, n.text.length) := by
      rw [← size]
      exact readDecimal_of_parts n parts
    refine ⟨iff_of_false (by simp [read]) fun free => free n start, fun v length h => ?_⟩
    obtain ⟨rfl, rfl⟩ := Prod.mk.inj (Option.some.inj (read.symm.trans h))
    refine ⟨n, start, rfl, fun k begins => ?_, Decimal.isNearest_nearest _ _⟩
    obtain ⟨_, _, _, found, le⟩ := length_le_of_isStart k begins
    rw [parts] at found
    cases found
    exact le

/-- Of `-1,2,34.50.,6` the pattern `#,##0.#` reads the first ten characters: the second point has a
    comma behind it. -/
theorem read_eq_longest_pointed :
    ∃ p v, NumeralPattern.ofText? "#,##0.#".toList = some p ∧
      (∀ c ∈ "-1,2,34.50.,6".toList, c.toNat < 128) ∧
      v = ((Binary64.ofNat 12345).div (.ofNat 10)).neg ∧
      decimal.read "-1,2,34.50.,6".toList p = some (v, 10) ∧
      ∃ n : p.Numeral, n.text <+: "-1,2,34.50.,6".toList ∧ n.text.length = 10 ∧
        (∀ k : p.Numeral, k.text <+: "-1,2,34.50.,6".toList → k.text.length ≤ 10) ∧
          n.decimal.IsNearest n.negative v := by
  have all : "-1,2,34.50.,6".toList.all fun c => c.toNat < 128 := by decide
  have ascii : ∀ c ∈ "-1,2,34.50.,6".toList, c.toNat < 128 := by
    simpa only [List.all_eq_true, decide_eq_true_eq] using all
  have pattern : NumeralPattern.ofText? "#,##0.#".toList =
      some ⟨"#,##0.#".toList, 1, some 3, 0, 1⟩ := by decide
  have read : decimal.read "-1,2,34.50.,6".toList ⟨"#,##0.#".toList, 1, some 3, 0, 1⟩ =
      some (((Binary64.ofNat 12345).div (.ofNat 10)).neg, 10) := by decide +kernel
  exact ⟨_, _, pattern, ascii, rfl, read, (read_eq_longest ascii).2 _ _ read⟩

end NumeralSystem
end Spellout
