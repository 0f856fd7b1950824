/-
  Signs in a run of the engine.

  Before a value below zero is spelled out the engine writes a minus sign, or a rule of the set does;
  behind it there is no sign any more.  So whatever the engine takes up, records or hands on is not
  below zero, except for the value of that one rule, which is recorded on the first level.

  * `Act.Clear`, `Run.Clear`: no act has to do with a value below zero, and no sign is written;
  * `Operand.Fit`: the operand is a finite value that is not below zero;
  * `Applied.clear_of_insertion`: what takes the place of a substitution is fit for a numeral;
  * `Engine.clear_run`: the run of a call that is not for a value below zero is clear;
  * `Run.Signed`: what the acts of a whole run have to do with values below zero;
  * `RuleBook.signed_format`: so it is with every run.
-/
import Spellout.Proofs.Spelling.Signed

namespace Spellout

/-! ## Clear runs -/

/-- There is nothing below zero in the act, and it is no sign. -/
def Act.Clear : Act → Prop
  | .whole n => 0 ≤ n
  | .record r => r.value.isNegative = false
  | .numeral v _ => v.isFinite ∧ v.isNegative = false
  | .text _ => True
  | .sign => False

/-- There is nothing below zero in the acts, and no sign is written. -/
def Run.Clear {α : Type} (x : Run α) : Prop := ∀ a ∈ x.acts, a.Clear

namespace Run.Clear

variable {α β : Type}

theorem of (x : Except Error α) : (Run.of x).Clear := by
  intro a mem
  cases mem

theorem act {a : Act} (h : a.Clear) : (Run.act a).Clear := by
  intro a' mem
  obtain rfl := List.mem_singleton.1 mem
  exact h

theorem bind {x : Run α} {f : α → Run β} (hx : x.Clear)
    (hf : ∀ a, x.result = .ok a → (f a).Clear) : (x >>= f).Clear := by
  cases h : x.result with
  | error e =>
    rw [Run.bind_of_error h]
    exact hx
  | ok a =>
    rw [Run.bind_of_ok h]
    exact List.forall_mem_append.2 ⟨hx, hf a h⟩

theorem forM {f : α → Run Unit} : ∀ {l : List α}, (∀ a ∈ l, (f a).Clear) → (l.forM f).Clear
  | [], _ => of (.ok ())
  | a :: l, h => by
    obtain ⟨first, rest⟩ := List.forall_mem_cons.1 h
    exact first.bind fun _ _ => forM rest

end Run.Clear

/-! ## Operands -/

/-- The operand is a finite value, not below zero. -/
def Operand.Fit (x : Operand) : Prop := x.toBinary64.isFinite ∧ x.toBinary64.isNegative = false

theorem Operand.Upright.toBinary64 {x : Operand} (h : x.Upright) :
    x.toBinary64.isNegative = false := by
  cases x with
  | whole n => exact Binary64.isNegative_natural n
  | real v => exact h

theorem Operand.Upright.fit {x : Operand} (h : x.Upright) (range : x.InRange) : x.Fit :=
  ⟨range.isFinite, h.toBinary64⟩

/-- The value that a numeral is asked for is fit for it. -/
def Insertion.Clear : Insertion → Prop
  | .numeral v _ => v.isFinite ∧ v.isNegative = false
  | .spelled _ | .digits .. => True

/-- **What takes the place of a substitution is fit for a numeral.** -/
theorem Applied.clear_of_insertion {book : RuleBook} (ordered : ∀ s ∈ book.sets, s.Ordered)
    {a : Applied} (sound : a.Sound book) (upright : a.application.Upright) {sub : Substitution}
    {i : Insertion} (h : a.insertion book sub = .ok i) : i.Clear := by
  obtain ⟨hs, -, sound⟩ := sound
  cases inserts_of_ok h with
  | numeral => exact (upright.operand sub).fit (sound.operand sub)
  | @divided rule _ n _ normal =>
    rw [normal] at sound
    exact ⟨sound.isFinite_div (ordered _ hs), Binary64.isNegative_div_ofNat n rule.divisor⟩
  | value | rung | fraction | digits | joinedDigits => trivial

/-- A rule is recorded with a value that is not below zero, unless the request is for one. -/
theorem Request.Planned.upright_value {r : Request} {a : Applied} (h : r.Planned (.apply a))
    (upright : r.Upright) : a.value.Upright := by
  cases h with
  | normal | rung => trivial
  | special above => exact above
  | negative below => exact absurd below (Bool.eq_false_iff.1 upright)
  | fraction => exact upright

/-! ## Runs -/

namespace Engine

section

variable {sp : Speller} {down : Call → Run Unit} {depth : Nat}

/-- What takes the place of a substitution leads to clear runs. -/
theorem clear_place (h : ∀ r, r.Sound sp.book → r.Upright → (down (callOf r)).Clear) {i : Insertion}
    (meets : sp.book.Meets i) (upright : ∀ r, i = .spelled r → r.Upright) (clear : i.Clear) :
    (place sp down i).Clear := by
  cases i with
  | spelled r => exact h r meets (upright r rfl)
  | numeral v p =>
    refine (Run.Clear.act (a := .numeral v p) clear).bind fun _ _ => ?_
    exact (Run.Clear.of _).bind fun t _ => .act (a := .text t) trivial
  | digits s v separator =>
    have digit : ∀ d ∈ v.fractionDigits, (down (.operand s (.whole d))).Clear :=
      fun d hd => h (.value s (.whole d)) (meets d hd) trivial
    simp only [place]
    cases hl : v.fractionDigits with
    | nil => exact .of (.ok ())
    | cons d digits =>
      rw [hl] at digit
      obtain ⟨first, rest⟩ := List.forall_mem_cons.1 digit
      refine first.bind fun _ _ => .forM fun d hd => ?_
      exact (Run.Clear.act (a := .text separator) trivial).bind fun _ _ => rest d hd

theorem clear_writePiece (ordered : ∀ s ∈ sp.book.sets, s.Ordered)
    (h : ∀ r, r.Sound sp.book → r.Upright → (down (callOf r)).Clear) {a : Applied}
    (sound : a.Sound sp.book) (upright : a.application.Upright) {p : Piece} (hp : p ∈ a.pieces) :
    (writePiece sp down a p).Clear := by
  cases p with
  | literal t => exact .act (a := .text t) trivial
  | substitution sub =>
    refine (Run.Clear.of _).bind fun i hi => ?_
    have hi : a.insertion sp.book sub = .ok i := hi
    have inserted := RuleBook.ends_insertion ordered sound (Template.mem_substitutions hp)
    exact clear_place h (inserted.of_ok hi)
      (fun r hr => Applied.upright_of_insertion upright (hr ▸ hi))
      (Applied.clear_of_insertion ordered sound upright hi)

/-- The template of a rule is written by a clear run. -/
theorem clear_pieces (ordered : ∀ s ∈ sp.book.sets, s.Ordered)
    (h : ∀ r, r.Sound sp.book → r.Upright → (down (callOf r)).Clear) {a : Applied}
    (sound : a.Sound sp.book) (upright : a.application.Upright) :
    (a.pieces.forM (writePiece sp down a)).Clear :=
  .forM fun _ hp => clear_writePiece ordered h sound upright hp

theorem Follows.clear {p : Except Error Plan} {x : Run Unit} (h : Follows sp down depth p x)
    (leads : ∀ plan, p = .ok plan → (carryOut sp down depth plan).Clear) : x.Clear := by
  cases h with
  | planned taken =>
    have numbers : (⟨taken.map fun n : Nat => Act.whole n, .ok ()⟩ : Run Unit).Clear := by
      intro a mem
      obtain ⟨n, -, rfl⟩ := List.mem_map.1 mem
      exact Int.natCast_nonneg _
    exact numbers.bind fun _ _ => (Run.Clear.of p).bind leads
  | recorded e above => exact Run.Clear.act (a := .record _) above

end

variable {book : RuleBook} {numerals : NumeralSystem} {limit : Nat}

/-- **Below a call that is not for a value below zero there is no such value,** and no sign is
    written. -/
theorem clear_run (ordered : ∀ s ∈ book.sets, s.Ordered) : ∀ (fuel depth : Nat) {r : Request},
    r.Sound book → r.Upright → (run ⟨book, numerals, limit⟩ fuel depth (callOf r)).Clear
  | 0, _, r, _, _ => by
    cases r with
    | value s x =>
      cases x with
      | whole n => exact (Run.Clear.act (a := .whole n) (Int.natCast_nonneg n)).bind fun _ _ => .of _
      | real v => exact .of _
    | rung | fraction => exact .of _
  | fuel + 1, depth, r, sound, upright => by
    rw [run]
    refine (follows_plan upright.plain).clear fun plan hp => ?_
    have way := Request.planned_of_plan hp
    cases plan with
    | minus next => exact absurd way upright.not_minus
    | apply a =>
      have planned : a.Sound book := (RuleBook.ends_plan ordered sound).of_ok hp
      have record : Act.Clear (.record (a.step depth).recorded) :=
        (way.upright_value upright).toBinary64
      exact (Run.Clear.act record).bind fun _ _ =>
        clear_pieces ordered (fun r => clear_run ordered fuel (depth + 1)) planned way.upright

end Engine

/-! ## Values -/

/-- Values below zero in a whole run. -/
structure Run.Signed (x : Run Unit) : Prop where
  /-- No number that is taken up is below zero. -/
  whole : ∀ n, .whole n ∈ x.acts → 0 ≤ n
  /-- The numeral system is handed finite values only, none of them below zero. -/
  numeral : ∀ v p, .numeral v p ∈ x.acts → v.isFinite ∧ v.isNegative = false
  /-- Only a rule for values below zero is recorded with one, on the first level. -/
  record : ∀ r, .record r ∈ x.acts → r.value.isNegative → r.depth = 0 ∧ r.key = .special .negative
  /-- At most one sign is written that no rule asks for, before anything else. -/
  sign : .sign ∉ x.acts ∨ ∃ rest, x.acts = .sign :: rest ∧ .sign ∉ rest

namespace Run

variable {x : Run Unit}

theorem Clear.signed (h : x.Clear) : x.Signed where
  whole _ mem := h _ mem
  numeral _ _ mem := h _ mem
  record r mem below := by
    have above : r.value.isNegative = false := h _ mem
    rw [above] at below
    cases below
  sign := .inl fun mem => h _ mem

/-- Behind a sign everything is clear. -/
theorem Clear.signed_sign (h : x.Clear) : (Run.act .sign >>= fun _ => x).Signed := by
  have clear := h.signed
  refine ⟨fun n mem => ?_, fun v p mem => ?_, fun r mem => ?_, .inr ⟨x.acts, rfl, fun mem => h _ mem⟩⟩
  · exact clear.whole n ((List.mem_cons.1 mem).resolve_left nofun)
  · exact clear.numeral v p ((List.mem_cons.1 mem).resolve_left nofun)
  · exact clear.record r ((List.mem_cons.1 mem).resolve_left nofun)

/-- Behind a rule for values below zero, on the first level, everything is clear. -/
theorem Clear.signed_record (h : x.Clear) {r : Record} (depth : r.depth = 0)
    (key : r.key = .special .negative) : (Run.act (.record r) >>= fun _ => x).Signed := by
  have clear := h.signed
  refine ⟨fun n mem => ?_, fun v p mem => ?_, fun r' mem below => ?_, .inl fun mem => ?_⟩
  · exact clear.whole n ((List.mem_cons.1 mem).resolve_left nofun)
  · exact clear.numeral v p ((List.mem_cons.1 mem).resolve_left nofun)
  · rcases List.mem_cons.1 mem with same | mem
    · cases same
      exact ⟨depth, key⟩
    · exact clear.record r' mem below
  · exact h _ ((List.mem_cons.1 mem).resolve_left nofun)

end Run

namespace RuleBook

variable {book : RuleBook} {s : RuleSet} {v : Binary64}

/-- A value below zero is spelled out behind a sign, or by the rule for such values. -/
theorem signed_of_isNegative (ordered : ∀ s ∈ book.sets, s.Ordered) (hs : s ∈ book.sets)
    (range : v.InRange) (below : v.isNegative) (numerals : NumeralSystem) (limit fuel : Nat) :
    (Engine.run ⟨book, numerals, limit⟩ (fuel + 1) 0 (.operand s (.real v))).Signed := by
  have sound : Request.Sound book (.value s (.real v)) := ⟨hs, range⟩
  have deeper (r : Request) (sound : r.Sound book) (upright : r.Upright) :
      (Engine.run ⟨book, numerals, limit⟩ fuel 1 (Engine.callOf r)).Clear :=
    Engine.clear_run ordered fuel 1 sound upright
  rw [Engine.run, Engine.answer, Engine.formatReal_of_isNegative s below]
  cases hp : Plan.real s v with
  | error e => exact (Run.Clear.of (.error e)).signed
  | ok plan =>
    have way : Request.Planned (.value s (.real v)) plan := Request.planned_of_plan hp
    have planned : plan.Sound book := (ends_plan ordered sound).of_ok hp
    cases plan with
    | minus next =>
      obtain ⟨_, _, -, -, -, x, rfl, upright⟩ := way.of_minus
      exact (deeper (.value _ x) planned upright).signed_sign
    | apply a =>
      have pieces : Run.Clear (a.pieces.forM (Engine.writePiece ⟨book, numerals, limit⟩ _ a)) :=
        Engine.clear_pieces ordered deeper planned way.upright
      refine pieces.signed_record rfl ?_
      -- the rule is that for values below zero
      rw [Plan.real, if_pos below] at hp
      obtain ⟨x, -, hp⟩ := bind_eq_ok.1 hp
      unfold Plan.negative at hp
      split at hp
      · cases hp
        rfl
      · cases hp

/-- **Only the first level sees values below zero.**  The engine on signed words does what is said of
    natural numbers: it writes the text that is spelled out, records the same rules, and fails in the
    same way.  In the whole run, also in one that fails, no number is taken up that is below zero, all
    values that are handed to the numeral system are finite and not below zero, no rule but the one for
    values below zero is recorded with such a value, and that only on the first level, and at most one
    sign is written that no rule asks for, before everything else. -/
theorem signed_format {description : Text} (compiled : ofDescription description = .ok book)
    (hs : s ∈ book.sets) (finite : v.isFinite) (numerals : NumeralSystem) (limit : Nat) :
    (Engine.format ⟨book, numerals, limit⟩ s v).Matches
        (Speller.format ⟨book, numerals, limit⟩ s v) ∧
      (Engine.format ⟨book, numerals, limit⟩ s v).Signed := by
  have ordered := ordered_of_ofDescription compiled
  refine ⟨Engine.matches_format _ s v, ?_⟩
  rw [Engine.format, if_pos finite]
  by_cases range : v.InRange
  · by_cases below : v.isNegative
    · exact signed_of_isNegative ordered hs range below numerals limit limit
    · have upright : Request.Upright (.value s (.real v)) := Bool.eq_false_iff.2 below
      have sound : Request.Sound book (.value s (.real v)) := ⟨hs, range⟩
      exact (Engine.clear_run ordered _ _ sound upright).signed
  · -- the value is refused, though a rule may have been recorded
    obtain ⟨w, refused⟩ := plan_of_not_inRange s finite range
    refine ((Engine.follows_real s v).clear fun plan hp => ?_).signed
    rw [refused] at hp
    cases hp

/-- For -3.25 a sign is written first, and then the numbers 3, 2 and 5 are taken up. -/
theorem signed_format_counting :
    ofDescription "%count: x.x: << point >>; zero; one; two; three; four; five;".toList =
        .ok counting ∧ (Binary64.ofRatio true 13 4).isFinite ∧
      ∃ s ∈ counting.sets,
        ((Engine.format ⟨counting, .decimal, 64⟩ s (.ofRatio true 13 4)).Matches
            (Speller.format ⟨counting, .decimal, 64⟩ s (.ofRatio true 13 4)) ∧
          (Engine.format ⟨counting, .decimal, 64⟩ s (.ofRatio true 13 4)).Signed) ∧
        (Engine.format ⟨counting, .decimal, 64⟩ s (.ofRatio true 13 4)).text =
          "-three point two five".toList ∧
        (Engine.format ⟨counting, .decimal, 64⟩ s (.ofRatio true 13 4)).acts.head? = some .sign ∧
        ([3, 2, 5].map Act.whole).Sublist
          (Engine.format ⟨counting, .decimal, 64⟩ s (.ofRatio true 13 4)).acts := by
  have compiled : ofDescription
      "%count: x.x: << point >>; zero; one; two; three; four; five;".toList = .ok counting := by
    decide +kernel
  have finite : (Binary64.ofRatio true 13 4).isFinite := by decide +kernel
  have written : ∀ s ∈ counting.sets,
      (Engine.format ⟨counting, .decimal, 64⟩ s (.ofRatio true 13 4)).text =
          "-three point two five".toList ∧
        (Engine.format ⟨counting, .decimal, 64⟩ s (.ofRatio true 13 4)).acts.head? = some .sign ∧
        ([3, 2, 5].map Act.whole).Sublist
          (Engine.format ⟨counting, .decimal, 64⟩ s (.ofRatio true 13 4)).acts := by
    decide +kernel
  obtain ⟨s, mem⟩ : ∃ s, s ∈ counting.sets := ⟨_, List.mem_singleton_self _⟩
  exact ⟨compiled, finite, s, mem, signed_format compiled mem finite .decimal 64, written s mem⟩

end RuleBook
end Spellout
