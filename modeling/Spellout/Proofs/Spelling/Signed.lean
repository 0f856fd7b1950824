/-
  Signed words and natural numbers.

  Before a value below zero is split its sign is taken away, so no signed word that is divided is ever
  below zero, and the engine on signed words does what is said of natural numbers.

  * `Binary64.isNegative_round`, `Binary64.isNegative_mul_ofNat`: signs of rounded values and products;
  * `toWord_eq`: a value that is not below zero is cut down to the natural number that it should be;
  * `Engine.carryOut`, `Engine.place`: what a plan and an insertion make the engine do;
  * `Engine.substitute_eq`: a substitution is replaced by what should take its place;
  * `Engine.follows_plan`: the answer to a call is what its plan makes the engine do;
  * `Engine.matches_run`, `Engine.matches_format`: so the engine leads to the text that is spelled out,
    with the same rules applied on the way, or to the same error.
-/
import Spellout.Proofs.Number.Sign
import Spellout.Proofs.Spelling.Engine
import Spellout.Proofs.Spelling.Steps

namespace Spellout

/-! ## Binary numbers -/

namespace Binary64

variable {v : Binary64} {s : Bool} {m : Magnitude}

/-- A value that is not below zero is above, or it is zero. -/
theorem eq_false_or_zero (h : (finite s m).isNegative = false) : s = false ∨ m.steps = 0 := by
  rcases Bool.eq_false_or_eq_true s with rfl | rfl
  · refine .inr (Decidable.byContradiction fun ne => ?_)
    rw [isNegative_finite.2 ⟨rfl, ne⟩] at h
    cases h
  · exact .inl rfl

theorem isNegative_of_eq_false_or_zero (h : s = false ∨ m.steps = 0) :
    (finite s m).isNegative = false := by
  refine Bool.eq_false_iff.2 fun below => ?_
  obtain ⟨sign, ne⟩ := isNegative_finite.1 below
  rcases h with rfl | zero
  · cases sign
  · exact ne zero

theorem isNegative_infinite : (infinite false).isNegative = false := by decide +kernel

theorem isNegative_nearest {a b : Nat} (h : s = false ∨ a = 0) (pos : 0 < b) :
    (nearest s a b).isNegative = false := by
  rcases h with rfl | rfl
  · unfold nearest
    split
    · exact isNegative_of_eq_false_or_zero (.inl rfl)
    · exact isNegative_infinite
  · rw [nearest_of_two_mul_lt s pos]
    exact isNegative_of_eq_false_or_zero (.inr rfl)

theorem isNegative_natural (n : Nat) : (ofNat n).isNegative = false :=
  isNegative_nearest (.inl rfl) Nat.one_pos

theorem isNegative_trunc (h : v.isNegative = false) : v.trunc.isNegative = false := by
  cases v with
  | nan | infinite => exact h
  | finite s m =>
    rw [trunc, ofRatio]
    refine isNegative_nearest ((eq_false_or_zero h).imp_right fun zero => ?_) Nat.one_pos
    rw [Magnitude.floor, zero, Nat.zero_div, Nat.zero_mul]

theorem isNegative_round (h : v.isNegative = false) : v.round.isNegative = false := by
  cases v with
  | nan | infinite => exact h
  | finite s m =>
    rw [round, ofRatio]
    refine isNegative_nearest ((eq_false_or_zero h).imp_right fun zero => ?_) Nat.one_pos
    have none : roundHalfUp 0 stepsPerUnit = 0 :=
      Nat.le_zero.1 (roundHalfUp_le stepsPerUnit_pos (Nat.zero_le _))
    rw [zero, none, Nat.zero_mul]

theorem isNegative_mul_ofNat (h : v.isNegative = false) (n : Nat) :
    (v.mul (ofNat n)).isNegative = false := by
  rcases ofNat_eq n with beyond | ⟨b, hb⟩
  · rw [beyond]
    cases v with
    | nan => rfl
    | infinite s => cases s <;> exact h
    | finite s m =>
      rw [mul]
      split
      · rfl
      · rename_i ne
        obtain rfl := (eq_false_or_zero h).resolve_right ne
        exact isNegative_infinite
  · rw [hb]
    cases v with
    | nan => rfl
    | infinite s =>
      rw [mul]
      split
      · rfl
      · cases s <;> exact h
    | finite s m =>
      refine isNegative_nearest ?_ stepsPerUnit_pos
      rcases eq_false_or_zero h with rfl | zero
      · exact .inl rfl
      · exact .inr (by rw [zero, Nat.zero_mul])

/-- The quotient of natural numbers is not below zero. -/
theorem isNegative_div_ofNat (n d : Nat) : ((ofNat n).div (ofNat d)).isNegative = false := by
  rcases ofNat_eq n with hn | ⟨a, hn⟩ <;> rcases ofNat_eq d with hd | ⟨b, hd⟩ <;> rw [hn, hd]
  · rfl
  · exact isNegative_infinite
  · exact isNegative_of_eq_false_or_zero (.inr rfl)
  · rw [div]
    split
    · split
      · rfl
      · exact isNegative_infinite
    · exact isNegative_nearest (.inl rfl) (by omega)

theorem ofInt_natCast (n : Nat) : ofInt n = ofNat n := by
  rw [ofInt, if_neg (by omega), Int.natAbs_natCast]

theorem place_of_above (h : (finite s m).isNegative = false) :
    (finite s m).place = some (m.steps : Int) := by
  rcases eq_false_or_zero h with rfl | zero
  · rfl
  · cases s <;> simp [place, signed, zero]

theorem cut_of_above (h : (finite s m).isNegative = false) : (finite s m).cut = m.floor := by
  rcases eq_false_or_zero h with rfl | zero
  · rfl
  · have floor : m.floor = 0 := by rw [Magnitude.floor, zero, Nat.zero_div]
    cases s <;> simp [cut, signed, floor]

end Binary64

open Binary64 in
/-- **A value that is not below zero is cut down to a natural number,** within the same bounds. -/
theorem toWord_eq {v : Binary64} (above : v.isNegative = false) :
    toWord v = (wholeOf v).map Int.ofNat := by
  have limit := ofNat_wholeLimit
  have place : (ofNat wholeLimit).place = some ((wholeLimit * stepsPerUnit : Nat) : Int) := by
    rw [limit]
    rfl
  have place' : (ofNat wholeLimit).neg.place = some (-((wholeLimit * stepsPerUnit : Nat) : Int)) := by
    rw [limit]
    rfl
  unfold toWord wholeOf
  cases v with
  | nan => exact if_neg fun h => absurd h.2 (by simp [lt, Binary64.place])
  | infinite s =>
    obtain rfl : s = false := by
      cases s with
      | false => rfl
      | true => exact absurd above (by decide +kernel)
    refine if_neg fun h => ?_
    have lt := (lt_iff (a := (overflow : Int)) rfl place).1 h.2
    have fits := onGrid_wholeLimit.1
    omega
  | finite s m =>
    have low := lt_iff (y := finite s m) place' (place_of_above above)
    have high := lt_iff (x := finite s m) (place_of_above above) place
    have pos : 0 < wholeLimit * stepsPerUnit := Nat.mul_pos (by decide) stepsPerUnit_pos
    rw [Int.ofNat_lt, ← floor_lt_iff] at high
    dsimp only
    by_cases fits : m.floor < wholeLimit
    · rw [if_pos ⟨low.2 (by omega), high.2 fits⟩, if_pos fits, cut_of_above above]
      rfl
    · rw [if_neg fun h => fits (high.1 h.2), if_neg fits]
      rfl

/-! ## Runs -/

namespace Run

variable {α β γ : Type}

theorem bind_of_ok {x : Run α} {a : α} (h : x.result = .ok a) (f : α → Run β) :
    x >>= f = ⟨x.acts ++ (f a).acts, (f a).result⟩ := by
  simp only [bind, h]

theorem bind_of_error {x : Run α} {e : Error} (h : x.result = .error e) (f : α → Run β) :
    x >>= f = ⟨x.acts, .error e⟩ := by
  simp only [bind, h]

theorem of_map (x : Except Error α) (f : α → β) (g : β → Run γ) :
    of (x.map f) >>= g = of x >>= fun a => g (f a) := by
  cases x <;> rfl

end Run

/-! ## Natural numbers as words -/

/-- The operand as a word. -/
def Operand.signed : Operand → SignedOperand
  | .whole n => .whole n
  | .real v => .real v

theorem Operand.toBinary64_signed (x : Operand) : x.signed.toBinary64 = x.toBinary64 := by
  cases x with
  | whole n => exact Binary64.ofInt_natCast n
  | real v => rfl

theorem Operand.isZero_signed (x : Operand) : x.signed.isZero = x.isZero := by
  cases x with
  | whole n => simp [signed, SignedOperand.isZero, isZero]
  | real v => rfl

namespace Application

/-- How the rule came to be applied. -/
def manner : Application → Manner
  | .normal rule below _ => .normal rule below
  | .fraction .. => .fraction
  | .negative _ => .negative
  | .numerator _ => .denominator

/-- A numerator is one. -/
def singular : Application → Option Bool
  | .numerator n => some (n = 1)
  | .normal .. | .fraction .. | .negative _ => none

/-- The values of the rule as words. -/
def operands (app : Application) : Operands :=
  ⟨app.value.signed, app.quotient.signed, app.remainder.signed, app.singular⟩

/-- The same groups are written. -/
theorem keeps_eq (app : Application) (group : List Piece) :
    app.keeps group = !app.operands.elides group := by
  cases app with
  | numerator n => simp [keeps, operands, singular, Operands.elides]
  | normal | fraction | negative =>
    simp only [keeps, operands, singular, Operands.elides, Operand.isZero_signed]
    cases Template.governor? group with
    | none => rfl
    | some sub => cases sub <;> rfl

end Application

/-- The step with its value as a binary number. -/
def Step.recorded (step : Step) : Record := ⟨step.depth, step.ruleSet, step.key, step.value.toBinary64⟩

theorem Binary64.fractionDigits_abs (v : Binary64) : v.abs.fractionDigits = v.fractionDigits := by
  cases v <;> rfl

namespace Engine

/-- The request as a call, with words for numbers. -/
def callOf : Request → Call
  | .value s x => .operand s x.signed
  | .rung s rule below n => .rung s rule below n
  | .fraction s v => .fraction s v

variable (sp : Speller) (down : Call → Run Unit) (depth : Nat)

/-! ## Substitutions -/

/-- What an insertion makes the engine do. -/
def place : Insertion → Run Unit
  | .spelled r => down (callOf r)
  | .numeral v p => numeral sp v p
  | .digits s v separator => spellDigits down s separator v.fractionDigits

theorem render_signed (owner : RuleSet) (x : Operand) (t : Target) :
    render sp down owner x.signed t = .of (Applied.sent sp.book owner x t) >>= place sp down := by
  cases t with
  | owner => rfl
  | ruleSet name =>
    simp only [render, Applied.sent]
    cases sp.book.resolve name <;> rfl
  | numeral p =>
    simp only [render, Applied.sent, Operand.toBinary64_signed]
    rfl

/-- **A substitution is replaced by what should take its place.** -/
theorem substitute_eq (a : Applied) (sub : Substitution) :
    substitute sp down a.set a.application.manner a.application.operands sub =
      .of (a.insertion sp.book sub) >>= place sp down := by
  rcases a with ⟨s, key, value, template, app⟩
  cases sub with
  | quotient t =>
    cases app with
    | normal rule below n =>
      cases t with
      | owner => exact render_signed sp down s (.whole (n / rule.divisor)) .owner
      | ruleSet name => exact render_signed sp down s (.whole (n / rule.divisor)) (.ruleSet name)
      | numeral p =>
        have sent := render_signed sp down s (Applied.quotientFor (.normal rule below n) (.numeral p))
          (.numeral p)
        refine Eq.trans ?_ sent
        simp only [substitute, Application.manner, Application.operands, Application.value,
          Application.quotient, Applied.quotientFor, Operand.toBinary64_signed,
          Binary64.ofInt_natCast]
        split <;> rfl
    | fraction v n => exact render_signed sp down s (.whole n) t
    | negative x => exact render_signed sp down s x t
    | numerator n => exact render_signed sp down _ (.whole n) t
  | remainder t =>
    cases app with
    | normal rule below n => exact render_signed sp down s (.whole (n % rule.divisor)) t
    | fraction v n =>
      cases t with
      | owner =>
        show spellDigits down s [' '] v.abs.fractionDigits = _
        rw [Binary64.fractionDigits_abs]
        rfl
      | ruleSet name =>
        simp only [substitute, Application.manner, Applied.insertion]
        cases sp.book.resolve name <;> rfl
      | numeral p => exact render_signed sp down s (.real (v.sub v.trunc)) (.numeral p)
    | negative x => exact render_signed sp down s x t
    | numerator n => exact render_signed sp down s (.whole 0) t
  | forced =>
    cases app with
    | normal rule below n =>
      cases below with
      | nil => exact render_signed sp down s (.whole (n % rule.divisor)) .owner
      | cons p below => rfl
    | fraction v n =>
      show spellDigits down s [] v.abs.fractionDigits = _
      rw [Binary64.fractionDigits_abs]
      rfl
    | negative x =>
      cases x with
      | whole n => exact render_signed sp down s (.whole n) .owner
      | real v => exact render_signed sp down s (.real v) .owner
    | numerator n => exact render_signed sp down s (.whole 0) .owner
  | same t => exact render_signed sp down s app.value t

/-! ## Plans -/

/-- What a piece of the template of a rule makes the engine do. -/
def writePiece (a : Applied) : Piece → Run Unit
  | .literal t => .act (.text t)
  | .substitution sub => .of (a.insertion sp.book sub) >>= place sp down

/-- What a plan makes the engine do. -/
def carryOut : Plan → Run Unit
  | .minus next => do
    .act .sign
    down (callOf next)
  | .apply a => do
    .act (.record (a.step depth).recorded)
    a.pieces.forM (writePiece sp down a)

/-- The template of a rule is written piece by piece. -/
theorem expand_eq (a : Applied) :
    expand sp down a.set a.template a.application.manner a.application.operands =
      a.pieces.forM (writePiece sp down a) := by
  have kept : (fun group => !a.application.operands.elides group) = a.application.keeps :=
    funext fun group => (a.application.keeps_eq group).symm
  have pieces : write sp down a.set a.application.manner a.application.operands =
      writePiece sp down a := by
    funext p
    cases p with
    | literal t => rfl
    | substitution sub => exact substitute_eq sp down a sub
  rw [expand, kept, pieces]
  rfl

theorem applyNormal_natCast (s : RuleSet) (rule : Rule) (below : List Rule) (n : Nat) :
    applyNormal sp down depth s rule below n =
      carryOut sp down depth (.normal s rule below n) := by
  have expanded := expand_eq sp down ⟨s, rule.key, .whole n, rule.template, .normal rule below n⟩
  rw [Plan.normal, carryOut, ← expanded, applyNormal, Binary64.ofInt_natCast, ← Int.ofNat_tdiv,
    ← Int.ofNat_tmod]
  rfl

theorem rollback_natCast (n : Nat) : ∀ l : List Rule, rollback n l = RuleSet.choose? n l
  | [] | [_] => rfl
  | r :: p :: below => by
    have steps : (r.template.substitutionCount = 2 ∧ (n : Int).tmod r.divisor = 0 ∧
        r.base % r.divisor ≠ 0) ↔ r.stepsBack n := by
      rw [← Int.ofNat_tmod]
      have zero : ((n % r.divisor : Nat) : Int) = 0 ↔ n % r.divisor = 0 := by omega
      simp only [Rule.stepsBack, zero, Bool.and_eq_true, decide_eq_true_eq, and_assoc]
    simp only [rollback, RuleSet.choose?, steps]

theorem formatNegative_signed (s : RuleSet) (x : Operand) :
    formatNegative sp down depth s x.signed = carryOut sp down depth (.negative s x) := by
  unfold formatNegative Plan.negative
  cases s.negative with
  | none => rfl
  | some t =>
    have expanded := expand_eq sp down ⟨s, .special .negative, x.neg, t, .negative x⟩
    simp only [carryOut, ← expanded, Operand.toBinary64_signed]
    rfl

/-- The run is what the plan makes the engine do, with numbers taken up before it; or there is no plan,
    and one rule has been recorded in vain. -/
inductive Follows : Except Error Plan → Run Unit → Prop where
  | planned (taken : List Nat) (p : Except Error Plan) :
      Follows p (⟨taken.map fun n : Nat => Act.whole n, .ok ()⟩ >>= fun _ =>
        .of p >>= carryOut sp down depth)
  | recorded (e : Error) {r : Record} (above : r.value.isNegative = false) :
      Follows (.error e) ⟨[.record r], .error e⟩

variable {sp down depth}

theorem follows_of_eq {p : Except Error Plan} {x : Run Unit}
    (h : x = .of p >>= carryOut sp down depth) : Follows sp down depth p x := by
  have planned : Follows sp down depth p (⟨[], .ok ()⟩ >>= fun _ => .of p >>= carryOut sp down depth) :=
    .planned [] p
  rw [h]
  exact planned

theorem follows_whole (s : RuleSet) (n : Nat) :
    Follows sp down depth (Plan.whole s n) (formatWhole sp down depth s n) := by
  have same : formatWhole sp down depth s n = ⟨[n].map fun n : Nat => Act.whole n, .ok ()⟩ >>= fun _ =>
      .of (Plan.whole s n) >>= carryOut sp down depth := by
    have above : ¬ (n : Int) < 0 := by omega
    simp only [formatWhole, if_neg above, rollback_natCast, Plan.whole, RuleSet.chosen?,
      applyNormal_natCast, Binary64.ofInt_natCast]
    cases RuleSet.choose? n (s.rungsFor n) <;> rfl
  rw [same]
  exact .planned [n] _

theorem follows_wholeOf (s : RuleSet) {v : Binary64} (above : v.isNegative = false) :
    Follows sp down depth (do Plan.whole s (← wholeOf v))
      (do formatWhole sp down depth s (← .of (toWord v))) := by
  rw [toWord_eq above, Run.of_map]
  cases wholeOf v with
  | error e => exact follows_of_eq rfl
  | ok n => exact follows_whole s n

theorem follows_special (s : RuleSet) (form : SpecialForm) (t : Template) {v : Binary64}
    (above : v.isNegative = false) :
    Follows sp down depth (Plan.special s form t v) (applyFraction sp down depth s form t v) := by
  unfold Plan.special applyFraction
  rw [toWord_eq (Binary64.isNegative_trunc above)]
  cases wholeOf v.trunc with
  | error e => exact .recorded e above
  | ok n =>
    refine follows_of_eq ?_
    have expanded := expand_eq sp down ⟨s, .special form, .real v, t, .fraction v n⟩
    show _ = carryOut sp down depth (.apply ⟨s, .special form, .real v, t, .fraction v n⟩)
    rw [carryOut, ← expanded]
    rfl

/-- A value below zero is met for its magnitude. -/
theorem formatReal_of_isNegative (s : RuleSet) {v : Binary64} (below : v.isNegative) :
    formatReal sp down depth s v = .of (Plan.real s v) >>= carryOut sp down depth := by
  unfold formatReal Plan.real Operand.ofReal
  rw [if_pos below, if_pos below]
  split
  · rw [toWord_eq (Binary64.isNegative_neg below)]
    cases wholeOf v.neg with
    | error e => rfl
    | ok n => exact formatNegative_signed sp down depth s (.whole n)
  · exact formatNegative_signed sp down depth s (.real v.neg)

theorem follows_real (s : RuleSet) (v : Binary64) :
    Follows sp down depth (Plan.real s v) (formatReal sp down depth s v) := by
  by_cases below : v.isNegative
  · exact follows_of_eq (formatReal_of_isNegative s below)
  · have above := Bool.eq_false_iff.2 below
    unfold Plan.real formatReal
    rw [if_neg below, if_neg below]
    split
    · cases s.whole with
      | none => exact follows_wholeOf s above
      | some t => exact follows_special s .whole t above
    · cases s.fractionForm? v with
      | none => exact follows_wholeOf s (Binary64.isNegative_round above)
      | some found => exact follows_special s found.1 found.2 above

theorem follows_fraction (s : RuleSet) {v : Binary64} (above : v.isNegative = false) :
    Follows sp down depth (Plan.fraction s v) (formatFraction sp down depth s v) := by
  refine follows_of_eq ?_
  unfold Plan.fraction formatFraction
  cases s.denominator? v with
  | none => rfl
  | some rule =>
    have product := Binary64.isNegative_mul_ofNat above rule.base
    dsimp only
    rw [toWord_eq (Binary64.isNegative_round product)]
    cases wholeOf (v.mul (.ofNat rule.base)).round with
    | error e => rfl
    | ok n =>
      have expanded := expand_eq sp down ⟨s, rule.key, .real v, rule.template, .numerator n⟩
      show _ = carryOut sp down depth (.apply ⟨s, rule.key, .real v, rule.template, .numerator n⟩)
      rw [carryOut, ← expanded]
      have one : decide ((n : Int) = 1) = decide (n = 1) := by
        rw [decide_eq_decide]
        omega
      simp only [Application.operands, Application.singular, ← one]
      rfl

end Engine

/-- The fraction that is asked for is not below zero. -/
def Request.Plain : Request → Prop
  | .value .. | .rung .. => True
  | .fraction _ v => v.isNegative = false

theorem Request.Upright.plain {r : Request} (h : r.Upright) : r.Plain := by
  cases r with
  | value | rung => trivial
  | fraction s v => exact h

/-- **The answer to a call is what its plan makes the engine do.** -/
theorem Engine.follows_plan {sp : Speller} {down : Call → Run Unit} {depth : Nat} {r : Request}
    (h : r.Plain) : Follows sp down depth r.plan (answer sp down depth (callOf r)) := by
  cases r with
  | value s x =>
    cases x with
    | whole n => exact follows_whole s n
    | real v => exact follows_real s v
  | rung s rule below n => exact follows_of_eq (applyNormal_natCast sp down depth s rule below n)
  | fraction s v => exact follows_fraction s h

/-! ## Runs and spellings -/

/-- The run leads to the spelling: its text has been written, and its steps have been recorded; or it
    leads to the error. -/
def Run.Matches (x : Run Unit) : Except Error Spelling → Prop
  | .ok y => x.result = .ok () ∧ x.text = y.text ∧ x.records = y.steps.map Step.recorded
  | .error e => x.result = .error e

namespace Run.Matches

variable {x y : Run Unit} {a b : Except Error Spelling} {α : Type}

theorem ofText (t : Text) : (Run.act (.text t)).Matches (.ok (.ofText t)) :=
  ⟨rfl, List.append_nil t, rfl⟩

theorem nothing : (pure () : Run Unit).Matches (.ok (.ofText [])) := ⟨rfl, rfl, rfl⟩

/-- One run after the other leads to one spelling after the other. -/
theorem append (hx : x.Matches a) (hy : y.Matches b) :
    (x >>= fun _ => y).Matches (do return (← a) ++ (← b)) := by
  cases a with
  | error e =>
    rw [Run.bind_of_error hx]
    exact rfl
  | ok first =>
    obtain ⟨result, text, records⟩ := hx
    rw [Run.bind_of_ok result]
    cases b with
    | error e => exact hy
    | ok second =>
      obtain ⟨result', text', records'⟩ := hy
      refine ⟨result', ?_, ?_⟩
      · calc (x.acts ++ y.acts).flatMap Act.written = x.text ++ y.text := List.flatMap_append
          _ = first.text ++ second.text := by rw [text, text']
      · calc (x.acts ++ y.acts).filterMap Act.record? = x.records ++ y.records :=
              List.filterMap_append
          _ = (first.steps ++ second.steps).map Step.recorded := by
            rw [records, records', List.map_append]

theorem of_bind {f : α → Run Unit} {g : α → Except Error Spelling} {z : Except Error α}
    (h : ∀ a, z = .ok a → (f a).Matches (g a)) : (Run.of z >>= f).Matches (z >>= g) := by
  cases z with
  | error e => exact rfl
  | ok a => exact h a rfl

/-- Runs one after the other lead to the spellings one after the other. -/
theorem forM {f : α → Run Unit} {g : α → Except Error Spelling} : ∀ {l : List α},
    (∀ a ∈ l, (f a).Matches (g a)) → (l.forM f).Matches (do return .join (← l.mapM g))
  | [], _ => nothing
  | a :: l, h => by
    have first := h a List.mem_cons_self
    have rest := forM fun a' ha' => h a' (List.mem_cons_of_mem _ ha')
    have both := append first rest
    simp only [List.mapM_cons, bind_assoc, pure_bind, Spelling.join_cons] at both ⊢
    exact both

end Run.Matches

/-- A separator before each spelling but the first stands between them. -/
theorem Spelling.join_intersperse (separator : Spelling) : ∀ (first : Spelling) (l : List Spelling),
    join ((first :: l).intersperse separator) = first ++ join (l.map (separator ++ ·))
  | first, [] => rfl
  | first, second :: l => by
    rw [List.intersperse_cons_cons, join_cons, join_cons, join_intersperse separator second l,
      List.map_cons, join_cons]
    congr 1
    exact congrArg₂ Spelling.mk (List.append_assoc ..).symm (List.append_assoc ..).symm

namespace Engine

variable {sp : Speller} {down : Call → Run Unit} {ask : Request → Except Error Spelling}

/-- Digits are spelled out with a separator between them. -/
theorem matches_spellDigits {s : RuleSet} (separator : Text)
    (h : ∀ d : Nat, (down (.operand s (.whole d))).Matches (ask (.value s (.whole d)))) :
    ∀ digits : List Nat, (spellDigits down s separator digits).Matches (do
      let digits ← digits.mapM fun d => ask (.value s (.whole d))
      return .join (digits.intersperse (.ofText separator)))
  | [] => .nothing
  | d :: digits => by
    have rest := Run.Matches.forM (l := digits) fun d _ =>
      (Run.Matches.ofText separator).append (h d)
    have all := (h d).append rest
    have behind : digits.mapM (fun d => do
          return (← .ok (.ofText separator)) ++ (← ask (.value s (.whole d)))) =
        List.map (Spelling.ofText separator ++ ·) <$>
          digits.mapM fun d => ask (.value s (.whole d)) := by
      refine (map_mapM fun d _ => ?_).symm
      cases ask (.value s (.whole d)) <;> rfl
    rw [behind] at all
    simp only [List.mapM_cons, bind_assoc, pure_bind, bind_map_left,
      Spelling.join_intersperse] at all ⊢
    exact all

theorem matches_place (h : ∀ r, r.Upright → (down (callOf r)).Matches (ask r)) {i : Insertion}
    (upright : ∀ r, i = .spelled r → r.Upright) : (place sp down i).Matches (sp.insert ask i) := by
  cases i with
  | spelled r => exact h r (upright r rfl)
  | numeral v p =>
    simp only [place, numeral, Speller.insert]
    cases sp.numerals.render v p with
    | error e => exact rfl
    | ok t => exact ⟨rfl, List.append_nil t, rfl⟩
  | digits s v separator =>
    exact matches_spellDigits separator (fun d => h (.value s (.whole d)) trivial) _

theorem matches_writePiece (h : ∀ r, r.Upright → (down (callOf r)).Matches (ask r)) {a : Applied}
    (upright : a.application.Upright) (p : Piece) :
    (writePiece sp down a p).Matches (sp.expandPiece ask a p) := by
  cases p with
  | literal t => exact .ofText t
  | substitution sub =>
    refine Run.Matches.of_bind fun i hi => matches_place h fun r hr => ?_
    exact Applied.upright_of_insertion upright (hr ▸ hi)

theorem matches_carryOut {depth : Nat} (h : ∀ r, r.Upright → (down (callOf r)).Matches (ask r))
    {r : Request} (plan : Plan) : r.Planned plan →
      (carryOut sp down depth plan).Matches (match plan with
        | .minus next => do return .ofText ['-'] ++ (← ask next)
        | .apply a => do
          let parts ← a.pieces.mapM (sp.expandPiece ask a)
          return ⟨[], [a.step depth]⟩ ++ .join parts) := by
  intro way
  cases plan with
  | minus next =>
    obtain ⟨s, v, -, -, -, x, rfl, upright⟩ := way.of_minus
    have sign : (Run.act .sign).Matches (.ok (.ofText ['-'])) := ⟨rfl, rfl, rfl⟩
    exact sign.append (h _ upright)
  | apply a =>
    have record : (Run.act (.record (a.step depth).recorded)).Matches
        (pure ⟨[], [a.step depth]⟩) := ⟨rfl, rfl, rfl⟩
    have piece (p : Piece) : (writePiece sp down a p).Matches (sp.expandPiece ask a p) :=
      matches_writePiece h way.upright p
    have both := record.append (.forM (l := a.pieces) fun p _ => piece p)
    simp only [bind_assoc, pure_bind] at both
    exact both

/-- The run leads to what its plan leads to: numbers that are taken up leave no text. -/
theorem Follows.matches {depth : Nat} {p : Except Error Plan} {x : Run Unit}
    (h : Follows sp down depth p x) {g : Plan → Except Error Spelling}
    (leads : ∀ plan, p = .ok plan → (carryOut sp down depth plan).Matches (g plan)) :
    x.Matches (p >>= g) := by
  cases h with
  | planned taken =>
    have silent (taken : List Nat) : (⟨taken.map fun n : Nat => Act.whole n, .ok ()⟩ : Run Unit).Matches
        (pure (.ofText [])) := by
      refine ⟨rfl, ?_, ?_⟩
      · simp [Run.text, Act.written, Spelling.ofText]
      · simp [Run.records, Act.record?, Spelling.ofText]
    have empty (y : Spelling) : Spelling.ofText [] ++ y = y := rfl
    have both := (silent taken).append (Run.Matches.of_bind leads)
    simp only [pure_bind, empty, bind_pure] at both
    exact both
  | recorded e above => rfl

/-- **The run of a call leads to the spelling of its request.** -/
theorem matches_run : ∀ (fuel depth : Nat) {r : Request}, r.Plain →
    (run sp fuel depth (callOf r)).Matches (sp.spell fuel depth r)
  | 0, _, .value _ (.whole _), _ | 0, _, .value _ (.real _), _ | 0, _, .rung .., _
  | 0, _, .fraction .., _ => rfl
  | fuel + 1, depth, r, plain => by
    rw [run, Speller.spell]
    have deeper (r : Request) (upright : r.Upright) :
        (run sp fuel (depth + 1) (callOf r)).Matches (sp.spell fuel (depth + 1) r) :=
      matches_run fuel (depth + 1) upright.plain
    exact (follows_plan plain).matches fun plan hp =>
      matches_carryOut deeper plan (Request.planned_of_plan hp)

/-- **Signed words make no difference:** the engine writes the text that is spelled out, records the
    same rules, and fails in the same way. -/
theorem matches_format (sp : Speller) (s : RuleSet) (v : Binary64) :
    (format sp s v).Matches (sp.format s v) := by
  unfold format Speller.format
  split
  · exact matches_run (r := .value s (.real v)) _ _ trivial
  · rfl

end Engine

end Spellout
