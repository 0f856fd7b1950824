/-
  The binary numbers of IEEE 754 with 64 bits.

  Every finite number of the format is an integral multiple of the smallest one, `2 ^ -1074`.  So
  a finite value is a sign and a count of such steps; the counts that occur have at most 53
  significant binary digits (`OnGrid`).  All arithmetic is exact on the counts, followed by one
  rounding to the nearest count that occurs, the even one of two equally near.

  * `Binary64` is the type: not a number, an infinity, or a finite value;
  * `nearest negative a b` is the number nearest to `± a / b` steps;
  * `add`, `mul`, `div`, `sub` round the exact result; `trunc`, `fract` and `round` split a value
    at the unit;
  * `spacing_dvd_roundToGrid`: rounding ends on the grid;
  * `nearest_steps`: a value of the format is not moved;
  * `nearest_of_overflow_le`, `nearest_of_two_mul_lt`: numbers beyond the largest value become an
    infinity, numbers below half a step zero.
-/
import Spellout.Number.Rounding

namespace Spellout

/- Powers of natural numbers are those of the core library in every module, also where an algebraic
   library is imported that has powers of its own. -/
attribute [instance (20000), default_instance (20000)] instPowNat

/-! ## The grid of finite magnitudes -/

namespace Binary64

/-- How many steps make one. -/
def stepsPerUnit : Nat := 2 ^ 1074

/-- The least count of steps that is too large for a finite value. -/
def overflow : Nat := 2 ^ 2098

/-- The distance of neighbours on the grid at `n` steps: 53 binary digits are kept. -/
def spacing (n : Nat) : Nat := 2 ^ (n.log2 - 52)

/-- `n` steps are the magnitude of a finite value. -/
def OnGrid (n : Nat) : Prop := n < overflow ∧ spacing n ∣ n

instance (n : Nat) : Decidable (OnGrid n) := inferInstanceAs (Decidable (_ ∧ _))

/-- The multiple of the spacing nearest to `a / b`, an even multiple of two equally near. -/
def roundToGrid (a b : Nat) : Nat :=
  roundHalfEven a (b * spacing (a / b)) * spacing (a / b)

theorem overflow_pos : 0 < overflow := by
  unfold overflow
  apply Nat.pow_pos
  decide

theorem stepsPerUnit_pos : 0 < stepsPerUnit := by
  unfold stepsPerUnit
  apply Nat.pow_pos
  decide

/-- The step and the bound of finite values, as powers of two. -/
theorem exists_two_pow :
    ∃ e o, e = 1074 ∧ o = 2098 ∧ stepsPerUnit = 2 ^ e ∧ overflow = 2 ^ o :=
  ⟨1074, 2098, rfl, rfl, by rw [stepsPerUnit], by rw [overflow]⟩

theorem spacing_pos (n : Nat) : 0 < spacing n := Nat.two_pow_pos _

theorem spacing_dvd_of_lt {n e : Nat} (lt : n < 2 ^ (53 + e)) (dvd : 2 ^ e ∣ n) :
    spacing n ∣ n := by
  by_cases h : n = 0
  · simp [h]
  · have := (Nat.log2_lt h).2 lt
    exact Nat.dvd_trans (Nat.pow_dvd_pow 2 (by omega)) dvd

theorem spacing_dvd_two_pow (e : Nat) : spacing (2 ^ e) ∣ 2 ^ e := by
  rw [spacing, Nat.log2_two_pow]
  exact Nat.pow_dvd_pow 2 (Nat.sub_le ..)

/-- A multiple of a power of two with at most 53 binary digits is on the grid. -/
theorem spacing_dvd_mul {k : Nat} (e : Nat) (h : k ≤ 2 ^ 53) : spacing (k * 2 ^ e) ∣ k * 2 ^ e := by
  rcases Nat.lt_or_eq_of_le h with h | rfl
  · refine spacing_dvd_of_lt (e := e) ?_ (Nat.dvd_mul_left ..)
    rw [Nat.pow_add]
    exact Nat.mul_lt_mul_of_pos_right h (Nat.two_pow_pos e)
  · rw [← Nat.pow_add]
    exact spacing_dvd_two_pow _

theorem lt_spacing_mul (n : Nat) : n < spacing n * 2 ^ 53 := by
  have : n < 2 ^ (n.log2 + 1) := Nat.lt_log2_self
  rw [spacing, ← Nat.pow_add]
  exact Nat.lt_of_lt_of_le this (Nat.pow_le_pow_right (by decide) (by omega))

theorem spacing_dvd_roundToGrid (a b : Nat) :
    spacing (roundToGrid a b) ∣ roundToGrid a b := by
  refine spacing_dvd_mul _ (Nat.le_trans (roundHalfEven_le ..) ?_)
  rw [← Nat.div_div_eq_div_mul]
  exact Nat.div_lt_of_lt_mul (lt_spacing_mul _)

theorem two_pow_le_two_pow_log2 {e n : Nat} (h : 2 ^ e ≤ n) : 2 ^ e ≤ 2 ^ n.log2 := by
  have ne : n ≠ 0 := Nat.ne_of_gt (Nat.lt_of_lt_of_le (Nat.two_pow_pos e) h)
  exact Nat.pow_le_pow_right (by decide) ((Nat.le_log2 ne).2 h)

theorem overflow_le_roundToGrid {a b : Nat} (h : overflow ≤ a / b) : overflow ≤ roundToGrid a b := by
  have ne : a / b ≠ 0 := by
    intro z
    rw [z] at h
    exact absurd h (Nat.not_le.2 overflow_pos)
  have low : 2 ^ (a / b).log2 ≤ a / b := Nat.log2_self_le ne
  have top : overflow ≤ 2 ^ (a / b).log2 := by
    obtain ⟨-, o, -, -, -, top⟩ := exists_two_pow
    rw [top] at h ⊢
    exact two_pow_le_two_pow_log2 h
  have dvd : spacing (a / b) ∣ 2 ^ (a / b).log2 := Nat.pow_dvd_pow 2 (Nat.sub_le ..)
  refine Nat.le_trans top (Nat.le_trans ?_ (Nat.mul_le_mul_right _ (le_roundHalfEven ..)))
  rw [← Nat.div_div_eq_div_mul]
  calc 2 ^ (a / b).log2 = 2 ^ (a / b).log2 / spacing (a / b) * spacing (a / b) :=
        (Nat.div_mul_cancel dvd).symm
    _ ≤ _ := Nat.mul_le_mul_right _ (Nat.div_le_div_right low)

/-- A count on the grid is not moved. -/
theorem roundToGrid_of_dvd {n : Nat} (h : spacing n ∣ n) : roundToGrid n 1 = n := by
  obtain ⟨k, hk⟩ := h
  have := roundHalfEven_mul k (spacing_pos n)
  simp only [roundToGrid, Nat.div_one, Nat.one_mul]
  rw [Nat.mul_comm] at hk
  rw [← hk] at this
  rw [this, ← hk]

/-- The magnitude of a finite value, as a count of steps. -/
structure Magnitude where
  steps : Nat
  onGrid : OnGrid steps
deriving DecidableEq

/-- No steps at all. -/
def Magnitude.zero : Magnitude := ⟨0, overflow_pos, Nat.dvd_zero _⟩

end Binary64

/-! ## Values -/

/-- A binary number with 64 bits; zero has two signs. -/
inductive Binary64 where
  /-- The result of an operation without a meaning. -/
  | nan
  /-- A value beyond the largest finite one. -/
  | infinite (negative : Bool)
  /-- A sign and a count of steps. -/
  | finite (negative : Bool) (magnitude : Binary64.Magnitude)
deriving DecidableEq

namespace Binary64

/-- The value nearest to `a / b` steps, with a sign; `b` is positive. -/
def nearest (negative : Bool) (a b : Nat) : Binary64 :=
  if h : roundToGrid a b < overflow then
    .finite negative ⟨roundToGrid a b, h, spacing_dvd_roundToGrid a b⟩
  else .infinite negative

@[simp] theorem nearest_steps (negative : Bool) (m : Magnitude) :
    nearest negative m.steps 1 = .finite negative m := by
  simp [nearest, roundToGrid_of_dvd m.onGrid.2, m.onGrid.1]

theorem nearest_of_overflow_le (negative : Bool) {a b : Nat} (h : overflow ≤ a / b) :
    nearest negative a b = .infinite negative := by
  simp [nearest, Nat.not_lt.2 (overflow_le_roundToGrid h)]

theorem nearest_of_two_mul_lt (negative : Bool) {a b : Nat} (h : 2 * a < b) :
    nearest negative a b = .finite negative .zero := by
  have zero : roundToGrid a b = 0 := by
    have : a < b := by omega
    have one : spacing 0 = 1 := by decide
    simp [roundToGrid, roundHalfEven, Nat.div_eq_of_lt this, Nat.mod_eq_of_lt this, one, h]
  simp [nearest, zero, overflow_pos, Magnitude.zero]

/-- The value nearest to a natural number. -/
def ofNat (n : Nat) : Binary64 := nearest false (n * stepsPerUnit) 1

/-- The value nearest to `a / b`, with a sign; `b` is positive. -/
def ofRatio (negative : Bool) (a b : Nat) : Binary64 := nearest negative (a * stepsPerUnit) b

/-- Positive zero. -/
def zero : Binary64 := .finite false .zero

instance : Inhabited Binary64 := ⟨zero⟩

/-- The value is neither an infinity nor `nan`. -/
def isFinite : Binary64 → Bool
  | .finite .. => true
  | _ => false

/-! ## Order -/

/-- `n` steps below or above zero. -/
def signed (negative : Bool) (n : Nat) : Int := if negative then -n else n

/-- The place on the number line, infinities beyond all finite values; `nan` has none. -/
def place : Binary64 → Option Int
  | .nan => none
  | .infinite negative => some (signed negative overflow)
  | .finite negative m => some (signed negative m.steps)

/-- `x` stands before `y` on the number line. -/
def lt (x y : Binary64) : Bool :=
  match x.place, y.place with
  | some a, some b => a < b
  | _, _ => false

/-- The value is zero, of either sign. -/
def isZero (x : Binary64) : Bool := x.place = some 0

/-- The value stands before zero. -/
def isNegative (x : Binary64) : Bool := x.lt zero

/-! ## Arithmetic -/

/-- The value with the other sign. -/
def neg : Binary64 → Binary64
  | .nan => .nan
  | .infinite negative => .infinite !negative
  | .finite negative m => .finite (!negative) m

/-- The value without its sign. -/
def abs : Binary64 → Binary64
  | .nan => .nan
  | .infinite _ => .infinite false
  | .finite _ m => .finite false m

/-- The nearest value to a count of steps below or above zero; `zeroSign` is the sign of zero. -/
def ofSteps (zeroSign : Bool) (steps : Int) : Binary64 :=
  nearest (if steps = 0 then zeroSign else steps < 0) steps.natAbs 1

/-- The rounded sum; zero is negative only as the sum of two negative zeros. -/
def add : Binary64 → Binary64 → Binary64
  | .nan, _ | _, .nan => .nan
  | .infinite s, .infinite t => if s = t then .infinite s else .nan
  | .infinite s, .finite .. | .finite .., .infinite s => .infinite s
  | .finite s a, .finite t b =>
    ofSteps (s && t) (signed s a.steps + signed t b.steps)

/-- The rounded difference. -/
def sub (x y : Binary64) : Binary64 := x.add y.neg

/-- The rounded product. -/
def mul : Binary64 → Binary64 → Binary64
  | .nan, _ | _, .nan => .nan
  | .infinite s, .infinite t => .infinite (s != t)
  | .infinite s, .finite t m | .finite t m, .infinite s =>
    if m.steps = 0 then .nan else .infinite (s != t)
  | .finite s a, .finite t b => nearest (s != t) (a.steps * b.steps) stepsPerUnit

/-- The rounded quotient; a quotient by zero is an infinity, or `nan` of zero by zero. -/
def div : Binary64 → Binary64 → Binary64
  | .nan, _ | _, .nan => .nan
  | .infinite _, .infinite _ => .nan
  | .infinite s, .finite t _ => .infinite (s != t)
  | .finite s _, .infinite t => .finite (s != t) .zero
  | .finite s a, .finite t b =>
    if b.steps = 0 then if a.steps = 0 then .nan else .infinite (s != t)
    else nearest (s != t) (a.steps * stepsPerUnit) b.steps

/-! ## Splitting at the unit -/

/-- The integral part of a finite magnitude. -/
def Magnitude.floor (m : Magnitude) : Nat := m.steps / stepsPerUnit

/-- The value without its fraction. -/
def trunc : Binary64 → Binary64
  | .finite s m => ofRatio s m.floor 1
  | x => x

/-- What `trunc` cuts off; `nan` for an infinity. -/
def fract (x : Binary64) : Binary64 := x.sub x.trunc

/-- The nearest integral value; of two equally near the one farther from zero. -/
def round : Binary64 → Binary64
  | .finite s m => ofRatio s (roundHalfUp m.steps stepsPerUnit) 1
  | x => x

/-- The value has no fraction. -/
def isIntegral (x : Binary64) : Bool := x.fract.isZero

end Binary64
end Spellout
