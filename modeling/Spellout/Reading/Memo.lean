/-
  Answering questions, each one once.

  A memo holds for every question that has come up either its answer, or that it is being answered.
  A question that comes up again while it is being answered has no match; so rule sets that refer to
  one another without reading anything come to an end.

  Questions are answered on levels, and beyond a limit they are refused.  A question in the memo is
  answered from it on any level.

  * `Memo.find?` looks a question up, `Memo.record` notes what is known about it
    (`Memo.find?_record`); questions with one code are the same (`Question.code_eq_iff`);
  * `Search.run` carries out a search, given how questions are answered;
  * `Reader.answer` answers a question; its first argument is the number of levels left, its second
    one how many of them are passed over.
-/
import Spellout.Reading.Candidate
import Std.Data.TreeMap

namespace Spellout

/-! ## Codes of questions -/

/-- Two numbers that tell modes apart. -/
def Mode.code : Mode → Nat × Nat
  | .full => (0, 0)
  | .integer none => (1, 0)
  | .integer (some b) => (2, b)
  | .denominators => (3, 0)

theorem Mode.code_inj {m m' : Mode} : m.code = m'.code ↔ m = m' := by
  rcases m with _ | (_ | a) | _ <;> rcases m' with _ | (_ | b) | _ <;> simp [Mode.code]

/-- Numbers that tell questions apart, sets being known by their names. -/
def Question.code (q : Question) : List Nat :=
  q.start :: q.stop :: q.mode.code.1 :: q.mode.code.2 :: q.set.name.map Char.toNat

theorem Question.code_eq_iff {q q' : Question} :
    q.code = q'.code ↔
      q.start = q'.start ∧ q.stop = q'.stop ∧ q.mode = q'.mode ∧ q.set.name = q'.set.name := by
  have inj : Function.Injective Char.toNat := fun a b h => Char.toNat_inj.1 h
  simp [Question.code, ← Mode.code_inj, Prod.ext_iff, and_assoc, List.map_inj_right inj]

/-! ## Memos -/

/-- What is known about a question. -/
inductive Slot where
  /-- It is being answered. -/
  | pending
  /-- Its answer. -/
  | answered (m : Option Match)
deriving DecidableEq

/-- What is known about questions, by their codes. -/
structure Memo where
  slots : Std.TreeMap (List Nat) Slot

namespace Memo

/-- Nothing is known. -/
def empty : Memo := ⟨∅⟩

/-- What is known about a question. -/
def find? (memo : Memo) (q : Question) : Option Slot := memo.slots[q.code]?

/-- Notes what is known about a question. -/
def record (memo : Memo) (q : Question) (slot : Slot) : Memo := ⟨memo.slots.insert q.code slot⟩

@[simp] theorem find?_empty (q : Question) : Memo.empty.find? q = none := by
  simp [Memo.empty, Memo.find?]

theorem find?_record (memo : Memo) (q q' : Question) (slot : Slot) :
    (memo.record q slot).find? q' = if q.code = q'.code then some slot else memo.find? q' := by
  simp [Memo.record, Memo.find?, Std.TreeMap.getElem?_insert, Std.LawfulEqCmp.compare_eq_iff_eq]

end Memo

/-! ## Answers -/

/-- A result together with the memo after it. -/
abbrev Remembered (α : Type) := Memo → Except Error (α × Memo)

/-- The answer to a question from the memo, or else the given one, which is noted. -/
def Memo.recall (q : Question) (answer : Remembered (Option Match)) : Remembered (Option Match) :=
  fun memo =>
    match memo.find? q with
    | some .pending => .ok (none, memo)
    | some (.answered m) => .ok (m, memo)
    | none => do
      let (m, memo) ← answer (memo.record q .pending)
      return (m, memo.record q (.answered m))

/-- Carries out a search, given how questions are answered. -/
def Search.run {α : Type} (answer : Nat → Question → Remembered (Option Match)) :
    Search α → Remembered α
  | .done a, memo => .ok (a, memo)
  | .fail e, _ => .error e
  | .ask deeper q next, memo => do
    let (m, memo) ← answer deeper q memo
    (next m).run answer memo

namespace Reader

/-- The answer to a question for which no level is left. -/
def refuse (r : Reader) (q : Question) : Remembered (Option Match) :=
  fun _ => .error (.depthExceeded q.set.name r.limit)

/-- The answer to a question: `levels` are left, and `deeper` of them are passed over. -/
def answer (r : Reader) : (levels deeper : Nat) → Question → Remembered (Option Match)
  | 0, _, q => Memo.recall q (r.refuse q)
  | levels + 1, 0, q => Memo.recall q fun memo => (r.search q).run (r.answer levels) memo
  | levels + 1, deeper + 1, q => r.answer levels deeper q

/-- The value that a set reads at the start of the text, and the number of bytes it is read from. -/
def read (r : Reader) (s : RuleSet) : Except Error (Option (Binary64 × Nat)) := do
  let (found, _) ← r.answer (r.limit + 1) 0 ⟨s, .full, 0, r.symbols.size⟩ Memo.empty
  return (found.filter fun m => 0 < m.stop).map fun m => (m.value, r.bytesBefore m.stop)

end Reader
end Spellout
