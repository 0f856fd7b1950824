/-
  What searches ask and how they end.

  * `Search.Asks` bounds the questions of a search, `Search.Yields` the results it may end with when
    all answers satisfy a predicate;
  * `Search.eval` carries a search out without a memory; `Search.run_of_eval` and
    `Search.run_eq_of_eval` compare that with carrying it out with one;
  * `Search.run_yields`: a search with a memory ends with a result it may yield, if every answer and
    the memory keep the predicate.
-/
import Spellout.Proofs.Success
import Spellout.Reading.Memo

namespace Spellout.Search

variable {α β : Type} {P Q : Question → Option Match → Prop} {A : Question → Prop}

/-! ## Questions -/

/-- Every question of the search satisfies `A`, whatever the answers are. -/
def Asks (A : Question → Prop) : Search α → Prop
  | .done _ | .fail _ => True
  | .ask _ q next => A q ∧ ∀ m, (next m).Asks A

theorem Asks.bind {x : Search α} {f : α → Search β} (hx : x.Asks A) (hf : ∀ a, (f a).Asks A) :
    (x.bind f).Asks A := by
  induction x with
  | done a => exact hf a
  | fail e => trivial
  | ask deeper q next ih => exact ⟨hx.1, fun m => ih m (hx.2 m)⟩

theorem asks_longest {f : β → Search (Option Match)} :
    ∀ {l : List β} (best : Option Match), (∀ b ∈ l, (f b).Asks A) → (longest f l best).Asks A
  | [], _, _ => trivial
  | b :: rest, best, h =>
    Asks.bind (h b (by simp)) fun m =>
      asks_longest (Match.longer best m) fun b' hb' => h b' (by simp [hb'])

/-! ## Results -/

/-- The search may end with a result when all answers satisfy `P`. -/
def Yields (P : Question → Option Match → Prop) : Search α → α → Prop
  | .done a, b => a = b
  | .fail _, _ => False
  | .ask _ q next, b => ∃ m, P q m ∧ (next m).Yields P b

@[simp] theorem yields_done {a b : α} : (done a).Yields P b ↔ a = b := Iff.rfl

@[simp] theorem yields_fail {e : Error} {b : α} : ¬ (fail e).Yields P b := fun h => h

theorem Yields.mono (h : ∀ q m, P q m → Q q m) {x : Search α} {a : α} (hx : x.Yields P a) :
    x.Yields Q a := by
  induction x with
  | done | fail => exact hx
  | ask deeper q next ih =>
    obtain ⟨m, hm, hx⟩ := hx
    exact ⟨m, h q m hm, ih m hx⟩

theorem yields_ask {deeper : Nat} {q : Question} {m : Option Match} :
    (ask deeper q done).Yields P m ↔ P q m := by
  simp [Yields]

theorem yields_bind {x : Search α} {f : α → Search β} {b : β} :
    (x.bind f).Yields P b ↔ ∃ a, x.Yields P a ∧ (f a).Yields P b := by
  induction x with
  | done a => simp [Search.bind]
  | fail e => simp [Search.bind]
  | ask deeper q next ih =>
    simp only [Search.bind, Yields, ih]
    constructor
    · rintro ⟨m, hm, a, ha, hb⟩
      exact ⟨a, ⟨m, hm, ha⟩, hb⟩
    · rintro ⟨a, ⟨m, hm, ha⟩, hb⟩
      exact ⟨m, hm, a, ha, hb⟩

theorem yields_ofExcept {x : Except Error α} {a : α} : (ofExcept x).Yields P a ↔ x = .ok a := by
  cases x <;> simp [ofExcept]

theorem longer_eq_some {best m : Option Match} {n : Match} (h : Match.longer best m = some n) :
    best = some n ∨ m = some n := by
  cases best <;> cases m <;> simp only [Match.longer] at h
  · exact .inl h
  · exact .inr h
  · exact .inl h
  · split at h
    · exact .inr h
    · exact .inl h

theorem longest_congr {f g : β → Search (Option Match)} :
    ∀ {l : List β} (best : Option Match), (∀ b ∈ l, f b = g b) → longest f l best = longest g l best
  | [], _, _ => rfl
  | b :: rest, best, h => by
    have same : longest f rest = longest g rest :=
      funext fun best => longest_congr best fun b' hb' => h b' (by simp [hb'])
    simp only [longest, h b (by simp), same]

/-- The longest match comes from one of the searches. -/
theorem yields_longest {f : β → Search (Option Match)} {n : Match} :
    ∀ {l : List β} {best : Option Match}, (longest f l best).Yields P (some n) →
      best = some n ∨ ∃ b ∈ l, (f b).Yields P (some n)
  | [], _, h => .inl h
  | b :: rest, best, h => by
    obtain ⟨m, hm, h⟩ := yields_bind.1 h
    rcases yields_longest h with h | ⟨b', hb', h⟩
    · rcases longer_eq_some h with h | h
      · exact .inl h
      · exact .inr ⟨b, by simp, h ▸ hm⟩
    · exact .inr ⟨b', by simp [hb'], h⟩

/-! ## Carrying out a search -/

/-- Carries out a search without a memory, given how questions are answered. -/
def eval (answer : Nat → Question → Except Error (Option Match)) : Search α → Except Error α
  | .done a => .ok a
  | .fail e => .error e
  | .ask deeper q next =>
    match answer deeper q with
    | .ok m => (next m).eval answer
    | .error e => .error e

section Eval
variable {answer answer' : Nat → Question → Except Error (Option Match)}

theorem eval_bind {x : Search α} {f : α → Search β} {b : β} :
    (x.bind f).eval answer = .ok b ↔ ∃ a, x.eval answer = .ok a ∧ (f a).eval answer = .ok b := by
  induction x with
  | done a => simp [Search.bind, eval]
  | fail e => simp [Search.bind, eval]
  | ask deeper q next ih =>
    simp only [Search.bind, eval]
    cases answer deeper q with
    | ok m => exact ih m
    | error e => simp

theorem eval_ask {deeper : Nat} {q : Question} :
    (ask deeper q done).eval answer = answer deeper q := by
  simp only [eval]
  cases answer deeper q <;> rfl

theorem eval_ask_eq_ok {deeper : Nat} {q : Question} {next : Option Match → Search α} {a : α} :
    (ask deeper q next).eval answer = .ok a ↔
      ∃ m, answer deeper q = .ok m ∧ (next m).eval answer = .ok a := by
  simp only [eval]
  cases answer deeper q <;> simp

/-- A search with a result keeps it when more questions are answered. -/
theorem eval_mono {x : Search α} {a : α}
    (h : ∀ deeper q m, answer deeper q = .ok m → answer' deeper q = .ok m)
    (hx : x.eval answer = .ok a) : x.eval answer' = .ok a := by
  induction x with
  | done | fail => exact hx
  | ask deeper q next ih =>
    simp only [eval] at hx ⊢
    cases ha : answer deeper q with
    | ok m =>
      rw [ha] at hx
      rw [h _ _ _ ha]
      exact ih m hx
    | error e => simp [ha] at hx

theorem yields_of_eval {x : Search α} {a : α}
    (h : ∀ deeper q m, answer deeper q = .ok m → P q m) (hx : x.eval answer = .ok a) :
    x.Yields P a := by
  induction x with
  | done => exact Except.ok.inj hx
  | fail e => cases hx
  | ask deeper q next ih =>
    simp only [eval] at hx
    cases ha : answer deeper q with
    | ok m =>
      rw [ha] at hx
      exact ⟨m, h _ _ _ ha, ih m hx⟩
    | error e => simp [ha] at hx

end Eval

section Run
variable {answer : Nat → Question → Remembered (Option Match)}

theorem run_ask {deeper : Nat} {q : Question} {next : Option Match → Search α} {memo : Memo}
    {r : α × Memo} : (ask deeper q next).run answer memo = .ok r ↔
      ∃ m memo', answer deeper q memo = .ok (m, memo') ∧ (next m).run answer memo' = .ok r := by
  constructor
  · intro h
    obtain ⟨⟨m, memo'⟩, ha, hr⟩ := bind_eq_ok.1 h
    exact ⟨m, memo', ha, hr⟩
  · rintro ⟨m, memo', ha, hr⟩
    exact bind_eq_ok.2 ⟨(m, memo'), ha, hr⟩

/-- A search with a result has it with a memory too, if answers are the same and the memory stays
    good. -/
theorem run_of_eval {answer₀ : Nat → Question → Except Error (Option Match)} {G : Memo → Prop}
    (step : ∀ deeper q m memo, A q → G memo → answer₀ deeper q = .ok m →
      ∃ memo', answer deeper q memo = .ok (m, memo') ∧ G memo') {x : Search α} {a : α}
    (asks : x.Asks A) (hx : x.eval answer₀ = .ok a) {memo : Memo} (good : G memo) :
    ∃ memo', x.run answer memo = .ok (a, memo') ∧ G memo' := by
  induction x generalizing memo with
  | done =>
    cases hx
    exact ⟨memo, rfl, good⟩
  | fail e => cases hx
  | ask deeper q next ih =>
    simp only [eval] at hx
    cases ha : answer₀ deeper q with
    | error e => simp [ha] at hx
    | ok m =>
      rw [ha] at hx
      obtain ⟨memo₁, hm, good⟩ := step deeper q m memo asks.1 good ha
      obtain ⟨memo', hr, good⟩ := ih m (asks.2 m) hx good
      exact ⟨memo', run_ask.2 ⟨m, memo₁, hm, hr⟩, good⟩

/-- A result without a memory is the result with one, whenever there is one: answers are the same
    and the memory stays good. -/
theorem run_eq_of_eval {answer₀ : Nat → Question → Except Error (Option Match)} {G : Memo → Prop}
    (step : ∀ deeper q m n memo memo', A q → G memo → answer₀ deeper q = .ok m →
      answer deeper q memo = .ok (n, memo') → n = m ∧ G memo') {x : Search α} {a b : α}
    {memo memo' : Memo} (asks : x.Asks A) (hx : x.eval answer₀ = .ok a) (good : G memo)
    (hr : x.run answer memo = .ok (b, memo')) : b = a ∧ G memo' := by
  induction x generalizing memo with
  | done =>
    cases hx
    cases hr
    exact ⟨rfl, good⟩
  | fail e => cases hx
  | ask deeper q next ih =>
    simp only [eval] at hx
    cases ha : answer₀ deeper q with
    | error e => simp [ha] at hx
    | ok m =>
      rw [ha] at hx
      obtain ⟨n, memo₁, hn, hr⟩ := run_ask.1 hr
      obtain ⟨rfl, good⟩ := step deeper q m n memo memo₁ asks.1 good ha hn
      exact ih n (asks.2 n) hx good hr

/-- A search has one outcome if its questions are answered in the same way. -/
theorem run_congr {answer' : Nat → Question → Remembered (Option Match)}
    (h : ∀ deeper q memo, A q → answer' deeper q memo = answer deeper q memo) {x : Search α}
    (asks : x.Asks A) (memo : Memo) : x.run answer' memo = x.run answer memo := by
  induction x generalizing memo with
  | done | fail => rfl
  | ask deeper q next ih =>
    simp only [run, h deeper q memo asks.1]
    exact bind_congr fun p => ih p.1 (asks.2 p.1) p.2

theorem run_bind {x : Search α} {f : α → Search β} {memo : Memo} {p : β × Memo} :
    (x.bind f).run answer memo = .ok p ↔
      ∃ a memo', x.run answer memo = .ok (a, memo') ∧ (f a).run answer memo' = .ok p := by
  induction x generalizing memo with
  | done a =>
    constructor
    · intro h
      exact ⟨a, memo, rfl, h⟩
    · rintro ⟨_, _, ha, h⟩
      cases ha
      exact h
  | fail e =>
    constructor
    · intro h
      cases h
    · rintro ⟨_, _, ha, _⟩
      cases ha
  | ask deeper q next ih =>
    rw [Search.bind, run_ask]
    constructor
    · rintro ⟨m, memo₁, hm, h⟩
      obtain ⟨a, memo', ha, h⟩ := (ih m).1 h
      exact ⟨a, memo', run_ask.2 ⟨m, memo₁, hm, ha⟩, h⟩
    · rintro ⟨a, memo', ha, h⟩
      obtain ⟨m, memo₁, hm, ha⟩ := run_ask.1 ha
      exact ⟨m, memo₁, hm, (ih m).2 ⟨a, memo', ha, h⟩⟩

/-- **Results of a search with a memory.**  They are results the search may end with, if every
    answer satisfies `P` and leaves the memory good. -/
theorem run_yields {G : Memo → Prop}
    (step : ∀ deeper q memo m memo', A q → G memo → answer deeper q memo = .ok (m, memo') →
      P q m ∧ G memo') {x : Search α} {a : α} {memo memo' : Memo} (asks : x.Asks A)
    (good : G memo) (hx : x.run answer memo = .ok (a, memo')) : x.Yields P a ∧ G memo' := by
  induction x generalizing memo with
  | done =>
    cases hx
    exact ⟨rfl, good⟩
  | fail e => cases hx
  | ask deeper q next ih =>
    obtain ⟨m, memo₁, hm, hx⟩ := run_ask.1 hx
    obtain ⟨hp, good⟩ := step deeper q memo m memo₁ asks.1 good hm
    obtain ⟨hy, good⟩ := ih m (asks.2 m) good hx
    exact ⟨⟨m, hp, hy⟩, good⟩

end Run

end Spellout.Search
