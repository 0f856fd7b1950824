/-
  Steps that may fail.

  * `bind_eq_ok`: a sequence of steps succeeds if each step does;
  * `foldlM_preserves`: what a step of a fold preserves, the fold preserves;
  * `map_foldlM`: a fold is seen as another one if its steps are;
  * `Ends Fails P x`: `x` has a result that satisfies `P`, or an error that satisfies `Fails`;
  * `Ends.bind`, `Ends.mapM`, `Ends.foldlM`: a sequence ends so if its steps do;
  * `EndAlike Same R x y`: `x` and `y` have results that are related by `R`, or errors by `Same`;
  * `EndAlike.bind`, `EndAlike.foldlM`: two sequences end alike if their steps do.
-/
import Mathlib.Data.List.Forall2

namespace Spellout

variable {α β ε ε' : Type}

/-- Steps in sequence succeed if the first does, and the rest with its result. -/
theorem bind_eq_ok {x : Except ε α} {f : α → Except ε β} {b : β} :
    x >>= f = .ok b ↔ ∃ a, x = .ok a ∧ f a = .ok b := by
  cases x with
  | error e =>
    constructor
    · intro h; cases h
    · rintro ⟨a, h, -⟩
      cases h
  | ok a =>
    constructor
    · intro h; exact ⟨a, rfl, h⟩
    · rintro ⟨a', h, hb⟩
      cases h; exact hb

/-- A sequence of steps depends on what goes on with the result of the first one only. -/
theorem bind_congr_of_ok {x : Except ε α} {f g : α → Except ε β}
    (h : ∀ a, x = .ok a → f a = g a) : x >>= f = x >>= g := by
  cases x with
  | ok a => exact h a rfl
  | error e => rfl

theorem mapM_congr {f g : α → Except ε β} : ∀ {l : List α}, (∀ a ∈ l, f a = g a) →
    l.mapM f = l.mapM g
  | [], _ => rfl
  | a :: l, h => by
    rw [List.mapM_cons, List.mapM_cons, h a List.mem_cons_self,
      mapM_congr fun a' ha' => h a' (List.mem_cons_of_mem _ ha')]

theorem mapError_eq_ok {f : ε → ε'} {x : Except ε α} {a : α} (h : x.mapError f = .ok a) :
    x = .ok a := by
  cases x with
  | ok b => cases h; rfl
  | error e => cases h

theorem mapM_cons_eq_ok {f : α → Except ε β} {a : α} {l : List α} {bs : List β}
    (h : (a :: l).mapM f = .ok bs) : ∃ b bs', f a = .ok b ∧ l.mapM f = .ok bs' ∧ bs = b :: bs' := by
  rw [List.mapM_cons] at h
  obtain ⟨b, hb, h⟩ := bind_eq_ok.1 h
  obtain ⟨bs', hbs, h⟩ := bind_eq_ok.1 h
  exact ⟨b, bs', hb, hbs, (Except.ok.inj h).symm⟩

/-- What a step of a fold preserves, the fold preserves. -/
theorem foldlM_preserves {f : β → α → Except ε β} {p : β → Prop}
    (step : ∀ b a b', p b → f b a = .ok b' → p b') : ∀ {l : List α} {b b' : β},
      p b → l.foldlM f b = .ok b' → p b'
  | [], b, b', hb, h => by
    cases h
    exact hb
  | a :: l, b, b', hb, h => by
    rw [List.foldlM_cons] at h
    obtain ⟨c, ha, h⟩ := bind_eq_ok.1 h
    exact foldlM_preserves step (step b a c hb ha) h

/-- Steps that are seen in the same way, as long as an invariant holds, are seen so in a fold. -/
theorem map_foldlM {γ : Type} {f : β → α → Except ε β} {g : γ → α → Except ε γ} {view : γ → β}
    {p : γ → Prop} (step : ∀ c a, p c → (g c a).map view = f (view c) a)
    (keeps : ∀ c a c', p c → g c a = .ok c' → p c') : ∀ {l : List α} {c : γ}, p c →
      (l.foldlM g c).map view = l.foldlM f (view c)
  | [], _, _ => rfl
  | a :: l, c, hc => by
    rw [List.foldlM_cons, List.foldlM_cons, ← step c a hc]
    cases hg : g c a with
    | error e => rfl
    | ok c' => exact map_foldlM step keeps (keeps c a c' hc hg)

/-! ## Results and errors -/

/-- The result satisfies `P`, or the error satisfies `Fails`. -/
def Ends (Fails : ε → Prop) (P : α → Prop) : Except ε α → Prop
  | .ok a => P a
  | .error e => Fails e

section Ends

variable {Fails : ε → Prop} {P : α → Prop} {Q : β → Prop}

theorem Ends.of_eq {x : Except ε α} {a : α} (h : x = .ok a) (ha : P a) : Ends Fails P x := by
  rw [h]
  exact ha

theorem Ends.of_ok {x : Except ε α} (hx : Ends Fails P x) {a : α} (h : x = .ok a) : P a := by
  rw [h] at hx
  exact hx

theorem Ends.mono {P' : α → Prop} {x : Except ε α} (hx : Ends Fails P x) (h : ∀ a, P a → P' a) :
    Ends Fails P' x := by
  cases x with
  | ok a => exact h a hx
  | error e => exact hx

/-- Errors do not matter; the result is remembered. -/
theorem Ends.result {x : Except ε α} (hx : Ends Fails P x) :
    Ends (fun _ => True) (fun a => x = .ok a ∧ P a) x := by
  cases x with
  | ok a => exact ⟨rfl, hx⟩
  | error e => trivial

theorem Ends.bind {x : Except ε α} {f : α → Except ε β} (hx : Ends Fails P x)
    (hf : ∀ a, P a → Ends Fails Q (f a)) : Ends Fails Q (x >>= f) := by
  cases x with
  | ok a => exact hf a hx
  | error e => exact hx

theorem Ends.mapM {f : α → Except ε β} : ∀ {l : List α}, (∀ a ∈ l, Ends Fails Q (f a)) →
    Ends Fails (fun bs => ∀ b ∈ bs, Q b) (l.mapM f)
  | [], _ => by
    intro b hb
    simp at hb
  | a :: l, h => by
    rw [List.mapM_cons]
    refine (h a (by simp)).bind fun b hb => ?_
    refine (Ends.mapM (l := l) fun a' ha' => h a' (by simp [ha'])).bind fun bs hbs => ?_
    exact List.forall_mem_cons.2 ⟨hb, hbs⟩

/-- A fold ends so if its steps, from what satisfies `P`, end there again or fail. -/
theorem Ends.foldlM {f : α → β → Except ε α} : ∀ {l : List β} {a : α}, P a →
    (∀ a b, b ∈ l → P a → Ends Fails P (f a b)) → Ends Fails P (l.foldlM f a)
  | [], _, ha, _ => ha
  | b :: l, a, ha, step => by
    rw [List.foldlM_cons]
    refine (step a b (by simp) ha).bind fun a' ha' => ?_
    exact Ends.foldlM ha' fun a b hb => step a b (by simp [hb])

theorem Ends.mapError {Fails' : ε' → Prop} {f : ε → ε'} {x : Except ε α} (hx : Ends Fails P x)
    (h : ∀ e, Fails e → Fails' (f e)) : Ends Fails' P (x.mapError f) := by
  cases x with
  | ok a => exact hx
  | error e => exact h e hx

theorem Ends.of_fails {x : Except ε α} (h : ∀ e, x = .error e → Fails e) :
    Ends Fails (fun _ => True) x := by
  cases x with
  | ok a => trivial
  | error e => exact h e rfl

theorem Ends.fails {x : Except ε α} (hx : Ends Fails P x) {e : ε} (h : x = .error e) : Fails e := by
  rw [h] at hx
  exact hx

end Ends

/-! ## Results and errors side by side -/

/-- The results are related by `R`, or the errors by `Same`. -/
def EndAlike (Same : ε → ε → Prop) (R : α → α → Prop) : Except ε α → Except ε α → Prop
  | .ok a, .ok a' => R a a'
  | .error e, .error e' => Same e e'
  | _, _ => False

namespace EndAlike

variable {Same : ε → ε → Prop} {R : α → α → Prop} {S : β → β → Prop}

theorem bind {x x' : Except ε α} {f f' : α → Except ε β} (hx : EndAlike Same R x x')
    (hf : ∀ a a', R a a' → EndAlike Same S (f a) (f' a')) :
    EndAlike Same S (x >>= f) (x' >>= f') := by
  cases x <;> cases x'
  · exact hx
  · exact hx.elim
  · exact hx.elim
  · exact hf _ _ hx

/-- Two folds end alike if their steps do, from results and with elements that are related. -/
theorem foldlM {f : β → α → Except ε β} {f' : β → α → Except ε β} {l l' : List α}
    (h : List.Forall₂ R l l')
    (step : ∀ b b' a a', a ∈ l → a' ∈ l' → R a a' → S b b' → EndAlike Same S (f b a) (f' b' a')) :
    ∀ {b b' : β}, S b b' → EndAlike Same S (l.foldlM f b) (l'.foldlM f' b') := by
  induction h with
  | nil => exact fun hb => hb
  | cons ha _ ih =>
    intro b b' hb
    rw [List.foldlM_cons, List.foldlM_cons]
    refine (step _ _ _ _ (by simp) (by simp) ha hb).bind fun _ _ => ?_
    exact ih fun b b' a a' mem mem' => step b b' a a' (by simp [mem]) (by simp [mem'])

theorem mapError {Same' : ε' → ε' → Prop} {g g' : ε → ε'} {x x' : Except ε α}
    (hx : EndAlike Same R x x') (h : ∀ e e', Same e e' → Same' (g e) (g' e')) :
    EndAlike Same' R (x.mapError g) (x'.mapError g') := by
  cases x <;> cases x'
  · exact h _ _ hx
  · exact hx.elim
  · exact hx.elim
  · exact hx

/-- The same results and errors that look the same end up equal. -/
theorem mapError_eq {g : ε → ε'} {x x' : Except ε α} (hx : EndAlike Same Eq x x')
    (h : ∀ e e', Same e e' → g e' = g e) : x'.mapError g = x.mapError g := by
  cases x <;> cases x'
  · exact congrArg Except.error (h _ _ hx)
  · exact hx.elim
  · exact hx.elim
  · exact congrArg Except.ok hx.symm

theorem refl (same : ∀ e, Same e e) (rel : ∀ a, R a a) (x : Except ε α) : EndAlike Same R x x := by
  cases x with
  | error e => exact same e
  | ok a => exact rel a

end EndAlike

end Spellout
