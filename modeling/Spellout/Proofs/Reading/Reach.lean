/-
  How far a template is matched.

  Of several ways through a template the one that leads furthest counts.  So when every question has
  an answer, a template is matched at least as far as any trail leads.

  * `Search.Total`: a search comes to a result;
  * `Search.reaches_longest`, `Search.reaches_overSplits`: rows of trials come as far as each trial;
  * `Search.exists_eval_of_longest`, `Search.exists_eval_of_overSplits`: where a row of trials comes
    to a result, each trial does, unless one before it has come to the end of the stretch;
  * `Reader.reaches_matchElements`, `Reader.reaches_matchTemplate`: so do alternatives and templates
    with each of their trails.
-/
import Spellout.Proofs.Reading.Trail

namespace Spellout

variable {answer : Nat → Question → Except Error (Option Match)}

namespace Search

variable {α β : Type}

/-! ## Searches that come to a result -/

/-- The search comes to a result. -/
def Total (answer : Nat → Question → Except Error (Option Match)) (x : Search α) : Prop :=
  ∃ a, x.eval answer = .ok a

theorem Total.done (a : α) : Total answer (.done a) := ⟨a, rfl⟩

theorem Total.bind {x : Search α} {f : α → Search β} (hx : Total answer x)
    (hf : ∀ a, Total answer (f a)) : Total answer (x.bind f) := by
  obtain ⟨a, ha⟩ := hx
  obtain ⟨b, hb⟩ := hf a
  exact ⟨b, eval_bind.2 ⟨a, ha, hb⟩⟩

theorem Total.longest {f : β → Search (Option Match)} : ∀ {l : List β} (best : Option Match),
    (∀ b ∈ l, Total answer (f b)) → Total answer (longest f l best)
  | [], best, _ => .done best
  | b :: rest, best, h =>
    (h b (by simp)).bind fun m => Total.longest (Match.longer best m) fun b' hb' => h b' (by simp [hb'])

theorem Total.overSplits {stop : Nat} {attempt : Nat → Search (Option Progress)} :
    ∀ (splits : List Nat) (best : Option Progress), (∀ split, Total answer (attempt split)) →
      Total answer (overSplits stop attempt splits best)
  | [], best, _ => .done best
  | split :: rest, best, h => (h split).bind fun p => by
      dsimp only
      split
      · exact .done _
      · exact Total.overSplits rest _ h

/-! ## Rows of trials -/

/-- There is a match that ends at `j` or behind it. -/
def MatchReaches (j : Nat) (m : Option Match) : Prop := ∃ n, m = some n ∧ j ≤ n.stop

/-- There is a progress to `j` or behind it. -/
def ProgressReaches (j : Nat) (p : Option Progress) : Prop := ∃ b, p = some b ∧ j ≤ b.place

theorem MatchReaches.longer {j : Nat} {best m : Option Match}
    (h : MatchReaches j best ∨ MatchReaches j m) : MatchReaches j (Match.longer best m) := by
  rcases h with ⟨n, rfl, hn⟩ | ⟨n, rfl, hn⟩
  · cases m with
    | none => exact ⟨n, rfl, hn⟩
    | some n' =>
      simp only [Match.longer]
      split
      · exact ⟨n', rfl, by omega⟩
      · exact ⟨n, rfl, hn⟩
  · cases best with
    | none => exact ⟨n, rfl, hn⟩
    | some b =>
      simp only [Match.longer]
      split
      · exact ⟨n, rfl, hn⟩
      · exact ⟨b, rfl, by omega⟩

theorem ProgressReaches.further {j : Nat} {best p : Option Progress}
    (h : ProgressReaches j best ∨ ProgressReaches j p) :
    ProgressReaches j (Progress.further best p) := by
  rcases h with ⟨b, rfl, hb⟩ | ⟨b, rfl, hb⟩
  · cases p with
    | none => exact ⟨b, rfl, hb⟩
    | some b' =>
      simp only [Progress.further]
      split
      · exact ⟨b', rfl, by omega⟩
      · exact ⟨b, rfl, hb⟩
  · cases best with
    | none => exact ⟨b, rfl, hb⟩
    | some b' =>
      simp only [Progress.further]
      split
      · exact ⟨b, rfl, hb⟩
      · exact ⟨b', rfl, by omega⟩

theorem reaches_longest_of_best {f : β → Search (Option Match)} {j : Nat} {m : Option Match} :
    ∀ {l : List β} {best : Option Match}, MatchReaches j best →
      (longest f l best).eval answer = .ok m → MatchReaches j m
  | [], _, hb, h => by
    cases h
    exact hb
  | _ :: _, _, hb, h => by
    obtain ⟨_, _, h⟩ := eval_bind.1 h
    exact reaches_longest_of_best (.longer (.inl hb)) h

/-- The longest match ends at least where the match of each search ends. -/
theorem reaches_longest {f : β → Search (Option Match)} {j : Nat} {b : β} {m m' : Option Match}
    (hm : (f b).eval answer = .ok m) (hj : MatchReaches j m) :
    ∀ {l : List β} {best : Option Match}, b ∈ l → (longest f l best).eval answer = .ok m' →
      MatchReaches j m'
  | [], _, hb, _ => by cases hb
  | b' :: rest, best, hb, h => by
    obtain ⟨n, hn, h⟩ := eval_bind.1 h
    rcases List.mem_cons.1 hb with rfl | hb
    · rw [hm] at hn
      obtain rfl := Except.ok.inj hn
      exact reaches_longest_of_best (.longer (.inr hj)) h
    · exact reaches_longest hm hj hb h

theorem reaches_overSplits_of_best {stop : Nat} {attempt : Nat → Search (Option Progress)} {j : Nat}
    {p : Option Progress} : ∀ {splits : List Nat} {best : Option Progress},
      ProgressReaches j best → (overSplits stop attempt splits best).eval answer = .ok p →
        ProgressReaches j p
  | [], _, hb, h => by
    cases h
    exact hb
  | _ :: _, _, hb, h => by
    obtain ⟨_, _, h⟩ := eval_bind.1 h
    dsimp only at h
    split at h
    · cases h
      exact .further (.inl hb)
    · exact reaches_overSplits_of_best (.further (.inl hb)) h

/-- Of several splits one that leads furthest counts; the row ends early at the end of the stretch
    only. -/
theorem reaches_overSplits {stop : Nat} {attempt : Nat → Search (Option Progress)} {j split : Nat}
    {p p' : Option Progress} (hp : (attempt split).eval answer = .ok p) (hj : ProgressReaches j p)
    (hstop : j ≤ stop) : ∀ {splits : List Nat} {best : Option Progress}, split ∈ splits →
      (overSplits stop attempt splits best).eval answer = .ok p' → ProgressReaches j p'
  | [], _, hs, _ => by cases hs
  | split' :: rest, best, hs, h => by
    obtain ⟨found, hf, h⟩ := eval_bind.1 h
    dsimp only at h
    split at h
    · rename_i last
      cases h
      obtain ⟨b, hb, place⟩ := (Option.any_eq_true _ _).1 last
      exact ⟨b, hb, by simp only [decide_eq_true_eq] at place; omega⟩
    · rcases List.mem_cons.1 hs with rfl | hs
      · rw [hp] at hf
        obtain rfl := Except.ok.inj hf
        exact reaches_overSplits_of_best (.further (.inr hj)) h
      · exact reaches_overSplits hp hj hstop hs h

/-- Each search of a row has a result if the row has. -/
theorem exists_eval_of_longest {f : β → Search (Option Match)} {b : β} {m' : Option Match} :
    ∀ {l : List β} {best : Option Match}, b ∈ l → (longest f l best).eval answer = .ok m' →
      ∃ m, (f b).eval answer = .ok m
  | [], _, hb, _ => by cases hb
  | _ :: _, _, hb, h => by
    obtain ⟨n, hn, h⟩ := eval_bind.1 h
    rcases List.mem_cons.1 hb with rfl | hb
    · exact ⟨n, hn⟩
    · exact exists_eval_of_longest hb h

/-- A row of trials ends at the end of the stretch, or each trial has a result and the row comes as
    far. -/
theorem exists_eval_of_overSplits {stop : Nat} {attempt : Nat → Search (Option Progress)}
    {split : Nat} {p' : Option Progress} : ∀ {splits : List Nat} {best : Option Progress},
      split ∈ splits → (overSplits stop attempt splits best).eval answer = .ok p' →
        (∃ b, p' = some b ∧ b.place = stop) ∨
          ∃ p, (attempt split).eval answer = .ok p ∧
            ∀ j, ProgressReaches j p → ProgressReaches j p'
  | [], _, hs, _ => by cases hs
  | split' :: rest, best, hs, h => by
    obtain ⟨found, hf, later⟩ := eval_bind.1 h
    dsimp only at later
    split at later
    · rename_i last
      cases later
      obtain ⟨b, hb, place⟩ := (Option.any_eq_true _ _).1 last
      exact .inl ⟨b, hb, of_decide_eq_true place⟩
    · rcases List.mem_cons.1 hs with rfl | hs
      · exact .inr ⟨found, hf, fun j hj => reaches_overSplits_of_best (.further (.inr hj)) later⟩
      · exact exists_eval_of_overSplits hs later

end Search

/-! ## Templates -/

namespace Reader

variable {r : Reader} {read : SubReader} {stop : Nat}

/-- The matches that substitutions read. -/
def readsAs (answer : Nat → Question → Except Error (Option Match)) (read : SubReader)
    (sub : Substitution) (i j : Nat) (m : Match) : Prop :=
  (read sub i j).eval answer = .ok (some m)

theorem total_matchElements {els : List Element} : ∀ {place : Nat} {parts : Parts},
    (∀ sub, .substitution sub ∈ els → ∀ i j, Search.Total answer (read sub i j)) →
      Search.Total answer (r.matchElements read stop els place parts) := by
  intro place parts h
  fun_induction matchElements r read stop els place parts with
  | case1 | case3 => exact .done _
  | case2 l rest place parts next hl ih => exact ih fun sub hs => h sub (by simp [hs])
  | case4 sub place parts => exact (h sub (by simp) _ _).bind fun _ => .done _
  | case5 sub rest place parts ne ih =>
    refine .overSplits _ _ fun split => ?_
    split
    · refine (h sub (by simp) _ _).bind fun m => ?_
      split
      · exact ih _ _ fun sub hs => h sub (by simp [hs])
      · exact .done _
    · exact .done _

theorem covering?_of_covers {m : Match} (h : r.covers m stop) :
    r.covering? stop (some m) = some m.value := by
  rw [covering?, Option.filter_some, if_pos h]
  rfl

theorem matchElements_split {sub : Substitution} {rest : List Element} (ne : rest ≠ []) (place : Nat)
    (parts : Parts) : r.matchElements read stop (.substitution sub :: rest) place parts =
      Search.overSplits stop
        (fun split =>
          if r.mayStart stop rest split then do
            match r.covering? split (← read sub place split) with
            | some v => r.matchElements read stop rest split (parts.add sub v)
            | none => .done none
          else .done none)
        (List.range' place (stop + 1 - place)) none := by
  cases rest with
  | nil => exact absurd rfl ne
  | cons el rest => rfl

theorem mayStart_of_trail {reads : Substitution → (start stop : Nat) → Match → Prop}
    {els : List Element} {place : Nat} {parts : Parts} {p : Progress}
    (trail : Trail r reads stop els place parts p) : r.mayStart stop els place := by
  cases trail with
  | literal hl => simp [mayStart, hl]
  | finish | last | split => rfl

/-- **An alternative is matched at least as far as a trail leads.** -/
theorem reaches_matchElements {els : List Element} {place : Nat} {parts : Parts} {p : Progress}
    (trail : Trail r (readsAs answer read) stop els place parts p) (hp : p.place ≤ stop) :
    (∀ sub, .substitution sub ∈ els → ∀ i j, Search.Total answer (read sub i j)) →
      ∃ found, (r.matchElements read stop els place parts).eval answer = .ok found ∧
        Search.ProgressReaches p.place found := by
  induction trail with
  | @finish place parts => exact fun _ => ⟨_, rfl, _, rfl, Nat.le_refl _⟩
  | literal hl _ ih =>
    intro total
    obtain ⟨found, hf, hj⟩ := ih hp fun sub hs => total sub (by simp [hs])
    refine ⟨found, ?_, hj⟩
    rw [matchElements, hl]
    exact hf
  | last hm =>
    intro total
    refine ⟨_, ?_, _, rfl, Nat.le_refl _⟩
    rw [matchElements]
    exact Search.eval_bind.2 ⟨_, hm, rfl⟩
  | @split _ _ place _ parts _ _ ne lo hi hm hc trail ih =>
    intro total
    obtain ⟨found, hf, hj⟩ := ih hp fun sub hs => total sub (by simp [hs])
    obtain ⟨found', hf'⟩ : Search.Total answer (r.matchElements read stop _ place parts) :=
      total_matchElements total
    refine ⟨found', hf', ?_⟩
    rw [matchElements_split ne] at hf'
    refine Search.reaches_overSplits ?_ hj hp (List.mem_range'_1.2 ⟨lo, by omega⟩) hf'
    rw [if_pos (mayStart_of_trail trail)]
    refine Search.eval_bind.2 ⟨_, hm, ?_⟩
    rw [covering?_of_covers hc]
    exact hf

theorem total_matchTemplate {value : Parts → Binary64} {t : Template} {start : Nat}
    (total : ∀ pieces ∈ t.alternatives, ∀ sub, .substitution sub ∈ pieces →
      ∀ i j, Search.Total answer (read sub i j)) :
    Search.Total answer (r.matchTemplate read value t start stop) :=
  Search.Total.longest none fun pieces mem =>
    (total_matchElements fun sub hs =>
      total pieces mem sub (substitution_mem_of_element hs)).bind fun _ => .done _

/-- **A template is matched at least as far as a trail through one of its alternatives leads.** -/
theorem reaches_matchTemplate (value : Parts → Binary64) {t : Template} {pieces : List Piece}
    {start : Nat} {p : Progress} (mem : pieces ∈ t.alternatives)
    (trail : Trail r (readsAs answer read) stop (pieces.map r.element) start {} p)
    (hp : p.place ≤ stop)
    (total : ∀ pieces ∈ t.alternatives, ∀ sub, .substitution sub ∈ pieces →
      ∀ i j, Search.Total answer (read sub i j)) :
    ∃ m, (r.matchTemplate read value t start stop).eval answer = .ok m ∧
      Search.MatchReaches p.place m := by
  obtain ⟨found, hf, b, rfl, hj⟩ := reaches_matchElements trail hp fun sub hs =>
    total pieces mem sub (substitution_mem_of_element hs)
  obtain ⟨m, hm⟩ : Search.Total answer (r.matchTemplate read value t start stop) :=
    total_matchTemplate total
  refine ⟨m, hm, ?_⟩
  unfold matchTemplate at hm
  refine Search.reaches_longest (m := some ⟨value b.parts, b.place⟩) ?_ ⟨_, rfl, hj⟩ mem hm
  exact Search.eval_bind.2 ⟨_, hf, rfl⟩

end Reader
end Spellout
