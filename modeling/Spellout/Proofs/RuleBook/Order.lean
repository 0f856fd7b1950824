/-
  The order of the rules in a set.

  Rules with base values stand in ascending order, and one without a key continues the count of the
  one before it.  Special rules have places of their own in the set, and the count goes on behind them.
  So they may stand anywhere among the other rules.

  * `RuleBody.ofText?` is the rule of a text, `RuleBody.isSpecialText` tells that its key is reserved;
  * `SetSource.Rearranges`: the special rules stand elsewhere, the other ones in the same order;
  * `RuleBody.Interchangeable`: rules that make the same set in either order;
  * `RuleBody.Declares`: the rule with a base value that a body without reserved key makes;
  * `RuleSet.Counted`: rules without keys follow the rule before them;
  * `DeclaredSet.rearranged_ofSource`: special rules may stand anywhere, and the count passes them over.
-/
import Spellout.Proofs.Description.Placement
import Spellout.Proofs.RuleBook.Shape

namespace Spellout

/-! ## Rules by their texts -/

/-- The text of a body. -/
def Body.text (b : Body) : Text := Mark.text b.marks

/-- The special form of a reserved key. -/
def Key.form? : Key → Option SpecialForm
  | .special form => some form
  | .numeric .. => none

namespace RuleBody

/-- The special form that the rule is for, if its key is reserved. -/
def form? (body : RuleBody) : Option SpecialForm := body.key.bind Key.form?

/-- The key of the rule is reserved. -/
def isSpecial (body : RuleBody) : Bool := body.form?.isSome

/-- The rule of a text, if there is nothing wrong with it. -/
def ofText? (t : Text) : Option RuleBody := (ofBody ⟨Mark.ofText t, 0⟩).toOption

/-- The key of a text, if it has one. -/
def key? (t : Text) : Option Key :=
  (splitKey? (Mark.ofText t)).bind fun parts => Key.ofText? (keyText parts.1)

/-- The text starts with a reserved key. -/
def isSpecialText (t : Text) : Bool := ((key? t).bind Key.form?).isSome

/-- A body is read for its text only, wherever it stands. -/
theorem ofBody_eq_ok {b : Body} {body : RuleBody} :
    ofBody b = .ok body ↔ ofText? b.text = some body := by
  have apart (b : Body) : b.Apart fun _ => False := fun _ _ h => h
  have alike : EndAlike Flaw.Same Eq (ofBody b) (ofBody ⟨Mark.ofText b.text, 0⟩) :=
    alike_ofBody (Mark.Alike.of_text (Mark.text_ofText _)) (apart b) (apart _)
  unfold ofText?
  cases hb : ofBody b <;> cases hb' : ofBody ⟨Mark.ofText b.text, 0⟩ <;> rw [hb, hb'] at alike
  · simp [Except.toOption]
  · exact alike.elim
  · exact alike.elim
  · obtain rfl : _ = _ := alike
    simp [Except.toOption]

/-- The key of a rule is that of its text. -/
theorem key_of_ofText? {t : Text} {body : RuleBody} (h : ofText? t = some body) :
    body.key = key? t := by
  have h : ofBody ⟨Mark.ofText t, 0⟩ = .ok body := ofBody_eq_ok.2 (by
    rw [Body.text, Mark.text_ofText]
    exact h)
  obtain ⟨none, key, -⟩ | ⟨_, _, k, some, key, hk, -⟩ := parts_of_ofBody h
  · rw [key, key?, show splitKey? (Mark.ofText t) = Option.none from none]
    rfl
  · rw [key, key?, show splitKey? (Mark.ofText t) = Option.some _ from some]
    exact hk.symm

theorem isSpecial_of_ofText? {t : Text} {body : RuleBody} (h : ofText? t = some body) :
    body.isSpecial = isSpecialText t := by
  rw [isSpecial, form?, key_of_ofText? h, isSpecialText]

/-- The rules that satisfy a test are those of the texts that do. -/
theorem filter_filterMap {p : Text → Bool} {q : RuleBody → Bool}
    (h : ∀ t body, ofText? t = some body → q body = p t) (texts : List Text) :
    (texts.filterMap ofText?).filter q = (texts.filter p).filterMap ofText? := by
  rw [List.filter_filterMap, List.filterMap_filter]
  refine List.filterMap_congr fun t _ => ?_
  cases ht : ofText? t with
  | none => simp
  | some body => simp [Option.filter, h t body ht]

theorem filter_special (texts : List Text) : (texts.filterMap ofText?).filter isSpecial =
    (texts.filter isSpecialText).filterMap ofText? :=
  filter_filterMap (fun _ _ => isSpecial_of_ofText?) texts

theorem filter_normal (texts : List Text) :
    (texts.filterMap ofText?).filter (fun body => !body.isSpecial) =
      (texts.filter fun t => !isSpecialText t).filterMap ofText? :=
  filter_filterMap (fun _ _ h => congrArg (!·) (isSpecial_of_ofText? h)) texts

/-- What relates the rules of texts relates the texts. -/
theorem forall₂_of_filterMap {R : RuleBody → Rule → Prop} : ∀ {texts : List Text} {rules : List Rule},
    (∀ t ∈ texts, (ofText? t).isSome) → List.Forall₂ R (texts.filterMap ofText?) rules →
      List.Forall₂ (fun t r => ∃ body, ofText? t = some body ∧ R body r) texts rules
  | [], rules, _, h => by
    obtain rfl := List.forall₂_nil_left_iff.1 h
    exact .nil
  | t :: texts, rules, read, h => by
    obtain ⟨ht, read⟩ := List.forall_mem_cons.1 read
    obtain ⟨body, hb⟩ := Option.isSome_iff_exists.1 ht
    rw [List.filterMap_cons_some hb] at h
    obtain ⟨r, rest, related, others, rfl⟩ := List.forall₂_cons_left_iff.1 h
    exact .cons ⟨body, hb, related⟩ (forall₂_of_filterMap read others)

end RuleBody

/-! ## Sources -/

namespace SetSource

/-- The texts of the bodies. -/
def texts (source : SetSource) : List Text := source.bodies.map Body.text

/-- The texts of the bodies with reserved keys. -/
def specialTexts (source : SetSource) : List Text := source.texts.filter RuleBody.isSpecialText

/-- The texts of the other bodies. -/
def normalTexts (source : SetSource) : List Text :=
  source.texts.filter fun t => !RuleBody.isSpecialText t

/-- The special rules stand at other places, and perhaps in another order; all other rules are the
    same, in the same order. -/
structure Rearranges (source' source : SetSource) : Prop where
  name : source'.name = source.name
  normal : source'.normalTexts = source.normalTexts
  special : source'.specialTexts.Perm source.specialTexts

/-- A rearrangement has no rules of its own. -/
theorem Rearranges.mem {source source' : SetSource} (h : source'.Rearranges source) {t : Text}
    (ht : t ∈ source'.texts) : t ∈ source.texts := by
  by_cases special : RuleBody.isSpecialText t
  · have mem : t ∈ source'.specialTexts := List.mem_filter.2 ⟨ht, special⟩
    exact (List.mem_filter.1 (h.special.mem_iff.1 mem)).1
  · have mem : t ∈ source'.normalTexts := List.mem_filter.2 ⟨ht, by simp [special]⟩
    rw [h.normal] at mem
    exact (List.mem_filter.1 mem).1

end SetSource

/-! ## Rules in either order -/

namespace RuleSet

variable {s s' : RuleSet} {a b body : RuleBody} {form form' : SpecialForm} {t t' : Template}

theorem special_withSpecial_eq_none :
    (s.withSpecial form t).special form' = none ↔ form ≠ form' ∧ s.special form' = none := by
  rw [special_withSpecial]
  by_cases same : form' = form
  · simp [same]
  · simp [same, Ne.symm same]

theorem withSpecial_comm (ne : form ≠ form') :
    (s.withSpecial form t).withSpecial form' t' = (s.withSpecial form' t').withSpecial form t := by
  cases form <;> cases form' <;> first | rfl | exact absurd rfl ne

/-- A special rule is added if its place is free, and takes it. -/
theorem add_eq_ok_of_form? (h : body.form? = some form) :
    s.add body = .ok s' ↔ s.special form = none ∧ s' = s.withSpecial form body.template := by
  have key : body.key = some (.special form) := by
    obtain ⟨key, hk, hf⟩ := Option.bind_eq_some_iff.1 h
    cases key with
    | special _ =>
      cases hf
      exact hk
    | numeric => cases hf
  rw [add_eq_ok]
  constructor
  · intro added
    cases added with
    | special key' free =>
      cases key.symm.trans key'
      exact ⟨free, rfl⟩
    | keyed key' | keyless key' => cases key.symm.trans key'
  · rintro ⟨free, rfl⟩
    exact .special key free

theorem addRule_withSpecial (s : RuleSet) (form : SpecialForm) (t : Template) (r : Rule) :
    (s.withSpecial form t).addRule r = (s.addRule r).map (·.withSpecial form t) := by
  unfold addRule
  rw [ladder_withSpecial]
  split
  · cases form <;> rfl
  · split
    · rfl
    · split
      · rfl
      · cases form <;> rfl

/-- Any other rule is added beside a special one as it is without it. -/
theorem add_withSpecial (h : body.form? = none) (s : RuleSet) (form : SpecialForm) (t : Template) :
    (s.withSpecial form t).add body = (s.add body).map (·.withSpecial form t) := by
  obtain ⟨key, template⟩ := body
  unfold add nextBase
  rcases key with _ | _ | _
  · rw [ladder_withSpecial]
    exact addRule_withSpecial ..
  · cases h
  · exact addRule_withSpecial ..

theorem special_add (h : body.form? = none) (hs : s.add body = .ok s') (form : SpecialForm) :
    s'.special form = s.special form := by
  cases add_eq_ok.1 hs with
  | special key => simp [RuleBody.form?, key, Key.form?] at h
  | keyed | keyless => cases form <;> rfl

/-- **A special rule and another one make the same set in either order.** -/
theorem add_comm (special : a.isSpecial) :
    (s.add a >>= (·.add b)) = .ok s' ↔ (s.add b >>= (·.add a)) = .ok s' := by
  obtain ⟨form, ha⟩ := Option.isSome_iff_exists.1 special
  simp only [bind_eq_ok, add_eq_ok_of_form? ha]
  cases hb : b.form? with
  | none =>
    constructor
    · rintro ⟨_, ⟨free, rfl⟩, h⟩
      rw [add_withSpecial hb] at h
      cases hm : s.add b with
      | error e =>
        rw [hm] at h
        cases h
      | ok m =>
        rw [hm] at h
        exact ⟨m, rfl, (special_add hb hm form).trans free, (Except.ok.inj h).symm⟩
    · rintro ⟨m, hm, free, rfl⟩
      refine ⟨_, ⟨(special_add hb hm form).symm.trans free, rfl⟩, ?_⟩
      rw [add_withSpecial hb, hm]
      rfl
  | some form' =>
    simp only [add_eq_ok_of_form? hb]
    constructor
    · rintro ⟨_, ⟨free, rfl⟩, free', rfl⟩
      obtain ⟨ne, free'⟩ := special_withSpecial_eq_none.1 free'
      exact ⟨_, ⟨free', rfl⟩, special_withSpecial_eq_none.2 ⟨ne.symm, free⟩, withSpecial_comm ne⟩
    · rintro ⟨_, ⟨free', rfl⟩, free, rfl⟩
      obtain ⟨ne, free⟩ := special_withSpecial_eq_none.1 free
      exact ⟨_, ⟨free, rfl⟩, special_withSpecial_eq_none.2 ⟨ne.symm, free'⟩, withSpecial_comm ne⟩

end RuleSet

namespace RuleBody

/-- The rules make the same set, from any set on. -/
def Interchangeable (l l' : List RuleBody) : Prop :=
  ∀ s s', l.foldlM RuleSet.add s = .ok s' ↔ l'.foldlM RuleSet.add s = .ok s'

namespace Interchangeable

variable {a b : RuleBody} {l l' l'' : List RuleBody}

theorem refl (l : List RuleBody) : Interchangeable l l := fun _ _ => Iff.rfl

theorem symm (h : Interchangeable l l') : Interchangeable l' l := fun s s' => (h s s').symm

theorem trans (h : Interchangeable l l') (h' : Interchangeable l' l'') : Interchangeable l l'' :=
  fun s s' => (h s s').trans (h' s s')

theorem cons (a : RuleBody) (h : Interchangeable l l') : Interchangeable (a :: l) (a :: l') := by
  intro s s'
  simp only [List.foldlM_cons, bind_eq_ok]
  exact exists_congr fun m => and_congr_right fun _ => h m s'

theorem append (h : Interchangeable l l') : ∀ front, Interchangeable (front ++ l) (front ++ l')
  | [] => h
  | a :: front => (append h front).cons a

theorem swap (special : a.isSpecial) (l : List RuleBody) :
    Interchangeable (a :: b :: l) (b :: a :: l) := by
  intro s s'
  have steps (x y : RuleBody) : (x :: y :: l).foldlM RuleSet.add s = .ok s' ↔
      ∃ m, (s.add x >>= (·.add y)) = .ok m ∧ l.foldlM RuleSet.add m = .ok s' := by
    rw [List.foldlM_cons, ← bind_eq_ok, bind_assoc]
    simp only [List.foldlM_cons]
  rw [steps, steps]
  exact exists_congr fun m => and_congr_left fun _ => RuleSet.add_comm special

/-- A special rule may stand behind rules that it stands before. -/
theorem middle (special : a.isSpecial) (l : List RuleBody) : ∀ front,
    Interchangeable (a :: (front ++ l)) (front ++ a :: l)
  | [] => .refl _
  | b :: front => (swap special (front ++ l)).trans ((middle special l front).cons b)

/-- Special rules may all stand behind the other rules. -/
theorem sort : ∀ l : List RuleBody, Interchangeable l
    (l.filter (fun body => !body.isSpecial) ++ l.filter isSpecial)
  | [] => .refl _
  | a :: l => by
    by_cases special : a.isSpecial
    · rw [List.filter_cons_of_neg (by simp [special]), List.filter_cons_of_pos special]
      exact ((sort l).cons a).trans (middle special _ _)
    · rw [List.filter_cons_of_pos (by simp [special]), List.filter_cons_of_neg special]
      exact (sort l).cons a

/-- Special rules may stand in any order. -/
theorem of_perm (h : l.Perm l') (special : ∀ a ∈ l, a.isSpecial) : Interchangeable l l' := by
  induction h with
  | nil => exact .refl _
  | cons a _ ih => exact (ih fun x hx => special x (by simp [hx])).cons a
  | swap a b l => exact swap (special b (by simp)) l
  | trans h _ ih ih' => exact (ih special).trans (ih' fun x hx => special x (h.mem_iff.2 hx))

/-- **Special rules may stand anywhere,** as long as the other rules keep their order. -/
theorem of_rearranged
    (normal : l'.filter (fun body => !body.isSpecial) = l.filter fun body => !body.isSpecial)
    (special : (l'.filter isSpecial).Perm (l.filter isSpecial)) : Interchangeable l' l := by
  refine (sort l').trans (.trans ?_ (sort l).symm)
  rw [normal]
  exact append (of_perm special fun a ha => (List.mem_filter.1 ha).2) _

end Interchangeable

end RuleBody

/-! ## The count -/

/-- The rule is the one with a base value that the body makes.  Without a key, the base value is not
    written, and the radix is 10. -/
structure RuleBody.Declares (body : RuleBody) (r : Rule) : Prop where
  template : r.template = body.template
  key : body.key = if r.keyless then none else some r.key
  radix : r.keyless → r.radix = 10
  marks : r.keyless → r.marks = 0

namespace RuleSet

variable {s s' : RuleSet} {body : RuleBody}

/-- The base value behind a ladder: one more than that of its highest rule, 0 if there is none. -/
def baseAfter (ladder : List Rule) : Nat := (ladder.head?.map fun r => r.base + 1).getD 0

/-- A rule without a key has the base value behind the ladder below it. -/
def Counted : List Rule → Prop
  | [] => True
  | r :: below => (r.keyless → r.base = baseAfter below) ∧ Counted below

/-- A base value above the one before it has not been cut off. -/
theorem nextBase_eq (above : ∀ last ∈ s.ladder.head?, last.base < s.nextBase) :
    s.nextBase = baseAfter s.ladder := by
  unfold nextBase at above ⊢
  cases ladder : s.ladder with
  | nil => rfl
  | cons last below =>
    have lt : last.base < min (last.base + 1) Key.maxBase := by simpa [ladder] using above
    show min (last.base + 1) Key.maxBase = last.base + 1
    omega

/-- A body without reserved key puts the rule that it declares on top of the ladder. -/
theorem exists_declares (h : body.form? = none) (hs : s.add body = .ok s') : ∃ r,
    s'.ladder = r :: s.ladder ∧ body.Declares r ∧ (r.keyless → r.base = baseAfter s.ladder) := by
  cases add_eq_ok.1 hs with
  | special key => simp [RuleBody.form?, key, Key.form?] at h
  | keyed key => exact ⟨_, rfl, ⟨rfl, key, nofun, nofun⟩, nofun⟩
  | keyless key above =>
    exact ⟨_, rfl, ⟨rfl, key, fun _ => rfl, fun _ => rfl⟩, fun _ => nextBase_eq above⟩

theorem ladder_add_of_form? (h : body.isSpecial) (hs : s.add body = .ok s') :
    s'.ladder = s.ladder := by
  obtain ⟨form, hf⟩ := Option.isSome_iff_exists.1 h
  obtain ⟨-, rfl⟩ := (add_eq_ok_of_form? hf).1 hs
  exact ladder_withSpecial ..

/-- **Each body without reserved key makes a rule with a base value,** and the count goes on from rule
    to rule. -/
theorem exists_rules : ∀ {bodies : List RuleBody} {s s' : RuleSet}, Counted s.ladder →
    bodies.foldlM add s = .ok s' → ∃ new, s'.rules = s.rules ++ new ∧ Counted s'.ladder ∧
      List.Forall₂ RuleBody.Declares (bodies.filter fun body => !body.isSpecial) new
  | [], s, s', hc, h => by
    cases h
    exact ⟨[], (List.append_nil _).symm, hc, .nil⟩
  | body :: bodies, s, s', hc, h => by
    rw [List.foldlM_cons] at h
    obtain ⟨m, hm, h⟩ := bind_eq_ok.1 h
    by_cases special : body.isSpecial
    · have ladder := ladder_add_of_form? special hm
      obtain ⟨new, rules, counted, declares⟩ := exists_rules (by rwa [ladder]) h
      rw [List.filter_cons_of_neg (by simp [special])]
      refine ⟨new, ?_, counted, declares⟩
      rw [rules, RuleSet.rules, RuleSet.rules, ladder]
    · obtain ⟨r, ladder, declared, base⟩ :=
        exists_declares (Option.not_isSome_iff_eq_none.1 special) hm
      obtain ⟨new, rules, counted, declares⟩ := exists_rules (by rw [ladder]; exact ⟨base, hc⟩) h
      rw [List.filter_cons_of_pos (by simp [special])]
      refine ⟨r :: new, ?_, counted, .cons declared declares⟩
      rw [rules, RuleSet.rules, RuleSet.rules, ladder, List.reverse_cons, List.append_assoc]
      rfl

theorem Counted.of_append : ∀ {above ladder : List Rule}, Counted (above ++ ladder) → Counted ladder
  | [], _, h => h
  | _ :: _, _, h => of_append h.2

/-- In ascending order, a rule without a key has one more than the rule before it. -/
theorem Counted.base_eq (h : Counted s.ladder) {before after : List Rule} {r : Rule}
    (split : s.rules = before ++ r :: after) (keyless : r.keyless) :
    r.base = (before.getLast?.map fun r => r.base + 1).getD 0 := by
  have ladder : s.ladder = after.reverse ++ r :: before.reverse := by
    rw [← List.reverse_reverse s.ladder]
    show s.rules.reverse = _
    rw [split]
    simp
  rw [ladder] at h
  have base := h.of_append.1 keyless
  rwa [baseAfter, List.head?_reverse] at base

/-- A fold over bodies is one over the rules of their texts. -/
theorem foldlM_addBody_eq_ok {bodies : List Body} : ∀ {s : RuleSet},
    bodies.foldlM addBody s = .ok s' ↔
      (∀ t ∈ bodies.map Body.text, (RuleBody.ofText? t).isSome) ∧
        ((bodies.map Body.text).filterMap RuleBody.ofText?).foldlM add s = .ok s' := by
  induction bodies with
  | nil =>
    intro s
    constructor
    · intro h
      cases h
      exact ⟨by simp, rfl⟩
    · rintro ⟨-, h⟩
      cases h
      rfl
  | cons b bodies ih =>
    intro s
    rw [List.foldlM_cons, bind_eq_ok, List.map_cons, List.forall_mem_cons]
    simp only [ih]
    cases hb : RuleBody.ofText? b.text with
    | none =>
      constructor
      · rintro ⟨m, hm, -⟩
        obtain ⟨body, read, -⟩ := bind_eq_ok.1 hm
        rw [RuleBody.ofBody_eq_ok, hb] at read
        cases read
      · rintro ⟨⟨read, -⟩, -⟩
        cases read
    | some body =>
      have read : RuleBody.ofBody b = .ok body := RuleBody.ofBody_eq_ok.2 hb
      have step (m : RuleSet) : s.addBody b = .ok m ↔ s.add body = .ok m := by
        rw [addBody, read]
        show (s.add body).mapError _ = _ ↔ _
        refine ⟨mapError_eq_ok, fun h => ?_⟩
        rw [h]
        rfl
      simp only [step, List.filterMap_cons_some hb, List.foldlM_cons, bind_eq_ok, Option.isSome_some,
        true_and]
      constructor
      · rintro ⟨m, hm, rest, h⟩
        exact ⟨rest, m, hm, h⟩
      · rintro ⟨rest, m, hm, h⟩
        exact ⟨m, hm, rest, h⟩

theorem ofSource_eq_ok {source : SetSource} : ofSource source = .ok s ↔
    (∀ t ∈ source.texts, (RuleBody.ofText? t).isSome) ∧
      (source.texts.filterMap RuleBody.ofText?).foldlM add { name := source.name } = .ok s := by
  rw [SetSource.texts, ← foldlM_addBody_eq_ok, ofSource]
  refine ⟨mapError_eq_ok, fun h => ?_⟩
  rw [h]
  rfl

/-- **A rearranged source is read as the same set.** -/
theorem ofSource_of_rearranges {source source' : SetSource} (h : ofSource source = .ok s)
    (rearranged : source'.Rearranges source) : ofSource source' = .ok s := by
  obtain ⟨read, fold⟩ := ofSource_eq_ok.1 h
  refine ofSource_eq_ok.2 ⟨fun t ht => read t (rearranged.mem ht), ?_⟩
  rw [rearranged.name]
  refine (RuleBody.Interchangeable.of_rearranged ?_ ?_ _ _).2 fold
  · rw [RuleBody.filter_normal, RuleBody.filter_normal]
    exact congrArg _ rearranged.normal
  · rw [RuleBody.filter_special, RuleBody.filter_special]
    exact rearranged.special.filterMap _

/-- A rule with a base value is declared by a body. -/
theorem exists_declares_of_mem {source : SetSource} (h : ofSource source = .ok s) {r : Rule}
    (mem : r ∈ s.rules) : ∃ t body, RuleBody.ofText? t = some body ∧ body.Declares r := by
  obtain ⟨-, fold⟩ := ofSource_eq_ok.1 h
  obtain ⟨new, rules, -, declares⟩ := exists_rules (by exact trivial) fold
  obtain rfl : s.rules = new := rules
  obtain ⟨i, hi, rfl⟩ := List.mem_iff_getElem.1 mem
  have hi' := declares.length_eq.symm ▸ hi
  obtain ⟨t, -, read⟩ := List.mem_filterMap.1 (List.mem_filter.1 (List.getElem_mem hi')).1
  exact ⟨t, _, read, declares.get hi' hi⟩

end RuleSet

/-! ## Whole sets -/

namespace DeclaredSet

/-- A set that is read with its classes is the set that is read without them. -/
theorem map_ofSource (source : SetSource) :
    (ofSource source).map DeclaredSet.set = RuleSet.ofSource source := by
  have fold := map_foldlM (l := source.bodies) (p := Faithful) (fun _ b hc => map_addBody hc b)
    (fun _ _ _ hc => faithful_addBody hc) (faithful_start source.name)
  unfold ofSource RuleSet.ofSource
  rw [← fold]
  cases source.bodies.foldlM addBody { set := { name := source.name } } <;> rfl

/-- **Special rules may stand anywhere in a set.**  If the bodies are read as a set, then with the
    special ones at any places and in any order they are read as the same set, with the same classes.
    The other bodies make the rules with base values, one each.  One without a key has one more than
    the rule with a base value before it, 0 if there is none, whatever special rules are between. -/
theorem rearranged_ofSource {source : SetSource} {d : DeclaredSet} (h : ofSource source = .ok d) :
    (∀ source', source'.Rearranges source → ∃ d', ofSource source' = .ok d' ∧ d'.set = d.set ∧
      ∀ c, c ∈ d'.classes ↔ c ∈ d.classes) ∧
    List.Forall₂ (fun t r => ∃ body, RuleBody.ofText? t = some body ∧ body.Declares r)
      source.normalTexts d.set.rules ∧
    ∀ before r after, d.set.rules = before ++ r :: after → r.keyless →
      r.base = (before.getLast?.map fun r => r.base + 1).getD 0 := by
  have hs : RuleSet.ofSource source = .ok d.set := by
    rw [← map_ofSource, h]
    rfl
  obtain ⟨read, fold⟩ := RuleSet.ofSource_eq_ok.1 hs
  obtain ⟨new, rules, counted, declares⟩ := RuleSet.exists_rules (by exact trivial) fold
  refine ⟨fun source' rearranged => ?_, ?_, fun before r after => counted.base_eq⟩
  · obtain ⟨d₁, h₁, eq, faithful⟩ := exists_ofSource hs
    obtain rfl : d = d₁ := Except.ok.inj (h.symm.trans h₁)
    obtain ⟨d', hd', eq', faithful'⟩ :=
      exists_ofSource (RuleSet.ofSource_of_rearranges hs rearranged)
    refine ⟨d', hd', eq', fun c => ?_⟩
    rw [faithful' c, faithful c, eq']
  · obtain rfl : d.set.rules = new := rules
    rw [RuleBody.filter_normal] at declares
    exact RuleBody.forall₂_of_filterMap (fun t ht => read t (List.mem_filter.1 ht).1) declares

/-- The bodies of `zero; -x: minus >>; one; x.x: << point >>; 20: twenty; more`. -/
def counting : SetSource :=
  ⟨"%main".toList, 0,
    Body.ofMarks (Mark.ofText "zero; -x: minus >>; one; x.x: << point >>; 20: twenty; more".toList) 59⟩

/-- The same bodies with the special ones at other places. -/
def recounting : SetSource :=
  ⟨"%main".toList, 7,
    Body.ofMarks (Mark.ofText "x.x: << point >>; zero; one; 20: twenty; more; -x: minus >>".toList) 59⟩

/-- The set of these bodies. -/
def counted : RuleSet where
  name := "%main".toList
  negative := some [.piece (.literal "minus ".toList), .piece (.substitution (.remainder .owner))]
  improper := some
    [.piece (.substitution (.quotient .owner)), .piece (.literal " point ".toList),
      .piece (.substitution (.remainder .owner))]
  ladder :=
    [⟨21, 10, 0, true, [.piece (.literal "more".toList)]⟩,
     ⟨20, 10, 0, false, [.piece (.literal "twenty".toList)]⟩,
     ⟨1, 10, 0, true, [.piece (.literal "one".toList)]⟩,
     ⟨0, 10, 0, true, [.piece (.literal "zero".toList)]⟩]

/-- The count goes from 0 to 1 and from 20 to 21 whether special rules are between or not. -/
theorem rearranged_counting : ∃ d d', ofSource counting = .ok d ∧ d.set = counted ∧
    recounting.Rearranges counting ∧ recounting ≠ counting ∧
    ofSource recounting = .ok d' ∧ d'.set = counted := by
  have read : RuleSet.ofSource counting = .ok counted := by decide +kernel
  obtain ⟨d, hd, hs, -⟩ := exists_ofSource read
  have rearranged : recounting.Rearranges counting :=
    ⟨rfl, by decide +kernel, by decide +kernel⟩
  obtain ⟨d', hd', same, -⟩ := (rearranged_ofSource hd).1 recounting rearranged
  exact ⟨d, d', hd, hs, rearranged, by decide +kernel, hd', same.trans hs⟩

end DeclaredSet

end Spellout
