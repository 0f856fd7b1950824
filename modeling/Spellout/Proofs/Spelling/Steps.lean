/-
  The steps that lead to a text.

  A text can be written without keeping the steps that lead to it; it is the same one, and the same
  errors stand in its way.  The steps themselves form a tree: below the step of a rule come those of
  the requests that its substitutions make, one level deeper, in the order of the text.  What is kept
  is this tree in preorder.

  * `Speller.write`: spelling out without steps, and without levels;
  * `Speller.map_spell`: it leads to the text that is spelled out, or to the same error;
  * `Step.Forest`, `Step.Tree`: steps in preorder, below the roots of trees;
  * `Speller.tree_spell`: a request that is upright leads to one tree;
  * `RuleBook.formatVerbose_traced`: so do all values, a level deeper behind a minus sign.
-/
import Mathlib.Data.List.Chain
import Spellout.Proofs.RuleBook.Shape
import Spellout.Proofs.Spelling.Signs

namespace Spellout

/-! ## Texts without steps -/

namespace Speller

/-- The text that takes the place of a substitution, given how requests are met. -/
def writeInsertion (sp : Speller) (ask : Request → Except Error Text) :
    Insertion → Except Error Text
  | .spelled r => ask r
  | .numeral v p => (sp.numerals.render v p).mapError .numeral
  | .digits set v separator => do
    let digits ← v.fractionDigits.mapM fun d => ask (.value set (.whole d))
    return (digits.intersperse separator).flatten

/-- The text of a piece of a template. -/
def writePiece (sp : Speller) (ask : Request → Except Error Text) (a : Applied) :
    Piece → Except Error Text
  | .literal t => .ok t
  | .substitution sub => do sp.writeInsertion ask (← a.insertion sp.book sub)

/-- The text of a request, with `fuel` levels left. -/
def write (sp : Speller) : Nat → Request → Except Error Text
  | 0, r => .error (.depthExceeded r.set.name sp.limit)
  | fuel + 1, r => do
    match ← r.plan with
    | .minus next => return '-' :: (← sp.write fuel next)
    | .apply a => return (← a.pieces.mapM (sp.writePiece (sp.write fuel) a)).flatten

end Speller

theorem map_mapM {α β γ ε : Type} {f : α → Except ε β} {f' : α → Except ε γ} {g : β → γ} :
    ∀ {l : List α}, (∀ a ∈ l, g <$> f a = f' a) → List.map g <$> l.mapM f = l.mapM f'
  | [], _ => rfl
  | a :: l, h => by
    rw [List.mapM_cons, List.mapM_cons, ← h a List.mem_cons_self,
      ← map_mapM fun a' ha' => h a' (List.mem_cons_of_mem _ ha')]
    cases f a with
    | error e => rfl
    | ok b => cases l.mapM f <;> rfl

namespace Speller

variable {sp : Speller} {ask : Request → Except Error Spelling} {ask' : Request → Except Error Text}

theorem map_insert (h : ∀ r, Spelling.text <$> ask r = ask' r) (i : Insertion) :
    Spelling.text <$> sp.insert ask i = sp.writeInsertion ask' i := by
  cases i with
  | spelled r => exact h r
  | numeral v p =>
    simp only [insert, writeInsertion]
    cases sp.numerals.render v p <;> rfl
  | digits set v separator =>
    simp only [insert, writeInsertion]
    rw [← map_mapM fun d _ => h (.value set (.whole d))]
    cases v.fractionDigits.mapM fun d => ask (.value set (.whole d)) with
    | error e => rfl
    | ok digits =>
      refine congrArg Except.ok ?_
      rw [Spelling.text_join, Spelling.map_intersperse]
      rfl

theorem map_expandPiece (h : ∀ r, Spelling.text <$> ask r = ask' r) (a : Applied) (p : Piece) :
    Spelling.text <$> sp.expandPiece ask a p = sp.writePiece ask' a p := by
  cases p with
  | literal t => rfl
  | substitution sub =>
    simp only [expandPiece, writePiece, map_bind, map_insert h]

/-- **What is spelled out is what is written without keeping steps,** on whatever level, and the same
    errors stand in the way. -/
theorem map_spell : ∀ (fuel depth : Nat) (r : Request),
    Spelling.text <$> sp.spell fuel depth r = sp.write fuel r
  | 0, _, _ => rfl
  | fuel + 1, depth, r => by
    rw [spell, write, map_bind]
    refine bind_congr fun plan => ?_
    cases plan with
    | minus next =>
      dsimp only
      rw [← map_spell fuel (depth + 1) next]
      cases sp.spell fuel (depth + 1) next <;> rfl
    | apply a =>
      dsimp only
      rw [← map_mapM fun p _ => map_expandPiece (map_spell fuel (depth + 1)) a p]
      cases a.pieces.mapM (sp.expandPiece (sp.spell fuel (depth + 1)) a) with
      | error e => rfl
      | ok parts =>
        refine congrArg Except.ok ?_
        rw [Spelling.text_append, Spelling.text_join]
        rfl

end Speller

/-! ## Trees of steps -/

/-- The steps are those of trees in preorder, with roots on level `d`; all of them are good. -/
inductive Step.Forest (Good : Step → Prop) : Nat → List Step → Prop where
  | nil {d : Nat} : Forest Good d []
  | tree {d : Nat} {root : Step} {below rest : List Step} (good : Good root) (depth : root.depth = d)
      (deeper : Forest Good (d + 1) below) (beside : Forest Good d rest) :
      Forest Good d (root :: below ++ rest)

/-- The steps are those of one tree in preorder. -/
def Step.Tree (Good : Step → Prop) (d : Nat) (steps : List Step) : Prop :=
  ∃ root below, steps = root :: below ∧ Good root ∧ root.depth = d ∧ Forest Good (d + 1) below

namespace Step

variable {Good : Step → Prop} {d : Nat} {steps steps' : List Step}

theorem Tree.forest (h : Tree Good d steps) : Forest Good d steps := by
  obtain ⟨root, below, rfl, good, depth, deeper⟩ := h
  have alone := Forest.tree good depth deeper .nil
  rwa [List.append_nil] at alone

namespace Forest

theorem append (h : Forest Good d steps) (h' : Forest Good d steps') :
    Forest Good d (steps ++ steps') := by
  induction h with
  | nil => exact h'
  | tree good depth deeper _ _ ih =>
    rw [List.append_assoc]
    exact .tree good depth deeper (ih h')

theorem join {parts : List Spelling} (h : ∀ part ∈ parts, Forest Good d part.steps) :
    Forest Good d (Spelling.join parts).steps := by
  induction parts with
  | nil => exact .nil
  | cons part parts ih =>
    obtain ⟨first, rest⟩ := List.forall_mem_cons.1 h
    exact first.append (ih rest)

theorem good (h : Forest Good d steps) : ∀ step ∈ steps, Good step := by
  induction h with
  | nil => simp
  | tree root _ _ _ below beside =>
    exact List.forall_mem_append.2 ⟨List.forall_mem_cons.2 ⟨root, below⟩, beside⟩

theorem le_depth (h : Forest Good d steps) : ∀ step ∈ steps, d ≤ step.depth := by
  induction h with
  | nil => simp
  | tree _ depth _ _ below beside =>
    refine List.forall_mem_append.2 ⟨List.forall_mem_cons.2 ⟨Nat.le_of_eq depth.symm, ?_⟩, beside⟩
    exact fun step hs => Nat.le_of_succ_le (below step hs)

theorem depth_head? (h : Forest Good d steps) : ∀ step ∈ steps.head?, step.depth = d := by
  cases h with
  | nil => simp
  | tree _ depth _ _ => simpa using depth

/-- No level is passed over on the way down. -/
theorem chain (h : Forest Good d steps) :
    steps.IsChain fun step next => next.depth ≤ step.depth + 1 := by
  induction h with
  | nil => exact .nil
  | @tree d root below rest good depth deeper beside below_ih rest_ih =>
    have tree : Forest Good d (root :: below) :=
      Tree.forest ⟨root, below, rfl, good, depth, deeper⟩
    refine List.isChain_append.2 ⟨List.isChain_cons.2 ⟨fun step hs => ?_, below_ih⟩, rest_ih, ?_⟩
    · rw [deeper.depth_head? step hs, depth]
    · intro last hl next hn
      have := tree.le_depth last (List.mem_of_mem_getLast? hl)
      rw [beside.depth_head? next hn]
      omega

end Forest
end Step

/-! ## Requests -/

/-- The step names a set of the book and the key of a rule of the set, on a level within the limit. -/
def Step.Traces (book : RuleBook) (limit : Nat) (step : Step) : Prop :=
  step.depth ≤ limit ∧ ∃ s ∈ book.sets, s.name = step.ruleSet ∧ step.key ∈ s.keys

namespace Speller

section

variable (sp : Speller) {Good : Step → Prop} {d : Nat} {ask : Request → Except Error Spelling}

/-- An insertion leads to a tree for each request that it makes. -/
theorem forest_insert
    (h : ∀ r, r.Sound sp.book → r.Upright →
      Ends (fun _ => True) (fun x => Step.Forest Good d x.steps) (ask r))
    {i : Insertion} (meets : sp.book.Meets i) (upright : ∀ r, i = .spelled r → r.Upright) :
    Ends (fun _ => True) (fun x => Step.Forest Good d x.steps) (sp.insert ask i) := by
  cases i with
  | spelled r => exact h r meets (upright r rfl)
  | numeral v p =>
    simp only [insert]
    cases sp.numerals.render v p with
    | ok t => exact .nil
    | error e => trivial
  | digits set v separator =>
    refine (Ends.mapM fun d hd => h _ (meets d hd) trivial).bind fun digits hdigits => ?_
    refine Step.Forest.join fun part hpart => ?_
    rcases Spelling.mem_of_mem_intersperse hpart with rfl | mem
    · exact .nil
    · exact hdigits part mem

/-- A piece of a template leads to a tree for each request that it makes. -/
theorem forest_expandPiece (ordered : ∀ s ∈ sp.book.sets, s.Ordered)
    (h : ∀ r, r.Sound sp.book → r.Upright →
      Ends (fun _ => True) (fun x => Step.Forest Good d x.steps) (ask r))
    {a : Applied} (sound : a.Sound sp.book) (upright : a.application.Upright) {p : Piece}
    (hp : p ∈ a.pieces) :
    Ends (fun _ => True) (fun x => Step.Forest Good d x.steps) (sp.expandPiece ask a p) := by
  cases p with
  | literal t => exact .nil
  | substitution sub =>
    have inserted := RuleBook.ends_insertion ordered sound (Template.mem_substitutions hp)
    refine inserted.result.bind fun i ⟨hi, meets⟩ => ?_
    exact forest_insert sp h meets fun r hr => Applied.upright_of_insertion upright (hr ▸ hi)

end

variable {book : RuleBook} {numerals : NumeralSystem} {limit : Nat}

/-- **A request that a rule is applied to leads to one tree of steps,** whose root is on the level of
    the request. -/
theorem tree_spell (ordered : ∀ s ∈ book.sets, s.Ordered) : ∀ {fuel depth : Nat} {r : Request},
    fuel + depth = limit + 1 → r.Sound book → (∀ next, ¬ r.Planned (.minus next)) →
      Ends (fun _ => True) (fun x => Step.Tree (Step.Traces book limit) depth x.steps)
        (spell ⟨book, numerals, limit⟩ fuel depth r)
  | 0, _, _, _, _, _ => trivial
  | fuel + 1, depth, r, levels, sound, direct => by
    rw [spell]
    refine (RuleBook.ends_plan ordered sound).result.bind fun plan found => ?_
    obtain ⟨hp, planned⟩ := found
    have way := Request.planned_of_plan hp
    cases plan with
    | minus next => exact absurd way (direct next)
    | apply a =>
      obtain ⟨set, key⟩ := way.key sound
      have good : Step.Traces book limit (a.step depth) :=
        ⟨show depth ≤ limit by omega, r.set, set ▸ planned.set, congrArg RuleSet.name set.symm, key⟩
      have deeper (r : Request) (sound : r.Sound book) (upright : r.Upright) :
          Ends (fun _ => True) (fun x => Step.Forest (Step.Traces book limit) (depth + 1) x.steps)
            (spell ⟨book, numerals, limit⟩ fuel (depth + 1) r) :=
        (tree_spell ordered (by omega) sound fun _ => upright.not_minus).mono fun _ =>
          Step.Tree.forest
      have pieces : ∀ p ∈ a.pieces, Ends (fun _ => True)
          (fun x => Step.Forest (Step.Traces book limit) (depth + 1) x.steps)
          (expandPiece ⟨book, numerals, limit⟩ (spell ⟨book, numerals, limit⟩ fuel (depth + 1)) a p) :=
        fun p => forest_expandPiece ⟨book, numerals, limit⟩ ordered deeper planned way.upright
      exact (Ends.mapM pieces).bind fun parts forests =>
        ⟨a.step depth, _, rfl, good, rfl, .join forests⟩

end Speller

/-! ## Values -/

/-- The steps form one tree, whose root is on the level `top`: each of them, except for the root, is
    deeper than the root and by no more than one level deeper than the step before it; all are within
    the limit, and name a set of the book and the key of one of its rules. -/
structure Spelling.Traced (book : RuleBook) (limit top : Nat) (x : Spelling) : Prop where
  tree : Step.Tree (Step.Traces book limit) top x.steps
  root : x.steps.head?.map Step.depth = some top
  deeper : ∀ step ∈ x.steps.tail, top < step.depth
  chain : x.steps.IsChain fun step next => next.depth ≤ step.depth + 1
  within : ∀ step ∈ x.steps, step.depth ≤ limit
  named : ∀ step ∈ x.steps, ∃ s, book.find? step.ruleSet = some s ∧ step.key ∈ s.keys

theorem Spelling.traced_of_tree {book : RuleBook} (distinct : book.Distinct) {limit top : Nat}
    {x : Spelling} (h : Step.Tree (Step.Traces book limit) top x.steps) :
    x.Traced book limit top where
  tree := h
  root := by
    obtain ⟨root, below, steps, -, depth, -⟩ := h
    rw [steps, List.head?_cons, Option.map_some, depth]
  deeper := by
    obtain ⟨root, below, steps, -, -, forest⟩ := h
    rw [steps, List.tail_cons]
    exact forest.le_depth
  chain := h.forest.chain
  within step hs := (h.forest.good step hs).1
  named step hs := by
    obtain ⟨-, s, mem, name, key⟩ := h.forest.good step hs
    exact ⟨s, distinct.find?_eq_some.2 ⟨mem, name⟩, key⟩

namespace RuleBook

variable {book : RuleBook} {s : RuleSet} {v : Binary64}

/-- The text of a value, written without keeping steps. -/
def write (book : RuleBook) (v : Binary64) (set : Option Text) (context : Context)
    (options : Options) : Except Error Text := do
  let s ← book.entry set
  if v.isFinite then
    Speller.write ⟨book, context.numerals, options.maxDepth⟩ (options.maxDepth + 1) (.value s (.real v))
  else .error (.nonFinite v)

theorem map_formatVerbose (book : RuleBook) (v : Binary64) (set : Option Text) (context : Context)
    (options : Options) : Spelling.text <$> book.formatVerbose v set context options =
      book.write v set context options := by
  rw [formatVerbose, write, map_bind]
  refine bind_congr fun s => ?_
  rw [Speller.format]
  split
  · exact Speller.map_spell ..
  · rfl

/-- The level of the first rule that is applied to a value: one deeper behind a minus sign that no
    rule writes. -/
def firstLevel (s : RuleSet) (v : Binary64) : Nat := if v.isNegative ∧ s.negative = none then 1 else 0

/-- A value in range leads to one tree of steps. -/
theorem tree_value (ordered : ∀ s ∈ book.sets, s.Ordered) (hs : s ∈ book.sets) (h : v.InRange)
    (numerals : NumeralSystem) (limit : Nat) :
    Ends (fun _ => True) (fun x => Step.Tree (Step.Traces book limit) (firstLevel s v) x.steps)
      (Speller.spell ⟨book, numerals, limit⟩ (limit + 1) 0 (.value s (.real v))) := by
  have sound : Request.Sound book (.value s (.real v)) := ⟨hs, h⟩
  by_cases minus : v.isNegative ∧ s.negative = none
  · rw [firstLevel, if_pos minus, Speller.spell, Request.plan, Plan.real, if_pos minus.1,
      bind_assoc]
    have magnitude : Ends (fun _ => True) Operand.InRange (Operand.ofReal v.neg) :=
      (Binary64.inRange_neg.2 h).ends_ofReal
    refine magnitude.result.bind fun x found => ?_
    obtain ⟨hx, range⟩ := found
    have upright : Request.Upright (.value s x) :=
      Operand.upright_of_ofReal (Binary64.isNegative_neg minus.1) hx
    have tree : Ends (fun _ => True) (fun x => Step.Tree (Step.Traces book limit) 1 x.steps)
        (Speller.spell ⟨book, numerals, limit⟩ limit 1 (.value s x)) :=
      Speller.tree_spell ordered rfl ⟨hs, range⟩ fun _ => upright.not_minus
    rw [Plan.negative, minus.2]
    exact tree.bind fun _ hy => hy
  · rw [firstLevel, if_neg minus]
    refine Speller.tree_spell ordered rfl sound fun next way => ?_
    obtain ⟨_, _, same, below, none, -⟩ := way.of_minus
    cases same
    exact minus ⟨below, none⟩

/-- **The steps of a value are one tree,** and its text is the one that is written without them: with
    and without steps the same values have a text, and the others fail in the same way. -/
theorem formatVerbose_traced {description : Text} (compiled : ofDescription description = .ok book)
    (finite : v.isFinite) (set : Option Text) (context : Context) (options : Options) :
    Spelling.text <$> book.formatVerbose v set context options =
        book.format v set context options ∧
      book.format v set context options = book.write v set context options ∧
      ∀ x, book.formatVerbose v set context options = .ok x →
        ∃ s, book.entry set = .ok s ∧ x.Traced book options.maxDepth (firstLevel s v) := by
  have plain : Spelling.text <$> book.formatVerbose v set context options =
      book.format v set context options := by
    rw [format]
    cases book.formatVerbose v set context options <;> rfl
  refine ⟨plain, ?_, fun x hx => ?_⟩
  · rw [← plain, map_formatVerbose]
  · obtain ⟨s, entry, hx⟩ := bind_eq_ok.1 hx
    rw [Speller.format, if_pos finite] at hx
    refine ⟨s, entry, Spelling.traced_of_tree (distinct_of_ofDescription compiled) ?_⟩
    by_cases range : v.InRange
    · have tree := tree_value (ordered_of_ofDescription compiled) (mem_of_entry entry) range
        context.numerals options.maxDepth
      rw [hx] at tree
      exact tree
    · obtain ⟨w, refused⟩ := plan_of_not_inRange s finite range
      rw [Speller.spell, Request.plan, refused] at hx
      cases hx

/-- The tree of -3.25 stands a level deeper, behind the minus sign: one rule for the value, and one
    for each of its digits below it. -/
theorem formatVerbose_traced_counting :
    ofDescription "%count: x.x: << point >>; zero; one; two; three; four; five;".toList =
        .ok counting ∧ (Binary64.ofRatio true 13 4).isFinite ∧
      Spelling.text <$> counting.formatVerbose (.ofRatio true 13 4) none {} {} =
        counting.format (.ofRatio true 13 4) none {} {} ∧
      counting.format (.ofRatio true 13 4) none {} {} = counting.write (.ofRatio true 13 4) none {} {} ∧
      ∃ x s, counting.formatVerbose (.ofRatio true 13 4) none {} {} = .ok x ∧
        x.text = "-three point two five".toList ∧ x.steps.map Step.depth = [1, 2, 2, 2] ∧
        counting.entry none = .ok s ∧ x.Traced counting 64 (firstLevel s (.ofRatio true 13 4)) := by
  have compiled : ofDescription
      "%count: x.x: << point >>; zero; one; two; three; four; five;".toList = .ok counting := by
    decide +kernel
  have finite : (Binary64.ofRatio true 13 4).isFinite := by decide +kernel
  obtain ⟨verbose, plain, traced⟩ := formatVerbose_traced compiled finite none {} {}
  have spelled : (counting.formatVerbose (.ofRatio true 13 4) none {} {}).map
      (fun x => (x.text, x.steps.map Step.depth)) =
        .ok ("-three point two five".toList, [1, 2, 2, 2]) := by decide +kernel
  cases hx : counting.formatVerbose (.ofRatio true 13 4) none {} {} with
  | error e =>
    rw [hx] at spelled
    cases spelled
  | ok x =>
    rw [hx] at spelled
    obtain ⟨text, depths⟩ := Prod.mk.inj (Except.ok.inj spelled)
    obtain ⟨s, entry, traced⟩ := traced x hx
    rw [hx] at verbose
    exact ⟨compiled, finite, verbose, plain, x, s, rfl, text, depths, entry, traced⟩

end RuleBook
end Spellout
