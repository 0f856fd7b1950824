/-
  Reading rules and rule sets.

  A rule body is a key with a colon, and a template.  A colon is the end of a key only if no
  character before it belongs to a substitution, a group or a quotation.  A rule without a key takes
  the base value that follows the one before it.  An apostrophe at the start of a template is
  dropped; it keeps the blanks behind it.

  * `RuleBody.ofBody` takes a body apart into key and template;
  * `RuleSet.add` adds a rule to a set: special rules anywhere, each form once, other rules in
    ascending order;
  * `RuleSet.ofSource` reads a whole set.
-/
import Spellout.Description.Body
import Spellout.Description.Template
import Spellout.Rule.RuleSet

namespace Spellout

/-! ## Key and template -/

/-- A rule body, taken apart: a key, if there is one, and a template. -/
structure RuleBody where
  key : Option Key
  template : Template
deriving DecidableEq, Repr

namespace RuleBody

/-- A character that cannot stand in a key. -/
def barsKey (c : Char) : Bool := ['<', '=', '[', ']', '\''].contains c

/-- The text before the first colon and the text behind it, if the first is a key. -/
def splitKey? (ms : List Mark) : Option (List Mark × List Mark) :=
  let key := ms.takeWhile fun m => m.char ≠ ':'
  match ms.drop key.length with
  | [] => none
  | _ :: rest =>
    if key.any fun m => barsKey m.char then none else some (key, Mark.trimStart rest)

/-- The text without an apostrophe at its start. -/
def dropApostrophe : List Mark → List Mark
  | m :: rest => if m.char = '\'' then rest else m :: rest
  | [] => []

/-- Takes a rule body apart. -/
def ofBody (b : Body) : Except Flaw RuleBody :=
  match splitKey? b.marks with
  | none => do return ⟨none, ← Template.ofMarks (dropApostrophe b.marks)⟩
  | some (key, rest) =>
    let key := Text.trimBy Text.isBlank (Mark.text key)
    match Key.ofText? key with
    | none => .error ⟨.malformedKey key, b.offset⟩
    | some k => do return ⟨some k, ← Template.ofMarks (dropApostrophe rest)⟩

end RuleBody

/-! ## Rule sets -/

namespace RuleSet

/-- The base value of a rule without a key: it follows the one before it. -/
def nextBase (s : RuleSet) : Nat :=
  match s.ladder with
  | [] => 0
  | r :: _ => min (r.base + 1) Key.maxBase

/-- The set with one more rule with a base value, which must be above all others. -/
def addRule (s : RuleSet) (r : Rule) : Except CompileFault RuleSet :=
  match s.ladder with
  | [] => .ok { s with ladder := [r] }
  | last :: _ =>
    if r.base = last.base then .error (.duplicateRule r.key.text)
    else if r.base < last.base then .error (.baseOutOfOrder r.base)
    else .ok { s with ladder := r :: s.ladder }

/-- The set with the template of a special form, which must not have one yet. -/
def addSpecial (s : RuleSet) (form : SpecialForm) (t : Template) : Except CompileFault RuleSet :=
  if (s.special form).isSome then .error (.duplicateRule (Key.special form).text)
  else .ok (s.withSpecial form t)

/-- The set with one more rule. -/
def add (s : RuleSet) (body : RuleBody) : Except CompileFault RuleSet :=
  match body.key with
  | some (.special form) => s.addSpecial form body.template
  | some (.numeric base radix marks) => s.addRule ⟨base, radix, marks, false, body.template⟩
  | none => s.addRule ⟨s.nextBase, 10, 0, true, body.template⟩

/-- The set with the rule of a body. -/
def addBody (s : RuleSet) (b : Body) : Except Flaw RuleSet := do
  let body ← RuleBody.ofBody b
  (s.add body).mapError (⟨·, b.offset⟩)

/-- Reads a rule set. -/
def ofSource (source : SetSource) : Except CompileError RuleSet :=
  (source.bodies.foldlM addBody { name := source.name }).mapError (·.inSet source.name)

end RuleSet
end Spellout
