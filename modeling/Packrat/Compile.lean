import Packrat.Grammar
import Packrat.Pattern

/-!
# `Packrat/Compile.lean` — from rule sets to grammars

Compiling has the patterns of a rule set read by a library, and refuses rules that cannot be run.
References are not followed here; `Grammar.check` does that.
-/

set_option autoImplicit false

namespace Packrat

inductive CompileFault where
  | noAlternatives (rule : String)
  /-- An alternative without items; alternatives are counted from one. -/
  | emptyAlternative (rule : String) (number : Nat)
  | unknownItem (v : Json)
  | pattern (f : PatternFault)
  | twoRules (name : String)
deriving Repr

def CompileFault.message : CompileFault → String
  | noAlternatives rule => "Rule '" ++ rule ++ "' has no alternatives"
  | emptyAlternative rule number =>
    "Rule '" ++ rule ++ "' alternative #" ++ toString number ++ " is empty"
  | unknownItem v => "Unknown term descriptor: " ++ v.shown
  | pattern f => f.message
  | twoRules name => "Duplicate rule '" ++ name ++ "'"

def Item.compile (lib : Regex.Library) : Item → Except CompileFault Term
  | .literal text => .ok (.literal text)
  | .pattern source flags => ((Pattern.ofSource lib source flags).mapError .pattern).map .pattern
  | .regex r flags => ((Pattern.ofRegex r flags).mapError .pattern).map .pattern
  | .reference name => .ok (.reference name)
  | .foreign (.value v) => .error (.unknownItem v)
  | .foreign (.literal v) => .ok (.foreignLiteral v)
  | .foreign (.pattern v _) => .error (.pattern (.notText v))

namespace RuleSet

variable (lib : Regex.Library)

/-- The alternative that a sequence of items stands for; it is the `number`-th of its rule. -/
def compileSequence (rule : String) (number : Nat) (s : Sequence) :
    Except CompileFault Alternative :=
  if s.isEmpty then .error (.emptyAlternative rule number)
  else (s.mapM (Item.compile lib)).map (⟨rule, ·⟩)

/-- The alternatives of a rule from the `number`-th on. -/
def compileAlternatives (rule : String) :
    Nat → List Sequence → Except CompileFault (List Alternative)
  | _, [] => .ok []
  | number, s :: rest => do
    let a ← compileSequence lib rule number s
    let more ← compileAlternatives rule (number + 1) rest
    return a :: more

def compileRule (name : String) (alternatives : List Sequence) : Except CompileFault Rule :=
  if alternatives.isEmpty then .error (.noAlternatives name)
  else (compileAlternatives lib name 1 alternatives).map (⟨name, ·⟩)

def compile (s : RuleSet) : Except CompileFault Grammar := do
  let rules ← s.rules.mapM fun (name, alternatives) => compileRule lib name alternatives
  (Grammar.ofRules rules s.start).mapError .twoRules

end RuleSet

end Packrat
