import Packrat.RuleSet.Basic

/-!
# `Packrat/RuleSet/Printer.lean` — rule sets as grammar text

Each rule goes on a line, below a line that names the start rule. Literals are written in quotes
and patterns between slashes with their flags behind.
-/

set_option autoImplicit false

namespace Packrat

/-- A value that is no item cannot be written. -/
structure PrintFault where
  value : Json
deriving Repr

def PrintFault.message (f : PrintFault) : String := "unknown term spec: " ++ f.value.shown

def Item.print : Item → Except PrintFault String
  | .literal text => .ok (quoted text)
  | .pattern source flags => .ok ("/" ++ source ++ "/" ++ flags)
  | .regex r flags => .ok ("/" ++ r.source ++ "/" ++ flags)
  | .reference name => .ok name
  | .foreign (.literal v) => .ok v.shown
  | .foreign (.pattern v flags) => .ok ("/" ++ v.shown ++ "/" ++ flags)
  | .foreign (.value v) => .error ⟨v⟩

namespace RuleSet

def printSequence (s : Sequence) : Except PrintFault String :=
  (s.mapM Item.print).map (" ".intercalate ·)

def printRule (name : String) (alternatives : List Sequence) : Except PrintFault String :=
  (alternatives.mapM printSequence).map fun texts =>
    name ++ " : " ++ " | ".intercalate texts ++ " ;"

/-- The line that names the start rule, if there is one. -/
def startLine : Option String → List String
  | none => []
  | some name => ["%start " ++ name ++ " ;"]

def print (s : RuleSet) : Except PrintFault String :=
  (s.rules.mapM fun (name, alternatives) => printRule name alternatives).map fun lines =>
    "\n".intercalate (startLine s.start ++ lines)

end RuleSet

end Packrat
