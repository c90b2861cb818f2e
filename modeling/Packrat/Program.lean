import Packrat.Engine
import Packrat.Fault
import Packrat.Tree.Forest

/-!
# `Packrat/Program.lean` — parsing a text

`Grammar.parse` runs a rule from the beginning of a text. The text is matched if the run ends at its
end; the tree covers whatever was matched.
-/

set_option autoImplicit false

namespace Packrat

namespace Grammar

/-- The rule that a run begins with: the one asked for, or else the grammar's start. -/
def startRule (g : Grammar) (start : Option String) : Except RunFault Rule :=
  match start.or g.start with
  | none => .error .noStart
  | some name =>
    match g.rule? name with
    | none => .error (.unknownStart name)
    | some r => .ok r

def run (g : Grammar) (text : Text) (limit : Int) (r : Rule) : Result text :=
  r.run (follow g) (.first text limit)

/-- Runs the start rule from the beginning of a text. Whether it matched or not, the cursor stands
where the run ended. -/
def parse (g : Grammar) (text : Text) (start : Option String) (limit : Int) :
    Except RunFault (Cursor text) :=
  match g.startRule start with
  | .error f => .error f
  | .ok r =>
    match g.run text limit r with
    | .matched c => .ok c
    | .failed c => .ok c
    | .stopped f _ => .error f

end Grammar

def Match.completed (m : Match) : Completed := ⟨some m.name, m.start, m.stop⟩

namespace Cursor

variable {text : Text}

/-- The tree of the matches that the run recorded. -/
def tree? (c : Cursor text) : Option Node :=
  Node.ofCompleted? (c.memo.log.toList.map Match.completed)

/-- Whether the whole text was matched. -/
def matched (c : Cursor text) : Bool := c.atEnd

end Cursor

namespace Grammar

def ofRuleSet (lib : Regex.Library) (s : RuleSet) : Except Fault Grammar :=
  (s.compile lib).mapError .compile

end Grammar

end Packrat
