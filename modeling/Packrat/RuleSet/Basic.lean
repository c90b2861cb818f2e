import Packrat.Json
import Packrat.Regex.Library
import Packrat.Text.CodePoint

/-!
# `Packrat/RuleSet/Basic.lean` — rules as they are written down

A rule set lists rules in the order in which they were first named, each with its alternatives and
each alternative with its items. It is the form in which grammars are read, built and printed;
nothing in it is checked. `define` adds an alternative the way an author does, and checks what the
author hands in.
-/

set_option autoImplicit false

namespace Packrat

/-- A value that stands where an item belongs, or where the text of a literal or the source of a
pattern belongs. -/
inductive Foreign where
  | value (v : Json)
  | literal (v : Json)
  | pattern (v : Json) (flags : String)
deriving Repr

/-- An item of an alternative. -/
inductive Item where
  | literal (text : CodePoints)
  | pattern (source flags : String)
  | regex (r : Regex) (flags : String)
  | reference (name : String)
  | foreign (f : Foreign)
deriving Repr

abbrev Sequence := List Item

/-- Rules with their alternatives, in the order in which they were first named. `start` is the rule
to begin with where none is asked for. -/
structure RuleSet where
  rules : List (String × List Sequence) := []
  start : Option String := none
deriving Repr

namespace RuleSet

def addTo (name : String) (alternative : Sequence) :
    List (String × List Sequence) → List (String × List Sequence)
  | [] => [(name, [alternative])]
  | (n, alternatives) :: rest =>
    if n = name then (n, alternatives ++ [alternative]) :: rest
    else (n, alternatives) :: addTo name alternative rest

/-- Adds an alternative to a rule; a rule that is not there yet goes to the end. The first rule that is
named becomes the start. -/
def add (s : RuleSet) (name : String) (alternative : Sequence) : RuleSet :=
  { rules := addTo name alternative s.rules, start := s.start.or (some name) }

/-- Gives a rule its alternatives, in place of those that it had. -/
def setIn (name : String) (alternatives : List Sequence) :
    List (String × List Sequence) → List (String × List Sequence)
  | [] => [(name, alternatives)]
  | (n, old) :: rest =>
    if n = name then (n, alternatives) :: rest else (n, old) :: setIn name alternatives rest

/-- The rule set of a list of rules; of two rules with one name the later one counts, in the place
of the earlier. -/
def ofList (rules : List (String × List Sequence)) (start : Option String) : RuleSet :=
  { rules := rules.foldl (fun s (n, alternatives) => setIn n alternatives s) [], start := start }

def names (s : RuleSet) : List String := s.rules.map (·.1)

def contains (s : RuleSet) (name : String) : Bool := s.names.contains name

def size (s : RuleSet) : Nat := s.rules.length

def alternativeCount (s : RuleSet) : Nat := s.rules.foldl (fun n r => n + r.2.length) 0

end RuleSet

/-! ## Building a rule set -/

/-- What an author may hand in as an item. A text stands for the rule of that name. -/
inductive Argument where
  | literal (v : Json)
  | pattern (v : Json) (flags : String)
  | regex (r : Regex) (flags : String)
  | reference (name : String)
  | value (v : Json)
deriving Repr

/-- Why an alternative cannot be added. -/
inductive DefineFault where
  | literalNotText (v : Json)
  | noItems (rule : String)
  | unknownItem (v : Json)
deriving Repr

def DefineFault.message : DefineFault → String
  | literalNotText v => "literal term needs a string, got " ++ v.shown
  | noItems rule => "Rule '" ++ rule ++ "' needs at least one term per alternative"
  | unknownItem v => "Unknown term descriptor: " ++ v.shown

namespace Argument

/-- A literal must be a text; this is looked at before anything else. -/
def checkLiterals : List Argument → Except DefineFault Unit
  | [] => .ok ()
  | .literal (.text _) :: rest => checkLiterals rest
  | .literal v :: _ => .error (.literalNotText v)
  | _ :: rest => checkLiterals rest

def toItem : Argument → Except DefineFault Item
  | .literal (.text s) => .ok (.literal s)
  | .literal v => .error (.literalNotText v)
  | .pattern (.text s) flags => .ok (.pattern s flags)
  | .pattern v flags => .ok (.foreign (.pattern v flags))
  | .regex r flags => .ok (.regex r flags)
  | .reference name => .ok (.reference name)
  | .value (.text name) => .ok (.reference name)
  | .value v => .error (.unknownItem v)

end Argument

/-- Adds the alternative that an author writes down for a rule. -/
def RuleSet.define (s : RuleSet) (name : String) (arguments : List Argument) :
    Except DefineFault RuleSet := do
  Argument.checkLiterals arguments
  if arguments.isEmpty then throw (.noItems name)
  return s.add name (← arguments.mapM Argument.toItem)

end Packrat
