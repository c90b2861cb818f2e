import Packrat.RuleSet.Basic

/-!
# `Packrat/Grammar.lean` — grammars that can be run

A grammar is a list of rules with different names. A rule is a list of alternatives and an
alternative a list of terms, which match one after the other: a literal matches its characters, a
pattern what its regular expression matches, and a reference what the rule of that name matches.
-/

set_option autoImplicit false

namespace Packrat

inductive Term where
  | literal (text : CodePoints)
  | pattern (r : Regex)
  | reference (name : String)
  /-- A value where a literal's text should be. -/
  | foreignLiteral (v : Json)
  /-- A value that is no term at all. -/
  | foreign (v : Json)
deriving Repr

/-- An alternative, with the rule name that its matches are recorded under. -/
structure Alternative where
  owner : String
  terms : List Term
deriving Repr

structure Rule where
  name : String
  alternatives : List Alternative
deriving Repr

/-- Rules, and the one to begin with where none is asked for. -/
structure Grammar where
  rules : List Rule
  start : Option String
deriving Repr

namespace Grammar

def names (g : Grammar) : List String := g.rules.map (·.name)

def contains (g : Grammar) (name : String) : Bool := g.names.contains name

def rule? (g : Grammar) (name : String) : Option Rule := g.rules.find? (·.name == name)

def size (g : Grammar) : Nat := g.rules.length

def alternativeCount (g : Grammar) : Nat :=
  g.rules.foldl (fun n r => n + r.alternatives.length) 0

/-- The first name in a list that an earlier place in the list has too. -/
def repeated? : List String → List String → Option String
  | _, [] => none
  | seen, n :: ns => if seen.contains n then some n else repeated? (n :: seen) ns

/-- The grammar of a list of rules, or a name that two of them have. -/
def ofRules (rules : List Rule) (start : Option String) : Except String Grammar :=
  match repeated? [] (rules.map (·.name)) with
  | some name => .error name
  | none => .ok ⟨rules, start⟩

def describe (g : Grammar) : String :=
  "Grammar(rules=" ++ (Json.list (g.names.map .text)).shown ++ ", start=" ++
    (match g.start with
      | none => Json.null
      | some s => .text s).shown ++ ")"

/-! ## References -/

/-- A name that no rule has, and where it is used: in a rule, or as the start rule. -/
structure Dangling where
  name : String
  usedIn : Option String
deriving DecidableEq, Repr

def Dangling.describe (d : Dangling) : String :=
  "'" ++ d.name ++ "' (" ++ (match d.usedIn with
    | some rule => "in rule '" ++ rule ++ "'"
    | none => "start rule") ++ ")"

/-- The names that the terms of a rule refer to, in order. -/
def referencesOf (r : Rule) : List String :=
  r.alternatives.flatMap fun a => a.terms.filterMap fun
    | .reference name => some name
    | _ => none

/-- The references to rules that there are not, in order, the start rule last. -/
def dangling (g : Grammar) : List Dangling :=
  (g.rules.flatMap fun r =>
    (referencesOf r).filterMap fun name =>
      if g.contains name then none else some ⟨name, some r.name⟩) ++
  match g.start with
  | some name => if g.contains name then [] else [⟨name, none⟩]
  | none => []

structure CheckFault where
  dangling : List Dangling
deriving Repr

def CheckFault.message (f : CheckFault) : String :=
  "Unresolved rule references: " ++ ", ".intercalate (f.dangling.map (·.describe))

/-- Refuses a grammar with references that lead nowhere. -/
def check (g : Grammar) : Except CheckFault Unit :=
  if g.dangling.isEmpty then .ok () else .error ⟨g.dangling⟩

end Grammar

end Packrat
