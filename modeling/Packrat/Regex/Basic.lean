import Packrat.Regex.Library
import Packrat.Text.CharClass

/-!
# `Packrat/Regex/Basic.lean` — the syntax of regular expressions

The expressions that the standard library reads: characters, sets, anchors, sequence and choice in
order of preference, capturing groups and references to them, repetition in three temperaments,
lookaround and atomic groups. `Packrat/Regex/Reader.lean` reads them from their source and
`Packrat/Regex/Matcher.lean` says what they match.
-/

set_option autoImplicit false

namespace Packrat

namespace Regex

/-- A condition on a position, met without reading a character. -/
inductive Anchor where
  | textStart
  | textEnd
  | lineStart
  | lineEnd
  /-- The end of the text, or the place before a line end that closes the text. -/
  | finalLineEnd
  | wordEdge (ascii : Bool)
  | noWordEdge (ascii : Bool)
deriving DecidableEq, Repr

/-- A member of a character set. With `ascii`, a class is its ASCII form. -/
inductive Member where
  | char (code : Nat)
  | range (lo hi : Nat)
  | named (k : CharClass) (ascii positive : Bool)
deriving DecidableEq, Repr

/-- How often a repetition prefers to go round: as often as it can, as seldom as it can, or as
often as it can without ever giving back. -/
inductive Mode where
  | greedy
  | lazy
  | possessive
deriving DecidableEq, Repr

/-- How a reference names a group. -/
inductive GroupName where
  | number (n : Nat)
  | name (s : String)
deriving DecidableEq, Repr

/-- A regular expression. `fold` says that characters are compared without regard to case. -/
inductive Expr where
  | empty
  | char (code : Nat) (fold : Bool)
  | dot (newline : Bool)
  | set (positive : Bool) (members : List Member) (fold : Bool)
  | anchor (a : Anchor)
  | seq (first second : Expr)
  | alt (first second : Expr)
  | group (index : Nat) (body : Expr)
  | backref (target : GroupName) (fold : Bool)
  | repeated (mode : Mode) (least : Nat) (most : Option Nat) (body : Expr)
  | atomic (body : Expr)
  | look (behind positive : Bool) (body : Expr)
deriving DecidableEq, Repr

namespace Expr

def seqAll : List Expr → Expr
  | [] => empty
  | [e] => e
  | e :: es => seq e (seqAll es)

/-- A choice among the expressions, the first preferred; there is one at least. -/
def altAll (e : Expr) : List Expr → Expr
  | [] => e
  | f :: fs => alt e (altAll f fs)

/-- Whether an expression consists of nothing. A quantifier has no effect on such an expression. -/
def isBare : Expr → Bool
  | empty => true
  | seq a b => a.isBare && b.isBare
  | alt a b => a.isBare && b.isBare
  | atomic body => body.isBare
  | look _ positive body => positive && body.isBare
  -- a group is something even if it encloses nothing: a quantifier may skip it
  | _ => false

def references : Expr → List GroupName
  | seq a b => a.references ++ b.references
  | alt a b => a.references ++ b.references
  | group _ body => body.references
  | backref target _ => [target]
  | repeated _ _ _ body => body.references
  | atomic body => body.references
  | look _ _ body => body.references
  | _ => []

end Expr

/-- A pattern that has been parsed: its source, the expression, and what its group names stand for.
With `ascii`, only the letters of ASCII differ in case. -/
structure Parsed where
  source : String
  expr : Expr
  ascii : Bool
  names : List (String × Nat)
deriving DecidableEq, Repr

def groupNumber (names : List (String × Nat)) : GroupName → Nat
  | .number n => n
  | .name s => (names.lookup s).getD 0

end Regex

end Packrat
