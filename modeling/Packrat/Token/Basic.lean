import Packrat.Text.Place

/-!
# `Packrat/Token/Basic.lean` — the tokens of grammar text

A token is a stretch of grammar text with its kind and its place. Blanks, line ends and comments
are no tokens: they only separate them.
-/

set_option autoImplicit false

namespace Packrat

inductive TokenKind where
  | percent
  | assign
  | colon
  | semi
  | bar
  | regex
  | doubleQuoted
  | singleQuoted
  | ident
  | eof
deriving DecidableEq, Repr

namespace TokenKind

/-- The name that reports use for a kind of token. -/
def label : TokenKind → String
  | percent => "PERCENT"
  | assign => "ASSIGN"
  | colon => "COLON"
  | semi => "SEMI"
  | bar => "OR"
  | regex => "REGEX"
  | doubleQuoted => "STRING"
  | singleQuoted => "SSTRING"
  | ident => "IDENT"
  | eof => "EOF"

end TokenKind

/-- A token: its kind, its characters and the place of the first of them. -/
structure Token where
  kind : TokenKind
  lexeme : List Char
  place : Place
deriving DecidableEq, Repr

namespace Token

/-- The offset behind the last character of a token. -/
def stop (t : Token) : Nat := t.place.offset + t.lexeme.length

def text (t : Token) : String := String.ofList t.lexeme

end Token

/-- A spot in a source text as a report shows it: line and column, and the line itself with a
caret under the column. -/
structure Mark where
  line : Nat
  column : Nat
  excerpt : String
deriving DecidableEq, Repr

def Mark.of (src : List Char) (p : Place) : Mark := ⟨p.line, p.column, Packrat.excerpt src p.offset⟩

/-- A report about the spot: the message, line and column, and the excerpt below. -/
def Mark.report (m : Mark) (message : String) : String :=
  message ++ " at " ++ toString m.line ++ ":" ++ toString m.column ++ "\n" ++ m.excerpt

end Packrat
