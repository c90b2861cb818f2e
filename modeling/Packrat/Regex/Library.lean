import Packrat.Text.Basic

/-!
# `Packrat/Regex/Library.lean` — regular expressions as grammars use them

Nothing that runs a grammar looks into a regular expression. It has a source to be shown, and a
function that says where a match ends; all that is known of the function is that a match lies in the
text and does not end before it begins. Which sources can be read, and what is said of those that
cannot, is up to a library.

`Packrat/Regex/Standard.lean` has the library that the program runs with. What is proved of grammars
holds with any other as well.
-/

set_option autoImplicit false

namespace Packrat

/-- A regular expression that has been read. -/
structure Regex where
  source : String
  /-- Where the match ends that begins at an offset, if there is one. -/
  matchEnd? : Text → Nat → Option Nat
  bounds : ∀ {text : Text} {i e : Nat}, i ≤ text.size → matchEnd? text i = some e →
    i ≤ e ∧ e ≤ text.size

namespace Regex

/-- A regular expression is shown by its source. -/
instance : Repr Regex where
  reprPrec r n := Repr.addAppParen ("Regex " ++ reprArg r.source) n

/-- The switches that a pattern is read under. -/
structure Flags where
  ignoreCase : Bool := false
  multiline : Bool := false
  dotAll : Bool := false
  verbose : Bool := false
  ascii : Bool := false
  unicode : Bool := false
deriving DecidableEq, Repr

namespace Flags

def union (a b : Flags) : Flags :=
  ⟨a.ignoreCase || b.ignoreCase, a.multiline || b.multiline, a.dotAll || b.dotAll,
    a.verbose || b.verbose, a.ascii || b.ascii, a.unicode || b.unicode⟩

def minus (a b : Flags) : Flags :=
  ⟨a.ignoreCase && !b.ignoreCase, a.multiline && !b.multiline, a.dotAll && !b.dotAll,
    a.verbose && !b.verbose, a.ascii && !b.ascii, a.unicode && !b.unicode⟩

def inter (a b : Flags) : Flags :=
  ⟨a.ignoreCase && b.ignoreCase, a.multiline && b.multiline, a.dotAll && b.dotAll,
    a.verbose && b.verbose, a.ascii && b.ascii, a.unicode && b.unicode⟩

def isEmpty (a : Flags) : Bool := a = {}

end Flags

/-- Why a source is refused, in the words of the library: the source is at fault, or the values that
were handed in with it. -/
inductive Refusal where
  | malformed (message : String)
  | misuse (message : String)
deriving DecidableEq, Repr

/-- A library that reads regular expressions. -/
structure Library where
  read : String → Flags → Except Refusal Regex
  /-- A regular expression keeps the source that it was read from. -/
  source_read : ∀ {source : String} {flags : Flags} {r : Regex}, read source flags = .ok r →
    r.source = source

end Regex

end Packrat
