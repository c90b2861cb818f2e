/-!
# `Packrat/Text/Place.lean` — places in a source text

A place is an offset with its line and column, both counted from one. `excerpt` shows the line of
an offset with a caret under it; reports about a source text carry both.
-/

set_option autoImplicit false

namespace Packrat

/-- An offset into a source text, with the line and column that it falls on. -/
structure Place where
  offset : Nat
  line : Nat
  column : Nat
deriving DecidableEq, Repr

namespace Place

def first : Place := ⟨0, 1, 1⟩

def next (p : Place) (c : Char) : Place :=
  if c = '\n' then ⟨p.offset + 1, p.line + 1, 1⟩ else ⟨p.offset + 1, p.line, p.column + 1⟩

def after (p : Place) (cs : List Char) : Place := cs.foldl next p

end Place

/-- The part of the line of offset `i` that stands before `i`. -/
def lineHead (src : List Char) (i : Nat) : List Char :=
  ((src.take i).reverse.takeWhile (· != '\n')).reverse

/-- The part of the line of offset `i` that stands from `i` on. -/
def lineTail (src : List Char) (i : Nat) : List Char :=
  (src.drop i).takeWhile (· != '\n')

/-- The line of offset `i`, and below it a caret in the column of `i`. -/
def excerpt (src : List Char) (i : Nat) : String :=
  String.ofList (lineHead src i ++ lineTail src i) ++ "\n" ++
    String.ofList (List.replicate (lineHead src i).length ' ') ++ "^"

end Packrat
