import Packrat.Text.CodePoint

/-!
# `Packrat/Text/Basic.lean` — texts indexed by code point

A text under parsing is an array of characters, so that every offset counts code points. `slice`
reads a stretch of it by offsets that need not lie inside the text.
-/

set_option autoImplicit false

namespace Packrat

/-- A text, indexed by code point. -/
abbrev Text := Array Char

namespace Text

def ofString (s : String) : Text := s.toList.toArray

/-- Whether the code points `cs` stand in the text from offset `i` on. -/
def startsAt (t : Text) : CodePoints → Nat → Bool
  | [], _ => true
  | c :: cs, i => t[i]?.map .char == some c && startsAt t cs (i + 1)

/-- An offset that may lie outside the text, brought inside: a negative one counts from the end,
and what lies beyond an edge becomes that edge. -/
def clamp (t : Text) (i : Int) : Nat :=
  if i < 0 then (i + t.size).toNat else min i.toNat t.size

/-- The stretch `[i, j)` of the text, its ends brought inside the text by `clamp`. -/
def slice (t : Text) (i j : Int) : String :=
  String.ofList (t.extract (t.clamp i) (t.clamp j)).toList

def suffixFrom (t : Text) (i : Nat) : String := String.ofList (t.extract i t.size).toList

end Text

end Packrat
