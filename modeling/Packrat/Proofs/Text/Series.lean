import Packrat.Text.Basic

/-!
# `Packrat/Proofs/Text/Series.lean` — texts joined by separators

A series is a list that is not empty, so that the text joined from it always has a first piece: each
further piece comes with the separator in front of it.

The two lemmas about what stands at an offset are how a proof about such a text moves along it: the rest of
the text from the offset on is the piece that comes next, followed by the rest behind it.
-/

set_option autoImplicit false

namespace Packrat

/-- A list that is not empty. -/
structure Series (α : Type) where
  first : α
  others : List α

namespace Series

variable {α : Type}

def toList (s : Series α) : List α := s.first :: s.others

/-- The texts of more elements, each behind a separator. -/
def joinedBehind (sep : String) (f : α → List Char) (xs : List α) : List Char :=
  xs.flatMap fun x => sep.toList ++ f x

/-- The texts of the elements, with separators between them. -/
def joined (sep : String) (f : α → List Char) (s : Series α) : List Char :=
  f s.first ++ joinedBehind sep f s.others

theorem joinedBehind_cons (sep : String) (f : α → List Char) (x : α) (xs : List α) :
    joinedBehind sep f (x :: xs) = sep.toList ++ (f x ++ joinedBehind sep f xs) := by
  rw [joinedBehind, List.flatMap_cons, List.append_assoc]
  rfl

end Series

/-- What stands at an offset is the first character of the rest. -/
theorem Text.getElem?_of_drop {text : Text} {p : Nat} {rest : List Char}
    (h : text.toList.drop p = rest) : text[p]? = rest.head? := by
  rw [← h, List.head?_drop, Array.getElem?_toList]

theorem Text.drop_add {text : Text} {p : Nat} {cs rest : List Char}
    (h : text.toList.drop p = cs ++ rest) : text.toList.drop (p + cs.length) = rest := by
  rw [← List.drop_drop, h, List.drop_left]

end Packrat
