import Packrat.Json
import Packrat.Memo
import Packrat.Text.Basic

/-!
# `Packrat/Cursor.lean` — a place in a text, with what the run remembers

A cursor belongs to one text and never leaves it. `depth` tells how deep references are nested where
the cursor stands, and `limit` how deep they may be.
-/

set_option autoImplicit false

namespace Packrat

/-- The nesting that is allowed unless another limit is asked for. -/
def standardLimit : Int := 200

structure Cursor (text : Text) where
  pos : Fin (text.size + 1)
  limit : Int
  depth : Int
  memo : Memo

/-- What stops a run. -/
inductive RunFault where
  | noStart
  | unknownStart (name : String)
  | unknownRule (name : String)
  | badPosition (v : Json) (size : Nat)
  | tooDeep (rule : String) (pos : Nat) (limit : Int)
  | foreignTerm (v : Json)
deriving Repr

def RunFault.message : RunFault → String
  | noStart => "No start rule given"
  | unknownStart name => "Found no rule named: '" ++ name ++ "'"
  | unknownRule name => "No rule named: '" ++ name ++ "'"
  | badPosition v size =>
    "Invalid position: " ++ v.shown ++ " (text length " ++ toString size ++ ")"
  | tooDeep rule pos limit =>
    "rule nesting exceeded " ++ toString limit ++ " levels at '" ++ rule ++ "' (pos " ++
      toString pos ++ ")"
  | foreignTerm v => "unknown term: " ++ v.shown

namespace Cursor

variable {text : Text}

def first (text : Text) (limit : Int) : Cursor text := ⟨0, limit, 0, {}⟩

/-- The position that an offset is, if it lies in the text or at its end. -/
def position? (text : Text) (i : Int) : Option (Fin (text.size + 1)) :=
  if h : 0 ≤ i ∧ i ≤ text.size then some ⟨i.toNat, by omega⟩ else none

def moveTo (c : Cursor text) (i : Int) : Except RunFault (Cursor text) :=
  match position? text i with
  | some p => .ok { c with pos := p }
  | none => .error (.badPosition (.ofInt i) text.size)

/-- The cursor at the offset that a value is. -/
def seek (c : Cursor text) (v : Json) : Except RunFault (Cursor text) :=
  match v.toInt? with
  | some i => c.moveTo i
  | none => .error (.badPosition v text.size)

/-- The cursor back at a position that was reached before. -/
def backTo (c : Cursor text) (p : Fin (text.size + 1)) : Cursor text := { c with pos := p }

def atEnd (c : Cursor text) : Bool := c.pos.val == text.size

def remaining (c : Cursor text) : String := text.suffixFrom c.pos

/-- The spot of a rule where the cursor stands. -/
def spot (c : Cursor text) (name : String) : Spot := ⟨name, c.pos.val⟩

def saveMatch (c : Cursor text) (m : Match) : Cursor text := { c with memo := c.memo.saveMatch m }

def saveMismatch (c : Cursor text) (s : Spot) : Cursor text :=
  { c with memo := c.memo.saveMismatch s }

def saveStarted (c : Cursor text) (s : Spot) : Cursor text :=
  { c with memo := c.memo.saveStarted s }

/-- How many references may still be nested where the cursor stands. -/
def levels (c : Cursor text) : Nat := (c.limit - c.depth).toNat

def describe (c : Cursor text) : String :=
  "Cursor(pos=" ++ toString c.pos.val ++ ", len=" ++ toString text.size ++
    ", matches=" ++ toString c.memo.log.size ++
    ", mismatches=" ++ toString c.memo.mismatches.size ++
    ", started=" ++ toString c.memo.started.size ++ ")"

end Cursor

end Packrat
