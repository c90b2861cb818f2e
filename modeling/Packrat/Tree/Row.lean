import Packrat.Json
import Packrat.Tree.Basic

/-!
# `Packrat/Tree/Row.lean` — completed matches as JSON rows

A completed match can be given as a row of three values: name, start, end. The name is a string or
null, and null stands for no name.
-/

set_option autoImplicit false

namespace Packrat

inductive RowFault where
  | tooFew (count : Nat)
  | tooMany
  | notAMatch
deriving DecidableEq, Repr

def RowFault.message : RowFault → String
  | tooFew count => "not enough values to unpack (expected 3, got " ++ toString count ++ ")"
  | tooMany => "too many values to unpack (expected 3)"
  | notAMatch => "a match needs a name and two offsets"

def Completed.ofRow : List Json → Except RowFault Completed
  | [name, start, stop] =>
    match name, start.toInt?, stop.toInt? with
    | .null, some s, some e => .ok ⟨none, s, e⟩
    | .text n, some s, some e => .ok ⟨some n, s, e⟩
    | _, _, _ => .error .notAMatch
  | row => if row.length < 3 then .error (.tooFew row.length) else .error .tooMany

end Packrat
