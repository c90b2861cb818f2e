import Packrat.Regex.Escape

/-!
# `Packrat/Regex/CharSet.lean` — sets of characters

What stands between brackets: characters, classes, and ranges of characters. A set that names a
class together with its complement stands for any character, whether it is negated or not.
-/

set_option autoImplicit false

namespace Packrat

namespace Regex

open Reader

def readItem : Reader Member := do
  if ← rawAccept '\\' then
    match ← readEscape true with
    | .code n => return .char n
    | .member m => return m
    | .expr _ => failHere .unterminatedSet
  else
    match ← rawChar? with
    | none => failHere .unterminatedSet
    | some c => return .char c.toNat

/-- Reads a member of a set, which may be a range. -/
def readMember : Reader (List Member) := do
  let first ← readItem
  match first with
  | .char lo =>
    if ← rawAccept '-' then
      -- a hyphen that cannot stand between two characters stands for itself
      if (← get).rest.head? = some ']' then return [first, .char '-'.toNat]
      let second ← readItem
      match second with
      | .char hi =>
        if hi < lo then failHere .badRange
        else if lo = hi then return [first]
        else return [.range lo hi]
      | _ => return [first, .char '-'.toNat, second]
    else return [first]
  | _ => return [first]

/-- Reads members up to the closing bracket; `limit` bounds their number. -/
def readMembers : Nat → Reader (List Member)
  | 0 => failHere .unterminatedSet
  | limit + 1 => do
    let first ← readMember
    if ← rawAccept ']' then return first
    return first ++ (← readMembers limit)

/-- Whether some class is among the members together with its complement. -/
def namesComplements (members : List Member) : Bool :=
  members.any fun
    | .named k ascii positive => members.contains (.named k ascii !positive)
    | _ => false

/-- Reads a set behind its opening bracket. -/
def readSet : Reader Expr := do
  let negative ← rawAccept '^'
  let s ← get
  -- a closing bracket that stands first is a member
  let members ← readMembers (s.rest.length + 1)
  if namesComplements members then return .dot true
  return .set (!negative) members s.flags.ignoreCase

end Regex

end Packrat
