import Packrat.Regex.Basic
import Packrat.Regex.Fault

/-!
# `Packrat/Regex/Source.lean` — looking at the source of a regular expression

The steps that everything else is read with: taking a character, going back to a mark, stopping with
an issue. In verbose mode blanks and `#` comments between the parts of a pattern are skipped,
wherever a part is looked for.
-/

set_option autoImplicit false

namespace Packrat

namespace Regex

/-- What is being read: the rest of the source and its offset, the switches, and what is known about
groups. `pending` holds the references met so far, the latest first, with the offset that a report
about them gives. -/
structure Input where
  rest : List Char
  pos : Nat
  flags : Flags
  groups : Nat
  names : List (String × Nat)
  openGroups : List Nat
  pending : List (GroupName × Nat)

abbrev Reader := StateT Input (Except Fault)

namespace Reader

def fail {α : Type} (what : Issue) (pos : Nat) : Reader α := throw (.issue what pos)

def failHere {α : Type} (what : Issue) : Reader α := do fail what (← get).pos

def mark : Reader (List Char × Nat) := do
  let s ← get
  return (s.rest, s.pos)

def reset (m : List Char × Nat) : Reader Unit :=
  modify fun s => { s with rest := m.1, pos := m.2 }

/-- Blanks that verbose mode skips. -/
def isBlank (c : Char) : Bool :=
  CharClass.space.contains false c.toNat || (0x1c ≤ c.toNat && c.toNat ≤ 0x1f)

/-- Takes the characters with property `p` off the front and skips blanks and comments between and
behind them; `comment` says that the text begins inside a comment. -/
def takeSpaced (p : Char → Bool) : Bool → List Char → Nat → List Char × List Char × Nat
  | _, [], pos => ([], [], pos)
  | true, c :: cs, pos => takeSpaced p (c != '\n') cs (pos + 1)
  | false, c :: cs, pos =>
    if isBlank c then takeSpaced p false cs (pos + 1)
    else if c = '#' then takeSpaced p true cs (pos + 1)
    else if p c then
      let (taken, rest) := takeSpaced p false cs (pos + 1)
      (c :: taken, rest)
    else ([], c :: cs, pos)

/-- Skips blanks and comments in verbose mode. -/
def skip : Reader Unit := do
  let s ← get
  if s.flags.verbose then
    let (_, rest, pos) := takeSpaced (fun _ => false) false s.rest s.pos
    reset (rest, pos)

def rawChar? : Reader (Option Char) := do
  let s ← get
  match s.rest with
  | [] => return none
  | c :: cs => reset (cs, s.pos + 1); return some c

def char? : Reader (Option Char) := do skip; rawChar?

/-- The next character; inside a set blanks count. -/
def charIn? (inSet : Bool) : Reader (Option Char) := if inSet then rawChar? else char?

def rawAccept (c : Char) : Reader Bool := do
  let m ← mark
  if (← rawChar?) = some c then return true
  reset m
  return false

def accept (c : Char) : Reader Bool := do
  let m ← mark
  skip
  if (← rawAccept c) then return true
  reset m
  return false

def expect (c : Char) : Reader Unit := do
  if !(← accept c) then failHere (.missing c)

def takeWhile (p : Char → Bool) : Reader (List Char) := do
  let s ← get
  if s.flags.verbose then
    let (taken, rest, pos) := takeSpaced p false s.rest s.pos
    reset (rest, pos)
    return taken
  else
    let taken := s.rest.takeWhile p
    reset (s.rest.dropWhile p, s.pos + taken.length)
    return taken

end Reader

end Regex

end Packrat
