import Packrat.Regex.Escape
import Packrat.Text.Identifier

/-!
# `Packrat/Regex/Group.lean` — what parentheses enclose

What follows an open parenthesis tells what it makes of its contents: a group that captures, one
that does not, a group that is not entered again, a look ahead or behind, or switches. Until it is
closed an open parenthesis is a frame, which holds the branches and the items read so far.
-/

set_option autoImplicit false

namespace Packrat

namespace Regex

open Reader

/-- What an open parenthesis makes of what it encloses. -/
inductive Bracket where
  | pattern
  | group (n : Nat)
  | plain
  | atomic
  | look (behind positive : Bool)
deriving DecidableEq, Repr

def Bracket.close (b : Bracket) (body : Expr) : Expr :=
  match b with
  | pattern => body
  | plain => body
  | group n => .group n body
  | atomic => .atomic body
  | look behind positive => .look behind positive body

/-- An open parenthesis: the switches to return to, the branches and the items read so far, the
latest first. An item `none` stands where nothing can be repeated: at the beginning and behind a
quantifier. -/
structure Frame where
  bracket : Bracket
  outer : Flags
  branches : List Expr
  items : List (Option Expr)

namespace Frame

def opened (b : Bracket) (outer : Flags) : Frame := ⟨b, outer, [], [none]⟩

def push (f : Frame) (e : Expr) : Frame := { f with items := some e :: f.items }

def sequence (f : Frame) : Expr := Expr.seqAll (f.items.filterMap id).reverse

def branch (f : Frame) : Frame := { f with branches := f.sequence :: f.branches, items := [none] }

def expr (f : Frame) : Expr :=
  match f.branches.reverse with
  | [] => f.bracket.close f.sequence
  | e :: es => f.bracket.close (.altAll e (es ++ [f.sequence]))

end Frame

/-- The number that a new group gets: that of its name, or a new one. -/
def openGroup (name : Option String) : Reader Nat := do
  let s ← get
  match name.bind fun n => s.names.lookup n with
  | some n => set { s with openGroups := n :: s.openGroups }; return n
  | none =>
    let n := s.groups + 1
    let names := match name with
      | some name => (name, n) :: s.names
      | none => s.names
    set { s with groups := n, names := names, openGroups := n :: s.openGroups }
    return n

/-- The number that is written in digits of any kind. -/
def numberOf (digits : List Char) : Except Fault Nat :=
  let decimals := (digits.takeWhile Numeral.isDecimal).length
  if Numeral.mostDigits < decimals then .error (.tooManyDigits decimals)
  else match Numeral.natural? digits with
  | some n => .ok n
  | none => .error (.notDecimal digits)

/-- Reads a group name; a number is allowed where a group is referred to. -/
def readName (numeric : Bool) : Reader GroupName := do
  let name ← takeWhile fun c => c != ')' && c != '>'
  if name.isEmpty then failHere .missingGroupName
  if name.all Numeral.isDigit then
    if !numeric then failHere .badGroupName
    let n ← numberOf name
    if n = 0 then failHere .badGroupName
    return .number n
  if !isIdentifier name then failHere .badGroupName
  return .name (String.ofList name)

/-- Opens a capturing group behind its name's opening angle. -/
def openNamed : Reader Frame := do
  let name ← readName false
  let n ← openGroup (match name with
    | .name s => some s
    | .number _ => none)
  expect '>'
  return .opened (.group n) (← get).flags

def switch? : Char → Option Flags
  | 'a' => some { ascii := true }
  | 'i' => some { ignoreCase := true }
  | 'm' => some { multiline := true }
  | 's' => some { dotAll := true }
  | 'u' => some { unicode := true }
  | 'x' => some { verbose := true }
  | _ => none

/-- Reads the letters of switches; `limit` bounds their number. -/
def readSwitches : Nat → Flags → Reader Flags
  | 0, flags => return flags
  | limit + 1, flags => do
    let m ← mark
    match (← char?).bind switch? with
    | some f => readSwitches limit (flags.union f)
    | none => reset m; return flags

/-- Reads switches behind an opening parenthesis and a question mark. -/
def openSwitched : Reader (Option Frame) := do
  let limit := (← get).rest.length
  let on ← readSwitches limit {}
  let minus ← accept '-'
  let off ← if minus then readSwitches limit {} else pure {}
  if minus && off.isEmpty then failHere .noFlagsOff
  if !(on.inter off).isEmpty then failHere .flagOnAndOff
  let outer := (← get).flags
  let inner := (outer.union on).minus off
  -- in front of a colon they hold inside the group that they open
  if ← accept ':' then
    modify fun s => { s with flags := inner }
    return some (.opened .plain outer)
  -- otherwise they hold from here to the end of the group around them
  if ← accept ')' then
    modify fun s => { s with flags := inner }
    return none
  failHere .unknownExtension

/-- Skips a comment behind its opening; `limit` bounds its length. -/
def skipComment : Nat → Reader Unit
  | 0 => expect ')'
  | limit + 1 => do
    let m ← mark
    match ← rawChar? with
    | none => expect ')'
    | some ')' => reset m; expect ')'
    | some '\\' => let _ ← rawChar?; skipComment limit
    | some _ => skipComment limit

/-- What stands at an opening parenthesis: a frame, a finished expression, or nothing. -/
inductive Opening where
  | frame (f : Frame)
  | expr (e : Expr)
  | nothing

/-- Reads what follows `(?P`. -/
def readExtension : Reader Opening := do
  let m ← mark
  match ← char? with
  | some '<' => return .frame (← openNamed)
  | some '=' =>
    let target ← readName true
    expect ')'
    refuseOpen target m.2
    return .expr (← reference target m.2)
  | _ => fail .unknownExtension m.2

/-- Reads what follows an opening parenthesis, as far as it says what kind of group it is. -/
def readOpening : Reader Opening := do
  let behind ← mark
  let flags := (← get).flags
  match ← rawChar? with
  | some '?' =>
    let m ← mark
    match ← rawChar? with
    | some '<' =>
      let inner ← mark
      match ← char? with
      | some '=' => return .frame (.opened (.look true true) flags)
      | some '!' => return .frame (.opened (.look true false) flags)
      | _ => reset inner; return .frame (← openNamed)
    | some '=' => return .frame (.opened (.look false true) flags)
    | some '!' => return .frame (.opened (.look false false) flags)
    | some 'P' => readExtension
    | some '#' => skipComment (← get).rest.length; return .nothing
    | some '>' => return .frame (.opened .atomic flags)
    | _ =>
      reset m
      match ← openSwitched with
      | some f => return .frame f
      | none => return .nothing
  | some '*' =>
    let m ← mark
    let word ← takeWhile fun c => c != ')' && c != '>'
    if word.head?.any fun c => letters.contains c.toNat then fail .unknownVerb m.2
    unnamed behind
  | _ => unnamed behind
where
  /-- A capturing group without a name. -/
  unnamed (behind : List Char × Nat) : Reader Opening := do
    reset behind
    return .frame (.opened (.group (← openGroup none)) (← get).flags)

end Regex

end Packrat
