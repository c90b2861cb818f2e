import Packrat.Regex.CharSet
import Packrat.Regex.Group

/-!
# `Packrat/Regex/Reader.lean` — reading a regular expression from its source

The source is read once from left to right. Open parentheses are kept on a stack of frames; a
closing parenthesis turns the frame on top into an item of the frame below, and returns to the
switches that were on before it. Whatever depends on a switch keeps the setting that it was read
under.
-/

set_option autoImplicit false

namespace Packrat

namespace Regex

open Reader

/-! ## Quantifiers -/

/-- The bound from which a count is refused. -/
def countBound : Nat := 0xffffffff

/-- Reads the counts of a quantifier behind its opening brace, unless they are none. -/
def readCounts? : Reader (Option (Nat × Option Nat)) := do
  let m ← mark
  let least ← takeWhile isDigit
  let comma ← accept ','
  let most ← if comma then takeWhile isDigit else pure least
  if !comma && least.isEmpty then reset m; return none
  let lo ← if least.isEmpty then pure 0 else numberOf least
  let hi ← if most.isEmpty then pure none else some <$> numberOf most
  if !(← accept '\x7d') then reset m; return none
  if countBound ≤ lo || hi.any (countBound ≤ ·) then fail .countTooBig m.2
  if hi.any (· < lo) then fail .countsReversed m.2
  return some (lo, hi)

/-- Reads the quantifier that begins with `c`, unless it is none. -/
def readQuantifier? (c : Char) : Reader (Option (Nat × Option Nat)) := do
  if c = '*' then return some (0, none)
  else if c = '+' then return some (1, none)
  else if c = '?' then return some (0, some 1)
  else readCounts?

/-- Reads the mark behind a quantifier that says how it repeats. -/
def readMode : Reader Mode := do
  let m ← mark
  match ← char? with
  | some '?' => return .lazy
  | some '+' => return .possessive
  | _ => reset m; return .greedy

/-- The repetition of an expression. -/
def quantify (e : Expr) (mode : Mode) (counts : Nat × Option Nat) : Expr :=
  -- with nothing to repeat, or a count of exactly one, the expression stays as it is
  if e.isBare || counts = (1, some 1) then e
  else .repeated mode counts.1 counts.2 e

/-! ## The whole pattern -/

/-- The parentheses that are open, the innermost first, and the pattern itself around them. -/
structure Stack where
  top : Frame
  below : List Frame

def Stack.push (k : Stack) (e : Expr) : Stack := { k with top := k.top.push e }

/-- Repeats the item before a quantifier that stands at offset `pos`. -/
def repeatLast (k : Stack) (pos : Nat) (counts : Nat × Option Nat) : Reader Stack := do
  match k.top.items with
  | some e :: before =>
    let mode ← readMode
    return { k with
      top := { k.top with items := none :: some (quantify e mode counts) :: before } }
  | _ :: [] => fail .nothingToRepeat pos
  | [] => fail .nothingToRepeat pos
  | none :: _ => fail .multipleRepeat pos

/-- Closes the innermost parenthesis. -/
def closeTop (k : Stack) (f : Frame) (fs : List Frame) : Reader Stack := do
  expect ')'
  modify fun s =>
    { s with
      flags := k.top.outer
      openGroups := match k.top.bracket with
        | .group _ => s.openGroups.tail
        | _ => s.openGroups }
  return ⟨f.push k.top.expr, fs⟩

/-- Reads the next part of the pattern; `none` at the end, or at a closing parenthesis that closes
nothing. -/
def readPart (k : Stack) : Reader (Option Stack) := do
  let m ← mark
  let flags := (← get).flags
  let literal (c : Char) : Expr := .char c.toNat flags.ignoreCase
  match ← char? with
  | none =>
    reset m
    if k.below.isEmpty then return none
    failHere (.missing ')')
  | some ')' =>
    reset m
    match k.below with
    | [] => return none
    | f :: fs => return some (← closeTop k f fs)
  | some '|' => return some { k with top := k.top.branch }
  | some '\\' =>
    match ← readEscape false with
    | .code n => return some (k.push (.char n flags.ignoreCase))
    | .member c => return some (k.push (.set true [c] false))
    | .expr e => return some (k.push e)
  | some '(' =>
    match ← readOpening with
    | .frame f => return some ⟨f, k.top :: k.below⟩
    | .expr e => return some (k.push e)
    | .nothing => return some k
  | some '[' => return some (k.push (← readSet))
  | some '.' => return some (k.push (.dot flags.dotAll))
  | some '^' =>
    return some (k.push (.anchor (if flags.multiline then .lineStart else .textStart)))
  | some '$' =>
    return some (k.push (.anchor (if flags.multiline then .lineEnd else .finalLineEnd)))
  | some c =>
    if c = '?' ∨ c = '*' ∨ c = '+' ∨ c = '\x7b' then
      match ← readQuantifier? c with
      | some counts => return some (← repeatLast k m.2 counts)
      | none => return some (k.push (literal c))
    else return some (k.push (literal c))

def readParts : Nat → Stack → Reader Expr
  | 0, k => return k.top.expr
  | limit + 1, k => do
    match ← readPart k with
    | none => return k.top.expr
    | some k => readParts limit k

/-- Refuses the first reference to a group that there is not. -/
def checkReferences (names : List (String × Nat)) (groups : Nat) :
    List (GroupName × Nat) → Except Fault Unit
  | [] => .ok ()
  | (.number n, pos) :: rest =>
    if n = 0 ∨ groups < n then .error (.issue .badGroupReference pos)
    else checkReferences names groups rest
  | (.name s, pos) :: rest =>
    if (names.lookup s).isNone then .error (.issue .unknownGroup pos)
    else checkReferences names groups rest

/-- Reads a pattern to its end. -/
def readAll (source : List Char) : Reader Expr := do
  let flags := (← get).flags
  let e ← readParts (source.length + 1) ⟨.opened .pattern flags, []⟩
  let pos := (← get).pos
  skip
  if !(← get).rest.isEmpty then fail .unbalancedParenthesis pos
  return e

/-- Reads a pattern under the given switches. Those that are on at its end must not conflict. -/
def Parsed.read (source : String) (flags : Flags) : Except Fault Parsed :=
  match (readAll source.toList).run ⟨source.toList, 0, flags, 0, [], [], []⟩ with
  | .error f => .error f
  | .ok (e, s) =>
    if s.flags.ascii && s.flags.unicode then .error .conflictingFlags
    else match checkReferences s.names s.groups s.pending.reverse with
      | .error f => .error f
      | .ok () => .ok ⟨source, e, s.flags.ascii, s.names⟩

end Regex

end Packrat
