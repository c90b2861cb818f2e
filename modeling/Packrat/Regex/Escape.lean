import Packrat.Regex.Source
import Packrat.Text.Hex

/-!
# `Packrat/Regex/Escape.lean` — escapes

A backslash before a letter names an anchor, a class or a control character, or begins a code point
in hexadecimal digits; before a digit it begins a code point in octal digits or refers to a group;
before anything else it makes that stand for itself. Inside a set there are no anchors and no
references.
-/

set_option autoImplicit false

namespace Packrat

namespace Regex

open Reader

inductive EscapeMeaning where
  | code (n : Nat)
  | member (m : Member)
  | expr (e : Expr)

def anchorLetter? (ascii : Bool) : Char → Option Anchor
  | 'A' => some .textStart
  | 'Z' => some .textEnd
  | 'b' => some (.wordEdge ascii)
  | 'B' => some (.noWordEdge ascii)
  | _ => none

def classLetter? (ascii : Bool) : Char → Option Member
  | 'd' => some (.named .digit ascii true)
  | 'D' => some (.named .digit ascii false)
  | 's' => some (.named .space ascii true)
  | 'S' => some (.named .space ascii false)
  | 'w' => some (.named .word ascii true)
  | 'W' => some (.named .word ascii false)
  | _ => none

def controlLetter? : Char → Option Nat
  | 'a' => some 7
  | 'b' => some 8
  | 'f' => some 12
  | 'n' => some 10
  | 'r' => some 13
  | 't' => some 9
  | 'v' => some 11
  | _ => none

def isLetter (c : Char) : Bool := ('a' ≤ c && c ≤ 'z') || ('A' ≤ c && c ≤ 'Z')

def isDigit (c : Char) : Bool := '0' ≤ c && c ≤ '9'

/-- Reads the `count` digits of a hexadecimal escape; `start` is where they begin and `digits` are
those read already. -/
def readHexDigits (inSet : Bool) (letter : Char) (start : Nat) :
    Nat → List Char → Reader (List Char)
  | 0, digits => return digits
  | count + 1, digits => do
    match ← charIn? inSet with
    | some c =>
      if isHexDigit c then readHexDigits inSet letter start count (digits ++ [c])
      else fail (.incompleteEscape letter digits) start
    | none => fail (.incompleteEscape letter digits) start

def readHexEscape (inSet : Bool) (letter : Char) (width : Nat) : Reader Nat := do
  let start := (← get).pos
  let digits ← readHexDigits inSet letter start width []
  let n := digitsValue 16 digits
  if 0x10ffff < n then fail (.badHexEscape letter digits) start
  return n

/-- Reads up to `count` more octal digits. -/
def readOctalDigits (inSet : Bool) : Nat → List Char → Reader (List Char)
  | 0, digits => return digits
  | count + 1, digits => do
    let m ← mark
    match ← charIn? inSet with
    | some c =>
      if isOctalDigit c then readOctalDigits inSet count (digits ++ [c])
      else reset m; return digits
    | none => reset m; return digits

/-- Reads an octal escape that begins with the digit `d`. -/
def readOctalEscape (inSet : Bool) (d : Char) : Reader Nat := do
  let digits ← readOctalDigits inSet 2 [d]
  if isOctalDigit d then return digitsValue 8 digits
  failHere (.badEscape d)

/-- The number of the group that a name stands for so far. -/
def knownGroup? (s : Input) : GroupName → Option Nat
  | .number n => some n
  | .name name => s.names.lookup name

/-- Refuses a reference to a group that is not closed yet. -/
def refuseOpen (target : GroupName) (pos : Nat) : Reader Unit := do
  let s ← get
  match knownGroup? s target with
  | some n => if s.openGroups.contains n then fail .openGroup pos
  | none => return

/-- A reference, to be looked up at the end; a report about it gives the offset `pos`. -/
def reference (target : GroupName) (pos : Nat) : Reader Expr := do
  modify fun s => { s with pending := (target, pos) :: s.pending }
  return .backref target (← get).flags.ignoreCase

/-- Reads a reference by number that begins with the digit `d`, or an octal escape of three
digits. -/
def readNumber (d : Char) : Reader EscapeMeaning := do
  let m ← mark
  let second ← char?
  match second with
  | some c =>
    if isDigit c then
      let m ← mark
      match ← char? with
      | some e =>
        if isOctalDigit d && isOctalDigit c && isOctalDigit e then
          let n := digitsValue 8 [d, c, e]
          return .code (if (← get).flags.ascii then n % 0x100 else n % 0x200)
      | none => pure ()
      reset m
      refer [d, c]
    else reset m; refer [d]
  | none => reset m; refer [d]
where
  /-- A reference to the group with this number. -/
  refer (digits : List Char) : Reader EscapeMeaning := do
    let target := GroupName.number (digitsValue 10 digits)
    let pos := (← get).pos
    refuseOpen target pos
    return .expr (← reference target pos)

def readEscape (inSet : Bool) : Reader EscapeMeaning := do
  match ← rawChar? with
  | none => failHere .escapeAtEnd
  | some c =>
    if let some width := hexWidth? c then return .code (← readHexEscape inSet c width)
    else if isLetter c then
      let ascii := (← get).flags.ascii
      if let (some a, false) := (anchorLetter? ascii c, inSet) then return .expr (.anchor a)
      else if let some m := classLetter? ascii c then return .member m
      else if let some n := controlLetter? c then return .code n
      else failHere (.badEscape c)
    else if isDigit c then
      if inSet || c = '0' then return .code (← readOctalEscape inSet c)
      else readNumber c
    else return .code c.toNat

end Regex

end Packrat
