import Packrat.Text.CodePoint
import Packrat.Text.Hex

/-!
# `Packrat/Token/Quotation.lean` — what a quoted text stands for

Between its quotes a text may use escapes: a backslash before a line end (nothing), before a
backslash or a quote (that character), before one of `abfnrtv` (a control), before one to three
octal digits, before `x`, `u` and `U` with two, four and eight hexadecimal digits, or before `N`
with the name of a character in braces. A backslash before anything else stands for itself. Digits
may give a surrogate, so what a text stands for is made of code points. Which names there are is not
settled here: they are data that comes with a version of Unicode.

A carriage return counts as a line end; only behind a backslash may there be one. Reports tell the
line within the text where its reading ended. Those about an escape count a character beyond ASCII
as ten positions, because that is how it would be spelled with an escape, and a backslash before
such a character as six.
-/

set_option autoImplicit false

namespace Packrat

inductive EscapeCause where
  | truncated (letter : Char) (digits : Nat)
  | beyondUnicode
  | malformedName
  | unknownName
deriving DecidableEq, Repr

/-- An escape at fault, which reaches from `start` to `stop`, both included. -/
structure EscapeFault where
  start : Nat
  stop : Nat
  cause : EscapeCause
deriving DecidableEq, Repr

inductive QuotationFault where
  | nulCharacter
  /-- The text is broken off by the end of the given line. -/
  | lineEnd (line : Nat)
  /-- An escape is at fault in a text that ends on the given line. -/
  | escape (f : EscapeFault) (line : Nat)
deriving DecidableEq, Repr

def EscapeCause.message : EscapeCause → String
  | truncated letter digits =>
    "truncated \\" ++ letter.toString ++ String.ofList (List.replicate digits 'X') ++ " escape"
  | beyondUnicode => "illegal Unicode character"
  | malformedName => "malformed \\N character escape"
  | unknownName => "unknown Unicode character name"

def EscapeFault.message (f : EscapeFault) : String :=
  "'unicodeescape' codec can't decode bytes in position " ++ toString f.start ++
    "-" ++ toString f.stop ++ ": " ++ f.cause.message

def QuotationFault.message : QuotationFault → String
  | nulCharacter => "source code string cannot contain null bytes"
  | lineEnd line =>
    "unterminated string literal (detected at line " ++ toString line ++ ") (<unknown>, line 1)"
  | escape f line => "(unicode error) " ++ f.message ++ " (<unknown>, line " ++ toString line ++ ")"

/-- The characters that have a name. -/
abbrev CharacterNames := String → Option Char

/-- No character has a name. -/
def CharacterNames.empty : CharacterNames := fun _ => none

namespace Quotation

def isAscii (c : Char) : Bool := c.toNat < 128

/-- The positions that a text takes in a report about an escape behind it. -/
def positions : List Char → Nat
  | [] => 0
  | '\\' :: c :: cs => (if isAscii c then 2 else 16) + positions cs
  | c :: cs => (if isAscii c then 1 else 10) + positions cs

def isLineEnd (c : Char) : Bool := c == '\n' || c == '\r'

/-- The line on which a text ends that begins on `line` and has line ends only behind
backslashes. -/
def lastLine (line : Nat) : List Char → Nat
  | [] => line
  | '\\' :: c :: cs => lastLine (if isLineEnd c then line + 1 else line) cs
  | _ :: cs => lastLine line cs

/-- The line, of a text that begins on `line`, that is the first to end without a backslash before
its end. -/
def brokenLine? (line : Nat) : List Char → Option Nat
  | [] => none
  | '\\' :: c :: cs => brokenLine? (if isLineEnd c then line + 1 else line) cs
  | c :: cs => if c = '\r' then some line else brokenLine? line cs

def letter? : Char → Option Char
  | '\\' => some '\\'
  | '\x27' => some '\x27'
  | '"' => some '"'
  | 'a' => some '\x07'
  | 'b' => some '\x08'
  | 'f' => some '\x0c'
  | 'n' => some '\n'
  | 'r' => some '\r'
  | 't' => some '\t'
  | 'v' => some '\x0b'
  | _ => none

/-- An escape: what it stands for, and what of the text it takes behind its first letter. -/
structure Escape where
  value : CodePoints
  taken : Nat
  positions : Nat

/-- Reads the escape that begins at position `start` with a backslash and the letter `e`; `cs` is
what follows the letter. -/
def escape (names : CharacterNames) (start : Nat) (e : Char) (cs : List Char) :
    Except EscapeFault Escape :=
  if isLineEnd e then .ok ⟨[], 0, 2⟩
  else if let some c := letter? e then .ok ⟨[.char c], 0, 2⟩
  else if isOctalDigit e then
    let more := (cs.take 2).takeWhile isOctalDigit
    .ok ⟨[.ofNat (digitsValue 8 (e :: more))], more.length, 2 + more.length⟩
  else if let some width := hexWidth? e then
    let digits := (cs.take width).takeWhile isHexDigit
    if digits.length < width then
      .error ⟨start, start + 1 + digits.length, .truncated e width⟩
    else if 0x10ffff < digitsValue 16 digits then
      .error ⟨start, start + 1 + width, .beyondUnicode⟩
    else .ok ⟨[.ofNat (digitsValue 16 digits)], width, 2 + width⟩
  else if e = 'N' then
    match cs with
    | '\x7b' :: inside =>
      let name := inside.takeWhile (· != '\x7d')
      let behind := start + 2 + positions name
      if name.length = inside.length then .error ⟨start, behind, .malformedName⟩
      else if name = [] then .error ⟨start, start + 2, .malformedName⟩
      else match names (String.ofList name) with
        | some c => .ok ⟨[.char c], name.length + 2, positions name + 4⟩
        | none => .error ⟨start, behind + 1, .unknownName⟩
    | _ => .error ⟨start, start + 1, .malformedName⟩
  else .ok ⟨[.char '\\', .char e], 0, positions ['\\', e]⟩

/-- Resolves the escapes of a text that begins at position `start`. -/
def unescapeFrom (names : CharacterNames) (start : Nat) (cs : List Char) :
    Except EscapeFault CodePoints :=
  match cs with
  | [] => .ok []
  | '\\' :: e :: rest =>
    match escape names start e rest with
    | .error f => .error f
    | .ok s => (unescapeFrom names (start + s.positions) (rest.drop s.taken)).map (s.value ++ ·)
  | c :: rest => (unescapeFrom names (start + positions [c]) rest).map (.char c :: ·)
termination_by cs.length
decreasing_by all_goals simp; try omega

/-- What stands between the quotes of a quoted text. -/
def inner (lexeme : List Char) : List Char := lexeme.tail.dropLast

/-- What a quoted text, given with its quotes, stands for. -/
def read (names : CharacterNames) (lexeme : List Char) : Except QuotationFault CodePoints :=
  let body := inner lexeme
  if body.contains '\x00' then .error .nulCharacter
  else match brokenLine? 1 body with
  | some line => .error (.lineEnd line)
  | none =>
    match unescapeFrom names 0 body with
    | .ok cs => .ok cs
    | .error f => .error (.escape f (lastLine 1 body))

end Quotation

end Packrat
