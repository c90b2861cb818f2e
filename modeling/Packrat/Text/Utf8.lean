import Packrat.Text.Hex

/-!
# `Packrat/Text/Utf8.lean` — texts from bytes

Files hold UTF-8. A byte that cannot stand where it stands is reported with the bytes before it that
could still have begun a character. Line ends are unified to line feeds, and a grammar file may
begin with a byte order mark, which is no part of its text.
-/

set_option autoImplicit false

namespace Packrat

inductive Utf8Cause where
  | badStart
  | badContinuation
  | endsEarly
deriving DecidableEq, Repr

/-- The bytes from `start` to `stop`, both included, are no character; `byte` is the first. -/
structure Utf8Fault where
  byte : UInt8
  start : Nat
  stop : Nat
  cause : Utf8Cause
deriving DecidableEq, Repr

def Utf8Cause.message : Utf8Cause → String
  | badStart => "invalid start byte"
  | badContinuation => "invalid continuation byte"
  | endsEarly => "unexpected end of data"

def Utf8Fault.message (f : Utf8Fault) : String :=
  "'utf-8' codec can't decode " ++
    (if f.start = f.stop then
      "byte 0x" ++ String.ofList (hexDigits 2 f.byte.toNat) ++ " in position " ++ toString f.start
    else "bytes in position " ++ toString f.start ++ "-" ++ toString f.stop) ++
    ": " ++ f.cause.message

namespace Utf8

/-- A character that is not complete: its first byte and the offset of that, how many bytes are
missing, between which bounds the next one has to lie, and the bits read so far. -/
structure Partial where
  byte : UInt8
  start : Nat
  missing : Nat
  lo : UInt8
  hi : UInt8
  bits : Nat

/-- The character that the byte `b` begins. -/
def lead? (b : UInt8) (start : Nat) : Option Partial :=
  -- the bounds of the second byte leave out codes that would be too long, surrogates, and what lies
  -- beyond the last code point
  let n := b.toNat
  if 0xc2 ≤ n && n ≤ 0xdf then some ⟨b, start, 1, 0x80, 0xbf, n - 0xc0⟩
  else if n = 0xe0 then some ⟨b, start, 2, 0xa0, 0xbf, 0⟩
  else if n = 0xed then some ⟨b, start, 2, 0x80, 0x9f, 0xd⟩
  else if 0xe1 ≤ n && n ≤ 0xef then some ⟨b, start, 2, 0x80, 0xbf, n - 0xe0⟩
  else if n = 0xf0 then some ⟨b, start, 3, 0x90, 0xbf, 0⟩
  else if 0xf1 ≤ n && n ≤ 0xf3 then some ⟨b, start, 3, 0x80, 0xbf, n - 0xf0⟩
  else if n = 0xf4 then some ⟨b, start, 3, 0x80, 0x8f, 4⟩
  else none

/-- Decodes bytes from offset `i` on. -/
def decodeFrom : Nat → Option Partial → List UInt8 → Except Utf8Fault (List Char)
  | _, none, [] => .ok []
  | i, some p, [] => .error ⟨p.byte, p.start, i - 1, .endsEarly⟩
  | i, none, b :: bs =>
    if b < 0x80 then (decodeFrom (i + 1) none bs).map (Char.ofNat b.toNat :: ·)
    else match lead? b i with
      | none => .error ⟨b, i, i, .badStart⟩
      | some p => decodeFrom (i + 1) (some p) bs
  | i, some p, b :: bs =>
    if p.lo ≤ b && b ≤ p.hi then
      let bits := p.bits * 64 + (b.toNat - 0x80)
      if p.missing ≤ 1 then (decodeFrom (i + 1) none bs).map (Char.ofNat bits :: ·)
      else decodeFrom (i + 1)
        (some { p with missing := p.missing - 1, lo := 0x80, hi := 0xbf, bits := bits }) bs
    else .error ⟨p.byte, p.start, i - 1, .badContinuation⟩

def decode (bytes : List UInt8) : Except Utf8Fault (List Char) := decodeFrom 0 none bytes

/-- Drops a byte order mark, even one that breaks off where the bytes end. -/
def dropMark : List UInt8 → List UInt8
  | [0xef] => []
  | [0xef, 0xbb] => []
  | 0xef :: 0xbb :: 0xbf :: rest => rest
  | bytes => bytes

/-- Turns carriage returns, with or without a line feed behind, into line feeds. -/
def unifyLines : List Char → List Char
  | [] => []
  | '\r' :: '\n' :: cs => '\n' :: unifyLines cs
  | c :: cs => (if c = '\r' then '\n' else c) :: unifyLines cs

def fileText (bytes : List UInt8) : Except Utf8Fault (List Char) := (decode bytes).map unifyLines

def grammarText (bytes : List UInt8) : Except Utf8Fault (List Char) := fileText (dropMark bytes)

end Utf8

end Packrat
