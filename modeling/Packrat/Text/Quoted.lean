import Packrat.Text.CodePoint
import Packrat.Text.Hex
import Packrat.Text.Printable

/-!
# `Packrat/Text/Quoted.lean` — texts in quotes

`quoted` writes a text between quotes so that it fits on a line and shows every character: the
single quote is used unless the text holds one and no double quote. The quote in use and the
backslash are written behind a backslash, line feed, carriage return and tab by a letter, and any
other character that is not printable by the digits of its code point, which is also how surrogates
are written.
-/

set_option autoImplicit false

namespace Packrat

/-- The quote that a text is written in. -/
def quoteFor (cs : CodePoints) : Char :=
  if cs.contains (.char '\x27') && !cs.contains (.char '"') then '"' else '\x27'

/-- The shortest of the escapes by code point: two, four or eight digits. -/
def codePointEscape (c : Char) : List Char :=
  if c.toNat < 0x100 then '\\' :: 'x' :: hexDigits 2 c.toNat
  else if c.toNat < 0x10000 then '\\' :: 'u' :: hexDigits 4 c.toNat
  else '\\' :: 'U' :: hexDigits 8 c.toNat

/-- How a character is written inside the quotes `q`. -/
def quotedChar (q c : Char) : List Char :=
  if c = q ∨ c = '\\' then ['\\', c]
  else if c = '\n' then ['\\', 'n']
  else if c = '\r' then ['\\', 'r']
  else if c = '\t' then ['\\', 't']
  else if isPrintable c then [c]
  else codePointEscape c

def quotedPoint (q : Char) : CodePoint → List Char
  | .char c => quotedChar q c
  | .surrogate n => '\\' :: 'u' :: hexDigits 4 (CodePoint.surrogate n).toNat

def quotedChars (cs : CodePoints) : List Char :=
  quoteFor cs :: cs.flatMap (quotedPoint (quoteFor cs)) ++ [quoteFor cs]

def quoted (s : CodePoints) : String := String.ofList (quotedChars s)

end Packrat
