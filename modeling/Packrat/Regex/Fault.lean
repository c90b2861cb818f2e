import Packrat.Text.Numeral
import Packrat.Text.Quoted

/-!
# `Packrat/Regex/Fault.lean` — what can be wrong with a regular expression

An issue is reported with an offset into the source, and where the source has several lines also
with a line and a column.
-/

set_option autoImplicit false

namespace Packrat

namespace Regex

inductive Issue where
  | missing (c : Char)
  | unbalancedParenthesis
  | unterminatedSet
  | badRange
  | nothingToRepeat
  | multipleRepeat
  | unknownVerb
  | countTooBig
  | countsReversed
  | escapeAtEnd
  | badEscape (c : Char)
  | incompleteEscape (letter : Char) (digits : List Char)
  | badHexEscape (letter : Char) (digits : List Char)
  | missingGroupName
  | badGroupName
  | unknownGroup
  | badGroupReference
  | openGroup
  | unknownExtension
  | flagOnAndOff
  | noFlagsOff
deriving DecidableEq, Repr

def Issue.message : Issue → String
  | missing c => "missing " ++ c.toString
  | unbalancedParenthesis => "unbalanced parenthesis"
  | unterminatedSet => "unterminated character set"
  | badRange => "bad character range"
  | nothingToRepeat => "nothing to repeat"
  | multipleRepeat => "multiple repeat"
  | unknownVerb => "unknown verb"
  | countTooBig => "repeat count too big"
  | countsReversed => "min repeat greater than max repeat"
  | escapeAtEnd => "bad escape (end of pattern)"
  | badEscape c => "bad escape \\" ++ c.toString
  | incompleteEscape letter digits =>
    "incomplete escape \\" ++ letter.toString ++ String.ofList digits
  | badHexEscape letter digits => "bad hex escape \\" ++ letter.toString ++ String.ofList digits
  | missingGroupName => "missing group name"
  | badGroupName => "bad character in group name"
  | unknownGroup => "unknown group"
  | badGroupReference => "invalid group reference"
  | openGroup => "cannot refer to an open group"
  | unknownExtension => "unknown extension"
  | flagOnAndOff => "bad inline flags: flag turned on and off"
  | noFlagsOff => "bad inline flags: no flags after '-'"

inductive Fault where
  /-- Something is wrong at an offset of the source. -/
  | issue (what : Issue) (pos : Nat)
  /-- Both the ASCII and the Unicode switch are on. -/
  | conflictingFlags
  /-- The digits of a group's number are not all decimal. -/
  | notDecimal (digits : List Char)
  /-- A number has too many digits. -/
  | tooManyDigits (count : Nat)
deriving DecidableEq, Repr

/-- The text of an issue. The line and the column are given only where the source has several
lines. -/
def Fault.message (source : List Char) : Fault → String
  | conflictingFlags => "ASCII, LOCALE and UNICODE flags are mutually incompatible"
  | notDecimal digits =>
    "invalid literal for int() with base 10: " ++
      String.ofList ((quotedChars (digits.map .char)).take 200)
  | tooManyDigits count =>
    "Exceeds the limit (" ++ toString Numeral.mostDigits ++ " digits) for integer string " ++
      "conversion: value has " ++ toString count ++ " digits; use sys.set_int_max_str_digits() " ++
      "to increase the limit"
  | issue what pos =>
    let before := source.take pos
    let column := (before.reverse.takeWhile (· != '\n')).length + 1
    what.message ++ " at position " ++ toString pos ++
      if source.contains '\n' then
        " (line " ++ toString (before.count '\n' + 1) ++ ", column " ++ toString column ++ ")"
      else ""

/-- Whether a fault lies in the values that were handed in rather than in the form of the source. -/
def Fault.isMisuse : Fault → Bool
  | issue _ _ => false
  | _ => true

end Regex

end Packrat
