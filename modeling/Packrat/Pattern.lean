import Packrat.Json
import Packrat.Regex.Library

/-!
# `Packrat/Pattern.lean` — pattern terms

A pattern term of a grammar is a regular expression with flag letters, read by the library at hand.
It has to match at the offset where the parser stands, so a pattern that is pinned to the start of
the whole text is refused.
-/

set_option autoImplicit false

namespace Packrat

inductive PatternFault where
  | unknownFlag (flag : Char) (source flags : String)
  | invalid (source : String) (why : Regex.Refusal)
  | flagsOnRegex (flags : String)
  | notText (v : Json)
  | pinned (source : String)
deriving Repr

def PatternFault.message : PatternFault → String
  | unknownFlag flag source flags =>
    "Unknown pattern flag " ++ quoted flag.toString ++ " in /" ++ source ++ "/" ++ flags
  | invalid source (.malformed message) => "Invalid pattern /" ++ source ++ "/: " ++ message
  -- what the library does not lay to the source is reported in its own words alone
  | invalid _ (.misuse message) => message
  | flagsOnRegex flags => "Flags " ++ quoted flags ++ " given for an already compiled pattern"
  | notText v => "Pattern term needs a string or compiled pattern, got " ++ v.shown
  | pinned source =>
    "Pattern /" ++ source ++ "/ is anchored to the start of the input and " ++
      "cannot match at a cursor offset"

namespace Pattern

/-- The switch that a flag letter stands for. -/
def flag? : Char → Option Regex.Flags
  | 'i' => some { ignoreCase := true }
  | 'm' => some { multiline := true }
  | 's' => some { dotAll := true }
  | 'x' => some { verbose := true }
  | 'A' => some { ascii := true }
  | _ => none

/-- The switches that flag letters stand for, or the first letter that stands for none. -/
def flags : List Char → Except Char Regex.Flags
  | [] => .ok {}
  | c :: cs =>
    match flag? c with
    | none => .error c
    | some f => (flags cs).map f.union

def isPinned (source : String) : Bool :=
  match source.toList with
  | '^' :: _ => true
  | '\\' :: 'A' :: _ => true
  | _ => false

/-- Accepts a regular expression as a pattern term. -/
def accept (r : Regex) : Except PatternFault Regex :=
  if isPinned r.source then .error (.pinned r.source) else .ok r

/-- The pattern term with this source and these flag letters. -/
def ofSource (lib : Regex.Library) (source flagLetters : String) : Except PatternFault Regex :=
  match flags flagLetters.toList with
  | .error c => .error (.unknownFlag c source flagLetters)
  | .ok f =>
    match lib.read source f with
    | .error why => .error (.invalid source why)
    | .ok r => accept r

/-- A regular expression that was read before, as a pattern term; it brings its own flags. -/
def ofRegex (r : Regex) (flagLetters : String) : Except PatternFault Regex :=
  if flagLetters.isEmpty then accept r else .error (.flagsOnRegex flagLetters)

end Pattern

end Packrat
