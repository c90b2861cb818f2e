import Packrat.Text.Quoted

/-!
# `Packrat/Json.lean` — JSON values

Trees are printed as JSON, and a rule author may hand in any JSON value where a term of a rule
belongs. `pretty` prints a value over several lines in ASCII; `shown` is the one-line form that
messages use for a value they complain about. Numbers are kept as they are written.
-/

set_option autoImplicit false

namespace Packrat

/-- A JSON value; `number` keeps the digits as written. -/
inductive Json where
  | null
  | bool (b : Bool)
  | number (digits : String)
  | text (s : String)
  | list (items : List Json)
  | object (fields : List (String × Json))
deriving Repr, Inhabited

namespace Json

def ofInt (i : Int) : Json := .number (toString i)

/-- The integer that a value is, if it is one. -/
def toInt? : Json → Option Int
  | .number digits => digits.toInt?
  | _ => none

mutual

def shown : Json → String
  | .null => "None"
  | .bool true => "True"
  | .bool false => "False"
  | .number digits => digits
  | .text s => quoted s
  | .list items => "[" ++ ", ".intercalate (shownItems items) ++ "]"
  | .object fields => "\x7b" ++ ", ".intercalate (shownFields fields) ++ "\x7d"

def shownItems : List Json → List String
  | [] => []
  | v :: vs => v.shown :: shownItems vs

def shownFields : List (String × Json) → List String
  | [] => []
  | (k, v) :: fs => (quoted k ++ ": " ++ v.shown) :: shownFields fs

end

/-- Two 16-bit units that stand for a code point beyond the basic plane. -/
def surrogates (n : Nat) : List Nat :=
  [0xd800 + (n - 0x10000) / 0x400, 0xdc00 + (n - 0x10000) % 0x400]

/-- How a character is written in an ASCII-only JSON string. -/
def asciiChar (c : Char) : List Char :=
  if c = '"' ∨ c = '\\' then ['\\', c]
  else if c = '\n' then ['\\', 'n']
  else if c = '\r' then ['\\', 'r']
  else if c = '\t' then ['\\', 't']
  else if c = '\x08' then ['\\', 'b']
  else if c = '\x0c' then ['\\', 'f']
  else if ' ' ≤ c ∧ c ≤ '~' then [c]
  else
    let units := if c.toNat < 0x10000 then [c.toNat] else surrogates c.toNat
    units.flatMap fun u => '\\' :: 'u' :: hexDigits 4 u

/-- A string between double quotes, in ASCII only. -/
def asciiString (s : String) : String :=
  "\"" ++ String.ofList (s.toList.flatMap asciiChar) ++ "\""

/-- Brackets around items that stand each on a line of their own, indented to `depth + 1`. -/
def bracketed (depth : Nat) (opening closing : String) : List String → String
  | [] => opening ++ closing
  | items =>
    let indent (n : Nat) := String.ofList (List.replicate (2 * n) ' ')
    opening ++ "\n" ++ ",\n".intercalate (items.map (indent (depth + 1) ++ ·)) ++
      "\n" ++ indent depth ++ closing

mutual

/-- A value over several lines, each level indented by two blanks more. -/
def prettyAt (depth : Nat) : Json → String
  | .null => "null"
  | .bool b => if b then "true" else "false"
  | .number digits => digits
  | .text s => asciiString s
  | .list items => bracketed depth "[" "]" (prettyItems (depth + 1) items)
  | .object fields => bracketed depth "\x7b" "\x7d" (prettyFields (depth + 1) fields)

def prettyItems (depth : Nat) : List Json → List String
  | [] => []
  | v :: vs => v.prettyAt depth :: prettyItems depth vs

def prettyFields (depth : Nat) : List (String × Json) → List String
  | [] => []
  | (k, v) :: fs => (asciiString k ++ ": " ++ v.prettyAt depth) :: prettyFields depth fs

end

def pretty (v : Json) : String := v.prettyAt 0

end Json

end Packrat
