import Packrat.Command.Manual
import Packrat.Text.Numeral

/-!
# `Packrat/Command/Options.lean` — operands and options

A word of a command line is an operand or names an option. Option names that begin with two dashes
may be cut short as long as one option is left, and the value of an option may be joined to it.
After a word of two dashes every word is an operand.

`steps` turns the words into the steps they ask for, in order. A word that cannot be read ends the
list with a fault, so that whatever comes before it still takes effect first.
-/

set_option autoImplicit false

namespace Packrat.Command

inductive UsageFault where
  | ambiguous (word : String) (names : List String)
  | ignoredValue (setting : Setting) (value : String)
  | missingValue (setting : Setting)
  | notInteger (setting : Setting) (value : String)
  | excluded (setting other : Setting)
  | missingOperand (name : String)
  | missingSource
  | unknownCommand (name : String)
  | unrecognized (words : List String)
deriving Repr

def Setting.complaint (s : Setting) (text : String) : String :=
  "argument " ++ s.label ++ ": " ++ text

def UsageFault.message : UsageFault → String
  | ambiguous word names =>
    "ambiguous option: " ++ word ++ " could match " ++ ", ".intercalate names
  | ignoredValue s value => s.complaint ("ignored explicit argument " ++ quoted value)
  | missingValue s => s.complaint "expected one argument"
  | notInteger s value => s.complaint ("invalid int value: " ++ quoted value)
  | excluded s other => s.complaint ("not allowed with argument " ++ other.label)
  | missingOperand name => "the following arguments are required: " ++ name
  | missingSource => "one of the arguments --text --input is required"
  | unknownCommand name =>
    "argument cmd: invalid choice: " ++ quoted name ++ " (choose from 'check', 'parse')"
  | unrecognized words => "unrecognized arguments: " ++ " ".intercalate words

/-! ## Words -/

/-- How a word is read. An option stands under its full name, with what is joined to it, behind an
equals sign or directly behind a name of one letter. -/
inductive Word where
  | operand (w : String)
  /-- Two dashes: from here on there are only operands. -/
  | dashes
  | option (name : String) (s : Setting) (joined : Option (List Char))
  /-- A word that looks like an option and is none. -/
  | stranger (w : String)
deriving Repr

/-- Digits alone, or a point with at least one digit behind it. -/
def isUnsignedNumber (cs : List Char) : Bool :=
  match cs.dropWhile Numeral.isDecimal with
  | [] => !cs.isEmpty
  | '.' :: rest => !rest.isEmpty && rest.all Numeral.isDecimal
  | _ => false

/-- A text without the line feed at its end. -/
def withoutFinalNewline (cs : List Char) : List Char :=
  if cs.getLast? = some '\n' then cs.dropLast else cs

/-- Whether a word behind its dash makes a negative number, which is no option. -/
def looksNegative (cs : List Char) : Bool :=
  isUnsignedNumber cs || isUnsignedNumber (withoutFinalNewline cs)

/-- A word up to its first equals sign, and what stands behind that. -/
def splitJoined (cs : List Char) : String × Option (List Char) :=
  (String.ofList (cs.takeWhile (· != '=')),
   match cs.dropWhile (· != '=') with
    | _ :: joined => some joined
    | [] => none)

namespace Page

/-- The options that a word may stand for. Behind two dashes it is the beginning of a name that
counts, up to an equals sign; behind one dash it is one letter. -/
def candidates (p : Page) (cs : List Char) : List (String × Setting × Option (List Char)) :=
  match cs with
  | '-' :: '-' :: _ =>
    let (start, joined) := splitJoined cs
    (p.names.filter (start.toList.isPrefixOf ·.1.toList)).map fun (name, s) => (name, s, joined)
  | '-' :: c :: joined =>
    (p.names.filter (·.1 == String.ofList ['-', c])).map fun (name, s) => (name, s, some joined)
  | _ => []

/-- Reads a word that begins with a dash, which `rest` follows. -/
def readDashed (p : Page) (rest : List Char) : Except UsageFault Word :=
  let cs := '-' :: rest
  let w := String.ofList cs
  if rest.isEmpty then .ok (.operand w)
  else
    let (name, joined) := splitJoined cs
    -- a name in full wins over names that only begin in the same way
    match p.setting? name with
    | some s => .ok (.option name s joined)
    | none =>
      match p.candidates cs with
      | [] => .ok (if looksNegative rest || rest.contains ' ' then .operand w else .stranger w)
      | [(name, s, joined)] => .ok (.option name s joined)
      | several => .error (.ambiguous w (several.map (·.1)))

def readWord (p : Page) (w : String) : Except UsageFault Word :=
  match w.toList with
  | '-' :: rest => p.readDashed rest
  | _ => .ok (.operand w)

def readWords (p : Page) : List String → Except UsageFault (List Word)
  | [] => .ok []
  | w :: ws =>
    if w = "--" then .ok (.dashes :: ws.map .operand)
    else do
      let word ← p.readWord w
      let words ← p.readWords ws
      return word :: words

end Page

/-! ## Steps -/

/-- An option that is given, under the name it was given by. The value is empty where it takes
none. -/
structure Given where
  name : String
  setting : Setting
  value : String
deriving Repr

/-- The options of one word: those that are complete, and an option at the end whose value is the
next word. -/
structure Bundle where
  given : List Given
  wanting : Option (String × Setting)
deriving Repr

def Bundle.single (name : String) (s : Setting) : Bundle :=
  if s.takesValue then ⟨[], some (name, s)⟩ else ⟨[⟨name, s, ""⟩], none⟩

/-- The options of a word, in which `joined` is joined to an option: its value, or behind an option
of one letter without a value the letters of further options. -/
def Page.unbundle (p : Page) (name : String) (s : Setting) (joined : List Char) :
    Except UsageFault Bundle :=
  if s.takesValue then .ok ⟨[⟨name, s, String.ofList joined⟩], none⟩
  else match joined with
  | [] => .error (.ignoredValue s "")
  | c :: cs =>
    let next := String.ofList ['-', c]
    match if name.length = 2 then p.setting? next else none with
    | none => .error (.ignoredValue s (String.ofList (c :: cs)))
    | some t =>
      (if cs.isEmpty then .ok (.single next t) else p.unbundle next t cs).map fun b =>
        { b with given := ⟨name, s, ""⟩ :: b.given }

def Page.bundle (p : Page) (name : String) (s : Setting) :
    Option (List Char) → Except UsageFault Bundle
  | none => .ok (.single name s)
  | some joined => p.unbundle name s joined

inductive Step where
  /-- The operand that the command works on. -/
  | operand (w : String)
  | given (g : Given)
  /-- A word that is of no use to the command. -/
  | stray (w : String)
  | fault (f : UsageFault)
deriving Repr

/-- The steps of a command line. As long as `wanting` holds, the command has not got its operand
yet. -/
def Page.steps (p : Page) : Bool → List Word → List Step
  | _, [] => []
  -- two dashes next to the operand are of no consequence
  | true, .operand w :: .dashes :: ws => .operand w :: p.steps false ws
  | true, .operand w :: ws => .operand w :: p.steps false ws
  | false, .operand w :: ws => .stray w :: p.steps false ws
  | true, .dashes :: ws => p.steps true ws
  | false, .dashes :: ws => .stray "--" :: p.steps false ws
  | wanting, .stranger w :: ws => .stray w :: p.steps wanting ws
  | wanting, .option name s joined :: ws =>
    match p.bundle name s joined with
    | .error f => [.fault f]
    | .ok b =>
      let now := b.given.map .given
      match b.wanting, ws with
      | none, ws => now ++ p.steps wanting ws
      | some (name, s), .operand value :: ws =>
        now ++ .given ⟨name, s, value⟩ :: p.steps wanting ws
      | some (_, s), _ => [.fault (.missingValue s)]

end Packrat.Command
