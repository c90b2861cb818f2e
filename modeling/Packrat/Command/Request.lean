import Packrat.Command.Options
import Packrat.Cursor

/-!
# `Packrat/Command/Request.lean` — what a command line requests

`Request.read` reads a command line. It stops early where help is asked for and where the command
line is not in order, whichever comes first.
-/

set_option autoImplicit false

namespace Packrat.Command

/-- Why no request comes out of a command line: help was asked for, or something is wrong. The page
is the one to be shown. -/
inductive Stop where
  | help (p : Page)
  | misuse (p : Page) (f : UsageFault)
deriving Repr

/-- What the steps of a command line have set so far. -/
structure Settings where
  operand : Option String := none
  text : Option String := none
  input : Option String := none
  start : Option String := none
  json : Bool := false
  tree : Bool := true
  limit : Int := standardLimit
  debug : Bool := false
  strays : List String := []
deriving Repr

namespace Settings

/-- The value of an option; two dashes joined to an option stand for no value. -/
def valueOf (g : Given) : Option String := if g.value = "--" then none else some g.value

def give (s : Settings) (p : Page) (g : Given) : Except Stop Settings :=
  match g.setting with
  | .help => .error (.help p)
  -- the text and the file to take it from exclude each other
  | .text =>
    if s.input.isSome then .error (.misuse p (.excluded .text .input))
    else .ok { s with text := some ((valueOf g).getD "") }
  | .input =>
    if s.text.isSome then .error (.misuse p (.excluded .input .text))
    else .ok { s with input := some g.value }
  | .start => .ok { s with start := some g.value }
  | .json => .ok { s with json := true }
  | .tree => .ok { s with tree := g.name != Setting.noTree }
  | .limit =>
    match valueOf g with
    | none => .ok { s with limit := standardLimit }
    | some value =>
      match Numeral.integer? value with
      | some i => .ok { s with limit := i }
      | none => .error (.misuse p (.notInteger .limit value))
  | .debug => .ok { s with debug := true }

/-- Takes a step. -/
def step (s : Settings) (p : Page) : Step → Except Stop Settings
  | .operand w => .ok { s with operand := some w }
  | .given g => s.give p g
  | .stray w => .ok { s with strays := s.strays ++ [w] }
  | .fault f => .error (.misuse p f)

def read (p : Page) (ws : List String) : Except Stop Settings :=
  match p.readWords ws with
  | .error f => .error (.misuse p f)
  | .ok words => (p.steps true words).foldlM (fun s t => s.step p t) {}

end Settings

/-- Where the text to parse comes from. -/
inductive Source where
  | text (s : String)
  | file (path : String)
deriving Repr

structure ParseRequest where
  grammar : String
  source : Source
  start : Option String
  json : Bool
  tree : Bool
  limit : Int
  debug : Bool
deriving Repr

inductive Request where
  | check (grammar : String) (debug : Bool)
  | parse (r : ParseRequest)
deriving Repr

namespace Settings

/-- The operand, which every command needs. -/
def file (s : Settings) (p : Page) : Except Stop String :=
  match s.operand with
  | some path => .ok path
  | none => .error (.misuse p (.missingOperand "file"))

def source (s : Settings) (p : Page) : Except Stop Source :=
  match s.text, s.input with
  | some t, _ => .ok (.text t)
  | none, some path => .ok (.file path)
  | none, none => .error (.misuse p .missingSource)

end Settings

/-- The words before the name of a command, of which none is of use; the name, if there is one; and
the words behind it. -/
def splitCommand : List String → Except Stop (List String × Option String × List String)
  | [] => .ok ([], none, [])
  | "--" :: ws => .ok ([], if ws.isEmpty then none else some "--", ws)
  | w :: ws =>
    match Page.overview.readWord w with
    | .error f => .error (.misuse .overview f)
    | .ok (.operand name) => .ok ([], some name, ws)
    | .ok (.option name s joined) =>
      match Page.overview.bundle name s joined with
      | .error f => .error (.misuse .overview f)
      | .ok _ => .error (.help .overview)
    | .ok _ => (splitCommand ws).map fun (strays, rest) => (w :: strays, rest)

/-- Refuses words that nothing has taken. -/
def refuseStrays (strays : List String) : Except Stop Unit :=
  if strays.isEmpty then .ok () else .error (.misuse .overview (.unrecognized strays))

namespace Request

def readCheck (strays ws : List String) : Except Stop Request := do
  let s ← Settings.read .check ws
  let path ← s.file .check
  refuseStrays (strays ++ s.strays)
  return .check path s.debug

def readParse (strays ws : List String) : Except Stop Request := do
  let s ← Settings.read .parse ws
  let path ← s.file .parse
  let source ← s.source .parse
  refuseStrays (strays ++ s.strays)
  return .parse ⟨path, source, s.start, s.json, s.tree, s.limit, s.debug⟩

def read (argv : List String) : Except Stop Request := do
  match ← splitCommand argv with
  | (_, none, _) => throw (.misuse .overview (.missingOperand "cmd"))
  | (strays, some "check", ws) => readCheck strays ws
  | (strays, some "parse", ws) => readParse strays ws
  | (_, some name, _) => throw (.misuse .overview (.unknownCommand name))

end Request

end Packrat.Command
