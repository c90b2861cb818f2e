import Packrat.Command.Files
import Packrat.Command.Request
import Packrat.Program
import Packrat.Tree.Printer

/-!
# `Packrat/Command/Run.lean` — carrying out a request

`run` maps a host and a command line to a report: what is printed on the two outputs, and how the
program ends. Status 0 means success, 1 that a text was parsed but not matched as a whole, and 2
that the command could not do its work.
-/

set_option autoImplicit false

namespace Packrat.Command

/-- How the program ends: with a status, or on a fault that it does not handle. -/
inductive Ending where
  | status (n : Nat)
  | unhandled (f : Fault)
deriving Repr

/-- What a command prints on its two outputs, piece by piece and each with a line end behind it, and
how it ends. -/
structure Report where
  stdout : List String
  stderr : List String
  ending : Ending
deriving Repr

def printed (pieces : List String) : String := String.join (pieces.map (· ++ "\n"))

/-- What is printed only if details were asked for. -/
def note (debug : Bool) (line : String) : List String := if debug then [line] else []

/-- The report of a command that stops at a fault, after it has printed `log`. -/
def Trouble.report (log : List String) : Trouble → Report
  | .file f path => ⟨[], log ++ ["[ERROR] " ++ f.message path], .status 2⟩
  | .fault f =>
    match f.kind with
    | .grammar | .quotation => ⟨[], log ++ ["[SYNTAX ERROR]", f.message], .status 2⟩
    | .depth => ⟨[], log ++ ["[ERROR] " ++ f.message], .status 2⟩
    | .value | .bytes | .item => ⟨[], log, .unhandled f⟩

def Stop.report : Stop → Report
  | .help p => ⟨p.lines, [], .status 0⟩
  | .misuse p f => ⟨[], p.usage ++ [p.program ++ ": error: " ++ f.message], .status 2⟩

/-- A start rule as reports show it. -/
def shownStart (start : Option String) : String := start.getD "None"

/-! ## Grammar files -/

def readyLine (s : RuleSet) : String :=
  "[DEBUG] RuleSpec ready | rules=" ++ toString s.size ++ " alts=" ++ toString s.alternativeCount ++
    " start=" ++ shownStart s.start

def compiledLine (g : Grammar) : String :=
  "[DEBUG] Grammar compiled | rules=" ++ toString g.size

/-- The grammar of a rule set, if all its references lead somewhere. -/
def checkedGrammar (lib : Regex.Library) (s : RuleSet) : Except Fault Grammar :=
  (Grammar.ofRuleSet lib s).bind fun g => (g.check.mapError .check).map fun _ => g

/-- Goes on with the grammar in a file. What was printed on the way is handed on. -/
def withGrammar (host : Host) (path : String) (debug : Bool)
    (go : List String → RuleSet → Grammar → Report) : Report :=
  match host.ruleSet path with
  | .error t => t.report []
  | .ok s =>
    let log := note debug (readyLine s)
    match checkedGrammar host.lib s with
    | .error f => (Trouble.fault f).report log
    | .ok g => go (log ++ note debug (compiledLine g)) s g

/-! ## The commands -/

def checkedLine (g : Grammar) : String :=
  "[CHECK OK] rules=" ++ toString g.size ++ " alts=" ++ toString g.alternativeCount ++
    " start=" ++ shownStart g.start

/-- The rules of a rule set as they are written down, printed only if details were asked for. -/
def rulesNote (debug : Bool) (s : RuleSet) : Except PrintFault (List String) :=
  if debug then s.print.map fun text => ["\n[RULES]\n" ++ text] else .ok []

def check (host : Host) (path : String) (debug : Bool) : Report :=
  withGrammar host path debug fun log s g =>
    match rulesNote debug s with
    | .error f => ⟨[], log, .unhandled (.print f)⟩
    | .ok rules => ⟨[checkedLine g], log ++ rules, .status 0⟩

def Files.sourceText (files : Files) : Source → Except Trouble (List Char)
  | .text s => .ok s.toList
  | .file path => files.text path

section Outcome

variable {text : Text}

def doneLine (c : Cursor text) : String :=
  "[DEBUG] parse done | end=" ++ toString c.pos.val ++ "/" ++ toString text.size ++
    " matches=" ++ toString c.memo.log.size ++
    " mismatches=" ++ toString c.memo.mismatches.size ++
    " started=" ++ toString c.memo.started.size

/-- Whether the text was matched, and else how far and what failed furthest. -/
def statusLines (start : Option String) (c : Cursor text) : List String :=
  if c.matched then
    ["[MATCH] rule=" ++ shownStart start ++ " end=" ++ toString c.pos.val]
  else
    ("[PARTIAL] rule=" ++ shownStart start ++ " end=" ++ toString c.pos.val ++
      " of " ++ toString text.size) ::
    match c.memo.furthestMismatch? with
    | none => []
    | some s => ["  furthest failure: '" ++ s.name ++ "' at " ++ toString s.start]

/-- The tree as JSON or as an outline, each with the text that a node covers. -/
def treeLines (json : Bool) (c : Cursor text) : List String :=
  match c.tree? with
  | none => []
  | some n =>
    [if json then (n.toJson (some text)).pretty else n.outline (some text) Node.standardIndent]

end Outcome

def parse (host : Host) (r : ParseRequest) : Report :=
  withGrammar host r.grammar r.debug fun log _ g =>
    match host.files.sourceText r.source with
    | .error t => t.report log
    | .ok cs =>
      match g.parse cs.toArray r.start r.limit with
      | .error f => (Trouble.fault (.run f)).report log
      | .ok c =>
        ⟨statusLines (r.start.or g.start) c ++ (if r.tree then treeLines r.json c else []),
          log ++ note r.debug (doneLine c), .status (if c.matched then 0 else 1)⟩

def Request.run (host : Host) : Request → Report
  | .check path debug => Command.check host path debug
  | .parse r => Command.parse host r

def run (host : Host) (argv : List String) : Report :=
  match Request.read argv with
  | .error stop => stop.report
  | .ok request => request.run host

/-- The paths whose bytes a request may ask for. -/
def Request.paths : Request → List String
  | .check path _ => [normalPath path]
  | .parse r =>
    normalPath r.grammar :: match r.source with
      | .text _ => []
      | .file path => [path]

end Packrat.Command
