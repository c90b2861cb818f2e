import Packrat.Compile
import Packrat.Cursor
import Packrat.RuleSet.Printer
import Packrat.RuleSet.Reader
import Packrat.Text.Utf8

/-!
# `Packrat/Fault.lean` — everything that can go wrong

One type for the faults of all parts, with their message and with the kind that callers tell apart:
whether the grammar is at fault, a text, a value that was handed in, or the depth of a run.
-/

set_option autoImplicit false

namespace Packrat

inductive Fault where
  | read (f : ReadFault)
  | define (f : DefineFault)
  | print (f : PrintFault)
  | compile (f : CompileFault)
  | check (f : Grammar.CheckFault)
  | run (f : RunFault)
  | decode (f : Utf8Fault)
  /-- The name of a file holds a NUL. -/
  | nulInFileName
deriving Repr

/-- What a fault is about. -/
inductive FaultKind where
  /-- The grammar, in its text or its rules. -/
  | grammar
  /-- A quoted text inside grammar text. -/
  | quotation
  /-- A value that does not do where it is used. -/
  | value
  | bytes
  /-- Something that is no item or no term at all. -/
  | item
  | depth
deriving DecidableEq, Repr

def PatternFault.kind : PatternFault → FaultKind
  | invalid _ (.misuse _) => .value
  | _ => .grammar

namespace Fault

def message : Fault → String
  | read f => f.message
  | define f => f.message
  | print f => f.message
  | compile f => f.message
  | check f => f.message
  | run f => f.message
  | decode f => f.message
  | nulInFileName => "embedded null byte"

def kind : Fault → FaultKind
  | read (.quotation .nulCharacter) => .value
  | read (.quotation _) => .quotation
  | read _ => .grammar
  | define _ => .grammar
  | print _ => .item
  | compile (.pattern f) => f.kind
  | compile _ => .grammar
  | check _ => .grammar
  | run (.badPosition ..) => .value
  | run (.tooDeep ..) => .depth
  | run (.foreignTerm _) => .item
  | run _ => .grammar
  | decode _ => .bytes
  | nulInFileName => .value

end Fault

end Packrat
