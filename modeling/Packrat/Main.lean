import Packrat.Command.Run
import Packrat.Regex.Standard

/-!
# `Packrat/Main.lean` — the program

Reads the files that the command line asks for, and prints the report. Patterns are read by the
standard library; no character has a name.
-/

set_option autoImplicit false

open Packrat Command

/-- The number of a system error. Some calls report it negated, modulo the word size. -/
def errorNumber (code : UInt32) : UInt32 := min code (0 - code)

/-- The file fault that an error of the system stands for. -/
def faultOf : IO.Error → FileFault
  | .noFileOrDirectory .. => .notFound
  | .permissionDenied .. => .denied
  | .inappropriateType _ code _ => if errorNumber code = 20 then .notDirectory else .isDirectory
  | .invalidArgument _ code _ => if errorNumber code = 36 then .nameTooLong else .notFound
  | _ => .notFound

def bytesOf (path : String) : IO (Except FileFault (List UInt8)) := do
  match ← (IO.FS.readBinFile path).toBaseIO with
  | .ok bytes => return .ok bytes.toList
  | .error e => return .error (faultOf e)

def main (argv : List String) : IO UInt32 := do
  let paths := match Request.read argv with
    | .ok request => request.paths
    | .error _ => []
  let found ← paths.mapM fun path => return (path, ← bytesOf path)
  let files : Files := fun path => (found.lookup path).getD (.error .notFound)
  let report := run ⟨files, .empty, .standard⟩ argv
  (← IO.getStdout).putStr (printed report.stdout)
  (← IO.getStderr).putStr (printed report.stderr)
  match report.ending with
  | .status n => return n.toUInt32
  | .unhandled f =>
    IO.eprintln f.message
    return 1
