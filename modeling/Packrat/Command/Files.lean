import Packrat.Fault

/-!
# `Packrat/Command/Files.lean` — the files that a command reads

A command sees its files as a function from paths to their bytes. The path of a grammar file is
brought into a normal form first; the path of a text to parse is taken as it is.
-/

set_option autoImplicit false

namespace Packrat.Command

inductive FileFault where
  | notFound
  | denied
  | notDirectory
  | isDirectory
  | nameTooLong
deriving DecidableEq, Repr

def FileFault.details : FileFault → Nat × String × String
  | notFound => (2, "FileNotFoundError", "No such file or directory")
  | denied => (13, "PermissionError", "Permission denied")
  | notDirectory => (20, "NotADirectoryError", "Not a directory")
  | isDirectory => (21, "IsADirectoryError", "Is a directory")
  | nameTooLong => (36, "OSError", "File name too long")

def FileFault.message (f : FileFault) (path : String) : String :=
  let (number, kind, wording) := f.details
  kind ++ " [Errno " ++ toString number ++ "] " ++ wording ++ ": " ++ quoted path

/-- The bytes of each file. -/
abbrev Files := String → Except FileFault (List UInt8)

def pathNames (cs : List Char) : List (List Char) :=
  ((cs.splitOn '/').filter fun name => !name.isEmpty && name != ['.'])

/-- The slashes that a path begins with: two stay two, and more than two count as one. -/
def pathRoot : List Char → List Char
  | '/' :: '/' :: '/' :: _ => ['/']
  | '/' :: '/' :: _ => ['/', '/']
  | '/' :: _ => ['/']
  | _ => []

/-- A path without empty names and without names that stand for the same place. -/
def normalPath (path : String) : String :=
  let cs := path.toList
  let normal := pathRoot cs ++ ['/'].intercalate (pathNames cs)
  if normal.isEmpty then "." else String.ofList normal

/-- What keeps a command from doing its work. -/
inductive Trouble where
  | file (f : FileFault) (path : String)
  | fault (f : Fault)
deriving Repr

/-- The bytes of a file. No file has a NUL in its name. -/
def Files.read (files : Files) (path : String) : Except Trouble (List UInt8) :=
  if path.toList.contains '\x00' then .error (.fault .nulInFileName)
  else (files path).mapError (.file · path)

def Files.text (files : Files) (path : String) : Except Trouble (List Char) :=
  (files.read path).bind fun bytes => (Utf8.fileText bytes).mapError (.fault ∘ .decode)

/-- What a command works with: the files, the character names that grammar text may use, and the
library that reads patterns. -/
structure Host where
  files : Files
  names : CharacterNames
  lib : Regex.Library

def Host.ruleSet (host : Host) (path : String) : Except Trouble RuleSet := do
  let bytes ← host.files.read (normalPath path)
  let src ← (Utf8.grammarText bytes).mapError (.fault ∘ .decode)
  (RuleSet.read host.names src).mapError (.fault ∘ .read)

end Packrat.Command
