import Packrat.Text.Quoted

/-!
# `Packrat/Command/Manual.lean` — the manual of the command line

There is a page for the program as a whole and one for each of its commands. A page says how the
program is called, and which options it has there.
-/

set_option autoImplicit false

namespace Packrat.Command

inductive Page where
  | overview
  | check
  | parse
deriving DecidableEq, Repr

inductive Setting where
  | help
  | text
  | input
  | start
  | json
  | tree
  | limit
  | debug
deriving DecidableEq, Repr

namespace Setting

/-- The name that turns the tree off. -/
def noTree : String := "--no-tree"

def names : Setting → List String
  | help => ["-h", "--help"]
  | text => ["--text"]
  | input => ["--input"]
  | start => ["-s", "--start"]
  | json => ["--json"]
  | tree => ["--tree", noTree]
  | limit => ["--max-depth"]
  | debug => ["-D", "--debug"]

def takesValue : Setting → Bool
  | text | input | start | limit => true
  | help | json | tree | debug => false

/-- What messages call an option. -/
def label (s : Setting) : String := "/".intercalate s.names

end Setting

namespace Page

def settings : Page → List Setting
  | overview => [.help]
  | check => [.help, .debug]
  | parse => [.help, .text, .input, .start, .json, .tree, .limit, .debug]

def names (p : Page) : List (String × Setting) :=
  p.settings.flatMap fun s => s.names.map (·, s)

def setting? (p : Page) (name : String) : Option Setting :=
  (p.names.find? (·.1 == name)).map (·.2)

/-- What is typed to get to what a page describes. -/
def program : Page → String
  | overview => "seedc"
  | check => "seedc check"
  | parse => "seedc parse"

def usage : Page → List String
  | overview => ["usage: seedc [-h] \x7bcheck,parse\x7d ..."]
  | check => ["usage: seedc check [-h] [-D] file"]
  | parse =>
    ["usage: seedc parse [-h] (--text TEXT | --input INPUT) [-s START] [--json]",
     "                   [--tree | --no-tree] [--max-depth MAX_DEPTH] [-D]",
     "                   file"]

def details : Page → List String
  | overview =>
    ["seedparse grammar CLI",
     "",
     "positional arguments:",
     "  \x7bcheck,parse\x7d",
     "    check        load and compile a grammar, verify references",
     "    parse        parse text and print the parse tree",
     "",
     "options:",
     "  -h, --help     show this help message and exit"]
  | check =>
    ["positional arguments:",
     "  file         grammar file",
     "",
     "options:",
     "  -h, --help   show this help message and exit",
     "  -D, --debug  print stage details to stderr"]
  | parse =>
    ["positional arguments:",
     "  file                  grammar file",
     "",
     "options:",
     "  -h, --help            show this help message and exit",
     "  --text TEXT           input text",
     "  --input INPUT         input text file",
     "  -s START, --start START",
     "                        start rule (default: %start or first rule)",
     "  --json                print the tree as JSON",
     "  --tree, --no-tree     print the parse tree (--no-tree: status line only)",
     "  --max-depth MAX_DEPTH",
     "                        rule nesting limit",
     "  -D, --debug           print stage details to stderr"]

def lines (p : Page) : List String := p.usage ++ "" :: p.details

end Page

end Packrat.Command
