import Packrat.RuleSet.Basic
import Packrat.Token.Lexer
import Packrat.Token.Quotation

/-!
# `Packrat/RuleSet/Reader.lean` — reading grammar text

Grammar text is a sequence of declarations, each closed by a semicolon: `%start NAME`, at most once,
or a rule name, a colon (or `::=`) and alternatives separated by bars. An alternative is one or more
names, quoted texts and patterns. Several declarations of one rule add up.
-/

set_option autoImplicit false

namespace Packrat

/-- Why grammar text is refused. The mark tells where. -/
inductive ReadFault where
  | scan (f : ScanFault)
  | expected (wanted got : TokenKind) (mark : Mark)
  | unknownDirective (name : String) (mark : Mark)
  | secondStart (mark : Mark)
  | noColon (rule : String) (got : TokenKind) (mark : Mark)
  | emptyAlternative (rule : String) (mark : Mark)
  /-- A declaration is not closed: what it declares, an example of it, the token that stands in
  place of the semicolon, and the end of the token before that. -/
  | noSemicolon (what sample : String) (got : Token) (excerpt : String)
  | quotation (f : QuotationFault)
deriving DecidableEq, Repr

def ReadFault.message : ReadFault → String
  | scan f => f.message
  | expected wanted got mark =>
    mark.report ("Expected " ++ wanted.label ++ ", got " ++ got.label)
  | unknownDirective name mark => mark.report ("Unknown directive %" ++ name)
  | secondStart mark => mark.report "Duplicate %start directive"
  | noColon rule got mark =>
    mark.report ("Expected ':' after rule name '" ++ rule ++ "', got " ++ got.label)
  | emptyAlternative rule mark => mark.report ("Empty alternative in rule '" ++ rule ++ "'")
  | noSemicolon what sample got excerpt =>
    "Missing ';' after " ++ what ++ " (semicolon is mandatory).\n- Found: " ++ got.kind.label ++
      " at " ++ toString got.place.line ++ ":" ++ toString got.place.column ++
      "\n- Example: " ++ sample ++ "\n\n" ++ excerpt
  | quotation f => f.message

namespace RuleSet

/-- The tokens still to be read, the end mark behind them, and the end of the token read last. -/
structure Rest where
  tokens : List Token
  eof : Token
  behind : Nat

namespace Rest

def next (r : Rest) : Token := r.tokens.headD r.eof

def tail (r : Rest) : Rest := { r with tokens := r.tokens.tail, behind := r.next.stop }

/-- The next token, which must be of kind `k`, and the rest behind it. -/
def take (src : List Char) (r : Rest) (k : TokenKind) : Except ReadFault (Token × Rest) :=
  if r.next.kind = k then .ok (r.next, r.tail)
  else .error (.expected k r.next.kind (.of src r.next.place))

/-- The rest behind the semicolon that closes a declaration. -/
def close (src : List Char) (r : Rest) (what sample : String) : Except ReadFault Rest :=
  if r.next.kind = .semi then .ok r.tail
  else .error (.noSemicolon what sample r.next (excerpt src r.behind))

end Rest

/-- The source and the flags of a pattern between slashes: it ends at the last slash. -/
def splitPattern (lexeme : List Char) : String × String :=
  let flags := (lexeme.reverse.takeWhile (· != '/')).reverse
  let body := (lexeme.reverse.dropWhile (· != '/')).reverse
  (String.ofList (body.drop 1).dropLast, String.ofList flags)

/-- The item that a token is; other tokens are none. -/
def item? (names : CharacterNames) (t : Token) : Except ReadFault (Option Item) :=
  match t.kind with
  | .ident => .ok (some (.reference t.text))
  | .doubleQuoted | .singleQuoted =>
    match Quotation.read names t.lexeme with
    | .ok text => .ok (some (.literal text))
    | .error f => .error (.quotation f)
  | .regex => .ok (some (.pattern (splitPattern t.lexeme).1 (splitPattern t.lexeme).2))
  | _ => .ok none

def readItems (names : CharacterNames) (eof : Token) :
    List Token → Nat → Except ReadFault (Sequence × Rest)
  | [], behind => .ok ([], ⟨[], eof, behind⟩)
  | t :: ts, behind =>
    match item? names t with
    | .error f => .error f
    | .ok none => .ok ([], ⟨t :: ts, eof, behind⟩)
    | .ok (some i) => (readItems names eof ts t.stop).map fun (items, rest) => (i :: items, rest)

def readSequence (names : CharacterNames) (src : List Char) (rule : String) (r : Rest) :
    Except ReadFault (Sequence × Rest) :=
  match readItems names r.eof r.tokens r.behind with
  | .error f => .error f
  | .ok ([], rest) => .error (.emptyAlternative rule (.of src rest.next.place))
  | .ok (items, rest) => .ok (items, rest)

theorem readItems_length {names : CharacterNames} {eof : Token} {ts : List Token} {behind : Nat}
    {items : Sequence} {rest : Rest} (h : readItems names eof ts behind = .ok (items, rest)) :
    items.length + rest.tokens.length = ts.length := by
  fun_induction readItems names eof ts behind generalizing items rest with
  | case1 => cases h; rfl
  | case2 => simp at h
  | case3 => cases h; simp
  | case4 t ts _ i _ ih =>
    cases hr : readItems names eof ts t.stop with
    | error f => simp [hr, Except.map] at h
    | ok p =>
      simp only [hr, Except.map, Except.ok.injEq] at h
      cases h
      have := ih hr
      simp only [List.length_cons]
      omega

theorem readSequence_length {names : CharacterNames} {src : List Char} {rule : String} {r : Rest}
    {items : Sequence} {rest : Rest} (h : readSequence names src rule r = .ok (items, rest)) :
    rest.tokens.length < r.tokens.length := by
  unfold readSequence at h
  split at h
  · simp at h
  · simp at h
  · rename_i is rs hne hr
    cases h
    have := readItems_length hr
    cases items with
    | nil => exact (hne rfl).elim
    | cons i is =>
      simp only [List.length_cons] at this
      omega

/-- Reads alternatives as long as a bar follows. -/
def readAlternatives (names : CharacterNames) (src : List Char) (rule : String) (r : Rest) :
    Except ReadFault (List Sequence × Rest) :=
  match _ : readSequence names src rule r with
  | .error f => .error f
  | .ok (items, rest) =>
    if rest.next.kind = .bar then
      (readAlternatives names src rule rest.tail).map fun (more, rest) => (items :: more, rest)
    else .ok ([items], rest)
termination_by r.tokens.length
decreasing_by
  have := readSequence_length ‹_›
  simp only [Rest.tail, List.length_tail]
  omega

inductive Declaration where
  | start (name : String)
  | rule (name : String) (alternatives : List Sequence)

/-- Reads a `%start` declaration; `started` says that there was one before. -/
def readStart (src : List Char) (started : Bool) (r : Rest) :
    Except ReadFault (Declaration × Rest) := do
  let (_, r) ← r.take src .percent
  let (word, r) ← r.take src .ident
  if word.lexeme ≠ ['s', 't', 'a', 'r', 't'] then
    throw (.unknownDirective word.text (.of src word.place))
  if started then throw (.secondStart (.of src word.place))
  let (name, r) ← r.take src .ident
  let r ← r.close src "%start directive" "%start exp ;"
  return (.start name.text, r)

def readRule (names : CharacterNames) (src : List Char) (r : Rest) :
    Except ReadFault (Declaration × Rest) := do
  let (name, r) ← r.take src .ident
  if r.next.kind ≠ .colon ∧ r.next.kind ≠ .assign then
    throw (.noColon name.text r.next.kind (.of src r.next.place))
  let (alternatives, r) ← readAlternatives names src name.text r.tail
  let r ← r.close src ("rule '" ++ name.text ++ "'") (name.text ++ " : ... ;")
  return (.rule name.text alternatives, r)

def readDeclaration (names : CharacterNames) (src : List Char) (started : Bool) (r : Rest) :
    Except ReadFault (Declaration × Rest) :=
  if r.next.kind = .percent then readStart src started r else readRule names src r

/-- Reads declarations up to the end; `limit` bounds their number. -/
def readDeclarations (names : CharacterNames) (src : List Char) :
    Nat → Bool → Rest → Except ReadFault (List Declaration)
  | 0, _, _ => .ok []
  | limit + 1, started, r =>
    match r.tokens with
    | [] => .ok []
    | _ :: _ =>
      match readDeclaration names src started r with
      | .error f => .error f
      | .ok (.start name, r) =>
        (readDeclarations names src limit true r).map (.start name :: ·)
      | .ok (.rule name alternatives, r) =>
        (readDeclarations names src limit started r).map (.rule name alternatives :: ·)

/-- The rule set that declarations make up, and the start rule that they name. -/
def collect (ds : List Declaration) : RuleSet × Option String :=
  ds.foldl
    (fun (s, start) d => match d with
      | .start name => (s, some name)
      | .rule name alternatives => (alternatives.foldl (fun s a => s.add name a) s, start))
    ({}, none)

/-- The rule set of a list of declarations. -/
def ofDeclarations (ds : List Declaration) : RuleSet :=
  let (s, start) := collect ds
  -- a declared start counts before the first rule
  { s with start := start.or s.start }

/-- The rule set that grammar text describes, with the character names that its escapes may use. -/
def read (names : CharacterNames) (src : List Char) : Except ReadFault RuleSet :=
  match scan src with
  | .error f => .error (.scan f)
  | .ok tokens =>
    (readDeclarations names src tokens.list.length false ⟨tokens.list, tokens.eof, 0⟩).map
      ofDeclarations

end RuleSet

end Packrat
