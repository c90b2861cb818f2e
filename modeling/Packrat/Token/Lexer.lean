import Packrat.Text.Quoted
import Packrat.Token.Basic

/-!
# `Packrat/Token/Lexer.lean` — splitting grammar text into tokens

`lexeme?` reads one piece off the front of a text: a token or something that separates tokens.
The first form that fits wins, in this order: blanks, a line end, a `//` comment, a `#` comment, a
closed `/* */` comment, the signs, a pattern between slashes with its flags, a quoted text, a name.
A comment that is opened with `/*` and never closed is therefore read as a pattern, if it is one.
`scan` repeats that up to the end of the text and keeps track of the place.
-/

set_option autoImplicit false

namespace Packrat

/-- A piece of grammar text, and what follows it. Without a kind it separates tokens. -/
structure Lexeme where
  kind : Option TokenKind
  text : List Char
  rest : List Char
deriving DecidableEq, Repr

namespace Lexeme

def isBlank (c : Char) : Bool := c == ' ' || c == '\t' || c == '\x0c'

def isNameStart (c : Char) : Bool :=
  ('A' ≤ c && c ≤ 'Z') || ('a' ≤ c && c ≤ 'z') || c == '_'

def isNameChar (c : Char) : Bool := isNameStart c || ('0' ≤ c && c ≤ '9')

def isFlag (c : Char) : Bool :=
  c == 'i' || c == 'm' || c == 's' || c == 'x' || c == 'A'

/-- Reads up to the next `close`, which is included. A backslash and the character behind it
belong together, whatever that character is; a bare line end is not allowed. -/
def delimited? (close : Char) : List Char → Option (List Char × List Char)
  | [] => none
  | c :: cs =>
    if c = close then some ([c], cs)
    else if c = '\\' then
      match cs with
      | [] => none
      | d :: ds => (delimited? close ds).map fun (inner, rest) => (c :: d :: inner, rest)
    else if c = '\n' then none
    else (delimited? close cs).map fun (inner, rest) => (c :: inner, rest)

/-- Reads up to the end of a block comment, which is included. -/
def blockComment? : List Char → Option (List Char × List Char)
  | [] => none
  | c :: cs =>
    if c = '*' ∧ cs.head? = some '/' then some (['*', '/'], cs.tail)
    else (blockComment? cs).map fun (inner, rest) => (c :: inner, rest)

/-- The character `c` and the longest run of characters with property `p` behind it, as a piece of
kind `k`. -/
def run (k : Option TokenKind) (p : Char → Bool) (c : Char) (cs : List Char) : Lexeme :=
  ⟨k, c :: cs.takeWhile p, cs.dropWhile p⟩

/-- A pattern between slashes; `cs` is what follows the first of them. -/
def regex? (cs : List Char) : Option Lexeme :=
  (delimited? '/' cs).map fun (body, rest) =>
    ⟨some .regex, '/' :: body ++ rest.takeWhile isFlag, rest.dropWhile isFlag⟩

/-- A comment or a pattern; `cs` is what follows a slash. -/
def slash? (cs : List Char) : Option Lexeme :=
  if cs.head? = some '/' then some (run none (· != '\n') '/' cs)
  else if cs.head? = some '*' then
    match blockComment? cs.tail with
    | some (inner, rest) => some ⟨none, '/' :: '*' :: inner, rest⟩
    | none => regex? cs
  else regex? cs

/-- A colon, alone or as the beginning of `::=`; `cs` is what follows it. -/
def colon (cs : List Char) : Lexeme :=
  match cs with
  | ':' :: '=' :: rest => ⟨some .assign, [':', ':', '='], rest⟩
  | _ => ⟨some .colon, [':'], cs⟩

/-- A quoted text; `cs` is what follows the opening quote `q`. -/
def quotation? (k : TokenKind) (q : Char) (cs : List Char) : Option Lexeme :=
  (delimited? q cs).map fun (body, rest) => ⟨some k, q :: body, rest⟩

end Lexeme

open Lexeme in
/-- The piece at the front of a text, unless no form fits there. -/
def lexeme? : List Char → Option Lexeme
  | [] => none
  | c :: cs =>
    if isBlank c then some (run none isBlank c cs)
    else if c = '\n' then some ⟨none, [c], cs⟩
    else if c = '/' then slash? cs
    else if c = '#' then some (run none (· != '\n') c cs)
    else if c = '%' then some ⟨some .percent, [c], cs⟩
    else if c = ':' then some (colon cs)
    else if c = ';' then some ⟨some .semi, [c], cs⟩
    else if c = '|' then some ⟨some .bar, [c], cs⟩
    else if c = '"' then quotation? .doubleQuoted c cs
    else if c = '\x27' then quotation? .singleQuoted c cs
    else if isNameStart c then some (run (some .ident) isNameChar c cs)
    else none

namespace Lexeme

theorem delimited?_append {close : Char} {cs inner rest : List Char}
    (h : delimited? close cs = some (inner, rest)) : inner ++ rest = cs := by
  fun_induction delimited? close cs generalizing inner rest with
  | case1 => simp at h
  | case2 => cases h; rfl
  | case3 => simp at h
  | case4 _ d ds ih =>
    obtain ⟨⟨i, r⟩, hi, he⟩ := Option.map_eq_some_iff.1 h
    cases he
    simp [ih hi]
  | case5 => simp at h
  | case6 c cs _ _ _ ih =>
    obtain ⟨⟨i, r⟩, hi, he⟩ := Option.map_eq_some_iff.1 h
    cases he
    simp [ih hi]

theorem blockComment?_append {cs inner rest : List Char}
    (h : blockComment? cs = some (inner, rest)) : inner ++ rest = cs := by
  fun_induction blockComment? cs generalizing inner rest with
  | case1 => simp at h
  | case2 c cs hc =>
    obtain ⟨rfl, hs⟩ := hc
    cases h
    cases cs with
    | nil => simp at hs
    | cons d ds => simpa using hs.symm
  | case3 c cs _ ih =>
    obtain ⟨⟨i, r⟩, hi, he⟩ := Option.map_eq_some_iff.1 h
    cases he
    simp [ih hi]

/-- A piece that is the text from `c :: cs` on up to some point behind `c`. -/
def Splits (l : Lexeme) (c : Char) (cs : List Char) : Prop :=
  ∃ inner, l.text = c :: inner ∧ inner ++ l.rest = cs

/-- Whatever is read is a piece of the text `c :: cs`. -/
def Reads (o : Option Lexeme) (c : Char) (cs : List Char) : Prop := ∀ l, o = some l → l.Splits c cs

theorem Reads.some {l : Lexeme} {c : Char} {cs : List Char} (h : l.Splits c cs) :
    Reads (some l) c cs := by
  intro l' he
  cases he
  exact h

theorem Reads.none (c : Char) (cs : List Char) : Reads none c cs := by
  intro l he
  cases he

theorem Reads.ite {p : Prop} [Decidable p] {a b : Option Lexeme} {c : Char} {cs : List Char}
    (ha : p → Reads a c cs) (hb : Reads b c cs) : Reads (if p then a else b) c cs := by
  by_cases hp : p
  · rw [if_pos hp]; exact ha hp
  · rw [if_neg hp]; exact hb

theorem run_splits (k : Option TokenKind) (p : Char → Bool) (c : Char) (cs : List Char) :
    (run k p c cs).Splits c cs :=
  ⟨_, rfl, List.takeWhile_append_dropWhile⟩

theorem single_splits (k : Option TokenKind) (c : Char) (cs : List Char) :
    (Lexeme.mk k [c] cs).Splits c cs :=
  ⟨[], rfl, rfl⟩

theorem regex?_reads (cs : List Char) : Reads (regex? cs) '/' cs := by
  intro l h
  obtain ⟨⟨body, rest⟩, hd, rfl⟩ := Option.map_eq_some_iff.1 h
  exact ⟨_, rfl, by simp [delimited?_append hd]⟩

theorem slash?_reads (cs : List Char) : Reads (slash? cs) '/' cs := by
  refine .ite (fun _ => .some (run_splits ..)) (.ite (fun hs => ?_) (regex?_reads cs))
  split
  · rename_i inner rest hb
    refine .some ⟨_, rfl, ?_⟩
    cases cs with
    | nil => simp at hs
    | cons d ds =>
      simp only [List.head?_cons, Option.some.injEq] at hs
      simp [hs, blockComment?_append hb]
  · exact regex?_reads cs

theorem colon_splits (cs : List Char) : (colon cs).Splits ':' cs := by
  unfold colon
  split
  · exact ⟨_, rfl, rfl⟩
  · exact single_splits ..

theorem quotation?_reads (k : TokenKind) (q : Char) (cs : List Char) :
    Reads (quotation? k q cs) q cs := by
  intro l h
  obtain ⟨⟨body, rest⟩, hd, rfl⟩ := Option.map_eq_some_iff.1 h
  exact ⟨_, rfl, delimited?_append hd⟩

/-- A piece begins with the first character of the text that it was read from, and together with
what follows it makes up that text. -/
theorem lexeme?_reads (c : Char) (cs : List Char) : Reads (lexeme? (c :: cs)) c cs := by
  unfold lexeme?
  refine .ite (fun _ => .some (run_splits ..)) <| .ite (fun _ => .some (single_splits ..)) <|
    .ite (fun hc => hc ▸ slash?_reads cs) <| .ite (fun _ => .some (run_splits ..)) <|
    .ite (fun _ => .some (single_splits ..)) <| .ite (fun hc => hc ▸ .some (colon_splits cs)) <|
    .ite (fun _ => .some (single_splits ..)) <| .ite (fun _ => .some (single_splits ..)) <|
    .ite (fun _ => quotation?_reads _ c cs) <| .ite (fun _ => quotation?_reads _ c cs) <|
    .ite (fun _ => .some (run_splits ..)) (.none c cs)

/-- Reading a piece makes the text shorter. -/
theorem rest_length_lt {cs : List Char} {l : Lexeme} (h : lexeme? cs = some l) :
    l.rest.length < cs.length := by
  cases cs with
  | nil => simp [lexeme?] at h
  | cons c cs =>
    obtain ⟨inner, _, hr⟩ := lexeme?_reads c cs l h
    have := congrArg List.length hr
    simp only [List.length_append] at this
    simp only [List.length_cons]
    omega

end Lexeme

/-- Grammar text holds a character where no piece can begin. -/
structure ScanFault where
  char : Char
  mark : Mark
deriving DecidableEq, Repr

def ScanFault.message (f : ScanFault) : String :=
  f.mark.report ("Unexpected char " ++ quoted (String.singleton f.char))

/-- The tokens of grammar text in order, and the end mark behind them. -/
structure Tokens where
  list : List Token
  eof : Token
deriving DecidableEq, Repr

namespace Tokens

def all (t : Tokens) : List Token := t.list ++ [t.eof]

/-- Puts a piece that was read at the place `p` in front, if it is a token. -/
def cons (p : Place) (l : Lexeme) (t : Tokens) : Tokens :=
  match l.kind with
  | none => t
  | some k => { t with list := ⟨k, l.text, p⟩ :: t.list }

end Tokens

/-- The tokens of `cs`, a rest of the text `src` that begins at the place `p`. -/
def scanFrom (src : List Char) (p : Place) (cs : List Char) : Except ScanFault Tokens :=
  match cs with
  | [] => .ok ⟨[], ⟨.eof, [], p⟩⟩
  | c :: tail =>
    match _ : lexeme? (c :: tail) with
    | none => .error ⟨c, .of src p⟩
    | some l => (scanFrom src (p.after l.text) l.rest).map (.cons p l)
termination_by cs.length
decreasing_by exact Lexeme.rest_length_lt ‹_›

def scan (src : List Char) : Except ScanFault Tokens := scanFrom src .first src

end Packrat
