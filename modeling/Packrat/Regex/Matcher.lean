import Packrat.Regex.Basic
import Packrat.Regex.Ways
import Packrat.Text.Basic
import Packrat.Text.Fold

/-!
# `Packrat/Regex/Matcher.lean` — what a regular expression matches

`run` maps the ways that lead up to an expression to those that lead through it: the order of
preference is that of the earlier part first, and each state comes once. Inside a lookbehind the
text is read from right to left.

`Parsed.matchEnd?` runs a whole pattern at an offset; it sees the text before the offset, but its
match begins there.
-/

set_option autoImplicit false

namespace Packrat

namespace Regex

/-- What a run looks at besides its state. -/
structure Scene where
  text : Text
  ascii : Bool
  names : List (String × Nat)
  /-- The groups that some reference asks for. -/
  referenced : List Nat

namespace Scene

def wordAt (v : Scene) (ascii : Bool) (i : Nat) : Bool :=
  match v.text[i]? with
  | some c => CharClass.word.contains ascii c.toNat
  | none => false

/-- Whether just one side of position `i` is a word character. -/
def isWordEdge (v : Scene) (ascii : Bool) (i : Nat) : Bool :=
  (i != 0 && v.wordAt ascii (i - 1)) != v.wordAt ascii i

def holds (v : Scene) (i : Nat) : Anchor → Bool
  | .textStart => i == 0
  | .textEnd => i == v.text.size
  | .lineStart => i == 0 || v.text[i - 1]? == some '\n'
  | .lineEnd => i == v.text.size || v.text[i]? == some '\n'
  | .finalLineEnd =>
    i == v.text.size || (i + 1 == v.text.size && v.text[i]? == some '\n')
  | .wordEdge ascii => v.isWordEdge ascii i
  | .noWordEdge ascii => !v.isWordEdge ascii i

/-- Whether two code points are the same, or variants of each other if case is disregarded. -/
def sameChar (v : Scene) (fold : Bool) (a b : Nat) : Bool :=
  a == b || (fold && (caseVariants v.ascii a).contains b)

end Scene

def Member.contains (n : Nat) : Member → Bool
  | .char code => n == code
  | .range lo hi => lo ≤ n && n ≤ hi
  | .named k ascii positive => k.contains ascii n == positive

def accepts (v : Scene) (positive : Bool) (members : List Member) (fold : Bool) (n : Nat) : Bool :=
  -- without regard to case, one of the variants suffices
  let forms := if fold then caseVariants v.ascii n else [n]
  (members.any fun m => forms.any (m.contains ·)) == positive

/-- Reads one character with property `p`: the one behind the position, or with `back` the one
before it. -/
def readChar (v : Scene) (back : Bool) (p : Nat → Bool) (s : State) : Option State :=
  if back then
    match s.pos with
    | 0 => none
    | i + 1 =>
      match v.text[i]? with
      | some c => if p c.toNat then some { s with pos := i } else none
      | none => none
  else
    match v.text[s.pos]? with
    | some c => if p c.toNat then some { s with pos := s.pos + 1 } else none
    | none => none

/-- Whether the stretch `[i, i + n)` reads as the stretch `[j, j + n)`. -/
def sameStretch (v : Scene) (fold : Bool) (i j : Nat) : Nat → Bool
  | 0 => true
  | n + 1 =>
    match v.text[i]?, v.text[j]? with
    | some a, some b =>
      v.sameChar fold a.toNat b.toNat && sameStretch v fold (i + 1) (j + 1) n
    | _, _ => false

/-- Reads again what a group has captured. -/
def readAgain (v : Scene) (back fold : Bool) (group : Nat) (s : State) : Option State :=
  match s.captured? group with
  -- a group that holds nothing cannot be read
  | none => none
  | some (i, j) =>
    let n := j - i
    if back then
      if n ≤ s.pos ∧ sameStretch v fold i (s.pos - n) n then some { s with pos := s.pos - n }
      else none
    else if s.pos + n ≤ v.text.size ∧ sameStretch v fold i s.pos n then
      some { s with pos := s.pos + n }
    else none

/-! ## Repetition -/

/-- How often the body of a repetition is run, and whether it takes the fewest rounds first. -/
structure Rounds where
  least : Nat
  most : Option Nat
  lazy : Bool

/-- A repetition on its way: how many rounds are done, as far as that matters; whether one more is
possible; and the state. -/
abbrev Stage := Nat × Bool × State

namespace Rounds

/-- Whether a round is possible behind `done` rounds of which the last one `moved`. -/
def canGoOn (r : Rounds) (done : Nat) (moved : Bool) : Bool :=
  -- a round that has changed nothing is followed by another only to make up the `least` ones
  (moved || done < r.least) && r.most.all (done < ·)

/-- The stage that a repetition has reached. -/
def stage (r : Rounds) (done : Nat) (moved : Bool) (s : State) : Stage :=
  -- behind the `least` rounds their number matters only if it is bounded
  (if r.most.isSome then done else min done r.least, r.canGoOn done moved, s)

/-- The ways to run the body again and again, then those of `rest`. `seen` holds the stages that were
reached before, and `limit` bounds the rounds. -/
def run (r : Rounds) (body : State → Ways) :
    Nat → Nat → Bool → State → Std.HashSet Stage → (Std.HashSet Stage → Ways) → Ways
  | 0, _, _, _, seen, rest => rest seen
  | limit + 1, done, moved, s, seen, rest =>
    let leave (rest : Std.HashSet Stage → Ways) (seen : Std.HashSet Stage) : Ways :=
      if r.least ≤ done then .way s fun _ => rest seen else rest seen
    let again (rest : Std.HashSet Stage → Ways) (seen : Std.HashSet Stage) : Ways :=
      if r.canGoOn done moved then
        (body s).thread (fun t => r.run body limit (done + 1) (t != s) t) seen rest
      else rest seen
    -- a stage that was reached before has no ways of its own any more
    if seen.contains (r.stage done moved s) then rest seen
    else
      let seen := seen.insert (r.stage done moved s)
      if r.lazy then leave (again rest) seen else again (leave rest) seen

def ways (r : Rounds) (body : State → Ways) (limit : Nat) (s : State) : Ways :=
  r.run body limit 0 true s {} fun _ => .none

end Rounds

/-- Bounds the rounds of a repetition: behind the `least` ones each moves through the text, unless
it changes what the groups hold. -/
def roundLimit (v : Scene) (least : Nat) : Nat :=
  least + (v.text.size + 2) * (v.referenced.length + 2)

/-! ## Expressions -/

/-- The ways through an expression that the ways before it lead to; with `back`, from right to
left. -/
def run (v : Scene) : Expr → Bool → Ways → Ways
  | .empty, _, w => w
  | .char code fold, back, w => w.filterMap (readChar v back (v.sameChar fold code))
  | .dot newline, back, w => w.filterMap (readChar v back fun n => newline || n != 10)
  | .set positive members fold, back, w =>
    w.filterMap (readChar v back (accepts v positive members fold))
  | .anchor a, _, w => w.filterMap fun s => if v.holds s.pos a then some s else none
  | .seq a b, false, w => run v b false (run v a false w)
  | .seq a b, true, w => run v a true (run v b true w)
  | .alt a b, back, w =>
    (w.bind fun s => (run v a back (.one s)).append fun _ => run v b back (.one s)).distinct
  | .group index body, back, w =>
    if v.referenced.contains index then
      (w.bind fun s =>
        (run v body back (.one s)).filterMap fun t => t.capture index s.pos t.pos).distinct
    else run v body back w
  | .backref target fold, back, w =>
    (w.filterMap (readAgain v back fold (groupNumber v.names target))).distinct
  | .repeated mode least most body, back, w =>
    let rounds : Rounds := ⟨least, most, mode = .lazy⟩
    let ways := rounds.ways (fun s => run v body back (.one s)) (roundLimit v least)
    if mode = .possessive then (w.filterMap fun s => (ways s).first?).distinct
    else (w.bind ways).distinct
  | .atomic body, back, w => (w.filterMap fun s => (run v body back (.one s)).first?).distinct
  | .look behind true body, _, w =>
    (w.filterMap fun s =>
      (run v body behind (.one s)).first?.map fun t => { t with pos := s.pos }).distinct
  | .look behind false body, _, w =>
    w.filterMap fun s =>
      match run v body behind (.one s) with
      | .none => some s
      | .way _ _ => none

/-- The end of the match of a pattern that begins at offset `i`. -/
def Parsed.matchEnd? (r : Parsed) (text : Text) (i : Nat) : Option Nat :=
  let scene : Scene :=
    ⟨text, r.ascii, r.names, r.expr.references.map (groupNumber r.names)⟩
  (run scene r.expr false (.one ⟨i, []⟩)).first?.map (·.pos)

end Regex

end Packrat
