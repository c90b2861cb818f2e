import Packrat.Cursor
import Packrat.Grammar

/-!
# `Packrat/Engine.lean` — matching rules against a text

A rule is tried by running all of its alternatives from one position. The longest match counts, and
as long as it grows the alternatives are run again: a rule that refers to itself where it began then
finds the match of the round before, its seed, and extends it. References are answered from the memo
where it has an answer, and a rule that is under way without a seed does not match.

References are nested at most as deep as the cursor allows. `resolve` counts the levels that are
left; everything below one reference is run with the references of the level below.
-/

set_option autoImplicit false

namespace Packrat

/-- How a step of a run ends: with a match, without one, or not at all. The cursor is where the step
left it. -/
inductive Result (text : Text) where
  | matched (c : Cursor text)
  | failed (c : Cursor text)
  | stopped (f : RunFault) (c : Cursor text)

namespace Result

variable {text : Text}

def cursor : Result text → Cursor text
  | matched c => c
  | failed c => c
  | stopped _ c => c

/-- A match that ends at offset `i`. -/
def matchedAt (c : Cursor text) (i : Int) : Result text :=
  match c.moveTo i with
  | .ok d => .matched d
  | .error f => .stopped f c

end Result

/-- How references are followed. -/
abbrev Follow (text : Text) := String → Cursor text → Result text

variable {text : Text}

def Term.run (follow : Follow text) (t : Term) (c : Cursor text) : Result text :=
  match t with
  | .literal s =>
    if text.startsAt s c.pos then .matchedAt c (c.pos + s.length) else .failed c
  | .pattern r =>
    match r.matchEnd? text c.pos with
    | some i => .matchedAt c i
    | none => .failed c
  | .reference name => follow name c
  | .foreignLiteral v => .stopped (.foreignTerm v) c
  | .foreign v => .stopped (.foreignTerm v) c

def runTerms (follow : Follow text) : List Term → Cursor text → Result text
  | [], c => .matched c
  | t :: ts, c =>
    match t.run follow c with
    | .matched d => runTerms follow ts d
    | r => r

/-- Matches an alternative. A match is recorded; without one the cursor goes back. -/
def Alternative.run (follow : Follow text) (a : Alternative) (c : Cursor text) : Result text :=
  match runTerms follow a.terms c with
  | .matched d => .matched (d.saveMatch ⟨a.owner, c.pos.val, d.pos.val⟩)
  | .failed d => .failed (d.backTo c.pos)
  | .stopped f d => .stopped f d

/-- How a round over the alternatives of a rule ends. `longest` is the furthest end of those that
matched, if any did. -/
inductive Round (text : Text) where
  | ended (longest : Option (Fin (text.size + 1))) (c : Cursor text)
  | stopped (f : RunFault) (c : Cursor text)

/-- The furthest end after one more match that ends at `p`; it is never before `start`. -/
def furthest (start : Fin (text.size + 1)) (longest : Option (Fin (text.size + 1)))
    (p : Fin (text.size + 1)) : Option (Fin (text.size + 1)) :=
  let q := longest.getD start
  some (if q < p then p else q)

/-- Runs every alternative from `start`. -/
def runRound (follow : Follow text) (start : Fin (text.size + 1)) :
    List Alternative → Option (Fin (text.size + 1)) → Cursor text → Round text
  | [], longest, c => .ended longest c
  | a :: rest, longest, c =>
    match a.run follow (c.backTo start) with
    | .matched d => runRound follow start rest (furthest start longest d.pos) d
    | .failed d => runRound follow start rest longest d
    | .stopped f d => .stopped f d

/-- Runs rounds as long as the longest match grows beyond `best`. -/
def grow (follow : Follow text) (r : Rule) (start best : Fin (text.size + 1)) (c : Cursor text) :
    Result text :=
  match runRound follow start r.alternatives none c with
  | .stopped f d => .stopped f d
  -- a round without a match means that the rule fails here for good
  | .ended none d => .failed ((d.saveMismatch ⟨r.name, start.val⟩).backTo start)
  | .ended (some longest) d =>
    if best < longest then grow follow r start longest d else .matched (d.backTo best)
termination_by text.size - best.val
decreasing_by omega

def Rule.run (follow : Follow text) (r : Rule) (c : Cursor text) : Result text :=
  grow follow r c.pos c.pos (c.saveStarted (c.spot r.name))

/-- Follows a reference with so many levels of nesting left: by what the memo knows, or else by
running the rule. -/
def resolve (g : Grammar) : Nat → Follow text
  | levels, name, c =>
    if c.memo.isMismatch (c.spot name) then .failed c
    else match c.memo.longest? (c.spot name) with
    | some i => .matchedAt c i
    | none =>
      -- a rule under way that has no seed yet does not match
      if c.memo.isStarted (c.spot name) then .failed c
      else match g.rule? name with
      | none => .stopped (.unknownRule name) c
      | some r =>
        match levels with
        | 0 => .stopped (.tooDeep name c.pos c.limit) c
        | levels + 1 => r.run (resolve g levels) c

/-- Follows references as deep as the cursor allows. -/
def follow (g : Grammar) : Follow text := fun name c => resolve g c.levels name c

end Packrat
