import Packrat.Tree.Basic

/-!
# `Packrat/Tree/Forest.lean` — growing a tree from completed matches

Matches arrive in the order in which they were completed: the rules inside a rule before the rule
itself. A forest holds the trees built so far, side by side over one stretch of the text, and each
arriving match is put where its stretch fits:

* over the last tree, if it spans exactly that;
* to the right of everything, if it begins there or beyond; a gap is text that no rule records;
* over everything, if it reaches at least as far on both sides;
* over the last few trees, if they lie inside it and no earlier one reaches into it.

A match that fits nowhere belongs to an attempt that was given up, and is left out.
-/

set_option autoImplicit false

namespace Packrat

/-- Trees side by side over the stretch `[start, stop)`, the last one first. -/
structure Forest where
  start : Int
  stop : Int
  trees : List Node
deriving Repr

namespace Forest

def single (m : Completed) : Forest := ⟨m.start, m.stop, [.leaf m]⟩

/-- The match `m` as a tree over the trees `inner`, which are given the last one first. -/
def above (m : Completed) (inner : List Node) : Node := ⟨m.name, m.start, m.stop, inner.reverse⟩

/-- Splits the trees, given the last one first, into those that a match from `start` to `stop`
gathers under itself and those that stay. There must be something to gather. -/
def gather? (trees : List Node) (start stop : Int) : Option (List Node × List Node) :=
  let inner := trees.takeWhile (start ≤ ·.start)
  let kept := trees.dropWhile (start ≤ ·.start)
  match inner with
  | [] => none
  | last :: _ =>
    -- the match may leave room at either edge, but the last tree must not end behind it, nor a tree
    -- that stays reach into it
    if stop < last.stop then none
    else match kept with
      | [] => some (inner, [])
      | n :: ns => if start < n.stop then none else some (inner, n :: ns)

/-- Puts the next completed match into the forest. -/
def add (f : Forest) (m : Completed) : Forest :=
  match f.trees with
  | last :: before =>
    if last.start = m.start ∧ last.stop = m.stop then
      { f with trees := above m [last] :: before }
    else place f m
  | [] => place f m
where
  /-- The cases after the first, which do not look at the last tree's stretch. -/
  place (f : Forest) (m : Completed) : Forest :=
    if f.stop ≤ m.start then
      { f with stop := m.stop, trees := .leaf m :: f.trees }
    else if m.start ≤ f.start ∧ f.stop ≤ m.stop then
      ⟨m.start, m.stop, [above m f.trees]⟩
    else match gather? f.trees m.start m.stop with
      | some (inner, kept) => { f with stop := max f.stop m.stop, trees := above m inner :: kept }
      | none => f

/-- The whole forest under a node without a name. -/
def root (f : Forest) : Node := ⟨none, f.start, f.stop, f.trees.reverse⟩

end Forest

/-- The tree of a list of completed matches: the root of the forest that they grow into, without
unnamed nodes that add nothing. There is no tree without a match. -/
def Node.ofCompleted? : List Completed → Option Node
  | [] => none
  | m :: ms => some (ms.foldl Forest.add (.single m)).root.unwrap

end Packrat
