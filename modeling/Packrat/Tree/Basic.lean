/-!
# `Packrat/Tree/Basic.lean` — parse trees

A node is a rule name over a stretch of the text, with the nodes of the rules inside it in order.
A node without a name only holds its children together: it stands for "these, one after the
other" where no single rule covers all of them. Offsets are integers, because a tree can be built
from any list of matches.
-/

set_option autoImplicit false

namespace Packrat

/-- A match of a rule over the stretch `[start, stop)`, as the tree sees it. -/
structure Completed where
  name : Option String
  start : Int
  stop : Int
deriving DecidableEq, Repr

structure Node where
  name : Option String
  start : Int
  stop : Int
  children : List Node
deriving Repr, Inhabited

namespace Node

def leaf (m : Completed) : Node := ⟨m.name, m.start, m.stop, []⟩

def completed (n : Node) : Completed := ⟨n.name, n.start, n.stop⟩

def isLeaf (n : Node) : Bool := n.children.isEmpty

mutual

/-- The nodes of a tree, each before its children. -/
def preorder : Node → List Node
  | ⟨name, start, stop, children⟩ => ⟨name, start, stop, children⟩ :: preorderAll children

/-- The nodes of several trees, one tree after the other. -/
def preorderAll : List Node → List Node
  | [] => []
  | n :: ns => n.preorder ++ preorderAll ns

end

/-- Drops unnamed nodes from the root down, as long as they span exactly their only child. -/
def unwrap : Node → Node
  | ⟨none, start, stop, [child]⟩ =>
    if child.start = start ∧ child.stop = stop then child.unwrap
    else ⟨none, start, stop, [child]⟩
  | n => n

end Node

end Packrat
