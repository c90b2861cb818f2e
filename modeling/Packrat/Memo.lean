import Std.Data.TreeMap
import Std.Data.TreeSet

/-!
# `Packrat/Memo.lean` — what a run remembers

Three tables, all about rules at offsets: the matches found, in the order in which they were found
and without repetition; the rules that failed at an offset for good; and the rules that were begun
at an offset. One rule may match several stretches that begin at one offset; the longest of them is
kept at hand.

Spots are ordered by offset first and by name second, which is the order in which the tables list
them.
-/

set_option autoImplicit false

namespace Packrat

/-- A rule at an offset. -/
structure Spot where
  name : String
  start : Int
deriving DecidableEq, Repr

namespace Spot

/-- By offset, then by name. -/
def order : Spot → Spot → Ordering := compareLex (compareOn start) (compareOn name)

instance : Std.TransCmp order := inferInstanceAs (Std.TransCmp (compareLex _ _))

instance : Std.LawfulEqCmp order where
  compare_self := Std.ReflCmp.compare_self
  eq_of_compare {a b} h := by
    obtain ⟨hs, hn⟩ := Ordering.then_eq_eq.1 h
    cases a
    cases b
    simp only [compareOn, Std.LawfulEqCmp.compare_eq_iff_eq] at hs hn
    simp_all

end Spot

/-- A rule that matched the stretch `[start, stop)`. -/
structure Match where
  name : String
  start : Int
  stop : Int
deriving DecidableEq, Repr

namespace Match

def spot (m : Match) : Spot := ⟨m.name, m.start⟩

/-- By offset, then by name, then by end. -/
def order : Match → Match → Ordering :=
  compareLex (compareOn start) (compareLex (compareOn name) (compareOn stop))

instance : Std.TransCmp order := inferInstanceAs (Std.TransCmp (compareLex _ _))

instance : Std.LawfulEqCmp order where
  compare_self := Std.ReflCmp.compare_self
  eq_of_compare {a b} h := by
    obtain ⟨hs, hr⟩ := Ordering.then_eq_eq.1 h
    obtain ⟨hn, he⟩ := Ordering.then_eq_eq.1 hr
    cases a
    cases b
    simp only [compareOn, Std.LawfulEqCmp.compare_eq_iff_eq] at hs hn he
    simp_all

end Match

/-- A set of spots, listed by offset and name. -/
abbrev Spots := Std.TreeSet Spot Spot.order

/-- What a run remembers. -/
structure Memo where
  /-- The matches in the order in which they were recorded. -/
  log : Array Match := #[]
  /-- The same matches, to look them up. -/
  recorded : Std.TreeSet Match Match.order := ∅
  /-- The greatest end of the matches at a spot. -/
  longest : Std.TreeMap Spot Int Spot.order := ∅
  mismatches : Spots := ∅
  started : Spots := ∅

namespace Memo

/-- Records a match; nothing changes if it is recorded already. -/
def saveMatch (m : Memo) (x : Match) : Memo :=
  if m.recorded.contains x then m
  else { m with
    log := m.log.push x
    recorded := m.recorded.insert x
    -- a match that ends before the text begins never counts as the longest
    longest :=
      if m.longest.getD x.spot (-1) < x.stop then m.longest.insert x.spot x.stop else m.longest }

def saveMismatch (m : Memo) (s : Spot) : Memo := { m with mismatches := m.mismatches.insert s }

def saveStarted (m : Memo) (s : Spot) : Memo := { m with started := m.started.insert s }

def hasMatch (m : Memo) (x : Match) : Bool := m.recorded.contains x

def isMismatch (m : Memo) (s : Spot) : Bool := m.mismatches.contains s

def isStarted (m : Memo) (s : Spot) : Bool := m.started.contains s

/-- Records a match, and tells whether it is new. -/
def addMatch (m : Memo) (x : Match) : Bool × Memo := (!m.hasMatch x, m.saveMatch x)

/-- Records a failure, and tells whether it is new. -/
def addMismatch (m : Memo) (s : Spot) : Bool × Memo := (!m.isMismatch s, m.saveMismatch s)

/-- Records a beginning, and tells whether it is new. -/
def addStarted (m : Memo) (s : Spot) : Bool × Memo := (!m.isStarted s, m.saveStarted s)

/-- The greatest recorded end of a rule at an offset. -/
def longest? (m : Memo) (s : Spot) : Option Int := m.longest[s]?

/-- The later of two spots; at one offset the one whose name comes first. -/
def later (best : Option Spot) (s : Spot) : Option Spot :=
  match best with
  | none => some s
  | some b => if b.start < s.start then some s else some b

/-- The failure furthest into the text; of several at that offset the one whose name comes first. -/
def furthestMismatch? (m : Memo) : Option Spot := m.mismatches.foldl later none

end Memo

end Packrat
