import Std.Data.HashSet

/-!
# `Packrat/Regex/Ways.lean` — the ways in which something matches

An expression may match in several ways, of which one is preferred to the next. `Ways` lists the
states that they lead to, in that order. Only as much of the list is worked out as is looked at.

What follows a state depends on the state alone, so a state that comes up again can be left out:
`Ways.distinct` keeps the first of each. This bounds the work by the number of states, where trying
all combinations could take exponentially long.
-/

set_option autoImplicit false

namespace Packrat

namespace Regex

/-- A position, and the stretches `[i, j)` that groups have captured, ascending by group. -/
structure State where
  pos : Nat
  captures : List (Nat × Nat × Nat)
deriving DecidableEq, Repr, Hashable

namespace State

def captured? (s : State) (group : Nat) : Option (Nat × Nat) := s.captures.lookup group

/-- Captures with that of `group` set to the stretch `[i, j)`. -/
def setCapture (group i j : Nat) : List (Nat × Nat × Nat) → List (Nat × Nat × Nat)
  | [] => [(group, i, j)]
  | c :: cs =>
    if c.1 < group then c :: setCapture group i j cs
    else if c.1 = group then (group, i, j) :: cs
    else (group, i, j) :: c :: cs

def capture (s : State) (group i j : Nat) : State :=
  { s with captures := setCapture group (min i j) (max i j) s.captures }

end State

/-- States in order of preference, worked out one by one. -/
inductive Ways where
  | none
  | way (s : State) (others : Unit → Ways)

namespace Ways

def one (s : State) : Ways := way s fun _ => none

def first? : Ways → Option State
  | none => .none
  | way s _ => some s

def toList : Ways → List State
  | none => []
  | way s others => s :: (others ()).toList

def append (w : Ways) (v : Unit → Ways) : Ways :=
  match w with
  | none => v ()
  | way s others => way s fun _ => (others ()).append v

/-- Goes on from each way by `f`. -/
def bind (w : Ways) (f : State → Ways) : Ways :=
  match w with
  | none => none
  | way s others => (f s).append fun _ => (others ()).bind f

/-- Goes on from each way by a step, which may refuse it. -/
def filterMap (w : Ways) (f : State → Option State) : Ways :=
  match w with
  | none => none
  | way s others =>
    match f s with
    | some t => way t fun _ => (others ()).filterMap f
    | .none => (others ()).filterMap f

/-- The ways that do not lead to a state in `seen`, nor to the state of an earlier way. -/
def distinctFrom (seen : Std.HashSet State) : Ways → Ways
  | none => none
  | way s others =>
    if seen.contains s then (others ()).distinctFrom seen
    else way s fun _ => (others ()).distinctFrom (seen.insert s)

def distinct (w : Ways) : Ways := w.distinctFrom {}

/-- Goes on from each way by `go`, which takes what is known so far and hands on what is known
then; `rest` comes behind them all. -/
def thread {α : Type} (go : State → α → (α → Ways) → Ways) : Ways → α → (α → Ways) → Ways
  | none, a, rest => rest a
  | way s others, a, rest => go s a fun a => (others ()).thread go a rest

/-! ## The list of ways -/

@[simp] theorem toList_none : none.toList = [] := rfl

@[simp] theorem toList_one (s : State) : (one s).toList = [s] := rfl

theorem head?_toList (w : Ways) : w.toList.head? = w.first? := by
  cases w <;> rfl

@[simp] theorem toList_append (w : Ways) (v : Unit → Ways) :
    (w.append v).toList = w.toList ++ (v ()).toList := by
  induction w with
  | none => rfl
  | way s others ih => simp [append, toList, ih]

@[simp] theorem toList_bind (w : Ways) (f : State → Ways) :
    (w.bind f).toList = w.toList.flatMap fun s => (f s).toList := by
  induction w with
  | none => rfl
  | way s others ih => simp [bind, toList, ih]

@[simp] theorem toList_filterMap (w : Ways) (f : State → Option State) :
    (w.filterMap f).toList = w.toList.filterMap f := by
  induction w with
  | none => rfl
  | way s others ih =>
    cases h : f s <;> simp [filterMap, toList, h, ih]

theorem mem_toList_distinctFrom (seen : Std.HashSet State) (w : Ways) (t : State) :
    t ∈ (w.distinctFrom seen).toList ↔ t ∈ w.toList ∧ t ∉ seen := by
  induction w generalizing seen with
  | none => simp [distinctFrom, toList]
  | way s others ih =>
    rw [distinctFrom]
    split <;> rename_i h
    · grind [toList]
    · simp only [toList, List.mem_cons, ih, Std.HashSet.mem_insert]
      grind

@[simp] theorem mem_toList_distinct (w : Ways) (t : State) :
    t ∈ w.distinct.toList ↔ t ∈ w.toList := by
  simp [distinct, mem_toList_distinctFrom]

@[simp] theorem first?_distinct (w : Ways) : w.distinct.first? = w.first? := by
  cases w with
  | none => rfl
  | way s others => simp [distinct, distinctFrom, first?]

end Ways

end Regex

end Packrat
