/-!
# `Packrat/Text/Ranges.lean` — sets of code points as ranges

Properties of characters are carried as closed ranges of code points in ascending order, so that
a look-up may stop at the first range that begins beyond the code point asked for.
-/

set_option autoImplicit false

namespace Packrat

/-- Closed ranges of code points, ascending and apart. -/
abbrev Ranges := List (Nat × Nat)

def Ranges.contains : Ranges → Nat → Bool
  | [], _ => false
  | (lo, hi) :: rest, n =>
    if n < lo then false else if n ≤ hi then true else Ranges.contains rest n

end Packrat
