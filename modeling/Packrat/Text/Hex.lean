/-!
# `Packrat/Text/Hex.lean` — digits in base 8 and 16

Escapes write a code point as a fixed number of hexadecimal digits; `hexDigits` writes them and
`digitsValue` reads digits of any base up to sixteen back.
-/

set_option autoImplicit false

namespace Packrat

/-- The digit character of a value below sixteen. -/
def digitChar (d : Nat) : Char :=
  if d < 10 then Char.ofNat (48 + d) else Char.ofNat (87 + d)

/-- The last `width` hexadecimal digits of `n`, in lower case. -/
def hexDigits : Nat → Nat → List Char
  | 0, _ => []
  | width + 1, n => hexDigits width (n / 16) ++ [digitChar (n % 16)]

/-- The value of a hexadecimal digit of either case. -/
def digitValue? (c : Char) : Option Nat :=
  if '0' ≤ c ∧ c ≤ '9' then some (c.toNat - 48)
  else if 'a' ≤ c ∧ c ≤ 'f' then some (c.toNat - 87)
  else if 'A' ≤ c ∧ c ≤ 'F' then some (c.toNat - 55)
  else none

def isHexDigit (c : Char) : Bool := (digitValue? c).isSome

def isOctalDigit (c : Char) : Bool := '0' ≤ c && c ≤ '7'

/-- The number that the digits `cs` denote in `base`, the most significant first. -/
def digitsValue (base : Nat) (cs : List Char) : Nat :=
  cs.foldl (fun n c => n * base + (digitValue? c).getD 0) 0

/-- How many digits a hexadecimal escape takes behind its letter. -/
def hexWidth? : Char → Option Nat
  | 'x' => some 2
  | 'u' => some 4
  | 'U' => some 8
  | _ => none

end Packrat
