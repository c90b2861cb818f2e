import Packrat.Text.CharClass

/-!
# `Packrat/Text/Numeral.lean` — integers written by people

An integer is read with blanks around it, with a sign, with single underscores between its digits,
and with the decimal digits of any script. The digits are those of Unicode 14.0.
-/

set_option autoImplicit false

namespace Packrat

namespace Numeral

/-- Decimal digits that are no digits here, because they came with a later version. -/
def laterDigits : Ranges :=
  [(0x10d40, 0x10d49), (0x116d0, 0x116e3), (0x11bf0, 0x11bf9), (0x11de0, 0x11de9),
   (0x11f50, 0x11f59), (0x16130, 0x16139), (0x16d70, 0x16d79), (0x1ccf0, 0x1ccf9),
   (0x1e4f0, 0x1e4f9), (0x1e5f1, 0x1e5fa)]

def isDecimal (c : Char) : Bool :=
  decimalDigits.contains c.toNat && !laterDigits.contains c.toNat

/-- Digits that are not used to write numbers by place value: raised, lowered and circled ones, and
those of some old scripts. -/
def otherDigits : Ranges :=
  [(0xb2, 0xb3), (0xb9, 0xb9), (0x1369, 0x1371), (0x19da, 0x19da), (0x2070, 0x2070),
   (0x2074, 0x2079), (0x2080, 0x2089), (0x2460, 0x2468), (0x2474, 0x247c), (0x2488, 0x2490),
   (0x24ea, 0x24ea), (0x24f5, 0x24fd), (0x24ff, 0x24ff), (0x2776, 0x277e), (0x2780, 0x2788),
   (0x278a, 0x2792), (0x10a40, 0x10a43), (0x10e60, 0x10e68), (0x11052, 0x1105a),
   (0x1f100, 0x1f10a)]

def isDigit (c : Char) : Bool := isDecimal c || otherDigits.contains c.toNat

/-- The value of a decimal digit of any script; the digits of a script stand in order from zero. -/
def decimalValue? (c : Char) : Option Nat :=
  if isDecimal c then
    (decimalDigits.find? fun (lo, hi) => lo ≤ c.toNat && c.toNat ≤ hi).map fun (lo, _) =>
      (c.toNat - lo) % 10
  else none

/-- The values of digits, of which each but the last may have an underscore behind it. -/
def groupedDigits? : List Char → Option (List Nat)
  | [] => none
  | [c] => (decimalValue? c).map ([·])
  | c :: '_' :: cs => (decimalValue? c).bind fun d => (groupedDigits? cs).map (d :: ·)
  | c :: cs => (decimalValue? c).bind fun d => (groupedDigits? cs).map (d :: ·)

/-- Longer numerals are refused. -/
def mostDigits : Nat := 4300

def natural? (cs : List Char) : Option Nat :=
  match groupedDigits? cs with
  | none => none
  | some ds => if mostDigits < ds.length then none else some (ds.foldl (fun n d => n * 10 + d) 0)

def isBlank (c : Char) : Bool := whiteSpace.contains c.toNat

/-- A text without the blanks at its ends. -/
def trimmed (cs : List Char) : List Char :=
  ((cs.dropWhile isBlank).reverse.dropWhile isBlank).reverse

def integer? (s : String) : Option Int :=
  match trimmed s.toList with
  | '-' :: cs => (natural? cs).map (-·)
  | '+' :: cs => (natural? cs).map (·)
  | cs => (natural? cs).map (·)

end Numeral

end Packrat
