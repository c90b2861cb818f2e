/-!
# `Packrat/Text/CodePoint.lean` — characters and surrogates

An escape may ask for any code point, also for a surrogate, which is no character and which no text
under parsing holds. What a quoted text stands for is therefore a list of code points.
-/

set_option autoImplicit false

namespace Packrat

/-- A code point. The surrogates are counted from the first of them. -/
inductive CodePoint where
  | char (c : Char)
  | surrogate (n : Fin 0x800)
deriving DecidableEq, Repr

namespace CodePoint

def firstSurrogate : Nat := 0xd800

def toNat : CodePoint → Nat
  | char c => c.toNat
  | surrogate n => firstSurrogate + n

/-- The code point with this number. -/
def ofNat (n : Nat) : CodePoint :=
  if h : firstSurrogate ≤ n ∧ n - firstSurrogate < 0x800 then .surrogate ⟨n - firstSurrogate, h.2⟩
  else .char (Char.ofNat n)

def char? : CodePoint → Option Char
  | char c => some c
  | surrogate _ => none

theorem ofNat_toNat (c : CodePoint) : ofNat c.toNat = c := by
  cases c with
  | char c =>
    -- the numbers of characters leave out the surrogates
    have hvalid : c.toNat < 0xd800 ∨ 0xdfff < c.toNat ∧ c.toNat < 0x110000 := c.valid
    rw [ofNat, dif_neg (by simp only [toNat, firstSurrogate]; omega), toNat, Char.ofNat_toNat]
  | surrogate n => simp [ofNat, toNat]

end CodePoint

abbrev CodePoints := List CodePoint

/-- The code points of a text, all of them characters. -/
def CodePoints.ofString (s : String) : CodePoints := s.toList.map .char

@[simp] theorem CodePoints.length_ofString (s : String) : (ofString s).length = s.length := by
  rw [ofString, List.length_map, String.length_toList]

instance : Coe String CodePoints := ⟨CodePoints.ofString⟩

end Packrat
