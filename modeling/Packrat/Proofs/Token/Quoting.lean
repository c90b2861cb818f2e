import Mathlib.Algebra.Group.Nat.Defs
import Mathlib.Data.List.TakeWhile
import Packrat.Text.Quoted
import Packrat.Token.Quotation

/-!
# `Packrat/Proofs/Token/Quoting.lean` — a text in quotes reads as the text

Writing knows few escapes and reading knows many, so the two cannot be compared escape by escape. What
they share is said by `Spelled`: a character stands for itself, or a backslash and a letter stand for
a code point, with hexadecimal digits behind them that the letter takes. Whatever `quotedPoint` writes
is of this kind (`spelled_quotedPoint`), and all that reading looks for is read off it. No name of a
character is ever written, so it does not matter which names reading knows.
-/

set_option autoImplicit false

namespace Packrat

/-! ## Hexadecimal digits -/

theorem digitValue?_digitChar (n : Nat) : digitValue? (digitChar (n % 16)) = some (n % 16) := by
  have h : ∀ d : Fin 16, digitValue? (digitChar d) = some d.val := by decide
  exact h ⟨n % 16, Nat.mod_lt n (by decide)⟩

theorem length_hexDigits (width n : Nat) : (hexDigits width n).length = width := by
  induction width generalizing n with
  | zero => rfl
  | succ width ih => rw [hexDigits, List.length_append, ih, List.length_singleton]

theorem isHexDigit_of_mem_hexDigits {width n : Nat} {c : Char} (h : c ∈ hexDigits width n) :
    isHexDigit c = true := by
  induction width generalizing n with
  | zero => simp [hexDigits] at h
  | succ width ih =>
    rw [hexDigits, List.mem_append, List.mem_singleton] at h
    rcases h with h | rfl
    · exact ih h
    · rw [isHexDigit, digitValue?_digitChar, Option.isSome_some]

theorem digitsValue_append (base : Nat) (cs : List Char) (c : Char) :
    digitsValue base (cs ++ [c]) = digitsValue base cs * base + (digitValue? c).getD 0 := by
  rw [digitsValue, List.foldl_append]
  rfl

theorem digitsValue_hexDigits (width n : Nat) :
    digitsValue 16 (hexDigits width n) = n % 16 ^ width := by
  induction width generalizing n with
  | zero => simp [hexDigits, digitsValue, Nat.mod_one]
  | succ width ih =>
    rw [hexDigits, digitsValue_append, ih, digitValue?_digitChar, Option.getD_some, Nat.pow_succ,
      Nat.mul_comm (16 ^ width) 16, Nat.mod_mul]
    omega

theorem isHexDigit_ne {c d : Char} (hd : isHexDigit d = false) (hc : isHexDigit c = true) :
    c ≠ d := by
  rintro rfl
  exact absurd (hc.symm.trans hd) (by decide)

/-- No code point lies beyond those of Unicode. -/
theorem CodePoint.toNat_lt_unicode (c : CodePoint) : c.toNat < 0x110000 := by
  cases c with
  | char c =>
    have hvalid : c.toNat.isValidChar := c.valid
    rcases hvalid with h | ⟨-, h⟩ <;> rw [toNat] <;> omega
  | surrogate n =>
    rw [toNat, firstSurrogate]
    omega

/-! ## How a code point is spelled -/

/-- The characters stand for `c` between quotes `q`. -/
inductive Spelled (q : Char) : CodePoint → List Char → Prop
  | itself {c : Char} (hq : c ≠ q) (hback : c ≠ '\\') (hline : Quotation.isLineEnd c = false)
      (hnul : c ≠ '\x00') : Spelled q (.char c) [c]
  | escaped {c : CodePoint} {e : Char} {digits : List Char} (hline : Quotation.isLineEnd e = false)
      (hnul : e ≠ '\x00') (hdigits : ∀ d ∈ digits, isHexDigit d = true)
      (hvalue : ∀ names start rest, ∃ k,
        Quotation.escape names start e (digits ++ rest) = .ok ⟨[c], digits.length, k⟩) :
      Spelled q c ('\\' :: e :: digits)

/-- A letter that stands for the character without digits. -/
theorem Spelled.ofLetter {q c e : Char} (hline : Quotation.isLineEnd e = false)
    (hnul : e ≠ '\x00') (he : Quotation.letter? e = some c) : Spelled q (.char c) ['\\', e] := by
  refine .escaped hline hnul (by simp) fun names start rest => ⟨2, ?_⟩
  simp [Quotation.escape, hline, he]

/-- The digits of a code point behind a letter that takes as many. -/
theorem Spelled.ofDigits {q e : Char} {c : CodePoint} {width : Nat} (he : hexWidth? e = some width)
    (hc : c.toNat < 16 ^ width) : Spelled q c ('\\' :: e :: hexDigits width c.toNat) := by
  have hfacts : Quotation.isLineEnd e = false ∧ e ≠ '\x00' ∧ Quotation.letter? e = none ∧
      isOctalDigit e = false := by
    unfold hexWidth? at he
    split at he <;> simp_all [Quotation.isLineEnd, Quotation.letter?, isOctalDigit]
  obtain ⟨hline, hnul, hletter, hoctal⟩ := hfacts
  refine .escaped hline hnul (fun d hd => isHexDigit_of_mem_hexDigits hd) fun names start rest =>
    ⟨2 + width, ?_⟩
  have hlen := length_hexDigits width c.toNat
  have htaken : ((hexDigits width c.toNat ++ rest).take width).takeWhile isHexDigit =
      hexDigits width c.toNat := by
    rw [List.take_append_of_le_length (Nat.le_of_eq hlen.symm), List.take_of_length_le
      (Nat.le_of_eq hlen), List.takeWhile_eq_self_iff]
    exact fun d hd => isHexDigit_of_mem_hexDigits hd
  have hvalue : digitsValue 16 (hexDigits width c.toNat) = c.toNat := by
    rw [digitsValue_hexDigits, Nat.mod_eq_of_lt hc]
  have hmax : ¬ 0x10ffff < c.toNat := Nat.not_lt.2 (Nat.le_of_lt_succ c.toNat_lt_unicode)
  unfold Quotation.escape
  simp only [hline, hletter, hoctal, he, Bool.false_eq_true, if_false]
  rw [htaken, hlen, if_neg (Nat.lt_irrefl width), hvalue, if_neg hmax, CodePoint.ofNat_toNat]

theorem spelled_quotedChar {q : Char} (hq : q = '\x27' ∨ q = '"') (c : Char) :
    Spelled q (.char c) (quotedChar q c) := by
  unfold quotedChar
  by_cases hesc : c = q ∨ c = '\\'
  · rw [if_pos hesc]
    have hc : c = '\x27' ∨ c = '"' ∨ c = '\\' := by
      rcases hesc with rfl | hc
      · exact hq.imp_right Or.inl
      · exact Or.inr (Or.inr hc)
    rcases hc with rfl | rfl | rfl <;> exact .ofLetter rfl (by decide) rfl
  rw [if_neg hesc]
  by_cases hn : c = '\n'
  · rw [if_pos hn, hn]
    exact .ofLetter rfl (by decide) rfl
  rw [if_neg hn]
  by_cases hr : c = '\r'
  · rw [if_pos hr, hr]
    exact .ofLetter rfl (by decide) rfl
  rw [if_neg hr]
  by_cases ht : c = '\t'
  · rw [if_pos ht, ht]
    exact .ofLetter rfl (by decide) rfl
  rw [if_neg ht]
  by_cases hp : isPrintable c = true
  · rw [if_pos hp]
    refine .itself (fun h => hesc (Or.inl h)) (fun h => hesc (Or.inr h)) ?_ ?_
    · simp [Quotation.isLineEnd, hn, hr]
    · rintro rfl
      exact absurd hp (by decide)
  · rw [if_neg hp, codePointEscape]
    split
    · rename_i h
      exact .ofDigits (c := .char c) rfl h
    · split
      · rename_i h
        exact .ofDigits (c := .char c) rfl h
      · exact .ofDigits (c := .char c) rfl
          (Nat.lt_trans (CodePoint.char c).toNat_lt_unicode (by decide))

theorem spelled_quotedPoint {q : Char} (hq : q = '\x27' ∨ q = '"') (c : CodePoint) :
    Spelled q c (quotedPoint q c) := by
  cases c with
  | char c => exact spelled_quotedChar hq c
  | surrogate n =>
    refine .ofDigits rfl ?_
    rw [CodePoint.toNat, CodePoint.firstSurrogate]
    omega

/-! ## Reading back -/

namespace Spelled

variable {q : Char} {c : CodePoint} {cs : List Char}

theorem nul_not_mem (h : Spelled q c cs) : '\x00' ∉ cs := by
  cases h with
  | itself _ _ _ hnul => simpa using Ne.symm hnul
  | escaped _ hnul hdigits _ =>
    intro hmem
    rcases List.mem_cons.1 hmem with h | hmem
    · exact absurd h (by decide)
    rcases List.mem_cons.1 hmem with h | hmem
    · exact hnul h.symm
    · exact isHexDigit_ne rfl (hdigits _ hmem) rfl

end Spelled

namespace Quotation

theorem brokenLine?_cons {c : Char} (hback : c ≠ '\\') (hline : isLineEnd c = false) (line : Nat)
    (cs : List Char) : brokenLine? line (c :: cs) = brokenLine? line cs := by
  have hr : c ≠ '\r' := by
    rintro rfl
    exact absurd hline (by decide)
  rw [brokenLine?, if_neg hr]
  intro d ds he
  exact absurd he hback

theorem brokenLine?_escaped {e : Char} (hline : isLineEnd e = false) (line : Nat)
    (cs : List Char) : brokenLine? line ('\\' :: e :: cs) = brokenLine? line cs := by
  rw [brokenLine?, hline]
  rfl

theorem brokenLine?_digits {digits : List Char} (h : ∀ d ∈ digits, isHexDigit d = true)
    (line : Nat) (cs : List Char) : brokenLine? line (digits ++ cs) = brokenLine? line cs := by
  induction digits with
  | nil => rfl
  | cons d ds ih =>
    have hd := h d List.mem_cons_self
    have hline : isLineEnd d = false := by
      simp [isLineEnd, isHexDigit_ne (d := '\n') rfl hd,
        isHexDigit_ne (d := '\r') rfl hd]
    rw [List.cons_append, brokenLine?_cons (isHexDigit_ne rfl hd) hline]
    exact ih fun x hx => h x (List.mem_cons_of_mem d hx)

theorem brokenLine?_spelled {q : Char} {c : CodePoint} {spelling : List Char}
    (h : Spelled q c spelling) (line : Nat) (cs : List Char) :
    brokenLine? line (spelling ++ cs) = brokenLine? line cs := by
  cases h with
  | itself _ hback hline _ => exact brokenLine?_cons hback hline line cs
  | escaped hline _ hdigits _ =>
    rw [List.cons_append, List.cons_append, brokenLine?_escaped hline]
    exact brokenLine?_digits hdigits line cs

/-- The escape, or the character, is read, and reading goes on behind it. -/
theorem unescapeFrom_spelled {q : Char} {c : CodePoint} {spelling : List Char}
    (h : Spelled q c spelling) (names : CharacterNames) (start : Nat) (cs : List Char) :
    ∃ k, unescapeFrom names start (spelling ++ cs) = (unescapeFrom names k cs).map (c :: ·) := by
  cases h with
  | @itself c _ hback _ _ =>
    refine ⟨start + positions [c], ?_⟩
    rw [List.singleton_append, unescapeFrom]
    intro d ds he
    exact absurd he hback
  | escaped _ _ _ hvalue =>
    obtain ⟨k, hk⟩ := hvalue names start cs
    refine ⟨start + k, ?_⟩
    rw [List.cons_append, List.cons_append, unescapeFrom, hk]
    simp

variable {q : Char}

theorem nul_not_mem_spelled (hq : q = '\x27' ∨ q = '"') (cs : CodePoints) :
    '\x00' ∉ cs.flatMap (quotedPoint q) := by
  intro hmem
  obtain ⟨c, -, hc⟩ := List.mem_flatMap.1 hmem
  exact (spelled_quotedPoint hq c).nul_not_mem hc

theorem brokenLine?_quoted (hq : q = '\x27' ∨ q = '"') (cs : CodePoints) (line : Nat) :
    brokenLine? line (cs.flatMap (quotedPoint q)) = none := by
  induction cs with
  | nil => rfl
  | cons c cs ih => rw [List.flatMap_cons, brokenLine?_spelled (spelled_quotedPoint hq c), ih]

theorem unescapeFrom_quoted (hq : q = '\x27' ∨ q = '"') (names : CharacterNames) (cs : CodePoints)
    (start : Nat) : unescapeFrom names start (cs.flatMap (quotedPoint q)) = .ok cs := by
  induction cs generalizing start with
  | nil => rw [List.flatMap_nil, unescapeFrom]
  | cons c cs ih =>
    obtain ⟨k, hk⟩ := unescapeFrom_spelled (spelled_quotedPoint hq c) names start
      (cs.flatMap (quotedPoint q))
    rw [List.flatMap_cons, hk, ih]
    rfl

end Quotation

theorem quoteFor_eq (cs : CodePoints) : quoteFor cs = '\x27' ∨ quoteFor cs = '"' := by
  unfold quoteFor
  split
  · exact Or.inr rfl
  · exact Or.inl rfl

/-- A text in quotes stands for itself. -/
theorem Quotation.read_quotedChars (names : CharacterNames) (cs : CodePoints) :
    Quotation.read names (quotedChars cs) = .ok cs := by
  have hq := quoteFor_eq cs
  have hinner : inner (quotedChars cs) = cs.flatMap (quotedPoint (quoteFor cs)) := by
    rw [inner, quotedChars, List.cons_append, List.tail_cons, List.dropLast_concat]
  have hnul : (cs.flatMap (quotedPoint (quoteFor cs))).contains '\x00' = false := by
    rw [← Bool.not_eq_true, List.contains_iff_mem]
    exact nul_not_mem_spelled hq cs
  unfold read
  simp only [hinner, hnul, brokenLine?_quoted hq, unescapeFrom_quoted hq, Bool.false_eq_true,
    if_false]

end Packrat
