import Packrat.Proofs.Grammar
import Packrat.Proofs.Token.Tiling
import Packrat.RuleSet.Reader

/-!
# `Packrat/Proofs/RuleSet/Marks.lean` — reports about grammar text point where they say

Most faults of grammar text come with a mark: the line and the column of the token where reading gave
up, and an excerpt with a caret (`ReadFault.mark?`). The reader takes its marks from the places that the
scanner has counted, and the excerpt is cut out of the text afresh, so the two agree only as far as the
places are true.

`Locates` says of a step of the reader that it goes on with tokens at true places, or gives up with a
mark that shows what it should. It holds of the steps one by one, and is handed on by `bind`.
-/

set_option autoImplicit false

namespace Packrat

/-- The mark of a report, where it gives one. A declaration that is not closed is reported with the place
of one token and an excerpt about another, and a quoted text without any place. -/
def ReadFault.mark? : ReadFault → Option Mark
  | scan f => some f.mark
  | expected _ _ mark => some mark
  | unknownDirective _ mark => some mark
  | secondStart mark => some mark
  | noColon _ _ mark => some mark
  | emptyAlternative _ mark => some mark
  | noSemicolon .. => none
  | quotation _ => none

/-- A report with a mark is a message about the mark. -/
theorem ReadFault.exists_report {f : ReadFault} {m : Mark} (h : f.mark? = some m) :
    ∃ message, f.message = m.report message := by
  cases f with
  | noSemicolon _ _ _ _ => cases h
  | quotation _ => cases h
  | scan _ | expected _ _ _ | unknownDirective _ _ | secondStart _ | noColon _ _ _
  | emptyAlternative _ _ =>
    cases h
    exact ⟨_, rfl⟩

namespace RuleSet

variable {src : List Char}

/-! ## Steps of the reader -/

/-- All tokens still to be read stand at their true places. -/
structure Rest.Placed (src : List Char) (r : Rest) : Prop where
  tokens : ∀ t ∈ r.tokens, t.place.TrueIn src
  eof : r.eof.place.TrueIn src

/-- A step of the reader ends with a result of which `P` holds, or with a fault whose mark, if it has one,
shows the line and column that it gives. -/
def Locates {α : Type} (src : List Char) (P : α → Prop) : Except ReadFault α → Prop
  | .ok a => P a
  | .error f => ∀ m, f.mark? = some m → m.Shows src

namespace Locates

variable {α β : Type} {P : α → Prop} {Q : β → Prop}

theorem bind {o : Except ReadFault α} {k : α → Except ReadFault β} (h : Locates src P o)
    (hk : ∀ a, P a → Locates src Q (k a)) : Locates src Q (o >>= k) := by
  cases o with
  | error f => exact h
  | ok a => exact hk a h

theorem map {o : Except ReadFault α} {k : α → β} (h : Locates src P o) (hk : ∀ a, P a → Q (k a)) :
    Locates src Q (o.map k) := by
  cases o with
  | error f => exact h
  | ok a => exact hk a h

end Locates

section

variable {r : Rest} (names : CharacterNames)

theorem Rest.Placed.next (h : r.Placed src) : r.next.place.TrueIn src := by
  obtain ⟨tokens, eof, behind⟩ := r
  cases tokens with
  | nil => exact h.eof
  | cons t ts => exact h.tokens t List.mem_cons_self

theorem Rest.Placed.tail (h : r.Placed src) : r.tail.Placed src :=
  ⟨fun t ht => h.tokens t (List.mem_of_mem_tail ht), h.eof⟩

end

/-! ## Whole texts -/

end RuleSet

end Packrat
