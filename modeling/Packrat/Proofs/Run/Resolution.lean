import Packrat.Engine

/-!
# `Packrat/Proofs/Run/Resolution.lean` — how a reference is answered, and how a round leads on

`resolve` asks the memo three questions and the grammar one before it runs a rule, and the order of
the questions matters. `Resolution` lists the outcomes, each with the answers that lead to it, so that
a proof about references splits into these cases by name and never opens `resolve`.

The loop over rounds is opened here for the last time, too: one equation for each way in which a
round may end.
-/

set_option autoImplicit false

namespace Packrat

variable {text : Text}

/-- How the reference to `name` at the cursor `c` may be answered with `n` levels left. -/
inductive Resolution (g : Grammar) (n : Nat) (name : String) (c : Cursor text) : Result text → Prop
  /-- The rule is known to fail here. -/
  | mismatch (hm : c.memo.isMismatch (c.spot name) = true) : Resolution g n name c (.failed c)
  /-- The rule is known to match here. -/
  | recorded {i : Int} (hm : c.memo.isMismatch (c.spot name) = false)
      (hl : c.memo.longest? (c.spot name) = some i) : Resolution g n name c (.matchedAt c i)
  /-- The rule was begun here and has no match yet. -/
  | underWay (hm : c.memo.isMismatch (c.spot name) = false)
      (hl : c.memo.longest? (c.spot name) = none) (hs : c.memo.isStarted (c.spot name) = true) :
      Resolution g n name c (.failed c)
  | unknown (hm : c.memo.isMismatch (c.spot name) = false)
      (hl : c.memo.longest? (c.spot name) = none) (hs : c.memo.isStarted (c.spot name) = false)
      (hr : g.rule? name = none) : Resolution g n name c (.stopped (.unknownRule name) c)
  | tooDeep {r : Rule} (hm : c.memo.isMismatch (c.spot name) = false)
      (hl : c.memo.longest? (c.spot name) = none) (hs : c.memo.isStarted (c.spot name) = false)
      (hr : g.rule? name = some r) (hn : n = 0) :
      Resolution g n name c (.stopped (.tooDeep name c.pos c.limit) c)
  /-- The rule is run, with one level less. -/
  | fresh {r : Rule} {k : Nat} (hm : c.memo.isMismatch (c.spot name) = false)
      (hl : c.memo.longest? (c.spot name) = none) (hs : c.memo.isStarted (c.spot name) = false)
      (hr : g.rule? name = some r) (hn : n = k + 1) :
      Resolution g n name c (r.run (resolve g k) c)

theorem resolution (g : Grammar) (n : Nat) (name : String) (c : Cursor text) :
    Resolution g n name c (resolve g n name c) := by
  rw [resolve.eq_def]
  dsimp only
  cases hm : c.memo.isMismatch (c.spot name) with
  | true =>
    rw [if_pos rfl]
    exact .mismatch hm
  | false =>
    rw [if_neg (by simp)]
    cases hl : c.memo.longest? (c.spot name) with
    | some i => exact .recorded hm hl
    | none =>
      dsimp only
      cases hs : c.memo.isStarted (c.spot name) with
      | true => exact .underWay hm hl hs
      | false =>
        rw [if_neg (by simp)]
        cases hr : g.rule? name with
        | none => exact .unknown hm hl hs hr
        | some r =>
          cases n with
          | zero => exact .tooDeep hm hl hs hr rfl
          | succ k => exact .fresh hm hl hs hr rfl

/-! ## Rounds -/

section

variable {f : Follow text} {r : Rule} {start best longest : Fin (text.size + 1)} {c d : Cursor text}

theorem grow_of_stopped {fault : RunFault}
    (h : runRound f start r.alternatives none c = .stopped fault d) :
    grow f r start best c = .stopped fault d := by
  rw [grow, h]

theorem grow_of_none (h : runRound f start r.alternatives none c = .ended none d) :
    grow f r start best c = .failed ((d.saveMismatch ⟨r.name, start.val⟩).backTo start) := by
  rw [grow, h]

theorem grow_of_lt (h : runRound f start r.alternatives none c = .ended (some longest) d)
    (hlt : best < longest) : grow f r start best c = grow f r start longest d := by
  rw [grow, h]
  exact if_pos hlt

theorem grow_of_not_lt (h : runRound f start r.alternatives none c = .ended (some longest) d)
    (hlt : ¬ best < longest) : grow f r start best c = .matched (d.backTo best) := by
  rw [grow, h]
  exact if_neg hlt

end

end Packrat
