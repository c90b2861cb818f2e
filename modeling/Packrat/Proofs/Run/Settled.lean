import Packrat.Proofs.Derivation
import Packrat.Proofs.Grammar
import Packrat.Proofs.Memo
import Packrat.Proofs.Run.Allowance

/-!
# `Packrat/Proofs/Run/Settled.lean` — what a memo promises while rules are under way

A run nests: while a rule is tried at an offset, other rules are begun, tried and done with. The
invariant therefore speaks of the spots that are *under way*, innermost first. `Memo.Settled` says
that every spot that was begun is either one of them, or known to fail, or has a match; and that no
spot is both known to fail and matched. This file has the invariant and the ways in which a run may
write to the memo without breaking it; `Packrat/Proofs/Run/Steps.lean` follows a run with it.

`Memo.KeepsBut` is what a step leaves alone: the greatest end of a spot that was begun before does
not change, but for the spot whose alternatives are being run. A spot is begun once only, so all its
matches come from one run of its rule.
-/

set_option autoImplicit false

namespace Packrat

variable {text : Text}

namespace Memo

/-- The greatest end that the memo knows for the rule at `p` is `q`. -/
def Answers (m : Memo) (name : String) (p q : Nat) : Prop := m.longest? ⟨name, p⟩ = some (q : Int)

/-- The memo answers, and not for the spot `t`. -/
def AnswersBut (m : Memo) (t : Spot) (name : String) (p q : Nat) : Prop :=
  (⟨name, p⟩ : Spot) ≠ t ∧ m.Answers name p q

/-- What holds of the memo at every point of a run, also where it stops. -/
structure Sound (g : Grammar) (text : Text) (m : Memo) : Prop where
  coherent : m.Coherent
  justified : Justified g text m.log
  /-- What is known to fail has no match. -/
  apart : ∀ s, m.isMismatch s = true → m.longest? s = none

/-- What holds of the memo between the steps of a run, while just the rules at the spots `F` are
under way. -/
structure Settled (g : Grammar) (text : Text) (F : List Spot) (m : Memo) : Prop
    extends Sound g text m where
  started_of_mem : ∀ x ∈ m.log, m.isStarted x.spot = true
  started_of_mismatch : ∀ s, m.isMismatch s = true → m.isStarted s = true
  started_of_underWay : ∀ s ∈ F, m.isStarted s = true
  open_of_underWay : ∀ s ∈ F, m.isMismatch s = false
  decided : ∀ s, m.isStarted s = true → s ∉ F →
    m.isMismatch s = true ∨ ∃ e, m.longest? s = some e
  inside : ∀ s, m.isStarted s = true → ∃ p : Fin (text.size + 1), s.start = p.val

/-- From `m` to `n` nothing that was begun is forgotten, and the greatest ends of the spots that were
begun stay the same, but for those in `ts`. -/
structure KeepsBut (ts : List Spot) (m n : Memo) : Prop where
  started : ∀ s, m.isStarted s = true → n.isStarted s = true
  longest : ∀ s, m.isStarted s = true → s ∉ ts → n.longest? s = m.longest? s

namespace KeepsBut

variable {ts : List Spot} {l m n : Memo}

theorem refl (ts : List Spot) (m : Memo) : KeepsBut ts m m := ⟨fun _ h => h, fun _ _ _ => rfl⟩

theorem trans (h : KeepsBut ts l m) (h' : KeepsBut ts m n) : KeepsBut ts l n := by
  refine ⟨?_, ?_⟩
  · intro s hs
    exact h'.started s (h.started s hs)
  · intro s hs ht
    rw [h'.longest s (h.started s hs) ht, h.longest s hs ht]

theorem weaken (h : KeepsBut [] m n) (ts : List Spot) : KeepsBut ts m n :=
  ⟨h.started, fun s hs _ => h.longest s hs (by simp)⟩

/-- An exception that had not begun is none. -/
theorem of_new {t : Spot} (h : KeepsBut [t] m n) (ht : m.isStarted t = false) :
    KeepsBut [] m n := by
  refine ⟨h.started, fun s hs _ => h.longest s hs ?_⟩
  rw [List.mem_singleton]
  rintro rfl
  rw [ht] at hs
  exact absurd hs (by simp)

end KeepsBut

/-- Recording a match moves the greatest end of its own spot only. -/
theorem Coherent.keepsBut_saveMatch {m : Memo} (h : m.Coherent) {x : Match} (hx : 0 ≤ x.stop) :
    m.KeepsBut [x.spot] (m.saveMatch x) := by
  refine ⟨?_, ?_⟩
  · intro s hs
    rwa [isStarted_saveMatch]
  · intro s _ hs
    rw [h.longest_saveMatch hx, if_neg (by simpa using hs)]

theorem Sound.mem_of_answers {g : Grammar} {m : Memo} (h : m.Sound g text) {name : String}
    {p q : Nat} (ha : m.Answers name p q) : (⟨name, p, q⟩ : Match) ∈ m.log :=
  h.coherent.mem_of_longest ha

/-- An answer of the memo goes forward and stays in the text. -/
theorem Sound.answers_bounds {g : Grammar} {m : Memo} (h : m.Sound g text) {name : String}
    {p q : Nat} (ha : m.Answers name p q) : p ≤ q ∧ q ≤ text.size := by
  obtain ⟨i, hi, hx⟩ := Array.mem_iff_getElem.1 (h.mem_of_answers ha)
  obtain ⟨p', q', hp, hq, hpq, hqs, -⟩ :=
    h.justified i _ (by rw [Array.getElem?_eq_getElem hi, hx])
  have hp' : p = p' := Int.ofNat.inj hp
  have hq' : q = q' := Int.ofNat.inj hq
  omega

/-- A greatest end is an offset of the text. -/
theorem Sound.longest_nat {g : Grammar} {m : Memo} (h : m.Sound g text) {s : Spot} {e : Int}
    (he : m.longest? s = some e) : ∃ q : Nat, e = q ∧ q ≤ text.size := by
  obtain ⟨i, hi, hx⟩ := Array.mem_iff_getElem.1 (h.coherent.mem_of_longest he)
  obtain ⟨-, q, -, hq, -, hqs, -⟩ := h.justified i _ (by rw [Array.getElem?_eq_getElem hi, hx])
  exact ⟨q, hq, hqs⟩

theorem sound_empty (g : Grammar) : Sound g text {} :=
  ⟨coherent_empty, justified_empty, fun s _ => by simp [longest?]⟩

theorem settled_empty (g : Grammar) : Settled g text [] {} where
  toSound := sound_empty g
  started_of_mem x hx := absurd hx (by simp)
  started_of_mismatch s hs := absurd hs (by simp [isMismatch])
  started_of_underWay s hs := absurd hs (by simp)
  open_of_underWay s hs := absurd hs (by simp)
  decided s hs := absurd hs (by simp [isStarted])
  inside s hs := absurd hs (by simp [isStarted])

namespace Settled

variable {g : Grammar} {F : List Spot} {m : Memo}

theorem not_mismatch (h : m.Settled g text F) {s : Spot} {e : Int} (he : m.longest? s = some e) :
    m.isMismatch s = false := by
  cases hs : m.isMismatch s with
  | false => rfl
  | true =>
    rw [h.apart s hs] at he
    exact absurd he (by simp)

theorem started_of_longest (h : m.Settled g text F) {s : Spot} {e : Int}
    (he : m.longest? s = some e) : m.isStarted s = true :=
  h.started_of_mem _ (h.coherent.mem_of_longest he)

/-- A spot that was never begun is known to fail as little as it is known to match. -/
theorem longest_of_new (h : m.Settled g text F) {s : Spot} (hs : m.isStarted s = false) :
    m.longest? s = none := by
  cases he : m.longest? s with
  | none => rfl
  | some e => rw [h.started_of_longest he] at hs; exact absurd hs (by simp)

/-- An answer is about a spot that was begun, so it is kept. -/
theorem answers_of_keeps {n : Memo} {ts : List Spot} (h : m.Settled g text F)
    (hk : KeepsBut ts m n) {name : String} {p q : Nat} (ht : (⟨name, p⟩ : Spot) ∉ ts)
    (ha : m.Answers name p q) : n.Answers name p q := by
  rw [Answers, hk.longest _ (h.started_of_longest ha) ht]
  exact ha

theorem answersBut_of_keeps {n : Memo} {t : Spot} (h : m.Settled g text F) (hk : KeepsBut [t] m n)
    {name : String} {p q : Nat} (ha : m.AnswersBut t name p q) : n.AnswersBut t name p q :=
  ⟨ha.1, h.answers_of_keeps hk (by simpa using ha.1) ha.2⟩

/-! ### The three writes -/

/-- A rule that was not begun before is under way from now on. -/
theorem saveStarted (h : m.Settled g text F) {t : Spot} (ht : m.isStarted t = false)
    (hin : ∃ p : Fin (text.size + 1), t.start = p.val) :
    (m.saveStarted t).Settled g text (t :: F) where
  coherent := h.coherent.saveStarted t
  justified := h.justified
  apart := h.apart
  started_of_mem x hx := by
    rw [isStarted_saveStarted]
    exact Or.inr (h.started_of_mem x hx)
  started_of_mismatch s hs := by
    rw [isStarted_saveStarted]
    exact Or.inr (h.started_of_mismatch s hs)
  started_of_underWay s hs := by
    rw [isStarted_saveStarted]
    rcases List.mem_cons.1 hs with rfl | hs
    · exact Or.inl rfl
    · exact Or.inr (h.started_of_underWay s hs)
  open_of_underWay s hs := by
    rw [isMismatch_saveStarted]
    rcases List.mem_cons.1 hs with rfl | hs
    · cases hm : m.isMismatch s with
      | false => rfl
      | true => rw [h.started_of_mismatch s hm] at ht; exact absurd ht (by simp)
    · exact h.open_of_underWay s hs
  decided s hs hsF := by
    rw [List.mem_cons, not_or] at hsF
    rw [isStarted_saveStarted] at hs
    exact h.decided s (hs.resolve_left hsF.1) hsF.2
  inside s hs := by
    rw [isStarted_saveStarted] at hs
    rcases hs with rfl | hs
    · exact hin
    · exact h.inside s hs

/-- A rule under way may record a match that the log accounts for. -/
theorem saveMatch (h : m.Settled g text F) {x : Match} (hx : x.spot ∈ F)
    (ha : Accounted g text (fun name p q => (⟨name, p, q⟩ : Match) ∈ m.log) x) :
    (m.saveMatch x).Settled g text F := by
  have hstop : 0 ≤ x.stop := by
    obtain ⟨p, q, -, hq, -⟩ := ha
    omega
  refine
    { coherent := h.coherent.saveMatch hstop
      justified := ?_
      apart := ?_
      started_of_mem := ?_
      started_of_mismatch := ?_
      started_of_underWay := ?_
      open_of_underWay := ?_
      decided := ?_
      inside := ?_ }
  · rw [log_saveMatch]
    split
    · exact h.justified
    · exact h.justified.push ha
  · intro s hs
    rw [isMismatch_saveMatch] at hs
    -- the match is for a spot under way, and none of these is known to fail
    have hne : s ≠ x.spot := by
      rintro rfl
      rw [h.open_of_underWay _ hx] at hs
      exact absurd hs (by simp)
    rw [h.coherent.longest_saveMatch hstop, if_neg hne]
    exact h.apart s hs
  · intro y hy
    rw [isStarted_saveMatch]
    rcases (h.coherent.mem_log_saveMatch x y).1 hy with rfl | hy
    · exact h.started_of_underWay _ hx
    · exact h.started_of_mem y hy
  · intro s hs
    rw [isMismatch_saveMatch] at hs
    rw [isStarted_saveMatch]
    exact h.started_of_mismatch s hs
  · intro s hs
    rw [isStarted_saveMatch]
    exact h.started_of_underWay s hs
  · intro s hs
    rw [isMismatch_saveMatch]
    exact h.open_of_underWay s hs
  · intro s hs hsF
    rw [isStarted_saveMatch] at hs
    have hne : s ≠ x.spot := by
      rintro rfl
      exact hsF hx
    rw [isMismatch_saveMatch, h.coherent.longest_saveMatch hstop, if_neg hne]
    exact h.decided s hs hsF
  · intro s hs
    rw [isStarted_saveMatch] at hs
    exact h.inside s hs

/-- The innermost rule under way is done with if it has a match. -/
theorem close {t : Spot} (h : m.Settled g text (t :: F)) {e : Int} (he : m.longest? t = some e) :
    m.Settled g text F where
  toSound := h.toSound
  started_of_mem := h.started_of_mem
  started_of_mismatch := h.started_of_mismatch
  started_of_underWay s hs := h.started_of_underWay s (List.mem_cons_of_mem t hs)
  open_of_underWay s hs := h.open_of_underWay s (List.mem_cons_of_mem t hs)
  decided s hs hsF := by
    by_cases hst : s = t
    · exact Or.inr ⟨e, hst ▸ he⟩
    · refine h.decided s hs fun hmem => ?_
      rcases List.mem_cons.1 hmem with h' | h'
      · exact hst h'
      · exact hsF h'
  inside := h.inside

/-- It is done with, too, if it has none and is written down to fail. -/
theorem saveMismatch {t : Spot} (h : m.Settled g text (t :: F)) (htF : t ∉ F)
    (ht : m.longest? t = none) : (m.saveMismatch t).Settled g text F where
  coherent := h.coherent.saveMismatch t
  justified := h.justified
  apart s hs := by
    rcases (isMismatch_saveMismatch m t s).1 hs with rfl | hs
    · exact ht
    · exact h.apart s hs
  started_of_mem := h.started_of_mem
  started_of_mismatch s hs := by
    rcases (isMismatch_saveMismatch m t s).1 hs with rfl | hs
    · exact h.started_of_underWay s List.mem_cons_self
    · exact h.started_of_mismatch s hs
  started_of_underWay s hs := h.started_of_underWay s (List.mem_cons_of_mem t hs)
  open_of_underWay s hs := by
    rw [Bool.eq_false_iff]
    intro hm
    rcases (isMismatch_saveMismatch m t s).1 hm with rfl | hm
    · exact htF hs
    · rw [h.open_of_underWay s (List.mem_cons_of_mem t hs)] at hm
      exact absurd hm (by simp)
  decided s hs hsF := by
    rw [isMismatch_saveMismatch]
    by_cases hst : s = t
    · exact Or.inl (Or.inl hst)
    · refine (h.decided s hs fun hmem => ?_).imp Or.inr id
      rcases List.mem_cons.1 hmem with h' | h'
      · exact hst h'
      · exact hsF h'
  inside := h.inside

end Settled

end Memo

end Packrat
