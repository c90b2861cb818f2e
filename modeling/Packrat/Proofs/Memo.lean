import Mathlib.Data.List.Infix
import Packrat.Memo

/-!
# `Packrat/Proofs/Memo.lean` — what the tables of a memo know

The tables of a memo are trees; a proof about a run only ever looks something up in them. The first
section says what a look-up answers after each of the three writes, so that nothing below it opens a
tree again.

`Memo.Coherent` says that the log, the set of recorded matches and the index of greatest ends tell
the same story. The index is written by hand beside the log, and a match that is recorded already
returns before the index is looked at; that the two cannot drift apart is `Coherent.saveMatch`.

`Memo.Extends` is growth: nothing that was ever written is taken back.
-/

set_option autoImplicit false

namespace Packrat

namespace Memo

/-! ## Look-ups after a write -/

@[simp] theorem log_saveMismatch (m : Memo) (s : Spot) : (m.saveMismatch s).log = m.log := rfl

@[simp] theorem log_saveStarted (m : Memo) (s : Spot) : (m.saveStarted s).log = m.log := rfl

@[simp] theorem longest?_saveMismatch (m : Memo) (s t : Spot) :
    (m.saveMismatch s).longest? t = m.longest? t := rfl

@[simp] theorem longest?_saveStarted (m : Memo) (s t : Spot) :
    (m.saveStarted s).longest? t = m.longest? t := rfl

@[simp] theorem isMismatch_saveStarted (m : Memo) (s t : Spot) :
    (m.saveStarted s).isMismatch t = m.isMismatch t := rfl

@[simp] theorem isStarted_saveMismatch (m : Memo) (s t : Spot) :
    (m.saveMismatch s).isStarted t = m.isStarted t := rfl

@[simp] theorem isMismatch_saveMismatch (m : Memo) (s t : Spot) :
    (m.saveMismatch s).isMismatch t = true ↔ t = s ∨ m.isMismatch t = true := by
  simp only [isMismatch, saveMismatch, Std.TreeSet.contains_insert, Bool.or_eq_true, beq_iff_eq,
    Std.LawfulEqCmp.compare_eq_iff_eq, eq_comm (a := s)]

@[simp] theorem isStarted_saveStarted (m : Memo) (s t : Spot) :
    (m.saveStarted s).isStarted t = true ↔ t = s ∨ m.isStarted t = true := by
  simp only [isStarted, saveStarted, Std.TreeSet.contains_insert, Bool.or_eq_true, beq_iff_eq,
    Std.LawfulEqCmp.compare_eq_iff_eq, eq_comm (a := s)]

@[simp] theorem isMismatch_saveMatch (m : Memo) (x : Match) (t : Spot) :
    (m.saveMatch x).isMismatch t = m.isMismatch t := by
  unfold saveMatch
  split <;> rfl

@[simp] theorem isStarted_saveMatch (m : Memo) (x : Match) (t : Spot) :
    (m.saveMatch x).isStarted t = m.isStarted t := by
  unfold saveMatch
  split <;> rfl

theorem log_saveMatch (m : Memo) (x : Match) :
    (m.saveMatch x).log = if m.recorded.contains x then m.log else m.log.push x := by
  unfold saveMatch
  split <;> rfl

theorem recorded_saveMatch (m : Memo) (x y : Match) :
    (m.saveMatch x).recorded.contains y = true ↔ y = x ∨ m.recorded.contains y = true := by
  unfold saveMatch
  split
  · rename_i h
    constructor
    · exact Or.inr
    · rintro (rfl | hy)
      · exact h
      · exact hy
  · simp only [Std.TreeSet.contains_insert, Bool.or_eq_true, beq_iff_eq,
      Std.LawfulEqCmp.compare_eq_iff_eq, eq_comm (a := x)]

/-! ## The log and the index -/

/-- The log, the recorded matches and the index of greatest ends agree. -/
structure Coherent (m : Memo) : Prop where
  recorded_iff : ∀ x, m.recorded.contains x = true ↔ x ∈ m.log
  /-- The index holds the greatest end that is recorded at a spot. -/
  longest_iff : ∀ s e, m.longest? s = some e ↔
    ⟨s.name, s.start, e⟩ ∈ m.log ∧ ∀ d, ⟨s.name, s.start, d⟩ ∈ m.log → d ≤ e
  /-- A spot with a match has an end in the index. -/
  longest_of_mem : ∀ x ∈ m.log, ∃ e, m.longest? x.spot = some e

theorem coherent_empty : Coherent {} where
  recorded_iff x := by simp
  longest_iff s e := by simp [longest?]
  longest_of_mem x hx := by simp at hx

namespace Coherent

variable {m : Memo}

theorem mem_of_longest (h : m.Coherent) {s : Spot} {e : Int} (he : m.longest? s = some e) :
    ⟨s.name, s.start, e⟩ ∈ m.log := ((h.longest_iff s e).1 he).1

theorem le_longest (h : m.Coherent) {x : Match} (hx : x ∈ m.log) {e : Int}
    (he : m.longest? x.spot = some e) : x.stop ≤ e :=
  ((h.longest_iff x.spot e).1 he).2 x.stop hx

theorem longest_eq_none_iff (h : m.Coherent) (s : Spot) :
    m.longest? s = none ↔ ∀ x ∈ m.log, x.spot ≠ s := by
  constructor
  · intro hs x hx hxs
    obtain ⟨e, he⟩ := h.longest_of_mem x hx
    rw [hxs, hs] at he
    exact absurd he (by simp)
  · intro hs
    cases he : m.longest? s with
    | none => rfl
    | some e => exact absurd rfl (hs _ (h.mem_of_longest he))

theorem mem_log_saveMatch (h : m.Coherent) (x y : Match) :
    y ∈ (m.saveMatch x).log ↔ y = x ∨ y ∈ m.log := by
  rw [log_saveMatch]
  split
  · rename_i hx
    constructor
    · exact Or.inr
    · rintro (rfl | hy)
      · exact (h.recorded_iff _).1 hx
      · exact hy
  · simp [Array.mem_push, or_comm]

/-- A match moves the greatest end of its own spot, and only upwards. -/
theorem longest_saveMatch (h : m.Coherent) {x : Match} (hx : 0 ≤ x.stop) (s : Spot) :
    (m.saveMatch x).longest? s =
      if s = x.spot then some (max ((m.longest? s).getD x.stop) x.stop) else m.longest? s := by
  unfold saveMatch
  split
  · -- a repeated match is no news to the index either
    rename_i hrec
    have hmem : x ∈ m.log := (h.recorded_iff x).1 hrec
    split
    · rename_i hs
      subst hs
      obtain ⟨e, he⟩ := h.longest_of_mem x hmem
      rw [he, Option.getD_some, Int.max_eq_left (h.le_longest hmem he)]
    · rfl
  · simp only [longest?, Std.TreeMap.getD_eq_getD_getElem?]
    by_cases hs : s = x.spot
    · subst hs
      rw [if_pos rfl]
      cases he : m.longest[x.spot]? with
      | none => simp [show (-1 : Int) < x.stop by omega]
      | some e =>
        simp only [Option.getD_some]
        split
        · rename_i hlt
          rw [Std.TreeMap.getElem?_insert_self, Int.max_eq_right (by omega)]
        · rw [he, Int.max_eq_left (by omega)]
    · rw [if_neg hs]
      split
      · simp [Std.TreeMap.getElem?_insert, Ne.symm hs]
      · rfl

/-- Recording a match keeps the tables in agreement. -/
theorem saveMatch (h : m.Coherent) {x : Match} (hx : 0 ≤ x.stop) : (m.saveMatch x).Coherent where
  recorded_iff y := by rw [recorded_saveMatch, h.recorded_iff, h.mem_log_saveMatch]
  longest_iff s e := by
    have hkey : ∀ d : Int, (⟨s.name, s.start, d⟩ : Match) = x ↔ s = x.spot ∧ d = x.stop := by
      intro d
      cases s
      cases x
      simp [Match.spot, and_assoc]
    rw [h.longest_saveMatch hx]
    simp only [h.mem_log_saveMatch, hkey]
    by_cases hs : s = x.spot
    · subst hs
      rw [if_pos rfl]
      simp only [true_and]
      cases he : m.longest? x.spot with
      | none =>
        have hno : ∀ d, (⟨x.spot.name, x.spot.start, d⟩ : Match) ∉ m.log := fun d hd =>
          (h.longest_eq_none_iff _).1 he _ hd rfl
        simp only [hno, or_false, Option.getD_none, Int.max_self, Option.some.injEq]
        constructor
        · rintro rfl
          exact ⟨rfl, fun d hd => Int.le_of_eq hd⟩
        · rintro ⟨rfl, -⟩
          rfl
      | some f =>
        -- of the end before and the new one, the greater is above all that are recorded
        obtain ⟨hf, hmax⟩ := (h.longest_iff _ _).1 he
        simp only [Option.getD_some, Option.some.injEq]
        constructor
        · rintro rfl
          refine ⟨?_, ?_⟩
          · rcases Int.le_total f x.stop with hle | hle
            · exact Or.inl (Int.max_eq_right hle)
            · rw [Int.max_eq_left hle]
              exact Or.inr hf
          · rintro d (rfl | hd)
            · exact Int.le_max_right _ _
            · exact Int.le_trans (hmax d hd) (Int.le_max_left _ _)
        · rintro ⟨rfl | hmem, hle⟩
          · exact Int.max_eq_right (hle f (Or.inr hf))
          · have h1 := hle x.stop (Or.inl rfl)
            have h2 := hle f (Or.inr hf)
            have h3 := hmax e hmem
            omega
    · simp only [hs, if_false, false_and, false_or]
      exact h.longest_iff s e
  longest_of_mem y hy := by
    rw [h.longest_saveMatch hx]
    split
    · exact ⟨_, rfl⟩
    · rename_i hs
      rcases (h.mem_log_saveMatch x y).1 hy with rfl | hy
      · exact absurd rfl hs
      · exact h.longest_of_mem y hy

theorem saveMismatch (h : m.Coherent) (s : Spot) : (m.saveMismatch s).Coherent :=
  ⟨h.recorded_iff, h.longest_iff, h.longest_of_mem⟩

theorem saveStarted (h : m.Coherent) (s : Spot) : (m.saveStarted s).Coherent :=
  ⟨h.recorded_iff, h.longest_iff, h.longest_of_mem⟩

end Coherent

/-! ## Growth -/

/-- The second memo knows all that the first one knows, and its log goes on from that of the
first. -/
structure Extends (m n : Memo) : Prop where
  log : m.log.toList <+: n.log.toList
  mismatches : ∀ s, m.isMismatch s = true → n.isMismatch s = true
  started : ∀ s, m.isStarted s = true → n.isStarted s = true

namespace Extends

theorem refl (m : Memo) : m.Extends m := ⟨List.prefix_refl _, fun _ h => h, fun _ h => h⟩

theorem trans {l m n : Memo} (h : l.Extends m) (h' : m.Extends n) : l.Extends n :=
  ⟨h.log.trans h'.log, fun s hs => h'.mismatches s (h.mismatches s hs),
    fun s hs => h'.started s (h.started s hs)⟩

theorem mem_log {m n : Memo} (h : m.Extends n) {x : Match} (hx : x ∈ m.log) : x ∈ n.log := by
  rw [← Array.mem_toList_iff] at hx ⊢
  exact h.log.subset hx

theorem saveMatch (m : Memo) (x : Match) : m.Extends (m.saveMatch x) where
  log := by
    rw [log_saveMatch]
    split
    · exact List.prefix_refl _
    · rw [Array.toList_push]
      exact List.prefix_append _ _
  mismatches s hs := by rwa [isMismatch_saveMatch]
  started s hs := by rwa [isStarted_saveMatch]

theorem saveMismatch (m : Memo) (s : Spot) : m.Extends (m.saveMismatch s) :=
  ⟨List.prefix_refl _, fun _ h => (isMismatch_saveMismatch _ _ _).2 (Or.inr h), fun _ h => h⟩

theorem saveStarted (m : Memo) (s : Spot) : m.Extends (m.saveStarted s) :=
  ⟨List.prefix_refl _, fun _ h => h, fun _ h => (isStarted_saveStarted _ _ _).2 (Or.inr h)⟩

end Extends

end Memo

end Packrat
