import Packrat.Cursor
import Packrat.Proofs.Memo

/-!
# `Packrat/Proofs/Memo/History.lean` — what a memo tells about what was saved in it

A memo is written in three ways: a match is saved, a failure, or a beginning. `Memo.saves` is any number of
such writes, one after the other, with what each of them answers.

Whatever the writes and their order, the tables tell the history of the memo (`Memo.Tells`): the log holds
the matches that were saved, each where it was saved first; an answer tells whether the write was the
first of its kind; the index holds the greatest of the ends in the log; and the furthest failure is
that of the failures saved, in no matter what order. One write keeps this up (`Tells.save`), and so do
all of them (`Tells.saves`).

The index is a table of its own, written beside the log. That it agrees with the log is
`Memo.Coherent`; here it is only put as a maximum.
-/

set_option autoImplicit false

namespace Packrat

/-! ## The furthest spot -/

namespace Spot

/-- Of the spots of which `P` holds this one is furthest into the text, and of those at its offset it is
the one whose name comes first. -/
structure FurthestOf (P : Spot → Prop) (s : Spot) : Prop where
  holds : P s
  furthest : ∀ t, P t → t.start < s.start ∨ t.start = s.start ∧ s.name ≤ t.name

theorem FurthestOf.unique {P : Spot → Prop} {s t : Spot} (hs : FurthestOf P s)
    (ht : FurthestOf P t) : s = t := by
  have hst := ht.furthest s hs.holds
  have hts := hs.furthest t ht.holds
  have hstart : s.start = t.start := by omega
  have hname : s.name = t.name := by
    refine Std.le_antisymm ?_ ?_
    · exact (hts.resolve_left (by omega)).2
    · exact (hst.resolve_left (by omega)).2
  cases s
  cases t
  simp_all

theorem order_eq_lt {s t : Spot} (h : order s t = .lt) :
    s.start < t.start ∨ s.start = t.start ∧ s.name < t.name := by
  rcases Ordering.then_eq_lt.1 h with hlt | ⟨heq, hlt⟩
  · exact Or.inl (Std.compare_eq_lt.1 hlt)
  · exact Or.inr ⟨Std.LawfulEqCmp.compare_eq_iff_eq.1 heq, compareOfLessAndEq_eq_lt.1 hlt⟩

end Spot

namespace Memo

/-- Of spots in order the furthest is found by looking at one after the other: a spot at the same offset as
the best so far has a name that comes later. -/
theorem foldl_later {l : List Spot} (h : l.Pairwise fun s t => Spot.order s t = .lt) (hne : l ≠ []) :
    ∃ s, l.foldl later none = some s ∧ s.FurthestOf (· ∈ l) := by
  induction l using List.reverseRecOn with
  | nil => exact absurd rfl hne
  | append_singleton l t ih =>
    obtain ⟨hl, -, hlt⟩ := List.pairwise_append.1 h
    rw [List.foldl_concat]
    rcases List.eq_nil_or_concat' l with rfl | ⟨_, _, hl'⟩
    · exact ⟨t, rfl, by simp, by simp⟩
    obtain ⟨s, hs, hfur⟩ := ih hl (by simp [hl'])
    have hst := Spot.order_eq_lt (hlt s hfur.holds t (by simp))
    rw [hs, later]
    split
    · rename_i hbehind
      refine ⟨t, rfl, by simp, fun u hu => ?_⟩
      rcases List.mem_append.1 hu with hu | hu
      · have hus := hfur.furthest u hu
        exact Or.inl (by omega)
      · cases List.mem_singleton.1 hu
        exact Or.inr ⟨rfl, Std.le_refl _⟩
    · rename_i hbehind
      have htie := hst.resolve_left hbehind
      refine ⟨s, rfl, by simp [hfur.holds], fun u hu => ?_⟩
      rcases List.mem_append.1 hu with hu | hu
      · exact hfur.furthest u hu
      · cases List.mem_singleton.1 hu
        exact Or.inr ⟨htie.1.symm, Std.le_of_lt htie.2⟩

theorem furthestMismatch?_cases (m : Memo) :
    (m.furthestMismatch? = none ∧ ∀ s, ¬ m.isMismatch s = true) ∨
      ∃ s, m.furthestMismatch? = some s ∧ s.FurthestOf (m.isMismatch · = true) := by
  have hmem : ∀ s, s ∈ m.mismatches.toList ↔ m.isMismatch s = true := fun s =>
    Std.TreeSet.mem_toList.trans Std.TreeSet.mem_iff_contains
  rw [furthestMismatch?, Std.TreeSet.foldl_eq_foldl_toList]
  by_cases hnil : m.mismatches.toList = []
  · refine Or.inl ⟨by rw [hnil]; rfl, fun s hs => ?_⟩
    rw [← hmem, hnil] at hs
    exact absurd hs (by simp)
  · obtain ⟨s, hs, hfur⟩ := foldl_later Std.TreeSet.ordered_toList hnil
    exact Or.inr ⟨s, hs, (hmem s).1 hfur.holds, fun t ht => hfur.furthest t ((hmem t).2 ht)⟩

/-- The furthest failure is the furthest of the spots that failed. -/
theorem furthestMismatch?_eq_some_iff {m : Memo} {s : Spot} :
    m.furthestMismatch? = some s ↔ s.FurthestOf (m.isMismatch · = true) := by
  rcases m.furthestMismatch?_cases with ⟨hnone, hno⟩ | ⟨t, ht, hfur⟩
  · rw [hnone]
    exact iff_of_false (by simp) fun h => hno s h.holds
  · rw [ht, Option.some.injEq]
    exact ⟨fun h => h ▸ hfur, fun h => hfur.unique h⟩

theorem furthestMismatch?_eq_none_iff {m : Memo} :
    m.furthestMismatch? = none ↔ ∀ s, ¬ m.isMismatch s = true := by
  rcases m.furthestMismatch?_cases with ⟨hnone, hno⟩ | ⟨t, ht, hfur⟩
  · exact iff_of_true hnone hno
  · rw [ht]
    exact iff_of_false (by simp) fun h => h t hfur.holds

/-! ## The index as a maximum -/

/-- The index holds the greatest of the ends of the matches at a spot, and nothing where there is no
match. -/
theorem Coherent.longest?_eq_max? {m : Memo} (h : m.Coherent) (s : Spot) :
    m.longest? s = ((m.log.toList.filter (·.spot = s)).map (·.stop)).max? := by
  have hmem : ∀ e, e ∈ (m.log.toList.filter (·.spot = s)).map (·.stop) ↔
      (⟨s.name, s.start, e⟩ : Match) ∈ m.log := by
    intro e
    simp only [List.mem_map, List.mem_filter, Array.mem_toList_iff, decide_eq_true_eq]
    constructor
    · rintro ⟨x, ⟨hx, rfl⟩, rfl⟩
      exact hx
    · exact fun he => ⟨_, ⟨he, rfl⟩, rfl⟩
  symm
  cases hs : m.longest? s with
  | none =>
    rw [List.max?_eq_none_iff, List.eq_nil_iff_forall_not_mem]
    intro e he
    exact (h.longest_eq_none_iff s).1 hs _ ((hmem e).1 he) rfl
  | some e =>
    obtain ⟨he, hmax⟩ := (h.longest_iff s e).1 hs
    exact List.max?_eq_some_iff.2 ⟨(hmem e).2 he, fun d hd => hmax d ((hmem d).1 hd)⟩

/-! ## Histories -/

/-- A write. -/
inductive Save where
  | matched (x : Match)
  | failed (s : Spot)
  | begun (s : Spot)
deriving DecidableEq

/-- The match that a write saves. -/
def Save.match? : Save → Option Match
  | .matched x => some x
  | .failed _ => none
  | .begun _ => none

/-- One write, with its answer. -/
def save (m : Memo) : Save → Bool × Memo
  | .matched x => m.addMatch x
  | .failed s => m.addMismatch s
  | .begun s => m.addStarted s

/-- Writes one after the other, with their answers. -/
def saves (m : Memo) : List Save → List Bool × Memo
  | [] => ([], m)
  | w :: ws => ((m.save w).1 :: ((m.save w).2.saves ws).1, ((m.save w).2.saves ws).2)

/-- The tables tell that the writes `ws` were made, and no others. -/
structure Tells (ws : List Save) (m : Memo) : Prop where
  coherent : m.Coherent
  log : m.log.toList = (ws.filterMap Save.match?).eraseDups
  mismatch : ∀ s, m.isMismatch s = true ↔ .failed s ∈ ws
  started : ∀ s, m.isStarted s = true ↔ .begun s ∈ ws

theorem tells_empty : Tells [] {} where
  coherent := coherent_empty
  log := rfl
  mismatch s := by simp [isMismatch]
  started s := by simp [isStarted]

namespace Tells

variable {ws : List Save} {m : Memo}

theorem recorded (h : Tells ws m) (x : Match) : m.hasMatch x = true ↔ .matched x ∈ ws := by
  rw [hasMatch, h.coherent.recorded_iff, ← Array.mem_toList_iff, h.log, List.mem_eraseDups,
    List.mem_filterMap]
  constructor
  · rintro ⟨w, hw, hx⟩
    cases w with
    | matched y =>
      cases hx
      exact hw
    | failed _ | begun _ => cases hx
  · exact fun hx => ⟨_, hx, rfl⟩

/-- A write answers whether it is new. -/
theorem answer (h : Tells ws m) (w : Save) : (m.save w).1 = decide (w ∉ ws) := by
  have hnew : ∀ {b : Bool}, (b = true ↔ w ∈ ws) → (!b) = decide (w ∉ ws) := by
    intro b hb
    cases b <;> simp_all
  cases w with
  | matched x => exact hnew (h.recorded x)
  | failed s => exact hnew (h.mismatch s)
  | begun s => exact hnew (h.started s)

/-- A match goes to the end of the log, unless it is there. -/
theorem log_matched (h : Tells ws m) (x : Match) :
    (m.saveMatch x).log.toList = ((ws ++ [Save.matched x]).filterMap Save.match?).eraseDups := by
  have hlog := h.log
  have hrec : m.recorded.contains x = true ↔ x ∈ ws.filterMap Save.match? := by
    rw [h.coherent.recorded_iff, ← Array.mem_toList_iff, hlog, List.mem_eraseDups]
  have hone : [Save.matched x].filterMap Save.match? = [x] := rfl
  rw [log_saveMatch, List.filterMap_append, List.eraseDups_append, hone, List.removeAll]
  generalize ws.filterMap Save.match? = xs at hlog hrec ⊢
  by_cases hx : x ∈ xs
  · simp [hrec.2 hx, hlog, hx]
  · simp [mt hrec.1 hx, hlog, hx, List.eraseDups_cons]

/-- One write more is told, too. -/
theorem save (h : Tells ws m) {w : Save} (hw : ∀ x, w = .matched x → 0 ≤ x.stop) :
    Tells (ws ++ [w]) (m.save w).2 := by
  cases w with
  | matched x =>
    refine ⟨h.coherent.saveMatch (hw x rfl), h.log_matched x, fun s => ?_, fun s => ?_⟩
    · simp [Memo.save, addMatch, h.mismatch]
    · simp [Memo.save, addMatch, h.started]
  | failed s =>
    refine ⟨h.coherent.saveMismatch s, ?_, fun t => ?_, fun t => ?_⟩
    · simp [Memo.save, addMismatch, h.log, Save.match?, List.filterMap_cons]
    · simp [Memo.save, addMismatch, h.mismatch, or_comm]
    · simp [Memo.save, addMismatch, h.started]
  | begun s =>
    refine ⟨h.coherent.saveStarted s, ?_, fun t => ?_, fun t => ?_⟩
    · simp [Memo.save, addStarted, h.log, Save.match?, List.filterMap_cons]
    · simp [Memo.save, addStarted, h.mismatch]
    · simp [Memo.save, addStarted, h.started, or_comm]

/-- All further writes are told, and each answers whether there was one like it before. -/
theorem saves (h : Tells ws m) {more : List Save} (hmore : ∀ x, .matched x ∈ more → 0 ≤ x.stop) :
    Tells (ws ++ more) (m.saves more).2 ∧
      ∀ i, (m.saves more).1[i]? = more[i]?.map fun w => decide (w ∉ ws ++ more.take i) := by
  induction more generalizing ws m with
  | nil => exact ⟨by rwa [List.append_nil], by simp [Memo.saves]⟩
  | cons w more ih =>
    have hfirst : Tells (ws ++ [w]) (m.save w).2 :=
      h.save fun x hx => hmore x (hx ▸ List.mem_cons_self)
    obtain ⟨htells, hanswers⟩ := ih hfirst fun x hx => hmore x (List.mem_cons_of_mem w hx)
    rw [List.append_assoc] at htells
    refine ⟨htells, fun i => ?_⟩
    cases i with
    | zero => simp [Memo.saves, h.answer]
    | succ i => simp [Memo.saves, hanswers]

/-- The furthest failure is told by the failures alone. -/
theorem furthestMismatch?_eq_some_iff (h : Tells ws m) {s : Spot} :
    m.furthestMismatch? = some s ↔ s.FurthestOf (.failed · ∈ ws) := by
  rw [Memo.furthestMismatch?_eq_some_iff,
    show (m.isMismatch · = true) = (.failed · ∈ ws) from funext fun t => propext (h.mismatch t)]

end Tells

end Memo

/-- Whatever is saved with a new cursor, as long as no match ends before the text begins: the log holds
the matches, each where it was saved first; a write answers whether there was none like it before; the
longest match of a rule at an offset ends with the greatest of the ends in the log; and the furthest
failure is that of the failures saved, also if all was saved in another order. -/
theorem history_told (text : Text) (limit : Int) {ws : List Memo.Save}
    (hws : ∀ x, .matched x ∈ ws → 0 ≤ x.stop) :
    ∃ answers m, (Cursor.first text limit).memo.saves ws = (answers, m) ∧
      m.log.toList = (ws.filterMap Memo.Save.match?).eraseDups ∧
      (∀ i, answers[i]? = ws[i]?.map fun w => decide (w ∉ ws.take i)) ∧
      (∀ s, m.longest? s = ((m.log.toList.filter (·.spot = s)).map (·.stop)).max?) ∧
      (m.furthestMismatch? = none ↔ ∀ s, .failed s ∉ ws) ∧
      (∀ s, m.furthestMismatch? = some s ↔ s.FurthestOf (.failed · ∈ ws)) ∧
      ∀ ws', ws'.Perm ws →
        ((Cursor.first text limit).memo.saves ws').2.furthestMismatch? = m.furthestMismatch? := by
  obtain ⟨htells, hanswers⟩ := Memo.tells_empty.saves hws
  refine ⟨_, _, rfl, htells.log, hanswers, htells.coherent.longest?_eq_max?, ?_,
    fun s => htells.furthestMismatch?_eq_some_iff, fun ws' hperm => ?_⟩
  · rw [Memo.furthestMismatch?_eq_none_iff]
    exact forall_congr' fun s => not_congr (htells.mismatch s)
  · obtain ⟨htells', -⟩ := Memo.tells_empty.saves fun x hx => hws x (hperm.mem_iff.1 hx)
    refine Option.ext fun s => ?_
    rw [Cursor.first, htells'.furthestMismatch?_eq_some_iff, htells.furthestMismatch?_eq_some_iff]
    simp only [List.nil_append, hperm.mem_iff]

/-! ## Words, and what failed behind them

A longer match comes before a shorter one and comes again, and two rules fail at one offset. -/

def wordHistory : List Memo.Save :=
  [.matched ⟨"word", 1, 7⟩, .failed ⟨"space", 4⟩, .matched ⟨"word", 1, 6⟩, .failed ⟨"word", 2⟩,
    .matched ⟨"word", 1, 7⟩, .failed ⟨"letter", 4⟩, .begun ⟨"word", 1⟩, .failed ⟨"space", 4⟩]

theorem history_told_words :
    (∀ x, .matched x ∈ wordHistory → 0 ≤ x.stop) ∧
    ∃ answers m, (Cursor.first #[] standardLimit).memo.saves wordHistory = (answers, m) ∧
      m.log.toList = [⟨"word", 1, 7⟩, ⟨"word", 1, 6⟩] ∧
      answers[0]? = some true ∧ answers[4]? = some false ∧ answers[7]? = some false ∧
      m.longest? ⟨"word", 1⟩ = some 7 ∧ m.furthestMismatch? = some ⟨"letter", 4⟩ := by
  have hws : ∀ x, .matched x ∈ wordHistory → 0 ≤ x.stop := by simp [wordHistory]
  obtain ⟨answers, m, heq, hlog, hanswers, hlongest, -, hfurthest, -⟩ :=
    history_told #[] standardLimit hws
  have hlog' : m.log.toList = [⟨"word", 1, 7⟩, ⟨"word", 1, 6⟩] := hlog.trans (by decide)
  refine ⟨hws, answers, m, heq, hlog', hanswers 0, hanswers 4, hanswers 7, ?_, ?_⟩
  · rw [hlongest, hlog']
    decide
  · refine (hfurthest _).2 ⟨by decide, fun t ht => ?_⟩
    simp only [wordHistory, List.mem_cons, List.not_mem_nil, or_false, reduceCtorEq, false_or,
      Memo.Save.failed.injEq] at ht
    rcases ht with rfl | rfl | rfl | rfl <;> decide

end Packrat
