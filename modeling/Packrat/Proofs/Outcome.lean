import Packrat.Proofs.Soundness

/-!
# `Packrat/Proofs/Outcome.lean` — when the text counts as matched

`Cursor.matched` looks at the cursor only: it says whether the run ended at the end of the text. A
run that fails ends at the beginning, and over the empty text the two ends are one. There, and only
there, the flag is raised without a match of the start rule.
-/

set_option autoImplicit false

namespace Packrat

variable {g : Grammar} {text : Text}

/-- The longest match of the rule at the beginning of the text is the whole text. -/
def Cursor.Whole (c : Cursor text) (r : Rule) : Prop :=
  ⟨r.name, 0, text.size⟩ ∈ c.memo.log ∧ ∀ e : Int, ⟨r.name, 0, e⟩ ∈ c.memo.log → e ≤ text.size

theorem Cursor.matched_iff (c : Cursor text) : c.matched = true ↔ c.pos.val = text.size := by
  rw [matched, atEnd, beq_iff_eq]

theorem Cursor.whole_iff {c : Cursor text} (h : c.memo.Coherent) (r : Rule) :
    c.Whole r ↔ c.memo.longest? ⟨r.name, 0⟩ = some (text.size : Int) :=
  (h.longest_iff ⟨r.name, 0⟩ text.size).symm

/-- There is a tree as soon as anything was recorded. -/
theorem Cursor.tree?_ne_none {c : Cursor text} {x : Match} (hx : x ∈ c.memo.log) :
    c.tree? ≠ none := by
  unfold Cursor.tree?
  cases hl : c.memo.log.toList with
  | nil =>
    rw [← Array.mem_toList_iff, hl] at hx
    exact absurd hx (by simp)
  | cons y ys => exact Option.some_ne_none _

/-- A match of the whole text is a derivation of it, it raises the flag, and it has a tree. -/
theorem Cursor.of_whole {c : Cursor text} (h : c.memo.Settled g text []) {r : Rule}
    (hpos : c.memo.longest? ⟨r.name, 0⟩ = some (c.pos.val : Int)) (hw : c.Whole r) :
    c.matched = true ∧ Derives g text r.name 0 text.size ∧ c.tree? ≠ none := by
  have hlong := (Cursor.whole_iff h.coherent r).1 hw
  refine ⟨c.matched_iff.2 ?_, h.justified.derives_of_mem hw.1, Cursor.tree?_ne_none hw.1⟩
  exact Int.ofNat.inj (Option.some.inj (hpos.symm.trans hlong))

/-- The cursor is where the longest match ends, and the flag asks whether that is the end of the
text. -/
theorem Cursor.matched_iff_of_longest {c : Cursor text} (h : c.memo.Settled g text []) {r : Rule}
    (hlong : c.memo.longest? ⟨r.name, 0⟩ = some (c.pos.val : Int)) :
    c.matched = true ↔ c.Whole r := by
  rw [Cursor.matched_iff, Cursor.whole_iff h.coherent, hlong, Option.some.injEq, Int.natCast_inj]

theorem Cursor.not_whole_of_mismatch {c : Cursor text} (h : c.memo.Settled g text []) {r : Rule}
    (hm : c.memo.isMismatch ⟨r.name, 0⟩ = true) : ¬ c.Whole r := by
  rw [Cursor.whole_iff h.coherent, h.apart _ hm]
  simp

/-- The flag is raised by a match of the whole text, and always over the empty text. -/
theorem Grammar.matched_iff_of_parse (hg : g.Owned) {start : Option String} {limit : Int}
    {c : Cursor text} (h : g.parse text start limit = .ok c) {r : Rule}
    (hr : g.startRule start = .ok r) : c.matched = true ↔ c.Whole r ∨ text.size = 0 := by
  obtain ⟨r', hr', hset, hend⟩ := Grammar.settled_of_parse hg h
  cases hr.symm.trans hr'
  have hempty : text.size = 0 → c.matched = true := by
    intro h0
    have hpos := c.pos.isLt
    rw [Cursor.matched_iff]
    omega
  rcases hend with ⟨-, hlong⟩ | ⟨-, hm, hpos⟩
  · rw [Cursor.matched_iff_of_longest hset hlong] at hempty ⊢
    exact ⟨.inl, fun h => h.elim id hempty⟩
  · rw [or_iff_right (Cursor.not_whole_of_mismatch hset hm), Cursor.matched_iff, hpos, eq_comm]

/-- The flag says whether the start rule matches the whole text, unless the text is empty and the
rule fails on it: a run that fails ends at the beginning, which is the end of an empty text. A match
of the whole text is a derivation of it and has a tree. -/
theorem matched_iff_whole {lib : Regex.Library} {s : RuleSet} (hs : s.compile lib = .ok g)
    {start : Option String} {limit : Int} {c : Cursor text} (h : g.parse text start limit = .ok c) :
    ∃ r, g.startRule start = .ok r ∧
      ((c.matched = true ↔ c.Whole r) ↔
        ¬ (text.size = 0 ∧ c.memo.isMismatch ⟨r.name, 0⟩ = true)) ∧
      (c.Whole r → c.matched = true ∧ Derives g text r.name 0 text.size ∧ c.tree? ≠ none) := by
  obtain ⟨r, hr, hset, hend⟩ := Grammar.settled_of_parse (RuleSet.owned_of_compile hs) h
  refine ⟨r, hr, ?_⟩
  rcases hend with ⟨-, hlong⟩ | ⟨-, hm, hpos⟩
  · -- the run matched: the flag tells the truth, whatever the text
    have hno : ¬ (text.size = 0 ∧ c.memo.isMismatch ⟨r.name, 0⟩ = true) := by
      rintro ⟨-, hm⟩
      rw [hset.not_mismatch hlong] at hm
      exact absurd hm (by simp)
    have hiff := Cursor.matched_iff_of_longest hset hlong
    exact ⟨iff_of_true hiff hno, Cursor.of_whole hset hlong⟩
  · -- the run failed: there is no match, and the cursor is at 0
    have hnot := Cursor.not_whole_of_mismatch hset hm
    refine ⟨?_, fun hw => absurd hw hnot⟩
    rw [Cursor.matched_iff, hpos, iff_false_right hnot, and_iff_left hm, eq_comm]

theorem whole_sum :
    sums.compile .standard = .ok sumGrammar ∧
    ∃ c, sumGrammar.parse #['1', '+', '1'] none 5 = .ok c ∧ c.matched = true ∧ c.Whole sumRule ∧
      Derives sumGrammar #['1', '+', '1'] "sum" 0 3 ∧ c.tree? ≠ none := by
  have hend : (sumGrammar.parse #['1', '+', '1'] none 5).toOption.map
      (fun c => (c.matched, c.memo.isMismatch ⟨"sum", 0⟩)) = some (true, false) := by decide +kernel
  obtain ⟨c, hc, hval⟩ := exists_of_toOption_map hend
  obtain ⟨hmatched, hm⟩ := Prod.mk.inj hval
  obtain ⟨r, hr, hiff, hwhole⟩ := matched_iff_whole (compile_sums .standard) hc
  cases (show Except.ok sumRule = .ok r from hr)
  have hw := (hiff.2 fun h => absurd h.1 (by decide)).1 hmatched
  exact ⟨rfl, c, hc, hmatched, hw, (hwhole hw).2⟩

/-! ## A failure that looks like a match -/

/-- The only sentence is `x`. -/
def onlyX : RuleSet := ⟨[("a", [[.literal "x"]])], some "a"⟩

def onlyXRule : Rule := ⟨"a", [⟨"a", [.literal "x"]⟩]⟩

def onlyXGrammar : Grammar := ⟨[onlyXRule], some "a"⟩

/-- Over the empty text the rule fails, nothing is recorded, and the flag is raised all the same. -/
theorem matched_empty_not_whole :
    onlyX.compile .standard = .ok onlyXGrammar ∧ onlyXGrammar.startRule none = .ok onlyXRule ∧
    ∃ c, onlyXGrammar.parse #[] none 200 = .ok c ∧ c.matched = true ∧ ¬ c.Whole onlyXRule ∧
      c.tree? = none := by
  have hend : (onlyXGrammar.parse #[] none 200).toOption.map (fun c => (c.matched, c.memo.log)) =
      some (true, #[]) := by decide +kernel
  obtain ⟨c, hc, hval⟩ := exists_of_toOption_map hend
  obtain ⟨hmatched, hlog⟩ := Prod.mk.inj hval
  refine ⟨rfl, rfl, c, hc, hmatched, ?_, ?_⟩
  · rintro ⟨hmem, -⟩
    rw [hlog] at hmem
    exact absurd hmem (by simp)
  · rw [Cursor.tree?, hlog]
    rfl

end Packrat
