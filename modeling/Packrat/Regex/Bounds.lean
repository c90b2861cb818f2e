import Packrat.Regex.Matcher

/-!
# `Packrat/Regex/Bounds.lean` — a match stays inside the text

A pattern that matches at an offset of a text ends at that offset or behind it, and still in the
text: `Parsed.matchEnd?_bounds`. This is what a regular expression has to promise before a grammar
may hold it, because a run takes the end of a pattern for its next position.

The claim is about reading from left to right. Inside a lookbehind the text is read from right to
left, but a lookaround gives its position back, so nothing has to be known about that direction.
-/

set_option autoImplicit false

namespace Packrat

namespace Regex

/-! ## Properties of all ways -/

/-- Every way leads to a state with the property. -/
def Ways.All (P : State → Prop) (w : Ways) : Prop := ∀ s ∈ w.toList, P s

namespace Ways

variable {P : State → Prop}

theorem all_none : none.All P := by simp [All]

theorem all_one {s : State} (h : P s) : (one s).All P := by simpa [All] using h

theorem all_way {s : State} {others : Unit → Ways} (h : P s) (ho : (others ()).All P) :
    (way s others).All P := by
  intro t ht
  rcases List.mem_cons.1 ht with rfl | ht
  · exact h
  · exact ho t ht

theorem All.first? {w : Ways} (h : w.All P) {s : State} (hs : w.first? = some s) : P s := by
  rw [← head?_toList] at hs
  exact h s (List.mem_of_mem_head? hs)

theorem All.distinct {w : Ways} (h : w.All P) : w.distinct.All P := fun t ht =>
  h t ((mem_toList_distinct w t).1 ht)

theorem All.append {w v : Ways} (hw : w.All P) (hv : v.All P) : (w.append fun _ => v).All P := by
  intro t ht
  rw [toList_append] at ht
  rcases List.mem_append.1 ht with ht | ht
  · exact hw t ht
  · exact hv t ht

theorem All.bind {Q : State → Prop} {w : Ways} {f : State → Ways} (hw : w.All P)
    (hf : ∀ s, P s → (f s).All Q) : (w.bind f).All Q := by
  intro t ht
  rw [toList_bind] at ht
  obtain ⟨s, hs, ht⟩ := List.mem_flatMap.1 ht
  exact hf s (hw s hs) t ht

theorem All.filterMap {Q : State → Prop} {w : Ways} {f : State → Option State} (hw : w.All P)
    (hf : ∀ s, P s → ∀ t, f s = some t → Q t) : (w.filterMap f).All Q := by
  intro t ht
  rw [toList_filterMap] at ht
  obtain ⟨s, hs, hst⟩ := List.mem_filterMap.1 ht
  exact hf s (hw s hs) t hst

theorem All.thread {α : Type} {go : State → α → (α → Ways) → Ways} {w : Ways} (hw : w.All P)
    (hgo : ∀ s, P s → ∀ a rest, (∀ b, (rest b).All P) → (go s a rest).All P) :
    ∀ (a : α) (rest : α → Ways), (∀ b, (rest b).All P) → (w.thread go a rest).All P := by
  induction w with
  | none => exact fun a rest hrest => hrest a
  | way s others ih =>
    intro a rest hrest
    have ho : (others ()).All P := fun t ht => hw t (List.mem_cons_of_mem s ht)
    exact hgo s (hw s List.mem_cons_self) a _ fun b => ih () ho b rest hrest

end Ways

/-- A property that every round keeps is kept by the repetition. -/
theorem Rounds.all_run {P : State → Prop} (r : Rounds) {body : State → Ways}
    (hbody : ∀ s, P s → (body s).All P) :
    ∀ (limit done : Nat) (moved : Bool) (s : State), P s →
      ∀ (seen : Std.HashSet Stage) (rest : Std.HashSet Stage → Ways), (∀ a, (rest a).All P) →
        (r.run body limit done moved s seen rest).All P := by
  intro limit
  induction limit with
  | zero => exact fun _ _ _ _ seen rest hrest => hrest seen
  | succ limit ih =>
    intro done moved s hs seen rest hrest
    -- the two things that a round may do: stop here, or go round once more
    have hleave : ∀ (rest : Std.HashSet Stage → Ways), (∀ a, (rest a).All P) → ∀ a,
        Ways.All P (if r.least ≤ done then .way s fun _ => rest a else rest a) := by
      intro rest hrest a
      split
      · exact Ways.all_way hs (hrest a)
      · exact hrest a
    have hagain : ∀ (rest : Std.HashSet Stage → Ways), (∀ a, (rest a).All P) → ∀ a,
        Ways.All P (if r.canGoOn done moved then
          (body s).thread (fun t => r.run body limit (done + 1) (t != s) t) a rest
        else rest a) := by
      intro rest hrest a
      split
      · exact (hbody s hs).thread (fun t ht b rest' hrest' => ih _ _ t ht b rest' hrest') a rest hrest
      · exact hrest a
    rw [Rounds.run]
    split
    · exact hrest seen
    · dsimp only
      split
      · exact hleave _ (hagain rest hrest) _
      · exact hagain _ (hleave rest hrest) _

/-! ## Positions -/

/-- The state stands at `lo` or behind it, and in the text. -/
def State.Within (v : Scene) (lo : Nat) (s : State) : Prop := lo ≤ s.pos ∧ s.pos ≤ v.text.size

theorem readChar_within {v : Scene} {lo : Nat} {p : Nat → Bool} {s t : State}
    (hs : s.Within v lo) (h : readChar v false p s = some t) : t.Within v lo := by
  simp only [readChar, Bool.false_eq_true, if_false] at h
  split at h
  · rename_i c hc
    have hlt : s.pos < v.text.size := (Array.getElem?_eq_some_iff.1 hc).1
    split at h
    · simp only [Option.some.injEq] at h
      subst h
      exact ⟨Nat.le_succ_of_le hs.1, hlt⟩
    · exact absurd h (by simp)
  · exact absurd h (by simp)

theorem readAgain_within {v : Scene} {lo group : Nat} {fold : Bool} {s t : State}
    (hs : s.Within v lo) (h : readAgain v false fold group s = some t) : t.Within v lo := by
  simp only [readAgain, Bool.false_eq_true, if_false] at h
  split at h
  · exact absurd h (by simp)
  · split at h
    · rename_i hfit
      simp only [Option.some.injEq] at h
      subst h
      exact ⟨Nat.le_trans hs.1 (Nat.le_add_right _ _), hfit.1⟩
    · exact absurd h (by simp)

/-- Reading from left to right never leaves the text and never goes back. -/
theorem run_within (v : Scene) (lo : Nat) : ∀ (e : Expr) (w : Ways), w.All (State.Within v lo) →
    (run v e false w).All (State.Within v lo) := by
  intro e
  induction e with
  | empty => exact fun w hw => hw
  | char code fold => exact fun w hw => hw.filterMap fun s hs t => readChar_within hs
  | dot newline => exact fun w hw => hw.filterMap fun s hs t => readChar_within hs
  | set positive members fold => exact fun w hw => hw.filterMap fun s hs t => readChar_within hs
  | anchor a =>
    intro w hw
    refine hw.filterMap fun s hs t ht => ?_
    split at ht
    · simp only [Option.some.injEq] at ht
      exact ht ▸ hs
    · exact absurd ht (by simp)
  | seq a b iha ihb => exact fun w hw => ihb _ (iha w hw)
  | alt a b iha ihb =>
    intro w hw
    rw [run]
    exact (hw.bind fun s hs => (iha _ (Ways.all_one hs)).append (ihb _ (Ways.all_one hs))).distinct
  | group index body ih =>
    intro w hw
    rw [run]
    split
    · refine (hw.bind fun s hs => ?_).distinct
      refine (ih _ (Ways.all_one hs)).filterMap fun t ht u hu => ?_
      simp only [Option.some.injEq] at hu
      exact hu ▸ ht
    · exact ih w hw
  | backref target fold =>
    intro w hw
    rw [run]
    exact (hw.filterMap fun s hs t => readAgain_within hs).distinct
  | repeated mode least most body ih =>
    intro w hw
    rw [run]
    have hways : ∀ s : State, s.Within v lo → Ways.All (State.Within v lo)
        (Rounds.ways ⟨least, most, mode = .lazy⟩ (fun s => run v body false (.one s))
          (roundLimit v least) s) := fun s hs =>
      Rounds.all_run _ (fun s hs => ih _ (Ways.all_one hs)) _ _ _ s hs _ _ fun _ => Ways.all_none
    split
    · exact (hw.filterMap fun s hs t ht => (hways s hs).first? ht).distinct
    · exact (hw.bind hways).distinct
  | atomic body ih =>
    intro w hw
    rw [run]
    exact (hw.filterMap fun s hs t ht => (ih _ (Ways.all_one hs)).first? ht).distinct
  | look behind positive body ih =>
    intro w hw
    cases positive with
    | true =>
      rw [run]
      refine (hw.filterMap fun s hs t ht => ?_).distinct
      obtain ⟨u, -, rfl⟩ := Option.map_eq_some_iff.1 ht
      exact hs
    | false =>
      rw [run]
      refine hw.filterMap fun s hs t ht => ?_
      split at ht
      · simp only [Option.some.injEq] at ht
        exact ht ▸ hs
      · exact absurd ht (by simp)

/-- A match ends where it begins or behind that, and in the text. -/
theorem Parsed.matchEnd?_bounds {r : Parsed} {text : Text} {i j : Nat} (hi : i ≤ text.size)
    (h : r.matchEnd? text i = some j) : i ≤ j ∧ j ≤ text.size := by
  obtain ⟨s, hs, rfl⟩ := Option.map_eq_some_iff.1 h
  exact (run_within _ i r.expr _ (Ways.all_one ⟨Nat.le_refl i, hi⟩)).first? hs

end Regex

end Packrat
