import Packrat.Program
import Packrat.Proofs.Run.Resolution

/-!
# `Packrat/Proofs/Run/Allowance.lean` — how deep a run may go

A cursor carries a limit and a depth, and a run looks at them only when it follows a reference. The
run of a rule leaves both as they are, so the number of levels that a run may use is fixed when it
begins: `Grammar.run_eq_resolve` reads a whole run with `resolve` at that number in place of
`follow`, which looks it up at every reference. All else that is proved about runs starts from there.
-/

set_option autoImplicit false

namespace Packrat

variable {text : Text}

/-- The limit and the depth of a cursor. -/
def Cursor.allowance (c : Cursor text) : Int × Int := (c.limit, c.depth)

/-- The cursor at the end of a round. -/
def Round.cursor : Round text → Cursor text
  | ended _ c => c
  | stopped _ c => c

theorem Cursor.levels_eq_of_allowance {c d : Cursor text} (h : c.allowance = d.allowance) :
    c.levels = d.levels := by
  obtain ⟨hl, hd⟩ := Prod.mk.inj h
  rw [levels, levels, hl, hd]

/-- A move inside the text changes the position and nothing else; outside of it the cursor stays. -/
theorem Result.matchedAt_cases (c : Cursor text) (i : Int) :
    (∃ p : Fin (text.size + 1), (p.val : Int) = i ∧ Result.matchedAt c i = .matched (c.backTo p)) ∨
      ∃ f, Result.matchedAt c i = .stopped f c := by
  unfold Result.matchedAt Cursor.moveTo Cursor.position?
  by_cases hi : 0 ≤ i ∧ i ≤ text.size
  · refine Or.inl ⟨⟨i.toNat, by omega⟩, Int.toNat_of_nonneg hi.1, ?_⟩
    rw [dif_pos hi]
    rfl
  · rw [dif_neg hi]
    exact Or.inr ⟨_, rfl⟩

@[simp] theorem Result.allowance_matchedAt (c : Cursor text) (i : Int) :
    (Result.matchedAt c i).cursor.allowance = c.allowance := by
  rcases Result.matchedAt_cases c i with ⟨p, -, h⟩ | ⟨f, h⟩ <;> rw [h] <;> rfl

/-! ## A run leaves the allowance as it is -/

/-- Following a reference leaves the allowance as it is. -/
def Follow.Steady (f : Follow text) : Prop := ∀ name c, (f name c).cursor.allowance = c.allowance

section

variable {f : Follow text}

theorem Term.allowance_run (hf : f.Steady) (t : Term) (c : Cursor text) :
    (t.run f c).cursor.allowance = c.allowance := by
  cases t with
  | literal s =>
    rw [Term.run]
    split
    · exact Result.allowance_matchedAt _ _
    · rfl
  | pattern r =>
    rw [Term.run]
    split
    · exact Result.allowance_matchedAt _ _
    · rfl
  | reference name => exact hf name c
  | foreignLiteral v => rfl
  | foreign v => rfl

theorem runTerms_allowance (hf : f.Steady) : ∀ (ts : List Term) (c : Cursor text),
    (runTerms f ts c).cursor.allowance = c.allowance
  | [], c => rfl
  | t :: ts, c => by
    have ht := Term.allowance_run hf t c
    rw [runTerms]
    split
    · rename_i d hd
      rw [hd] at ht
      rw [runTerms_allowance hf ts d]
      exact ht
    · exact ht

theorem Alternative.allowance_run (hf : f.Steady) (a : Alternative) (c : Cursor text) :
    (a.run f c).cursor.allowance = c.allowance := by
  have h := runTerms_allowance hf a.terms c
  rw [Alternative.run]
  split <;> rename_i hd <;> rw [hd] at h <;> exact h

theorem runRound_allowance (hf : f.Steady) (start : Fin (text.size + 1)) :
    ∀ (as : List Alternative) (longest : Option (Fin (text.size + 1))) (c : Cursor text),
      (runRound f start as longest c).cursor.allowance = c.allowance
  | [], _, _ => rfl
  | a :: as, longest, c => by
    have ha := Alternative.allowance_run hf a (c.backTo start)
    rw [runRound]
    split <;> rename_i d hd <;> rw [hd] at ha
    · rw [runRound_allowance hf start as _ d]
      exact ha
    · rw [runRound_allowance hf start as _ d]
      exact ha
    · exact ha

theorem grow_allowance (hf : f.Steady) (r : Rule) (start best : Fin (text.size + 1))
    (c : Cursor text) : (grow f r start best c).cursor.allowance = c.allowance := by
  have hround := runRound_allowance hf start r.alternatives none
  induction best, c using grow.induct f r start with
  | case1 best c fault d hd =>
    have h := hround c
    rw [hd] at h
    rw [grow_of_stopped hd]
    exact h
  | case2 best c d hd =>
    have h := hround c
    rw [hd] at h
    rw [grow_of_none hd]
    exact h
  | case3 best c longest d hd hlt ih =>
    have h := hround c
    rw [hd] at h
    rw [grow_of_lt hd hlt, ih]
    exact h
  | case4 best c longest d hd hlt =>
    have h := hround c
    rw [hd] at h
    rw [grow_of_not_lt hd hlt]
    exact h

theorem Rule.allowance_run (hf : f.Steady) (r : Rule) (c : Cursor text) :
    (r.run f c).cursor.allowance = c.allowance := by
  rw [Rule.run, grow_allowance hf]
  rfl

end

theorem resolve_steady (g : Grammar) : ∀ n, Follow.Steady (resolve g n : Follow text) := by
  intro n
  induction n using Nat.strongRecOn with
  | ind n ih =>
    intro name c
    have h := resolution g n name c
    generalize resolve g n name c = res at h
    cases h with
    | recorded hm hl => exact Result.allowance_matchedAt _ _
    | fresh _ _ _ _ hn => exact Rule.allowance_run (ih _ (by omega)) _ _
    | _ => rfl

/-! ## Two ways to follow a reference -/

section

variable {f f' : Follow text} {w : Int × Int}

theorem Term.run_congr (h : ∀ name c, c.allowance = w → f name c = f' name c) (t : Term)
    (c : Cursor text) (hc : c.allowance = w) : t.run f c = t.run f' c := by
  cases t with
  | reference name => exact h name c hc
  | _ => rfl

theorem runTerms_congr (hf : f'.Steady) (h : ∀ name c, c.allowance = w → f name c = f' name c) :
    ∀ (ts : List Term) (c : Cursor text), c.allowance = w → runTerms f ts c = runTerms f' ts c
  | [], _, _ => rfl
  | t :: ts, c, hc => by
    have ht := Term.allowance_run hf t c
    rw [runTerms, runTerms, Term.run_congr h t c hc]
    split
    · rename_i d hd
      rw [hd] at ht
      exact runTerms_congr hf h ts d (ht.trans hc)
    · rfl

theorem Alternative.run_congr (hf : f'.Steady)
    (h : ∀ name c, c.allowance = w → f name c = f' name c) (a : Alternative) (c : Cursor text)
    (hc : c.allowance = w) : a.run f c = a.run f' c := by
  rw [Alternative.run, Alternative.run, runTerms_congr hf h a.terms c hc]

theorem runRound_congr (hf : f'.Steady) (h : ∀ name c, c.allowance = w → f name c = f' name c)
    (start : Fin (text.size + 1)) :
    ∀ (as : List Alternative) (longest : Option (Fin (text.size + 1))) (c : Cursor text),
      c.allowance = w → runRound f start as longest c = runRound f' start as longest c
  | [], _, _, _ => rfl
  | a :: as, longest, c, hc => by
    have ha := Alternative.allowance_run hf a (c.backTo start)
    rw [runRound, runRound, Alternative.run_congr hf h a (c.backTo start) hc]
    split
    · rename_i d hd
      rw [hd] at ha
      exact runRound_congr hf h start as _ d (ha.trans hc)
    · rename_i d hd
      rw [hd] at ha
      exact runRound_congr hf h start as _ d (ha.trans hc)
    · rfl

theorem grow_congr (hf : f'.Steady) (h : ∀ name c, c.allowance = w → f name c = f' name c)
    (r : Rule) (start best : Fin (text.size + 1)) (c : Cursor text) (hc : c.allowance = w) :
    grow f r start best c = grow f' r start best c := by
  have hround := runRound_congr hf h start r.alternatives none
  induction best, c using grow.induct f' r start with
  | case1 best c fault d hd =>
    rw [grow_of_stopped hd, grow_of_stopped ((hround c hc).trans hd)]
  | case2 best c d hd => rw [grow_of_none hd, grow_of_none ((hround c hc).trans hd)]
  | case3 best c longest d hd hlt ih =>
    have hw := runRound_allowance hf start r.alternatives none c
    rw [hd] at hw
    rw [grow_of_lt hd hlt, grow_of_lt ((hround c hc).trans hd) hlt]
    exact ih (hw.trans hc)
  | case4 best c longest d hd hlt =>
    rw [grow_of_not_lt hd hlt, grow_of_not_lt ((hround c hc).trans hd) hlt]

theorem Rule.run_congr (hf : f'.Steady) (h : ∀ name c, c.allowance = w → f name c = f' name c)
    (r : Rule) (c : Cursor text) (hc : c.allowance = w) : r.run f c = r.run f' c :=
  grow_congr hf h r _ _ _ hc

end

/-- The run of a rule follows its references with the levels that its cursor allows. -/
theorem Rule.run_follow (g : Grammar) (r : Rule) (c : Cursor text) :
    r.run (follow g) c = r.run (resolve g c.levels) c :=
  Rule.run_congr (resolve_steady g _)
    (fun name d hd => by rw [follow, Cursor.levels_eq_of_allowance hd]) r c rfl

/-- A run of a grammar may nest references as often as its limit says. -/
theorem Grammar.run_eq_resolve (g : Grammar) (text : Text) (limit : Int) (r : Rule) :
    g.run text limit r = r.run (resolve g limit.toNat) (.first text limit) := by
  rw [Grammar.run, Rule.run_follow]
  congr 2
  simp [Cursor.levels, Cursor.first]

end Packrat
