import Mathlib.Order.Lattice.Nat
import Packrat.Proofs.Outcome
import Packrat.Proofs.Run.Limit

/-!
# `Packrat/Proofs/DepthLimit.lean` — the limit refuses a run or leaves it alone

The limit has no say in what a run finds. To every rule and text belongs a number, the depth to which
references are nested when nothing refuses them. A limit that is not below it lets the run through, and
the outcome is the same to the last entry of the memo; a limit below it ends the run with a fault that
names the limit.

The limit is asked only where a reference begins a rule. A run in which no reference does is therefore
not refused by any limit, negative ones included (`negative_limit_not_refused`).
-/

set_option autoImplicit false

namespace Packrat

variable {g : Grammar} {text : Text} {r : Rule} {limit m : Int}

/-- How deep references are nested at the moments of a run. -/
def Grammar.depths (g : Grammar) (text : Text) (limit : Int) (r : Rule) : Set Nat :=
  {d | ∃ s, Reached g text limit r s ∧ s.nested = d}

theorem Grammar.zero_mem_depths : 0 ∈ g.depths text limit r :=
  ⟨_, .refl, rfl⟩

theorem Grammar.lt_of_mem_depths (hr : g.rule? r.name = some r) {d : Nat}
    (hd : d ∈ g.depths text limit r) : d < g.size * (text.size + 1) := by
  obtain ⟨s, hs, rfl⟩ := hd
  exact (Reached.orderly hr hs).nested_lt

theorem Grammar.exists_deepest (hr : g.rule? r.name = some r) (text : Text) (limit : Int) :
    ∃ D, IsGreatest (g.depths text limit r) D := by
  have hbound : BddAbove (g.depths text limit r) :=
    ⟨_, fun d hd => Nat.le_of_lt (Grammar.lt_of_mem_depths hr hd)⟩
  exact ⟨_, Nat.sSup_mem ⟨0, Grammar.zero_mem_depths⟩ hbound, fun d hd => le_csSup hbound hd⟩

/-- A limit that leaves room for all that a run does changes nothing about it. -/
theorem Grammar.run_under (hrun : ∀ f c, g.run text limit r ≠ .stopped f c)
    (hroom : ∀ d ∈ g.depths text limit r, (d : Int) ≤ max m 0) :
    g.run text m r = (g.run text limit r).under m ∧
      g.depths text limit r ⊆ g.depths text m r := by
  have hsame : ∀ s, Reached g text limit r s → Reached g text m r (s.under m) := by
    intro s hs
    rcases Reached.under hrun hs with h | ⟨-, t, ht, hdeep⟩
    · exact h
    · exact absurd (hroom _ ⟨t, ht, rfl⟩) (Int.not_le.2 hdeep)
  refine ⟨Reached.eq_run (hsame _ (reached_run g text limit r)), ?_⟩
  rintro d ⟨s, hs, rfl⟩
  refine ⟨s.under m, hsame s hs, ?_⟩
  cases s <;> rfl

/-- A limit that the run goes beyond stops it. -/
theorem Grammar.run_tooDeep (hr : g.rule? r.name = some r)
    (hrun : ∀ f c, g.run text limit r ≠ .stopped f c) {d : Nat} (hd : d ∈ g.depths text limit r)
    (hdeep : max m 0 < d) : ∃ name q c, g.run text m r = .stopped (.tooDeep name q m) c := by
  obtain ⟨s, hs, rfl⟩ := hd
  rcases Reached.under (m := m) hrun hs with h | ⟨h, -⟩
  · have hle := Reached.nested_le hr h
    rw [show (s.under m).nested = s.nested by cases s <;> rfl] at hle
    exact absurd hle (Int.not_le.2 hdeep)
  · exact h

/-- To every text belongs a depth. A limit that is not below it makes no difference to the outcome, and
the depth is how deep references are nested in the run then. A limit below it ends the run with a fault
that names the limit, unless the depth is zero: then no reference begins a rule, and no limit is ever
asked. -/
theorem limit_exact {lib : Regex.Library} {s : RuleSet} (hs : s.compile lib = .ok g)
    (ht : s.WellTyped) (hc : g.check = .ok ()) {start : Option String} (hr : g.startRule start = .ok r)
    (text : Text) : ∃ (D : Nat) (p : Fin (text.size + 1)) (memo : Memo),
    (∀ m : Int, D ≤ m ∨ D = 0 →
      g.parse text start m = .ok ⟨p, m, 0, memo⟩ ∧ IsGreatest (g.depths text m r) D) ∧
    ∀ m : Int, m < D → D ≠ 0 → ∃ name q, g.parse text start m = .error (.tooDeep name q m) := by
  have hrule := Grammar.rule?_of_startRule hr
  -- a run that nothing refuses, and what it comes to
  obtain ⟨limit, hlimit⟩ : ∃ limit : Int, (g.size * (text.size + 1) : Nat) - 1 ≤ limit :=
    ⟨_, Int.le_refl _⟩
  have hrun := Grammar.run_ne_stopped (RuleSet.owned_of_compile hs)
    (RuleSet.runnable_of_compile hs ht (Grammar.resolved_of_check hc)) hrule hlimit
  obtain ⟨D, hD⟩ := Grammar.exists_deepest hrule text limit
  have hdepth : (g.run text limit r).cursor.depth = 0 :=
    congrArg Prod.snd (Reached.allowance (reached_run g text limit r))
  refine ⟨D, (g.run text limit r).cursor.pos, (g.run text limit r).cursor.memo,
    fun m hm => ?_, fun m hm h0 => ?_⟩
  · obtain ⟨hsame, hsub⟩ := Grammar.run_under (m := m) hrun fun d hd => by
      have hle : d ≤ D := hD.2 hd
      omega
    have hrun' : ∀ f c, g.run text m r ≠ .stopped f c := hsame ▸ Result.under_ne_stopped hrun
    -- what the run does with the limit `m` it also does with the other, which is as good as none
    obtain ⟨-, hback⟩ := Grammar.run_under (m := limit) hrun' fun d hd => by
      have hlt := Grammar.lt_of_mem_depths hrule hd
      omega
    refine ⟨?_, Set.Subset.antisymm hback hsub ▸ hD⟩
    rw [Grammar.parse_of_run hr hrun', hsame, Result.cursor_under, Cursor.under, hdepth]
  · obtain ⟨name, q, c, hstop⟩ := Grammar.run_tooDeep (m := m) hrule hrun hD.1 (by omega)
    refine ⟨name, q, ?_⟩
    rw [Grammar.parse, hr]
    dsimp only
    rw [hstop]

/-- On `yzx` the rule `b` is begun by a reference, and the references in it are answered from the memo:
one level is enough, and none is too few. -/
theorem limit_exact_twins :
    twins.compile .standard = .ok twinGrammar ∧ twins.WellTyped ∧ twinGrammar.check = .ok () ∧
    twinGrammar.startRule none = .ok twinRule ∧ ∃ memo : Memo,
      (∀ m : Int, 1 ≤ m → twinGrammar.parse #['y', 'z', 'x'] none m = .ok ⟨1, m, 0, memo⟩) ∧
      ∀ m : Int, m < 1 →
        ∃ name q, twinGrammar.parse #['y', 'z', 'x'] none m = .error (.tooDeep name q m) := by
  have ht : twins.WellTyped := by simp [RuleSet.WellTyped, twins]
  have hr : twinGrammar.startRule none = .ok twinRule := rfl
  obtain ⟨D, p, memo, hfree, hrefused⟩ :=
    limit_exact (compile_twins .standard) ht rfl hr #['y', 'z', 'x']
  have hzero : (twinGrammar.parse #['y', 'z', 'x'] none 0).toOption.isNone = true := by
    decide +kernel
  have hone : (twinGrammar.parse #['y', 'z', 'x'] none 1).toOption.map (·.pos.val) = some 1 := by
    decide +kernel
  obtain ⟨c, hc, hpos⟩ := exists_of_toOption_map hone
  -- the run is refused at 0 and not at 1, so its depth is 1
  have hD : D = 1 := by
    have hpos : ¬ ((D : Int) ≤ 0 ∨ D = 0) := by
      intro h
      rw [(hfree 0 h).1] at hzero
      exact absurd hzero (by simp [Except.toOption])
    have hle : ¬ (1 : Int) < D := by
      intro h
      obtain ⟨name, q, he⟩ := hrefused 1 h (by omega)
      exact absurd (hc.symm.trans he) (by simp)
    omega
  subst hD
  have hp : p = 1 := by
    have hcp := hc.symm.trans (hfree 1 (Or.inl (Int.le_refl 1))).1
    cases hcp
    exact Fin.ext hpos
  subst hp
  refine ⟨rfl, ht, rfl, hr, memo, fun m hm => (hfree m (Or.inl hm)).1, fun m hm => ?_⟩
  exact hrefused m hm Nat.one_ne_zero

/-- No number is a threshold for the run of a rule without references: it is not refused by a limit
below zero. -/
theorem negative_limit_not_refused :
    onlyX.compile .standard = .ok onlyXGrammar ∧ onlyXGrammar.check = .ok () ∧
    (∃ c, onlyXGrammar.parse #['x'] none (-1) = .ok c) ∧
    ¬ ∃ D : Nat, ∀ m : Int, m < D →
      ∃ name q, onlyXGrammar.parse #['x'] none m = .error (.tooDeep name q m) := by
  have hend : (onlyXGrammar.parse #['x'] none (-1)).toOption.map (·.pos.val) = some 1 := by
    decide +kernel
  obtain ⟨c, hc, -⟩ := exists_of_toOption_map hend
  refine ⟨rfl, rfl, ⟨c, hc⟩, fun ⟨D, hD⟩ => ?_⟩
  obtain ⟨name, q, he⟩ := hD (-1) (by omega)
  exact absurd (hc.symm.trans he) (by simp)

end Packrat
