import Packrat.Proofs.Run.Rest

/-!
# `Packrat/Proofs/FixedPoint.lean` — a parse ends where nothing grows

The cursor of a parse can be taken back to the beginning, and the start rule asked for again. Looked up,
it answers as it ended. Its alternatives, run again one by one, do not come further, and the rule run
again does not either (`fixed_point`).

Two things are less than one might expect. The rule run again may stop short of its old end: what an
alternative found with a shorter seed, it does not find with the last one (`rerun_falls_short`). A run
never comes to that, since it looks up a rule that it has begun. And an empty match may have come too
late for alternatives in front of it that look up the rule where it begins (`Judge.TooEarly`), and was
never grown. Where no alternative does that, as in a rule that refers to itself on the right, neither
can happen.
-/

set_option autoImplicit false

namespace Packrat

variable {g : Grammar} {text : Text}

namespace Cursor

/-- What the memo says at the cursor. -/
abbrev judge (c : Cursor text) : Judge text := c.memo.judge

/-- What becomes of a reference to the rule at `p`. -/
def ask (g : Grammar) (c : Cursor text) (name : String) (p : Fin (text.size + 1)) : Verdict text :=
  (follow g name (c.backTo p)).verdict

/-- What becomes of the alternative at `p`. -/
def replay (g : Grammar) (c : Cursor text) (a : Alternative) (p : Fin (text.size + 1)) :
    Verdict text :=
  (a.run (follow g) (c.backTo p)).verdict

/-- What becomes of the rule at `p` when it is run, not looked up. -/
def rerun (g : Grammar) (c : Cursor text) (r : Rule) (p : Fin (text.size + 1)) : Verdict text :=
  (r.run (follow g) (c.backTo p)).verdict

/-- All alternatives fail at `p`, or the verdict is the greatest end that one of them comes to. -/
def Furthest (g : Grammar) (c : Cursor text) (r : Rule) (p : Fin (text.size + 1)) :
    Verdict text → Prop
  | .undefined => False
  | .fails => ∀ a ∈ r.alternatives, c.replay g a p = .fails
  | .ends e => (∃ a ∈ r.alternatives, c.replay g a p = .ends e) ∧
      ∀ a ∈ r.alternatives, c.replay g a p = .fails ∨ ∃ q ≤ e, c.replay g a p = .ends q

variable {c : Cursor text} {r : Rule} {p : Fin (text.size + 1)}

theorem ask_eq (hc : c.memo.Coherent) {name : String}
    (hd : (c.memo.judge name p : Verdict text) ≠ .undefined) :
    c.ask g name p = c.memo.judge name p :=
  (follow_meets_judge g c.memo.judge name (c.backTo p) ⟨hc, rfl⟩ hd).verdict

theorem replay_eq (hc : c.memo.Coherent) {a : Alternative}
    (hd : termsVerdict c.memo.judge a.terms p ≠ .undefined) :
    c.replay g a p = termsVerdict c.memo.judge a.terms p := by
  have hterms := runTerms_meets (follow_meets_judge g c.memo.judge) a.terms (c.backTo p) ⟨hc, rfl⟩ hd
  rw [replay, Alternative.run]
  rcases hterms.cases with ⟨d, hrun, hv, -⟩ | ⟨d, hrun, hv, -⟩
  · rw [hrun]
    exact hv.symm
  · rw [hrun]
    exact hv.symm

/-- An alternative that is bounded by its rule comes no further when it is run again. -/
theorem replay_of_bounded (hc : c.memo.Coherent) {a : Alternative} {name : String}
    {e : Fin (text.size + 1)} (hself : ∀ q, c.memo.judge name p = .ends q → q = e)
    (h : a.Bounded c.memo.judge name p) :
    c.replay g a p = .fails ∨ ∃ q ≤ e, c.replay g a p = .ends q := by
  rw [replay_eq hc h.judged.ne_undefined]
  refine h.imp_right fun ⟨q, e', _, hq, he, hends⟩ => ⟨q, ?_, hends⟩
  rwa [← hself e' he]

section

variable (hc : c.memo.Coherent) (hrest : c.memo.judge.AtRest r p)
  (ho : ∀ a ∈ r.alternatives, a.owner = r.name) (hs : c.memo.isStarted ⟨r.name, p.val⟩ = true)

include hc hrest ho hs

theorem rerun_eq : c.rerun g r p = match reach c.memo.judge p r.alternatives none with
    | none => .fails
    | some l => .ends l :=
  Rule.rerun_of_atRest (follow_meets_judge g c.memo.judge) hrest ho (c.backTo p) rfl ⟨hc, rfl⟩ hs

/-- A rule at rest that is run again comes as far as the furthest of its alternatives. -/
theorem furthest_rerun : c.Furthest g r p (c.rerun g r p) := by
  have hgreatest := reach_greatest r.alternatives none hrest.judged
  have hreplay : ∀ a ∈ r.alternatives, c.replay g a p = termsVerdict c.memo.judge a.terms p :=
    fun a ha => replay_eq hc (hrest.judged a ha).ne_undefined
  rw [rerun_eq hc hrest ho hs]
  cases hreach : reach c.memo.judge p r.alternatives none with
  | none =>
    rw [hreach] at hgreatest
    exact fun a ha => (hreplay a ha).trans (hgreatest.2 a ha)
  | some l =>
    rw [hreach] at hgreatest
    obtain ⟨hsome, -, hmax⟩ := hgreatest
    obtain ⟨a, ha, hends⟩ := hsome.resolve_left (by simp)
    refine ⟨⟨a, ha, (hreplay a ha).trans hends⟩, fun b hb => ?_⟩
    rw [hreplay b hb]
    exact (hrest.judged b hb).imp_right fun ⟨q, _, hq⟩ => ⟨q, hmax b hb q hq, hq⟩

/-- The rule fails again just if the memo says so. -/
theorem rerun_fails_iff : c.rerun g r p = .fails ↔ c.memo.judge r.name p = .fails := by
  have hreached := hrest.reached
  rw [rerun_eq hc hrest ho hs]
  cases hreach : reach c.memo.judge p r.alternatives none with
  | none =>
    rw [hreach] at hreached
    exact iff_of_true rfl hreached
  | some l =>
    rw [hreach] at hreached
    obtain ⟨e, he, -⟩ := hreached
    rw [he]
    simp

/-- If one of the alternatives still comes to the end, the rule does. -/
theorem rerun_eq_of_attained {e : Fin (text.size + 1)}
    (hself : ∀ q, c.memo.judge r.name p = .ends q → q = e) {a : Alternative} (ha : a ∈ r.alternatives)
    (hends : termsVerdict c.memo.judge a.terms p = .ends e) : c.rerun g r p = .ends e := by
  have hgreatest := reach_greatest r.alternatives none hrest.judged
  have hreached := hrest.reached
  rw [rerun_eq hc hrest ho hs]
  cases hreach : reach c.memo.judge p r.alternatives none with
  | none =>
    rw [hreach] at hgreatest
    exact absurd ((hgreatest.2 a ha).symm.trans hends) (by simp)
  | some l =>
    rw [hreach] at hgreatest hreached
    obtain ⟨q, hq, hle⟩ := hreached
    rw [hself q hq] at hle
    rw [Fin.le_antisymm hle (hgreatest.2.2 a ha e hends)]

end

end Cursor

/-- A parse that returns leaves its start rule done growing; and if no alternative comes back to it,
one of them still comes to the end. -/
theorem Grammar.grown_of_parse (hg : g.Owned) {start : Option String} {limit : Int} {c : Cursor text}
    (h : g.parse text start limit = .ok c) :
    ∃ r, g.startRule start = .ok r ∧ c.memo.Settled g text [] ∧
      (g.run text limit r).verdict = c.memo.judge r.name 0 ∧
      c.memo.judge.Grown r (0 : Fin (text.size + 1)) ∧
      (c.memo.judge r.name (0 : Fin (text.size + 1)) = .fails ∧ c.pos = 0 ∨
        c.memo.judge r.name 0 = .ends c.pos ∧ (c.memo.judge.Seedless r (0 : Fin (text.size + 1)) →
          ∃ a ∈ r.alternatives, termsVerdict c.memo.judge a.terms 0 = .ends c.pos)) := by
  obtain ⟨r, hr, hset, hend⟩ := Grammar.settled_of_parse hg h
  have hrule := Grammar.rule?_of_startRule hr
  have hgrown := Rule.grown_run (resolve_faithful hg limit.toNat) hrule (hg.of_rule? hrule)
    (.first text limit) (Memo.settled_empty g) rfl
  rw [← Grammar.run_eq_resolve] at hgrown
  refine ⟨r, hr, hset, ?_⟩
  rcases hend with ⟨hrun, hlong⟩ | ⟨hrun, hm, hpos⟩
  · rw [hrun] at hgrown ⊢
    have hself : c.memo.judge r.name 0 = .ends c.pos :=
      Memo.judge_of_longest (hset.not_mismatch hlong) hlong
    exact ⟨hself.symm, hgrown.1, Or.inr ⟨hself, hgrown.2⟩⟩
  · rw [hrun] at hgrown ⊢
    have hself : c.memo.judge r.name (0 : Fin (text.size + 1)) = .fails := Memo.judge_of_mismatch hm
    exact ⟨hself.symm, hgrown, Or.inl ⟨hself, Fin.ext hpos⟩⟩

/-- On the cursor that a parse returns with, the start rule is answered as it ended when it is looked up
at the beginning. None of its alternatives comes further than the cursor stands, except that it looks
up the rule there, which matched the empty text only after the alternative was run. Unless such an
alternative goes further now, the rule run again fails if it failed, and otherwise comes as far as the
furthest of its alternatives. It comes to its old end if none of them looks it up where it begins. -/
theorem fixed_point {lib : Regex.Library} {s : RuleSet} (hs : s.compile lib = .ok g)
    {start : Option String} {limit : Int} {c : Cursor text}
    (h : g.parse text start limit = .ok c) :
    ∃ r, g.startRule start = .ok r ∧
      ((g.run text limit r).verdict = .ends c.pos ∨
        (g.run text limit r).verdict = .fails ∧ c.pos = 0) ∧
      c.ask g r.name 0 = (g.run text limit r).verdict ∧
      (∀ a ∈ r.alternatives, ¬ c.judge.TooEarly r 0 a →
        c.replay g a 0 = .fails ∨ ∃ q ≤ c.pos, c.replay g a 0 = .ends q) ∧
      (¬ c.judge.Stunted r 0 →
        (∀ a ∈ r.alternatives, c.replay g a 0 = .fails ∨ ∃ q ≤ c.pos, c.replay g a 0 = .ends q) ∧
        c.Furthest g r 0 (c.rerun g r 0) ∧
        (c.rerun g r 0 = .fails ↔ (g.run text limit r).verdict = .fails)) ∧
      (c.judge.Seedless r 0 →
        c.rerun g r 0 = (g.run text limit r).verdict) := by
  have hg := RuleSet.owned_of_compile hs
  obtain ⟨r, hr, hset, hjudge, hgrown, hend⟩ := Grammar.grown_of_parse hg h
  have ho := hg.of_rule? (Grammar.rule?_of_startRule hr)
  have hc := hset.coherent
  have hdone : (c.memo.judge r.name (0 : Fin (text.size + 1)) : Verdict text) ≠ .undefined := by
    rcases hend with ⟨hself, -⟩ | ⟨hself, -⟩ <;> simp [hself]
  have hstarted : c.memo.isStarted ⟨r.name, 0⟩ = true := hset.started_of_judge hdone
  have hpos : ∀ e, c.memo.judge r.name (0 : Fin (text.size + 1)) = .ends e → e = c.pos := by
    intro e he
    rcases hend with ⟨hself, -⟩ | ⟨hself, -⟩
    · exact absurd (hself.symm.trans he) (by simp)
    · exact Verdict.ends.inj (he.symm.trans hself)
  refine ⟨r, hr, ?_⟩
  rw [hjudge]
  refine ⟨?_, Cursor.ask_eq hc hdone, fun a ha hnot => ?_, fun hnot => ?_, fun hseedless => ?_⟩
  · exact hend.symm.imp And.left id
  · exact Cursor.replay_of_bounded hc hpos ((hgrown.bounded a ha).resolve_left hnot)
  · have hrest := hgrown.atRest hnot
    exact ⟨fun a ha => Cursor.replay_of_bounded hc hpos (hrest.bounded a ha),
      Cursor.furthest_rerun hc hrest ho hstarted, Cursor.rerun_fails_iff hc hrest ho hstarted⟩
  · have hrest := hgrown.atRest hseedless.not_stunted
    rcases hend with ⟨hself, -⟩ | ⟨hself, hattained⟩
    · exact ((Cursor.rerun_fails_iff hc hrest ho hstarted).2 hself).trans hself.symm
    · obtain ⟨a, ha, hends⟩ := hattained hseedless
      rw [hself]
      exact Cursor.rerun_eq_of_attained hc hrest ho hstarted hpos ha hends

/-- As many `x` as there are, one after the other. -/
def links : RuleSet := ⟨[("s", [[.literal "x", .reference "s"], [.literal ""]])], some "s"⟩

def linkRule : Rule := ⟨"s", [⟨"s", [.literal "x", .reference "s"]⟩, ⟨"s", [.literal ""]⟩]⟩

def linkGrammar : Grammar := ⟨[linkRule], some "s"⟩

/-- `sum` is not stunted on `1+1`, and its alternatives come no further than the end. On `y` the rule
`s` matches the empty text, and no alternative comes back to it. -/
theorem fixed_point_sum :
    (sums.compile .standard = .ok sumGrammar ∧
      ∃ c, sumGrammar.parse #['1', '+', '1'] none 5 = .ok c ∧ c.pos = 3 ∧
        c.ask sumGrammar "sum" 0 = .ends 3 ∧ ¬ c.judge.Stunted sumRule 0 ∧
        (∀ a ∈ sumRule.alternatives,
          c.replay sumGrammar a 0 = .fails ∨ ∃ q ≤ c.pos, c.replay sumGrammar a 0 = .ends q) ∧
        c.Furthest sumGrammar sumRule 0 (c.rerun sumGrammar sumRule 0)) ∧
    links.compile .standard = .ok linkGrammar ∧
      ∃ c, linkGrammar.parse #['y'] none 5 = .ok c ∧ c.pos = 0 ∧
        c.ask linkGrammar "s" 0 = .ends 0 ∧ c.judge.Seedless linkRule 0 ∧
        (∀ a ∈ linkRule.alternatives, ¬ c.judge.TooEarly linkRule 0 a ∧
          (c.replay linkGrammar a 0 = .fails ∨ ∃ q ≤ c.pos, c.replay linkGrammar a 0 = .ends q)) ∧
        c.rerun linkGrammar linkRule 0 = .ends 0 := by
  refine ⟨⟨rfl, ?_⟩, rfl, ?_⟩
  · have hend : (sumGrammar.parse #['1', '+', '1'] none 5).toOption.map
        (fun c => (c.pos, c.ask sumGrammar "sum" 0, c.judge "sum" 0)) =
        some (3, .ends 3, .ends 3) := by decide +kernel
    obtain ⟨c, hc, hval⟩ := exists_of_toOption_map hend
    simp only [Prod.mk.injEq] at hval
    obtain ⟨hpos, hask, hself⟩ := hval
    obtain ⟨r, hr, -, -, -, hagain, -⟩ := fixed_point (compile_sums .standard) hc
    cases (show Except.ok sumRule = .ok r from hr)
    have hnot : ¬ c.judge.Stunted sumRule 0 := by
      rintro ⟨a, ⟨hzero, -⟩, -⟩
      exact absurd (Verdict.ends.inj (hself.symm.trans hzero)) (by decide)
    obtain ⟨hbounded, hfurthest, -⟩ := hagain hnot
    exact ⟨c, hc, hpos, hask, hnot, hbounded, hfurthest⟩
  · have hend : (linkGrammar.parse #['y'] none 5).toOption.map
        (fun c => (c.pos, c.ask linkGrammar "s" 0,
          decide (c.judge.Seedless linkRule 0))) =
        some (0, .ends 0, true) := by decide +kernel
    obtain ⟨c, hc, hval⟩ := exists_of_toOption_map hend
    simp only [Prod.mk.injEq, decide_eq_true_eq] at hval
    obtain ⟨hpos, hask, hseedless⟩ := hval
    have hcompile : links.compile .standard = .ok linkGrammar := rfl
    obtain ⟨r, hr, -, hsame, hbounded, -, hagain⟩ := fixed_point hcompile hc
    cases (show Except.ok linkRule = .ok r from hr)
    have hnot : ∀ a ∈ linkRule.alternatives, ¬ c.judge.TooEarly linkRule 0 a := by
      rintro a ha ⟨-, -, hback⟩
      exact absurd (hseedless a ha) (by simp [hback])
    exact ⟨c, hc, hpos, hask, hseedless, fun a ha => ⟨hnot a ha, hbounded a ha (hnot a ha)⟩,
      (hagain hseedless).trans (hsame.symm.trans hask)⟩

/-! ## A seed that is gone, and one that came too late -/

/-- A seed that is empty to begin with. -/
def tails : RuleSet := ⟨[("s", [[.reference "s", .literal "x"], [.literal ""]])], some "s"⟩

def tailRule : Rule := ⟨"s", [⟨"s", [.reference "s", .literal "x"]⟩, ⟨"s", [.literal ""]⟩]⟩

def tailGrammar : Grammar := ⟨[tailRule], some "s"⟩

/-- On `1+1` the rule `sum` came to the end with the seed `1`. Run again it has the seed `1+1`, behind
which there is no `+`, and comes to the end of the first `1`. On `x` the rule `s` has matched the empty
text when its first alternative has failed already; run again, this alternative matches the `x`. -/
theorem rerun_falls_short :
    (sums.compile .standard = .ok sumGrammar ∧ sumGrammar.startRule none = .ok sumRule ∧
      ∃ c, sumGrammar.parse #['1', '+', '1'] none 200 = .ok c ∧ c.pos = 3 ∧
        c.rerun sumGrammar sumRule 0 = .ends 1) ∧
    (tails.compile .standard = .ok tailGrammar ∧ tailGrammar.startRule none = .ok tailRule ∧
      ∃ c, tailGrammar.parse #['x'] none 200 = .ok c ∧ c.pos = 0 ∧
        c.replay tailGrammar ⟨"s", [.reference "s", .literal "x"]⟩ 0 = .ends 1) := by
  have hsum : (sumGrammar.parse #['1', '+', '1'] none 200).toOption.map
      (fun c => (c.pos, c.rerun sumGrammar sumRule 0)) = some (3, .ends 1) := by decide +kernel
  have htail : (tailGrammar.parse #['x'] none 200).toOption.map
      (fun c => (c.pos, c.replay tailGrammar ⟨"s", [.reference "s", .literal "x"]⟩ 0)) =
      some (0, .ends 1) := by decide +kernel
  obtain ⟨c, hc, hval⟩ := exists_of_toOption_map hsum
  obtain ⟨d, hd, hval'⟩ := exists_of_toOption_map htail
  obtain ⟨hpos, hrerun⟩ := Prod.mk.inj hval
  obtain ⟨hpos', hreplay⟩ := Prod.mk.inj hval'
  exact ⟨⟨rfl, rfl, c, hc, hpos, hrerun⟩, rfl, rfl, d, hd, hpos', hreplay⟩

end Packrat
