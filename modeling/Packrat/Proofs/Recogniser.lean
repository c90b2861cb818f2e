import Packrat.Proofs.Grammar

/-!
# `Packrat/Proofs/Recogniser.lean` — a recogniser without a memo

The meaning of a reference, said as a function: the rule is run afresh wherever it is referred to, and
nothing is remembered from one place to the next. Only a rule that refers to itself where it began is
answered by what its own run has found so far, its seed; the seed moves with every alternative that
matches, not just from round to round.

Where a rule comes back to its own beginning through other rules there is no end to the running.
`Grammar.verdict` counts the levels of references down, so it is a function all the same, and says
`undefined` where they do not suffice. Nothing but that changes with more levels
(`Grammar.verdict_mono`).
-/

set_option autoImplicit false

namespace Packrat

/-- What is said of a rule at a position. -/
inductive Verdict (text : Text) where
  | undefined
  | fails
  | ends (p : Fin (text.size + 1))
deriving DecidableEq

/-- A way to say what a rule does at a position. -/
abbrev Judge (text : Text) := String → Fin (text.size + 1) → Verdict text

variable {text : Text}

/-! ## Verdicts -/

/-- A match that ends at offset `i`. -/
def Verdict.endsAt (i : Int) : Verdict text :=
  match Cursor.position? text i with
  | some p => .ends p
  | none => .undefined

def Term.verdict (judge : Judge text) (p : Fin (text.size + 1)) : Term → Verdict text
  | .literal s => if text.startsAt s p then .endsAt (p + s.length) else .fails
  | .pattern r =>
    match r.matchEnd? text p with
    | some i => .endsAt i
    | none => .fails
  | .reference name => judge name p
  | .foreignLiteral _ => .undefined
  | .foreign _ => .undefined

/-- Terms one after the other. -/
def termsVerdict (judge : Judge text) : List Term → Fin (text.size + 1) → Verdict text
  | [], p => .ends p
  | t :: ts, p =>
    match t.verdict judge p with
    | .ends q => termsVerdict judge ts q
    | v => v

/-- Inside the run of a rule at `start`, the rule at `start` is what its seed says. -/
def Judge.seeded (judge : Judge text) (name : String) (start : Fin (text.size + 1))
    (seed : Option (Fin (text.size + 1))) : Judge text := fun n p =>
  if n = name ∧ p = start then
    match seed with
    | some e => .ends e
    | none => .fails
  else judge n p

/-- A round over alternatives: the furthest end in the round, and the furthest end so far. -/
inductive Sweep (text : Text) where
  | undefined
  | ended (longest seed : Option (Fin (text.size + 1)))

/-- Each alternative is judged with the seed that those before it have left. -/
def sweep (judge : Judge text) (name : String) (start : Fin (text.size + 1)) :
    List Alternative → (longest seed : Option (Fin (text.size + 1))) → Sweep text
  | [], longest, seed => .ended longest seed
  | a :: rest, longest, seed =>
    match termsVerdict (judge.seeded name start seed) a.terms start with
    | .undefined => .undefined
    | .fails => sweep judge name start rest longest seed
    | .ends p =>
      sweep judge name start rest (furthest start longest p) (furthest start seed p)

/-- Rounds as long as the furthest end grows beyond `best`. -/
def growth (judge : Judge text) (r : Rule) (start best : Fin (text.size + 1))
    (seed : Option (Fin (text.size + 1))) : Verdict text :=
  match sweep judge r.name start r.alternatives none seed with
  | .undefined => .undefined
  | .ended none _ => .fails
  | .ended (some longest) seed =>
    if best < longest then growth judge r start longest seed else .ends best
termination_by text.size - best.val
decreasing_by omega

/-- What a rule does at a position, with its references judged by `judge`. -/
def Rule.verdict (judge : Judge text) (r : Rule) (p : Fin (text.size + 1)) : Verdict text :=
  growth judge r p p none

/-- What the rule of a name does at a position, with as many levels of rules as that: the rule itself
is one, and a reference in it has one level less. -/
def Grammar.verdict (g : Grammar) : Nat → Judge text
  | 0, _, _ => .undefined
  | levels + 1, name, p =>
    match g.rule? name with
    | none => .undefined
    | some r => r.verdict (g.verdict levels) p

/-- With enough levels this is what the rule does at the position. -/
def Grammar.Finds (g : Grammar) (name : String) (p : Fin (text.size + 1)) (v : Verdict text) : Prop :=
  v ≠ .undefined ∧ ∃ levels, g.verdict levels name p = v

/-! ## More levels -/

/-- The second judge says what the first one says, where that says anything. -/
def Judge.Below (j k : Judge text) : Prop := ∀ name p, j name p ≠ .undefined → k name p = j name p

section

variable {j k : Judge text}

theorem Term.verdict_of_agree (t : Term) (p : Fin (text.size + 1))
    (h : ∀ name, t = .reference name → j name p ≠ .undefined → k name p = j name p)
    (hd : t.verdict j p ≠ .undefined) : t.verdict k p = t.verdict j p := by
  cases t with
  | reference name => exact h name rfl hd
  | literal _ | pattern _ | foreignLiteral _ | foreign _ => rfl

/-- Terms are judged alike where the second judge says what the first one says of their references. -/
theorem termsVerdict_of_agree : ∀ (ts : List Term) (p : Fin (text.size + 1)),
    (∀ name, Term.reference name ∈ ts → ∀ q, j name q ≠ .undefined → k name q = j name q) →
    termsVerdict j ts p ≠ .undefined → termsVerdict k ts p = termsVerdict j ts p
  | [], _, _, _ => rfl
  | t :: ts, p, h, hd => by
    rw [termsVerdict] at hd
    have ht := Term.verdict_of_agree t p fun name hn => h name (by simp [hn]) p
    rw [termsVerdict, termsVerdict]
    cases hv : t.verdict j p with
    | undefined =>
      rw [hv] at hd
      exact absurd rfl hd
    | fails => rw [ht (by simp [hv]), hv]
    | ends q =>
      rw [hv] at hd
      rw [ht (by simp [hv]), hv]
      exact termsVerdict_of_agree ts q (fun name hn => h name (List.mem_cons_of_mem t hn)) hd

theorem termsVerdict_mono (h : j.Below k) (ts : List Term) (p : Fin (text.size + 1))
    (hd : termsVerdict j ts p ≠ .undefined) : termsVerdict k ts p = termsVerdict j ts p :=
  termsVerdict_of_agree ts p (fun name _ => h name) hd

theorem Judge.Below.seeded (h : j.Below k) (name : String) (start : Fin (text.size + 1))
    (seed : Option (Fin (text.size + 1))) :
    (j.seeded name start seed).Below (k.seeded name start seed) := by
  intro n p hd
  unfold Judge.seeded at hd ⊢
  by_cases hs : n = name ∧ p = start
  · rw [if_pos hs, if_pos hs]
  · rw [if_neg hs] at hd
    rw [if_neg hs, if_neg hs]
    exact h n p hd

theorem sweep_mono (h : j.Below k) (name : String) (start : Fin (text.size + 1)) :
    ∀ (as : List Alternative) (longest seed : Option (Fin (text.size + 1))),
      sweep j name start as longest seed ≠ .undefined →
      sweep k name start as longest seed = sweep j name start as longest seed
  | [], _, _, _ => rfl
  | a :: as, longest, seed, hd => by
    rw [sweep] at hd
    have ha := termsVerdict_mono (h.seeded name start seed) a.terms start
    rw [sweep, sweep]
    cases hv : termsVerdict (j.seeded name start seed) a.terms start with
    | undefined =>
      rw [hv] at hd
      exact absurd rfl hd
    | fails =>
      rw [hv] at hd
      rw [ha (by simp [hv]), hv]
      exact sweep_mono h name start as longest seed hd
    | ends p =>
      rw [hv] at hd
      rw [ha (by simp [hv]), hv]
      exact sweep_mono h name start as _ _ hd

theorem growth_mono (h : j.Below k) (r : Rule) (start best : Fin (text.size + 1))
    (seed : Option (Fin (text.size + 1))) (hd : growth j r start best seed ≠ .undefined) :
    growth k r start best seed = growth j r start best seed := by
  induction best, seed using growth.induct j r start with
  | case1 best seed hs =>
    rw [growth, hs] at hd
    exact absurd rfl hd
  | case2 best seed seed' hs =>
    have hk := sweep_mono h r.name start r.alternatives none seed (by simp [hs])
    rw [growth, growth, hk, hs]
  | case3 best seed longest seed' hs hlt ih =>
    have hk := sweep_mono h r.name start r.alternatives none seed (by simp [hs])
    rw [growth, hs] at hd
    rw [growth, growth, hk, hs]
    dsimp only at hd ⊢
    rw [if_pos hlt] at hd
    rw [if_pos hlt, if_pos hlt]
    exact ih hd
  | case4 best seed longest seed' hs hlt =>
    have hk := sweep_mono h r.name start r.alternatives none seed (by simp [hs])
    rw [growth, growth, hk, hs]
    dsimp only
    rw [if_neg hlt, if_neg hlt]

end

namespace Grammar

variable {g : Grammar}

theorem verdict_below_succ (g : Grammar) :
    ∀ n, Judge.Below (g.verdict n : Judge text) (g.verdict (n + 1))
  | 0, _, _, hd => absurd rfl hd
  | n + 1, name, p, hd => by
    rw [verdict] at hd
    rw [verdict, verdict]
    cases hr : g.rule? name with
    | none => rfl
    | some r =>
      rw [hr] at hd
      exact growth_mono (verdict_below_succ g n) r p p none hd

/-- An answer stays the same with more levels. -/
theorem verdict_mono {n m : Nat} (h : n ≤ m) (name : String) (p : Fin (text.size + 1))
    (hd : g.verdict n name p ≠ .undefined) : g.verdict m name p = g.verdict n name p := by
  induction h with
  | refl => rfl
  | @step m _ ih => rw [verdict_below_succ g m name p (ih ▸ hd), ih]

/-- A rule that has an answer has it from some number of levels on. -/
theorem exists_first_verdict (name : String) (p : Fin (text.size + 1)) :
    ∀ n, g.verdict n name p ≠ .undefined →
      ∃ k < n, g.verdict k name p = .undefined ∧ g.verdict (k + 1) name p = g.verdict n name p
  | 0, hd => absurd rfl hd
  | n + 1, hd => by
    by_cases hn : g.verdict n name p = .undefined
    · exact ⟨n, Nat.lt_succ_self n, hn, rfl⟩
    · obtain ⟨k, hk, hundef, hval⟩ := exists_first_verdict name p n hn
      refine ⟨k, Nat.lt_succ_of_lt hk, hundef, ?_⟩
      rw [hval, verdict_below_succ g n name p hn]

theorem finds_verdict {n : Nat} {name : String} {p : Fin (text.size + 1)}
    (hd : g.verdict n name p ≠ .undefined) : g.Finds name p (g.verdict n name p) := ⟨hd, n, rfl⟩

/-- There is one answer. -/
theorem Finds.unique {name : String} {p : Fin (text.size + 1)} {v w : Verdict text}
    (hv : g.Finds name p v) (hw : g.Finds name p w) : v = w := by
  obtain ⟨hv, n, rfl⟩ := hv
  obtain ⟨hw, m, rfl⟩ := hw
  rcases Nat.le_total n m with h | h
  · exact (verdict_mono h name p hv).symm
  · exact verdict_mono h name p hw

end Grammar

end Packrat
