import Packrat.Proofs.Recogniser
import Packrat.Proofs.Run.Steps
import Packrat.Proofs.Soundness

/-!
# `Packrat/Proofs/Agreement.lean` — the memo changes no answer

A run and the recogniser of `Packrat/Proofs/Recogniser.lean` are walked through side by side. Wherever
the recogniser has an answer, the step of the run ends the same way; and every spot that is done with
holds in the memo what the recogniser finds there (`Memo.Agrees`). It does not matter when the spot
was done with, because the recogniser knows no time.

The spots under way hold nothing yet, so a reference must not come back to them, but for the innermost
one, which answers with its seed. That none comes back is a matter of levels: a rule is run with the
least number of levels that gives it an answer, and the references in it have one level less, on which
the rule has none.
-/

set_option autoImplicit false

namespace Packrat

variable {text : Text} {g : Grammar} {F : List Spot}

/-! ## Agreement -/

/-- What a verdict looks like in the tables. -/
def Memo.Shows (m : Memo) (name : String) (p : Fin (text.size + 1)) : Verdict text → Prop
  | .undefined => False
  | .fails => m.isMismatch ⟨name, p.val⟩ = true
  | .ends e => m.longest? ⟨name, p.val⟩ = some (e.val : Int)

/-- Every spot that was begun, and is not among `F`, holds what the recogniser finds there. -/
def Memo.Found (g : Grammar) (text : Text) (F : List Spot) (m : Memo) : Prop :=
  ∀ (name : String) (p : Fin (text.size + 1)), m.isStarted ⟨name, p.val⟩ = true →
    (⟨name, p.val⟩ : Spot) ∉ F → ∃ v, g.Finds name p v ∧ m.Shows name p v

/-- A settled memo that holds what the recogniser finds. -/
structure Memo.Agrees (g : Grammar) (text : Text) (F : List Spot) (m : Memo) : Prop
    extends m.Settled g text F where
  found : m.Found g text F

/-- The same in the middle of a run of the rule at `start`, when its greatest end is `seed`. -/
structure Memo.AgreesAt (g : Grammar) (text : Text) (F : List Spot) (name : String)
    (start : Fin (text.size + 1)) (seed : Option (Fin (text.size + 1))) (m : Memo) : Prop
    extends m.Agrees g text (⟨name, start.val⟩ :: F) where
  seed : m.longest? ⟨name, start.val⟩ = seed.map fun e => (e.val : Int)

/-- A step ends as the verdict says, with a memo of which `P` holds. -/
def Result.Meets (P : Memo → Prop) (v : Verdict text) : Result text → Prop
  | .matched d => v = .ends d.pos ∧ P d.memo
  | .failed d => v = .fails ∧ P d.memo
  | .stopped _ _ => False

theorem Result.Meets.cases {P : Memo → Prop} {v : Verdict text} {res : Result text}
    (h : res.Meets P v) :
    (∃ d, res = .matched d ∧ v = .ends d.pos ∧ P d.memo) ∨
      ∃ d, res = .failed d ∧ v = .fails ∧ P d.memo := by
  cases res with
  | matched d => exact Or.inl ⟨d, rfl, h⟩
  | failed d => exact Or.inr ⟨d, rfl, h⟩
  | stopped fault d => exact h.elim

/-- References are followed as the judge says, where it says anything. -/
def Follow.Meets (P : Memo → Prop) (judge : Judge text) (f : Follow text) : Prop :=
  ∀ (name : String) (c : Cursor text), P c.memo → judge name c.pos ≠ .undefined →
    (f name c).Meets P (judge name c.pos)

/-! ## What the writes do to agreement -/

namespace Memo

variable {m : Memo} {t : Spot}

theorem found_empty (g : Grammar) (text : Text) : Found g text [] {} :=
  fun _ _ hs => absurd hs (by simp [isStarted])

theorem agrees_empty (g : Grammar) (text : Text) : Agrees g text [] {} :=
  ⟨settled_empty g, found_empty g text⟩

theorem Found.saveStarted (h : m.Found g text F) (t : Spot) :
    (m.saveStarted t).Found g text (t :: F) := by
  intro name p hs hF
  rw [List.mem_cons, not_or] at hF
  rw [isStarted_saveStarted] at hs
  obtain ⟨v, hv, hshows⟩ := h name p (hs.resolve_left hF.1) hF.2
  exact ⟨v, hv, by cases v <;> exact hshows⟩

theorem Found.saveMatch (h : m.Found g text F) (hm : m.Coherent) {x : Match} (hx : x.spot ∈ F)
    (hstop : 0 ≤ x.stop) : (m.saveMatch x).Found g text F := by
  intro name p hs hF
  rw [isStarted_saveMatch] at hs
  have hne : (⟨name, p.val⟩ : Spot) ≠ x.spot := by
    intro he
    rw [he] at hF
    exact hF hx
  obtain ⟨v, hv, hshows⟩ := h name p hs hF
  refine ⟨v, hv, ?_⟩
  cases v with
  | undefined => exact hshows
  | fails => exact (isMismatch_saveMatch m x _).trans hshows
  | ends e => exact ((hm.longest_saveMatch hstop _).trans (if_neg hne)).trans hshows

theorem Found.saveMismatch (h : m.Found g text F) (t : Spot) :
    (m.saveMismatch t).Found g text F := by
  intro name p hs hF
  obtain ⟨v, hv, hshows⟩ := h name p hs hF
  refine ⟨v, hv, ?_⟩
  cases v with
  | undefined => exact hshows
  | fails => exact (isMismatch_saveMismatch m t _).2 (Or.inr hshows)
  | ends e => exact hshows

/-- The innermost rule under way is done with when it holds what the recogniser finds. -/
theorem Found.close {name : String} {p : Fin (text.size + 1)} {v : Verdict text}
    (h : m.Found g text (⟨name, p.val⟩ :: F)) (hv : g.Finds name p v) (hshows : m.Shows name p v) :
    m.Found g text F := by
  intro n q hs hF
  by_cases he : (⟨n, q.val⟩ : Spot) = ⟨name, p.val⟩
  · -- positions are compared as offsets in spots, hence the detour over `Int`
    obtain ⟨rfl, hq⟩ := Spot.mk.inj he
    cases Fin.ext (Int.ofNat.inj hq)
    exact ⟨v, hv, hshows⟩
  · exact h n q hs (by simpa [he] using hF)

end Memo

/-! ## Terms -/

section

variable {P : Memo → Prop} {judge : Judge text} {f : Follow text}

theorem Result.meets_matchedAt {c : Cursor text} {i : Int} (h : P c.memo)
    (hd : (Verdict.endsAt i : Verdict text) ≠ .undefined) :
    (Result.matchedAt c i).Meets P (.endsAt i) := by
  unfold Verdict.endsAt at hd ⊢
  unfold Result.matchedAt Cursor.moveTo
  cases hp : Cursor.position? text i with
  | none =>
    rw [hp] at hd
    exact absurd rfl hd
  | some p => exact ⟨rfl, h⟩

theorem Term.meets_run (hf : f.Meets P judge) (t : Term) (c : Cursor text) (h : P c.memo)
    (hd : t.verdict judge c.pos ≠ .undefined) : (t.run f c).Meets P (t.verdict judge c.pos) := by
  cases t with
  | literal s =>
    rw [Term.verdict] at hd
    rw [Term.run, Term.verdict]
    by_cases hs : text.startsAt s c.pos = true
    · rw [if_pos hs] at hd
      rw [if_pos hs, if_pos hs]
      exact Result.meets_matchedAt h hd
    · rw [if_neg hs, if_neg hs]
      exact ⟨rfl, h⟩
  | pattern r =>
    rw [Term.verdict] at hd
    rw [Term.run, Term.verdict]
    cases hr : r.matchEnd? text c.pos with
    | none => exact ⟨rfl, h⟩
    | some i =>
      rw [hr] at hd
      exact Result.meets_matchedAt h hd
  | reference name => exact hf name c h hd
  | foreignLiteral v => exact absurd rfl hd
  | foreign v => exact absurd rfl hd

theorem runTerms_meets (hf : f.Meets P judge) : ∀ (ts : List Term) (c : Cursor text), P c.memo →
    termsVerdict judge ts c.pos ≠ .undefined →
    (runTerms f ts c).Meets P (termsVerdict judge ts c.pos)
  | [], _, h, _ => ⟨rfl, h⟩
  | t :: ts, c, h, hd => by
    rw [termsVerdict] at hd
    have hdt : t.verdict judge c.pos ≠ .undefined := by
      intro hv
      rw [hv] at hd
      exact hd rfl
    rw [runTerms, termsVerdict]
    rcases (Term.meets_run hf t c h hdt).cases with ⟨d, hrun, hv, hP⟩ | ⟨d, hrun, hv, hP⟩
    · rw [hv] at hd
      rw [hrun, hv]
      exact runTerms_meets hf ts d hP hd
    · rw [hrun, hv]
      exact ⟨rfl, hP⟩

end

/-! ## Alternatives and rounds -/

section

variable {judge : Judge text} {f : Follow text} {r : Rule} {start : Fin (text.size + 1)}

/-- The furthest end so far is the greatest end in the memo. -/
theorem map_furthest {seed : Option (Fin (text.size + 1))} {p : Fin (text.size + 1)}
    (h : start ≤ p) : (furthest start seed p).map (fun e => (e.val : Int)) =
      some (max ((seed.map fun e => (e.val : Int)).getD p) p) := by
  obtain ⟨l, hl, hval⟩ := exists_furthest start seed p
  have hle := Fin.le_def.1 h
  rw [hl, Option.map_some, Option.some.injEq, hval]
  cases seed with
  | none =>
    rw [Option.map_none, Option.getD_none, Option.getD_none]
    omega
  | some e =>
    rw [Option.map_some, Option.getD_some, Option.getD_some]
    omega

theorem Alternative.meets_run (hfs : f.Settles g) (hr : g.rule? r.name = some r) {a : Alternative}
    (ha : a ∈ r.alternatives) (ho : a.owner = r.name) {seed : Option (Fin (text.size + 1))}
    (hf : f.Meets (Memo.AgreesAt g text F r.name start seed) (judge.seeded r.name start seed))
    (c : Cursor text) (h : c.memo.AgreesAt g text F r.name start seed)
    (hd : termsVerdict (judge.seeded r.name start seed) a.terms start ≠ .undefined) :
    (∃ d, a.run f (c.backTo start) = .matched d ∧
        termsVerdict (judge.seeded r.name start seed) a.terms start = .ends d.pos ∧
        d.memo.AgreesAt g text F r.name start (furthest start seed d.pos)) ∨
      ∃ d, a.run f (c.backTo start) = .failed d ∧
        termsVerdict (judge.seeded r.name start seed) a.terms start = .fails ∧
        d.memo.AgreesAt g text F r.name start seed := by
  have hmem : (⟨r.name, start.val⟩ : Spot) ∈ (⟨r.name, start.val⟩ :: F : List Spot) :=
    List.mem_cons_self
  have hterms := runTerms_meets hf a.terms (c.backTo start) h hd
  have hstep := Alternative.settles_run hfs hr ha ho (c.backTo start) h.toSettled hmem
  rw [Alternative.run] at hstep ⊢
  rcases hterms.cases with ⟨d, hrun, hv, hP⟩ | ⟨d, hrun, hv, hP⟩
  · left
    rw [hrun] at hstep ⊢
    obtain ⟨hset, -, hle, hlong, -⟩ := hstep
    have hspot : (⟨a.owner, start.val, d.pos.val⟩ : Match).spot = ⟨r.name, start.val⟩ := by
      rw [Match.spot, ho]
    refine ⟨_, rfl, hv, ⟨hset, ?_⟩, ?_⟩
    · exact hP.found.saveMatch hP.coherent (hspot ▸ hmem) (Int.natCast_nonneg _)
    · have hlast : (d.saveMatch ⟨a.owner, start.val, d.pos.val⟩).memo.longest?
          ⟨r.name, start.val⟩ =
          some (max ((c.memo.longest? ⟨r.name, start.val⟩).getD d.pos.val) d.pos.val) := hlong
      rw [h.seed] at hlast
      exact hlast.trans (map_furthest hle).symm
  · right
    rw [hrun]
    exact ⟨_, rfl, hv, hP⟩

theorem runRound_meets (hfs : f.Settles g) (hr : g.rule? r.name = some r)
    (hf : ∀ seed, f.Meets (Memo.AgreesAt g text F r.name start seed)
      (judge.seeded r.name start seed)) :
    ∀ (as : List Alternative) {longest longest' seed seed' : Option (Fin (text.size + 1))}
      (c : Cursor text), (∀ a ∈ as, a ∈ r.alternatives ∧ a.owner = r.name) →
      c.memo.AgreesAt g text F r.name start seed →
      sweep judge r.name start as longest seed = .ended longest' seed' →
      ∃ d, runRound f start as longest c = .ended longest' d ∧
        d.memo.AgreesAt g text F r.name start seed'
  | [], _, _, _, _, c, _, h, hs => by
    cases hs
    exact ⟨c, rfl, h⟩
  | a :: as, longest, _, seed, _, c, has, h, hs => by
    obtain ⟨ha, ho⟩ := has a List.mem_cons_self
    have has' := fun b hb => has b (List.mem_cons_of_mem a hb)
    rw [sweep] at hs
    have hd : termsVerdict (judge.seeded r.name start seed) a.terms start ≠ .undefined := by
      intro hv
      rw [hv] at hs
      exact absurd hs (by simp)
    rw [runRound]
    rcases Alternative.meets_run hfs hr ha ho (hf seed) c h hd with
      ⟨d, hrun, hv, hP⟩ | ⟨d, hrun, hv, hP⟩
    · rw [hv] at hs
      rw [hrun]
      exact runRound_meets hfs hr hf as d has' hP hs
    · rw [hv] at hs
      rw [hrun]
      exact runRound_meets hfs hr hf as d has' hP hs

/-! ## Rules -/

/-- The rounds go on for as long as the recogniser goes on. -/
theorem grow_meets (hfs : f.Settles g) (hr : g.rule? r.name = some r)
    (ho : ∀ a ∈ r.alternatives, a.owner = r.name)
    (hf : ∀ seed, f.Meets (Memo.AgreesAt g text F r.name start seed)
      (judge.seeded r.name start seed))
    (best : Fin (text.size + 1)) (seed : Option (Fin (text.size + 1))) (c : Cursor text)
    (h : c.memo.AgreesAt g text F r.name start seed)
    (hd : growth judge r start best seed ≠ .undefined) :
    (grow f r start best c).Meets (Memo.Found g text (⟨r.name, start.val⟩ :: F))
      (growth judge r start best seed) := by
  have has : ∀ a ∈ r.alternatives, a ∈ r.alternatives ∧ a.owner = r.name :=
    fun a ha => ⟨ha, ho a ha⟩
  induction best, seed using growth.induct judge r start generalizing c with
  | case1 best seed hs =>
    rw [growth, hs] at hd
    exact absurd rfl hd
  | case2 best seed seed' hs =>
    obtain ⟨d, hrun, hP⟩ := runRound_meets hfs hr hf r.alternatives c has h hs
    rw [grow_of_none hrun, growth, hs]
    exact ⟨rfl, hP.found.saveMismatch _⟩
  | case3 best seed longest seed' hs hlt ih =>
    obtain ⟨d, hrun, hP⟩ := runRound_meets hfs hr hf r.alternatives c has h hs
    rw [growth, hs] at hd
    rw [grow_of_lt hrun hlt, growth, hs]
    dsimp only at hd ⊢
    rw [if_pos hlt] at hd ⊢
    exact ih d hP hd
  | case4 best seed longest seed' hs hlt =>
    obtain ⟨d, hrun, hP⟩ := runRound_meets hfs hr hf r.alternatives c has h hs
    rw [grow_of_not_lt hrun hlt, growth, hs]
    dsimp only
    rw [if_neg hlt]
    exact ⟨rfl, hP.found⟩

/-- A rule that is begun ends as the recogniser says, and its spot is one more that agrees. -/
theorem Rule.meets_run (hfs : f.Settles g) (hrec : f.Recalls) (hr : g.rule? r.name = some r)
    (ho : ∀ a ∈ r.alternatives, a.owner = r.name) (c : Cursor text)
    (hf : ∀ seed, f.Meets (Memo.AgreesAt g text F r.name c.pos seed)
      (judge.seeded r.name c.pos seed))
    (h : c.memo.Agrees g text F) (hnew : c.memo.isStarted (c.spot r.name) = false)
    (hv : g.Finds r.name c.pos (r.verdict judge c.pos)) :
    (r.run f c).Meets (Memo.Agrees g text F) (r.verdict judge c.pos) := by
  have hbegin : (c.saveStarted (c.spot r.name)).memo.AgreesAt g text F r.name c.pos none :=
    ⟨⟨h.toSettled.saveStarted hnew ⟨c.pos, rfl⟩, h.found.saveStarted _⟩,
      h.longest_of_new hnew⟩
  have hgrow := grow_meets hfs hr ho hf c.pos none _ hbegin hv.1
  have hend := Rule.concludes_run hfs hrec hr ho c h.toSettled hnew
  rw [Rule.run] at hend ⊢
  rw [Rule.verdict] at hv ⊢
  cases hres : grow f r c.pos c.pos (c.saveStarted (c.spot r.name)) with
  | matched d =>
    rw [hres] at hgrow hend
    obtain ⟨heq, hfound⟩ := hgrow
    exact ⟨heq, hend.1, hfound.close (v := .ends d.pos) (heq ▸ hv) hend.2.2⟩
  | failed d =>
    rw [hres] at hgrow hend
    obtain ⟨heq, hfound⟩ := hgrow
    exact ⟨heq, hend.1, hfound.close (v := .fails) (heq ▸ hv) hend.2.2.1⟩
  | stopped fault d =>
    rw [hres] at hgrow
    exact hgrow.elim

end

/-! ## References -/

/-- The rule under way at `start` answers with its seed; all other references are followed as the
judge says, and leave the seed alone. -/
theorem resolve_meets_seeded (hg : g.Owned) {n : Nat} {judge : Judge text} {name : String}
    {start : Fin (text.size + 1)}
    (h : Follow.Meets (Memo.Agrees g text (⟨name, start.val⟩ :: F)) judge (resolve g n))
    (seed : Option (Fin (text.size + 1))) :
    Follow.Meets (Memo.AgreesAt g text F name start seed) (judge.seeded name start seed)
      (resolve g n) := by
  intro m c hin hd
  have hmem : (⟨name, start.val⟩ : Spot) ∈ (⟨name, start.val⟩ :: F : List Spot) :=
    List.mem_cons_self
  unfold Judge.seeded at hd ⊢
  by_cases hs : m = name ∧ c.pos = start
  · obtain ⟨rfl, rfl⟩ := hs
    rw [if_pos ⟨rfl, rfl⟩]
    have hstarted : c.memo.isStarted (c.spot m) = true := hin.started_of_underWay _ hmem
    have hopen : c.memo.isMismatch (c.spot m) = false := hin.open_of_underWay _ hmem
    have hseed : c.memo.longest? (c.spot m) = seed.map fun e => (e.val : Int) := hin.seed
    have hres := resolution g n m c
    generalize resolve g n m c = res at hres ⊢
    cases hres with
    | mismatch hm => rw [hopen] at hm; exact absurd hm (by simp)
    | recorded _ hl =>
      rw [hseed] at hl
      obtain ⟨e, rfl, rfl⟩ := Option.map_eq_some_iff.1 hl
      rw [Result.matchedAt_of_le c (Nat.le_of_lt_succ e.isLt)]
      exact ⟨rfl, hin⟩
    | underWay _ hl _ =>
      rw [hseed] at hl
      cases Option.map_eq_none_iff.1 hl
      exact ⟨rfl, hin⟩
    | unknown _ _ hnew _ | tooDeep _ _ hnew _ _ | fresh _ _ hnew _ _ =>
      rw [hstarted] at hnew
      exact absurd hnew (by simp)
  · rw [if_neg hs] at hd ⊢
    have hmeets := h m c hin.toAgrees hd
    have hset := resolve_settles hg n _ m c hin.toSettled
    -- the rule at `start` was begun before, so other rules do not touch its greatest end
    have hkeep : ∀ d : Cursor text, c.memo.KeepsBut [] d.memo →
        d.memo.longest? ⟨name, start.val⟩ = seed.map fun e => (e.val : Int) := fun d hk =>
      (hk.longest _ (hin.started_of_underWay _ hmem) (by simp)).trans hin.seed
    cases hres : resolve g n m c with
    | matched d =>
      rw [hres] at hmeets hset
      exact ⟨hmeets.1, hmeets.2, hkeep d hset.2.1⟩
    | failed d =>
      rw [hres] at hmeets hset
      exact ⟨hmeets.1, hmeets.2, hkeep d hset.2⟩
    | stopped fault d => rwa [hres] at hmeets

/-- A rule whose references are followed as the recogniser follows them with `k` levels does what the
recogniser says with one level more. -/
theorem Rule.meets_resolve (hg : g.Owned) {r : Rule} (hr : g.rule? r.name = some r) {k n : Nat}
    (c : Cursor text)
    (hf : Follow.Meets (Memo.Agrees g text (c.spot r.name :: F)) (g.verdict k : Judge text)
      (resolve g n))
    (h : c.memo.Agrees g text F) (hnew : c.memo.isStarted (c.spot r.name) = false)
    (hd : g.verdict (k + 1) r.name c.pos ≠ .undefined) :
    (r.run (resolve g n) c).Meets (Memo.Agrees g text F) (g.verdict (k + 1) r.name c.pos) := by
  have hverdict : g.verdict (k + 1) r.name c.pos = r.verdict (g.verdict k) c.pos := by
    rw [Grammar.verdict, hr]
  have hfinds := Grammar.finds_verdict hd
  rw [hverdict] at hfinds ⊢
  exact Rule.meets_run (resolve_settles hg n) (resolve_recalls g n) hr (hg.of_rule? hr) c
    (resolve_meets_seeded hg hf) h hnew hfinds

/-- References are followed as the recogniser says, by whatever way they are answered. The induction
is on the levels of the recogniser: a rule that is run has been given the first number of levels that
decides it, so it is undecided itself, as are all that are under way, on the level below. -/
theorem resolve_meets (hg : g.Owned) : ∀ (k n : Nat) (F : List Spot), k ≤ n →
    (∀ (name : String) (p : Fin (text.size + 1)), (⟨name, p.val⟩ : Spot) ∈ F →
      g.verdict k name p = .undefined) →
    Follow.Meets (Memo.Agrees g text F) (g.verdict k : Judge text) (resolve g n) := by
  intro k
  induction k using Nat.strongRecOn with
  | ind k ih =>
    intro n F hkn hF name c h hd
    -- a reference with an answer does not lead back to a spot under way
    have hnotF : (⟨name, c.pos.val⟩ : Spot) ∉ F := fun hmem => hd (hF name c.pos hmem)
    -- where the memo has decided, it holds the verdict
    have hknown : c.memo.isStarted (c.spot name) = true →
        c.memo.Shows name c.pos (g.verdict k name c.pos) := by
      intro hs
      obtain ⟨v, hv, hshows⟩ := h.found name c.pos hs hnotF
      rwa [hv.unique (Grammar.finds_verdict hd)] at hshows
    have hres := resolution g n name c
    generalize resolve g n name c = res at hres ⊢
    cases hres with
    | mismatch hm =>
      have hshows := hknown (h.started_of_mismatch _ hm)
      cases hv : g.verdict k name c.pos with
      | undefined => exact absurd hv hd
      | fails => exact ⟨rfl, h⟩
      | ends e =>
        rw [hv] at hshows
        exact absurd (hm.symm.trans (h.not_mismatch hshows)) (by simp)
    | recorded hm hl =>
      have hshows := hknown (h.started_of_longest hl)
      cases hv : g.verdict k name c.pos with
      | undefined => exact absurd hv hd
      | fails =>
        rw [hv] at hshows
        exact absurd (hm.symm.trans hshows) (by simp)
      | ends e =>
        rw [hv] at hshows
        rw [Option.some.inj (hl.symm.trans hshows),
          Result.matchedAt_of_le c (Nat.le_of_lt_succ e.isLt)]
        exact ⟨rfl, h⟩
    | underWay hm hl hs =>
      have hshows := hknown hs
      cases hv : g.verdict k name c.pos with
      | undefined => exact absurd hv hd
      | fails => exact ⟨rfl, h⟩
      | ends e =>
        rw [hv] at hshows
        exact absurd (hl.symm.trans hshows) (by simp)
    | unknown _ _ _ hr =>
      cases k with
      | zero => exact absurd rfl hd
      | succ k =>
        rw [Grammar.verdict, hr] at hd
        exact absurd rfl hd
    | tooDeep _ _ _ _ hn =>
      subst hn
      cases Nat.le_zero.1 hkn
      exact absurd rfl hd
    | @fresh r m _ _ hs hr hn =>
      cases Grammar.name_of_rule? hr
      -- `j + 1` levels are the first that decide the rule, so on level `j` it may be under way
      obtain ⟨j, hj, hundef, hval⟩ := Grammar.exists_first_verdict r.name c.pos k hd
      rw [← hval] at hd ⊢
      refine Rule.meets_resolve hg hr c (ih j hj m _ (by omega) ?_) h hs hd
      intro name p hmem
      rcases List.mem_cons.1 hmem with he | hmem
      · obtain ⟨rfl, hp⟩ := Spot.mk.inj he
        cases Fin.ext (Int.ofNat.inj hp)
        exact hundef
      · by_contra hdef
        exact hdef ((Grammar.verdict_mono (Nat.le_of_lt hj) name p hdef).symm.trans
          (hF name p hmem))

/-! ## Whole runs -/

section

variable {m : Memo} {name : String} {p : Fin (text.size + 1)}

theorem Memo.Agrees.isMismatch_iff (h : m.Agrees g text F)
    (hs : m.isStarted ⟨name, p.val⟩ = true) (hF : (⟨name, p.val⟩ : Spot) ∉ F) :
    m.isMismatch ⟨name, p.val⟩ = true ↔ g.Finds name p .fails := by
  obtain ⟨v, hv, hshows⟩ := h.found name p hs hF
  constructor
  · intro hm
    cases v with
    | undefined => exact hshows.elim
    | fails => exact hv
    | ends e => exact absurd (hm.symm.trans (h.not_mismatch hshows)) (by simp)
  · intro hf
    cases hv.unique hf
    exact hshows

theorem Memo.Agrees.longest?_iff (h : m.Agrees g text F)
    (hs : m.isStarted ⟨name, p.val⟩ = true) (hF : (⟨name, p.val⟩ : Spot) ∉ F) (e : Int) :
    m.longest? ⟨name, p.val⟩ = some e ↔
      ∃ q : Fin (text.size + 1), e = q.val ∧ g.Finds name p (.ends q) := by
  obtain ⟨v, hv, hshows⟩ := h.found name p hs hF
  constructor
  · intro hl
    cases v with
    | undefined => exact hshows.elim
    | fails => exact absurd ((h.apart _ hshows).symm.trans hl) (by simp)
    | ends q => exact ⟨q, Option.some.inj (hl.symm.trans hshows), hv⟩
  · rintro ⟨q, rfl, hq⟩
    cases hv.unique hq
    exact hshows

end

/-- With as many levels as its start rule needs, a run of a grammar ends as the recogniser says. Here,
too, the levels are first brought down to the least number. -/
theorem Grammar.run_meets (hg : g.Owned) {r : Rule} (hr : g.rule? r.name = some r) {k : Nat}
    {limit : Int} (hk : k ≤ limit)
    (hd : g.verdict (k + 1) r.name (0 : Fin (text.size + 1)) ≠ .undefined) :
    (g.run text limit r).Meets (Memo.Agrees g text []) (g.verdict (k + 1) r.name 0) := by
  obtain ⟨j, hj, hundef, hval⟩ := Grammar.exists_first_verdict r.name 0 (k + 1) hd
  rw [← hval] at hd ⊢
  rw [Grammar.run_eq_resolve]
  have hbelow : ∀ (name : String) (p : Fin (text.size + 1)),
      (⟨name, p.val⟩ : Spot) ∈ [(⟨r.name, 0⟩ : Spot)] → g.verdict j name p = .undefined := by
    intro name p hmem
    obtain ⟨rfl, hp⟩ := Spot.mk.inj (List.mem_singleton.1 hmem)
    cases Fin.ext (Int.ofNat.inj hp : p.val = (0 : Fin (text.size + 1)).val)
    exact hundef
  have hf := resolve_meets hg j limit.toNat [⟨r.name, 0⟩] (by omega) hbelow
  exact Rule.meets_resolve hg hr (.first text limit) hf (Memo.agrees_empty g text) rfl hd

/-- Every spot that was begun is in the text, and the tables say of it what the recogniser finds. -/
def Memo.Mirrors (g : Grammar) (text : Text) (m : Memo) : Prop :=
  ∀ t, m.isStarted t = true → ∃ p : Fin (text.size + 1), t.start = p.val ∧
    (m.isMismatch t = true ↔ g.Finds t.name p .fails) ∧
    ∀ e, m.longest? t = some e ↔
      ∃ q : Fin (text.size + 1), e = q.val ∧ g.Finds t.name p (.ends q)

theorem Memo.Agrees.mirrors {m : Memo} (h : m.Agrees g text []) : m.Mirrors g text := by
  rintro ⟨name, i⟩ ht
  obtain ⟨p, rfl⟩ := h.inside _ ht
  exact ⟨p, rfl, h.isMismatch_iff ht (by simp), h.longest?_iff ht (by simp)⟩

/-- Where the recogniser has an answer for the start rule, with references nested at most `k` deep, a
run that may nest them as deep returns and ends in the same way; and the memo that it returns with
mirrors the recogniser. -/
theorem parse_agrees {lib : Regex.Library} {s : RuleSet} (hs : s.compile lib = .ok g)
    {start : Option String} {r : Rule} (hr : g.startRule start = .ok r) {k : Nat} {v : Verdict text}
    (hv : g.verdict (k + 1) r.name 0 = v) (hd : v ≠ .undefined) {limit : Int} (hk : k ≤ limit) :
    ∃ c, g.parse text start limit = .ok c ∧
      (g.run text limit r = .matched c ∧ v = .ends c.pos ∨
        g.run text limit r = .failed c ∧ v = .fails ∧ c.pos = 0) ∧
      c.memo.Mirrors g text := by
  have hg := RuleSet.owned_of_compile hs
  have hrule := Grammar.rule?_of_startRule hr
  have hmeets := Grammar.run_meets hg hrule hk (hv.symm ▸ hd)
  have hend := Grammar.run_concludes hg hrule text limit
  rw [hv] at hmeets
  rw [Grammar.parse, hr]
  dsimp only
  cases hres : g.run text limit r with
  | matched c =>
    rw [hres] at hmeets
    exact ⟨c, rfl, Or.inl ⟨rfl, hmeets.1⟩, hmeets.2.mirrors⟩
  | failed c =>
    rw [hres] at hmeets hend
    refine ⟨c, rfl, Or.inr ⟨rfl, hmeets.1, ?_⟩, hmeets.2.mirrors⟩
    exact Fin.ext (Int.ofNat.inj hend.2.2.2).symm
  | stopped fault c =>
    rw [hres] at hmeets
    exact hmeets.elim

/-- The sum in brackets is two references below the outer one, and what it is made of three: three
levels will do. -/
theorem parse_agrees_sum :
    sums.compile .standard = .ok sumGrammar ∧ sumGrammar.startRule none = .ok sumRule ∧
    (sumGrammar.verdict 3 "sum" 0 : Verdict #['1', '+', '(', '1', ')']) = .undefined ∧
    ∃ c : Cursor #['1', '+', '(', '1', ')'],
      sumGrammar.parse #['1', '+', '(', '1', ')'] none 3 = .ok c ∧ c.pos.val = 5 ∧
      c.memo.Mirrors sumGrammar #['1', '+', '(', '1', ')'] := by
  have hstart : sumGrammar.startRule none = .ok sumRule := rfl
  have hverdict : (sumGrammar.verdict 4 "sum" 0 : Verdict #['1', '+', '(', '1', ')']) =
      .ends 5 := by decide +kernel
  obtain ⟨c, hc, hend, hmirrors⟩ := parse_agrees (compile_sums .standard) hstart (k := 3)
    hverdict (by simp) (Int.le_refl 3)
  refine ⟨rfl, hstart, by decide +kernel, c, hc, ?_, hmirrors⟩
  rcases hend with ⟨-, hv⟩ | ⟨-, hv, -⟩
  · rw [← Verdict.ends.inj hv]
    rfl
  · exact absurd hv (by simp)

end Packrat
