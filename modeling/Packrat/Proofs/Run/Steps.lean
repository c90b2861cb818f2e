import Packrat.Proofs.Run.Settled

/-!
# `Packrat/Proofs/Run/Steps.lean` — what each step of a run does to the memo

One statement for each function of the run, from terms up to references: begun with a memo that is
`Settled` for the rules under way, the step leaves one that is, and says what it found. Where a run
is stopped, the memo is still `Sound`.

The point that needs an argument is the round of a rule that has matched before: it must match again,
or the rule would be written down to fail in spite of its matches. **A planted seed grows again**:
the alternative that found the first match of a rule did so without a seed, so none of its
references was answered by that seed (`Planted`). The answers that it did use stay as they are, hence
the alternative matches in every later round (`runTerms_of_splits`).
-/

set_option autoImplicit false

namespace Packrat

variable {text : Text} {g : Grammar} {F : List Spot}

/-! ## Contracts -/

/-- A step from `c`, taken while the rules at `F` are under way, leaves the memo settled; it may
change the greatest ends at the spots `ts`; and a match comes with `found`. -/
def Result.Settles (g : Grammar) (F ts : List Spot) (c : Cursor text) (found : Cursor text → Prop) :
    Result text → Prop
  | .matched d => d.memo.Settled g text F ∧ c.memo.KeepsBut ts d.memo ∧ found d
  | .failed d => d.memo.Settled g text F ∧ c.memo.KeepsBut ts d.memo
  | .stopped _ d => d.memo.Sound g text

/-- Following a reference ends where the memo then says that the rule ends. -/
def Follow.Settles (g : Grammar) (f : Follow text) : Prop :=
  ∀ (F : List Spot) (name : String) (c : Cursor text), c.memo.Settled g text F →
    (f name c).Settles g F [] c fun d => d.memo.Answers name c.pos d.pos

/-- A reference that the memo knows a match for is answered from the memo. -/
def Follow.Recalls (f : Follow text) : Prop :=
  ∀ (name : String) (c : Cursor text) (q : Nat), c.memo.isMismatch (c.spot name) = false →
    c.memo.Answers name c.pos q → f name c = .matchedAt c q

/-! ## Moves -/

theorem Result.matchedAt_of_le (c : Cursor text) {q : Nat} (hq : q ≤ text.size) :
    Result.matchedAt c q = .matched (c.backTo ⟨q, Nat.lt_succ_of_le hq⟩) := by
  unfold Result.matchedAt Cursor.moveTo Cursor.position?
  rw [dif_pos ⟨Int.natCast_nonneg q, Int.ofNat_le.2 hq⟩]
  rfl

/-- A move settles whatever a match that ends there settles. -/
theorem Result.settles_matchedAt {ts : List Spot} {c : Cursor text} {found : Cursor text → Prop}
    {q : Nat} (h : c.memo.Settled g text F)
    (hf : ∀ p : Fin (text.size + 1), p.val = q → found (c.backTo p)) :
    (Result.matchedAt c q).Settles g F ts c found := by
  rcases Result.matchedAt_cases c q with ⟨p, hp, hm⟩ | ⟨f, hm⟩ <;> rw [hm]
  · exact ⟨h, .refl ts _, hf p (Int.ofNat.inj hp)⟩
  · exact h.toSound

/-! ## Terms -/

theorem Term.settles_run {f : Follow text} (hf : f.Settles g) (t : Term) (c : Cursor text)
    (h : c.memo.Settled g text F) :
    (t.run f c).Settles g F [] c fun d => Splits text d.memo.Answers [t] c.pos d.pos := by
  have hpos : c.pos.val ≤ text.size := Nat.le_of_lt_succ c.pos.isLt
  cases t with
  | literal s =>
    rw [Term.run]
    split
    · rename_i hs
      obtain ⟨hle, hslice⟩ := Text.slice_of_startsAt hpos hs
      refine Result.settles_matchedAt h fun p hp => ?_
      rw [Cursor.backTo, hp]
      exact .literal (Nat.le_add_right _ _) hle hslice .nil
    · exact ⟨h, .refl _ _⟩
  | pattern r =>
    rw [Term.run]
    split
    · rename_i i hi
      refine Result.settles_matchedAt h fun p hp => ?_
      rw [Cursor.backTo, hp]
      exact .pattern hi .nil
    · exact ⟨h, .refl _ _⟩
  | reference name =>
    have hr := hf F name c h
    rw [Term.run]
    cases hres : f name c with
    | matched d =>
      rw [hres] at hr
      exact ⟨hr.1, hr.2.1, .reference hr.2.2 .nil⟩
    | failed d => rwa [hres] at hr
    | stopped fault d => rwa [hres] at hr
  | foreignLiteral v => exact h.toSound
  | foreign v => exact h.toSound

theorem runTerms_settles {f : Follow text} (hf : f.Settles g) :
    ∀ (ts : List Term) (c : Cursor text), c.memo.Settled g text F →
      (runTerms f ts c).Settles g F [] c fun d => Splits text d.memo.Answers ts c.pos d.pos
  | [], c, h => ⟨h, .refl _ _, .nil⟩
  | t :: ts, c, h => by
    have ht := Term.settles_run hf t c h
    rw [runTerms]
    cases hres : t.run f c with
    | failed d => rwa [hres] at ht
    | stopped fault d => rwa [hres] at ht
    | matched d =>
      rw [hres] at ht
      obtain ⟨hd, hkd, hsd⟩ := ht
      have hts := runTerms_settles hf ts d hd
      dsimp only
      cases hrest : runTerms f ts d with
      | stopped fault e => rwa [hrest] at hts
      | failed e =>
        rw [hrest] at hts
        exact ⟨hts.1, hkd.trans hts.2⟩
      | matched e =>
        rw [hrest] at hts
        obtain ⟨he, hke, hse⟩ := hts
        -- what answered the first term still answers
        have hfirst := hsd.mono fun name i j ha => hd.answers_of_keeps hke (by simp) ha
        exact ⟨he, hkd.trans hke, hfirst.append hse⟩

/-- Terms that the memo can answer match, and nothing is written. -/
theorem runTerms_of_splits {f : Follow text} (hf : f.Recalls) {m : Memo} (hm : m.Settled g text F)
    {ts : List Term} {p q : Nat} (h : Splits text m.Answers ts p q) :
    ∀ c : Cursor text, c.memo = m → c.pos.val = p →
      ∃ e : Fin (text.size + 1), e.val = q ∧ runTerms f ts c = .matched (c.backTo e) := by
  induction h with
  | nil => exact fun c _ hp => ⟨c.pos, hp, rfl⟩
  | @literal s ts p i q hpi hi hs _ ih =>
    intro c hc hp
    obtain ⟨hst, rfl⟩ := Text.startsAt_of_slice hpi hi hs
    obtain ⟨e, he, hrun⟩ := ih (c.backTo ⟨p + s.length, Nat.lt_succ_of_le hi⟩) hc rfl
    refine ⟨e, he, ?_⟩
    rw [runTerms, Term.run, hp, if_pos hst, ← Int.natCast_add, Result.matchedAt_of_le c hi]
    exact hrun
  | @pattern r ts p i q hr _ ih =>
    intro c hc hp
    have hi : i ≤ text.size :=
      (r.bounds (hp ▸ Nat.le_of_lt_succ c.pos.isLt) hr).2
    obtain ⟨e, he, hrun⟩ := ih (c.backTo ⟨i, Nat.lt_succ_of_le hi⟩) hc rfl
    refine ⟨e, he, ?_⟩
    rw [runTerms, Term.run, hp, hr]
    dsimp only
    rw [Result.matchedAt_of_le c hi]
    exact hrun
  | @reference name ts p i q ha _ ih =>
    intro c hc hp
    have hi : i ≤ text.size := (hm.answers_bounds ha).2
    obtain ⟨e, he, hrun⟩ := ih (c.backTo ⟨i, Nat.lt_succ_of_le hi⟩) hc rfl
    refine ⟨e, he, ?_⟩
    subst hc hp
    have hrec := hf name c i (hm.not_mismatch ha) ha
    rw [runTerms, Term.run, hrec, Result.matchedAt_of_le c hi]
    exact hrun

/-! ## Alternatives -/

/-- What an alternative records moves only the greatest end of its rule. -/
theorem Alternative.keepsBut_record {r : Rule} {a : Alternative} (ho : a.owner = r.name)
    (c : Cursor text) {d : Cursor text} (hd : d.memo.Coherent) :
    d.memo.KeepsBut [c.spot r.name] (d.memo.saveMatch ⟨a.owner, c.pos.val, d.pos.val⟩) := by
  rw [← ho]
  exact hd.keepsBut_saveMatch (x := ⟨a.owner, c.pos.val, d.pos.val⟩) (Int.natCast_nonneg _)

/-- An alternative records its match under its rule. Found without a seed, the match is planted: its
references stand over answers for other spots. -/
theorem Alternative.settles_run {f : Follow text} (hf : f.Settles g) {r : Rule} {a : Alternative}
    (hr : g.rule? r.name = some r) (ha : a ∈ r.alternatives) (ho : a.owner = r.name)
    (c : Cursor text) (h : c.memo.Settled g text F) (ht : c.spot r.name ∈ F) :
    match a.run f c with
    | .matched d => d.memo.Settled g text F ∧ c.memo.KeepsBut [c.spot r.name] d.memo ∧
        c.pos ≤ d.pos ∧
        d.memo.longest? (c.spot r.name) =
          some (max ((c.memo.longest? (c.spot r.name)).getD d.pos) d.pos) ∧
        (c.memo.longest? (c.spot r.name) = none →
          Splits text (d.memo.AnswersBut (c.spot r.name)) a.terms c.pos d.pos)
    | .failed d => d.memo.Settled g text F ∧ c.memo.KeepsBut [] d.memo
    | .stopped _ d => d.memo.Sound g text := by
  have hts := runTerms_settles hf a.terms c h
  rw [Alternative.run]
  cases hres : runTerms f a.terms c with
  | stopped fault d => rwa [hres] at hts
  | failed d => rwa [hres] at hts
  | matched d =>
    rw [hres] at hts
    obtain ⟨hd, hk, hs⟩ := hts
    have hb := hs.bounds (fun _ _ _ ha => hd.answers_bounds ha) (Nat.le_of_lt_succ c.pos.isLt)
    have hspot : (⟨a.owner, c.pos.val, d.pos.val⟩ : Match).spot = c.spot r.name := by
      rw [Match.spot, ho, Cursor.spot]
    have hlong : d.memo.longest? (c.spot r.name) = c.memo.longest? (c.spot r.name) :=
      hk.longest _ (h.started_of_underWay _ ht) (by simp)
    have hacc : Accounted g text (fun name p q => (⟨name, p, q⟩ : Match) ∈ d.memo.log)
        ⟨a.owner, c.pos.val, d.pos.val⟩ :=
      ⟨c.pos, d.pos, rfl, rfl, hb.1, hb.2, r, ho ▸ hr, a, ha,
        hs.mono fun _ _ _ ha => hd.mem_of_answers ha⟩
    have hsave := hd.coherent.longest_saveMatch (x := ⟨a.owner, c.pos.val, d.pos.val⟩)
      (Int.natCast_nonneg _)
    rw [hspot] at hsave
    have hkeep := Alternative.keepsBut_record ho c hd.coherent
    refine ⟨hd.saveMatch (hspot ▸ ht) hacc, (hk.weaken _).trans hkeep, hb.1, ?_, ?_⟩
    · rw [← hlong]
      exact (hsave _).trans (if_pos rfl)
    · intro hnone
      refine hs.mono fun name p q ha => ?_
      -- nothing is known at the spot itself, so the answer is about another one
      have hne : (⟨name, p⟩ : Spot) ≠ c.spot r.name := by
        intro he
        rw [Memo.Answers, he, hlong, hnone] at ha
        exact absurd ha (by simp)
      exact ⟨hne, hd.answers_of_keeps hkeep (by simpa using hne) ha⟩

/-- An alternative whose terms the memo can answer matches. -/
theorem Alternative.matched_of_splits {f : Follow text} (hf : f.Recalls) {a : Alternative}
    {c : Cursor text} (h : c.memo.Settled g text F) {q : Nat}
    (hs : Splits text c.memo.Answers a.terms c.pos q) : ∃ d, a.run f c = .matched d := by
  obtain ⟨e, -, hrun⟩ := runTerms_of_splits hf h hs c rfl rfl
  exact ⟨_, by rw [Alternative.run, hrun]⟩

/-! ## Rounds -/

/-- If the rule has matched at `start`, one of its alternatives can be answered from the memo without
the rule's own matches there. -/
def Planted (text : Text) (r : Rule) (start : Fin (text.size + 1)) (m : Memo) : Prop :=
  ∀ e, m.longest? ⟨r.name, start.val⟩ = some e → ∃ a ∈ r.alternatives, ∃ q,
    Splits text (m.AnswersBut ⟨r.name, start.val⟩) a.terms start q

/-- How a rule stands in the middle of a round that found `before` as its greatest end: `longest` is
the furthest match of the round. -/
structure InRound (g : Grammar) (F : List Spot) (r : Rule) (start : Fin (text.size + 1))
    (before : Option Int) (longest : Option (Fin (text.size + 1))) (m : Memo) : Prop where
  settled : m.Settled g text F
  planted : Planted text r start m
  tally : match longest with
    | none => m.longest? ⟨r.name, start.val⟩ = before
    | some l => start ≤ l ∧
        m.longest? ⟨r.name, start.val⟩ = some (max (before.getD start.val) l.val)

section

variable {r : Rule} {start : Fin (text.size + 1)} {before : Option Int}
  {longest : Option (Fin (text.size + 1))}

/-- What the alternatives of the rule do at its spot keeps a planted match planted. -/
theorem Planted.of_keeps {m n : Memo} (h : Planted text r start m) (hm : m.Settled g text F)
    (hk : m.KeepsBut [⟨r.name, start.val⟩] n) {e : Int}
    (he : m.longest? ⟨r.name, start.val⟩ = some e) : Planted text r start n := by
  intro _ _
  obtain ⟨a, ha, q, hs⟩ := h e he
  exact ⟨a, ha, q, hs.mono fun _ _ _ hx => hm.answersBut_of_keeps hk hx⟩

/-- A planted seed grows again: if no alternative can be answered without it, there is none. -/
theorem Planted.longest_eq_none {m : Memo} (h : Planted text r start m)
    (hno : ∀ a ∈ r.alternatives, ∀ q,
      ¬ Splits text (m.AnswersBut ⟨r.name, start.val⟩) a.terms start q) :
    m.longest? ⟨r.name, start.val⟩ = none := by
  cases hm : m.longest? ⟨r.name, start.val⟩ with
  | none => rfl
  | some e =>
    obtain ⟨a, ha, q, hs⟩ := h e hm
    exact absurd hs (hno a ha q)

theorem exists_furthest (start : Fin (text.size + 1)) (longest : Option (Fin (text.size + 1)))
    (p : Fin (text.size + 1)) :
    ∃ l, furthest start longest p = some l ∧ l.val = max (longest.getD start).val p.val := by
  refine ⟨_, rfl, ?_⟩
  split <;> rename_i h <;> rw [Fin.lt_def] at h <;> omega

theorem furthest_none {start p : Fin (text.size + 1)} (h : start ≤ p) :
    furthest start none p = some p := by
  rw [furthest, Option.getD_none]
  rcases Fin.lt_or_eq_of_le h with hlt | heq
  · rw [if_pos hlt]
  · rw [if_neg (heq ▸ Fin.lt_irrefl _), heq]

theorem furthest_some {start p q : Fin (text.size + 1)} (h : p ≤ q) :
    furthest start (some q) p = some q := by
  rw [furthest, Option.getD_some, if_neg (Fin.not_lt.2 h)]

/-- An alternative that matches is counted in. -/
theorem InRound.of_matched {f : Follow text} (hf : f.Settles g) {a : Alternative}
    (hr : g.rule? r.name = some r) (ha : a ∈ r.alternatives) (ho : a.owner = r.name)
    (ht : (⟨r.name, start.val⟩ : Spot) ∈ F) {c d : Cursor text}
    (h : InRound g F r start before longest c.memo) (hrun : a.run f (c.backTo start) = .matched d) :
    InRound g F r start before (furthest start longest d.pos) d.memo ∧
      c.memo.KeepsBut [⟨r.name, start.val⟩] d.memo := by
  have hstep := Alternative.settles_run hf hr ha ho (c.backTo start) h.settled ht
  rw [hrun] at hstep
  obtain ⟨hd, hk, hle, hlong, hplant⟩ := hstep
  refine ⟨⟨hd, ?_, ?_⟩, hk⟩
  · cases hc : c.memo.longest? ⟨r.name, start.val⟩ with
    | none => exact fun _ _ => ⟨a, ha, d.pos, hplant hc⟩
    | some e => exact h.planted.of_keeps h.settled hk hc
  · have hle : start.val ≤ d.pos.val := hle
    have hl : d.memo.longest? ⟨r.name, start.val⟩ =
        some (max ((c.memo.longest? ⟨r.name, start.val⟩).getD d.pos.val) d.pos.val) := hlong
    obtain ⟨l, hfur, hval⟩ := exists_furthest start longest d.pos
    have htally := h.tally
    rw [hfur]
    cases longest with
    | none =>
      rw [show c.memo.longest? ⟨r.name, start.val⟩ = before from htally] at hl
      simp only [Option.getD_none] at hval
      refine ⟨Fin.le_def.2 (by omega), ?_⟩
      rw [hl, Option.some.injEq]
      cases before with
      | none =>
        simp only [Option.getD_none]
        omega
      | some b =>
        simp only [Option.getD_some]
        omega
    | some k =>
      rw [htally.2, Option.getD_some] at hl
      have hk := Fin.le_def.1 htally.1
      simp only [Option.getD_some] at hval
      refine ⟨Fin.le_def.2 (by omega), ?_⟩
      rw [hl, Option.some.injEq]
      omega

/-- An alternative that does not match changes nothing. -/
theorem InRound.of_failed {f : Follow text} (hf : f.Settles g) {a : Alternative}
    (hr : g.rule? r.name = some r) (ha : a ∈ r.alternatives) (ho : a.owner = r.name)
    (ht : (⟨r.name, start.val⟩ : Spot) ∈ F) {c d : Cursor text}
    (h : InRound g F r start before longest c.memo) (hrun : a.run f (c.backTo start) = .failed d) :
    InRound g F r start before longest d.memo ∧ c.memo.KeepsBut [⟨r.name, start.val⟩] d.memo := by
  have hstep := Alternative.settles_run hf hr ha ho (c.backTo start) h.settled ht
  rw [hrun] at hstep
  obtain ⟨hd, hk⟩ := hstep
  have hlong : d.memo.longest? ⟨r.name, start.val⟩ = c.memo.longest? ⟨r.name, start.val⟩ :=
    hk.longest _ (h.settled.started_of_underWay _ ht) (by simp)
  refine ⟨⟨hd, ?_, ?_⟩, hk.weaken _⟩
  · intro e he
    rw [hlong] at he
    exact h.planted.of_keeps h.settled (hk.weaken _) he e (hlong.trans he)
  · rw [hlong]
    exact h.tally

/-- A round keeps the books; and it finds a match if one was found in it before, or if one of its
alternatives can be answered without the rule's own matches. -/
theorem runRound_settles {f : Follow text} (hf : f.Settles g) (hrec : f.Recalls)
    (hr : g.rule? r.name = some r) (ht : (⟨r.name, start.val⟩ : Spot) ∈ F) :
    ∀ (as : List Alternative) (longest : Option (Fin (text.size + 1))) (c : Cursor text),
      (∀ a ∈ as, a ∈ r.alternatives ∧ a.owner = r.name) →
      InRound g F r start before longest c.memo →
      match runRound f start as longest c with
      | .ended longest' d => InRound g F r start before longest' d.memo ∧
          c.memo.KeepsBut [⟨r.name, start.val⟩] d.memo ∧
          (longest' = none → longest = none ∧ ∀ a ∈ as, ∀ q,
            ¬ Splits text (c.memo.AnswersBut ⟨r.name, start.val⟩) a.terms start q)
      | .stopped _ d => d.memo.Sound g text
  | [], longest, c, _, h => ⟨h, .refl _ _, fun hl => ⟨hl, by simp⟩⟩
  | a :: as, longest, c, has, h => by
    obtain ⟨ha, ho⟩ := has a List.mem_cons_self
    have has' := fun b hb => has b (List.mem_cons_of_mem a hb)
    rw [runRound]
    cases hres : a.run f (c.backTo start) with
    | stopped fault d =>
      have hstep := Alternative.settles_run hf hr ha ho (c.backTo start) h.settled ht
      rwa [hres] at hstep
    | matched d =>
      obtain ⟨hd, hk⟩ := h.of_matched hf hr ha ho ht hres
      have hrest := runRound_settles hf hrec hr ht as _ d has' hd
      dsimp only
      cases hround : runRound f start as (furthest start longest d.pos) d with
      | stopped fault e => rwa [hround] at hrest
      | ended longest' e =>
        rw [hround] at hrest
        refine ⟨hrest.1, hk.trans hrest.2.1, fun hnone => ?_⟩
        exact absurd (hrest.2.2 hnone).1 (by simp [furthest])
    | failed d =>
      obtain ⟨hd, hk⟩ := h.of_failed hf hr ha ho ht hres
      have hrest := runRound_settles hf hrec hr ht as longest d has' hd
      dsimp only
      cases hround : runRound f start as longest d with
      | stopped fault e => rwa [hround] at hrest
      | ended longest' e =>
        rw [hround] at hrest
        refine ⟨hrest.1, hk.trans hrest.2.1, fun hnone => ?_⟩
        obtain ⟨hl, hno⟩ := hrest.2.2 hnone
        refine ⟨hl, fun b hb q hs => ?_⟩
        rcases List.mem_cons.1 hb with rfl | hb
        · -- had the memo held the answers for it, this alternative would have matched
          obtain ⟨d', hd'⟩ := Alternative.matched_of_splits hrec (c := c.backTo start) h.settled
            (hs.mono fun _ _ _ hx => hx.2)
          rw [hd'] at hres
          exact absurd hres (by simp)
        · exact hno b hb q (hs.mono fun _ _ _ hx => h.settled.answersBut_of_keeps hk hx)

/-! ## Rules -/

/-- The run of a rule at the spot `t` ends with its greatest end there, or with the rule written down
to fail there. -/
def Result.Concludes (g : Grammar) (F ts : List Spot) (c : Cursor text) (t : Spot) :
    Result text → Prop
  | .matched d => d.memo.Settled g text F ∧ c.memo.KeepsBut ts d.memo ∧
      d.memo.longest? t = some (d.pos.val : Int)
  | .failed d => d.memo.Settled g text F ∧ c.memo.KeepsBut ts d.memo ∧
      d.memo.isMismatch t = true ∧ t.start = d.pos.val
  | .stopped _ d => d.memo.Sound g text

/-- Rounds end with the rule decided. The measure is that of the loop: the best end grows. -/
theorem grow_concludes {f : Follow text} (hf : f.Settles g) (hrec : f.Recalls)
    (hr : g.rule? r.name = some r) (ho : ∀ a ∈ r.alternatives, a.owner = r.name)
    (hF : (⟨r.name, start.val⟩ : Spot) ∉ F) (best : Fin (text.size + 1)) (c : Cursor text)
    (h : c.memo.Settled g text (⟨r.name, start.val⟩ :: F)) (hp : Planted text r start c.memo)
    (hbest : (c.memo.longest? ⟨r.name, start.val⟩).getD start.val = best.val) :
    (grow f r start best c).Concludes g F [⟨r.name, start.val⟩] c ⟨r.name, start.val⟩ := by
  have hround := fun c : Cursor text => fun h hp => runRound_settles hf hrec hr
    (F := ⟨r.name, start.val⟩ :: F) List.mem_cons_self r.alternatives none c
    (fun a ha => ⟨ha, ho a ha⟩) ⟨h, hp, rfl⟩
  induction best, c using grow.induct f r start with
  | case1 best c fault d hd =>
    have hr := hround c h hp
    rw [hd] at hr
    rw [grow_of_stopped hd]
    exact hr
  | case2 best c d hd =>
    have hr := hround c h hp
    rw [hd] at hr
    obtain ⟨hin, hk, hno⟩ := hr
    rw [grow_of_none hd]
    have hnone := hp.longest_eq_none (hno rfl).2
    have hlast : d.memo.longest? ⟨r.name, start.val⟩ = none := hin.tally.trans hnone
    refine ⟨hin.settled.saveMismatch hF hlast, ⟨hk.started, hk.longest⟩, ?_, rfl⟩
    exact (Memo.isMismatch_saveMismatch _ _ _).2 (Or.inl rfl)
  | case3 best c longest d hd hlt ih =>
    have hr := hround c h hp
    rw [hd] at hr
    obtain ⟨hin, hk, -⟩ := hr
    obtain ⟨-, htally⟩ := hin.tally
    -- the round went beyond `best`, so its furthest end is the greatest one, and best from now on
    rw [hbest, Int.max_eq_right (Int.ofNat_le.2 (Nat.le_of_lt hlt))] at htally
    have hih := ih hin.settled hin.planted (by rw [htally, Option.getD_some])
    rw [grow_of_lt hd hlt]
    cases hres : grow f r start longest d with
    | matched e =>
      rw [hres] at hih
      exact ⟨hih.1, hk.trans hih.2.1, hih.2.2⟩
    | failed e =>
      rw [hres] at hih
      exact ⟨hih.1, hk.trans hih.2.1, hih.2.2⟩
    | stopped fault e => rwa [hres] at hih
  | case4 best c longest d hd hlt =>
    have hr := hround c h hp
    rw [hd] at hr
    obtain ⟨hin, hk, -⟩ := hr
    obtain ⟨-, htally⟩ := hin.tally
    rw [hbest, Int.max_eq_left (Int.ofNat_le.2 (Nat.le_of_not_lt hlt))] at htally
    rw [grow_of_not_lt hd hlt]
    exact ⟨hin.settled.close htally, hk, htally⟩

/-- A rule that was not begun at its offset before is decided there by its run. -/
theorem Rule.concludes_run {f : Follow text} (hf : f.Settles g) (hrec : f.Recalls)
    (hr : g.rule? r.name = some r) (ho : ∀ a ∈ r.alternatives, a.owner = r.name) (c : Cursor text)
    (h : c.memo.Settled g text F) (hnew : c.memo.isStarted (c.spot r.name) = false) :
    (r.run f c).Concludes g F [] c (c.spot r.name) := by
  have hF : c.spot r.name ∉ F := by
    intro hmem
    rw [h.started_of_underWay _ hmem] at hnew
    exact absurd hnew (by simp)
  have hnone : c.memo.longest? (c.spot r.name) = none := h.longest_of_new hnew
  have hbegin : c.memo.KeepsBut [] (c.memo.saveStarted (c.spot r.name)) :=
    ⟨fun s hs => (Memo.isStarted_saveStarted _ _ _).2 (Or.inr hs), fun _ _ _ => rfl⟩
  have hgrow := grow_concludes hf hrec hr ho hF c.pos (c.saveStarted (c.spot r.name))
    (h.saveStarted hnew ⟨c.pos, rfl⟩)
    (fun e he => absurd (hnone.symm.trans he) (by simp))
    (by
      have hs : (c.saveStarted (c.spot r.name)).memo.longest? (c.spot r.name) = none := hnone
      exact congrArg (Option.getD · (c.pos.val : Int)) hs)
  have hkeep : ∀ m : Memo, (c.memo.saveStarted (c.spot r.name)).KeepsBut [c.spot r.name] m →
      c.memo.KeepsBut [] m := fun m hm => ((hbegin.weaken _).trans hm).of_new hnew
  rw [Rule.run]
  cases hres : grow f r c.pos c.pos (c.saveStarted (c.spot r.name)) with
  | matched d =>
    rw [hres] at hgrow
    exact ⟨hgrow.1, hkeep _ hgrow.2.1, hgrow.2.2⟩
  | failed d =>
    rw [hres] at hgrow
    exact ⟨hgrow.1, hkeep _ hgrow.2.1, hgrow.2.2⟩
  | stopped fault d => rwa [hres] at hgrow

end

/-! ## References -/

theorem resolve_recalls (g : Grammar) (n : Nat) : Follow.Recalls (resolve g n : Follow text) := by
  intro name c q hm ha
  have h := resolution g n name c
  rw [Memo.Answers] at ha
  generalize resolve g n name c = res at h ⊢
  cases h with
  | mismatch hm' => rw [hm] at hm'; exact absurd hm' (by simp)
  | recorded _ hl => rw [Option.some.inj (hl.symm.trans ha)]
  | underWay _ hl | unknown _ hl | tooDeep _ hl | fresh _ hl =>
    exact absurd (hl.symm.trans ha) (by simp)

/-- Following a reference keeps the memo settled, at every number of levels. -/
theorem resolve_settles (hg : g.Owned) : ∀ n, Follow.Settles g (resolve g n : Follow text) := by
  intro n
  induction n using Nat.strongRecOn with
  | ind n ih =>
    intro F name c h
    have hres := resolution g n name c
    generalize resolve g n name c = res at hres ⊢
    cases hres with
    | mismatch | underWay => exact ⟨h, .refl _ _⟩
    | unknown | tooDeep => exact h.toSound
    | recorded _ hl =>
      obtain ⟨q, rfl, -⟩ := h.longest_nat hl
      refine Result.settles_matchedAt h fun p hp => ?_
      rw [Memo.Answers, Cursor.backTo, hp]
      exact hl
    | @fresh r k _ _ hs hr hn =>
      -- the only case that runs a rule, and it leaves one level less for the references in it
      have hname := Grammar.name_of_rule? hr
      subst hname
      have hrun := Rule.concludes_run (ih k (by omega)) (resolve_recalls g k) hr (hg.of_rule? hr) c
        h hs
      cases hrk : r.run (resolve g k) c with
      | matched d =>
        rw [hrk] at hrun
        exact hrun
      | failed d =>
        rw [hrk] at hrun
        exact ⟨hrun.1, hrun.2.1⟩
      | stopped fault d => rwa [hrk] at hrun

/-! ## Whole runs -/

/-- However a rule ends, its memo is sound. -/
theorem Result.Concludes.sound {ts : List Spot} {c : Cursor text} {t : Spot} {res : Result text}
    (h : res.Concludes g F ts c t) : res.cursor.memo.Sound g text := by
  cases res with
  | matched d => exact h.1.toSound
  | failed d => exact h.1.toSound
  | stopped fault d => exact h

/-- A run begins with an empty memo and with no rule under way. -/
theorem Grammar.run_concludes (hg : g.Owned) {r : Rule} (hr : g.rule? r.name = some r)
    (text : Text) (limit : Int) :
    (g.run text limit r).Concludes g [] [] (.first text limit) ⟨r.name, 0⟩ := by
  rw [Grammar.run_eq_resolve]
  exact Rule.concludes_run (resolve_settles hg _) (resolve_recalls g _) hr (hg.of_rule? hr) _
    (Memo.settled_empty g) rfl

/-- A run that returns leaves a settled memo, and its cursor at the end of the match of its rule or at
the beginning. -/
theorem Grammar.settled_of_parse (hg : g.Owned) {start : Option String} {limit : Int}
    {c : Cursor text} (h : g.parse text start limit = .ok c) :
    ∃ r, g.startRule start = .ok r ∧ c.memo.Settled g text [] ∧
      (g.run text limit r = .matched c ∧ c.memo.longest? ⟨r.name, 0⟩ = some (c.pos.val : Int) ∨
        g.run text limit r = .failed c ∧ c.memo.isMismatch ⟨r.name, 0⟩ = true ∧ c.pos.val = 0) := by
  unfold Grammar.parse at h
  cases hs : g.startRule start with
  | error f =>
    rw [hs] at h
    exact absurd h (by simp)
  | ok r =>
    rw [hs] at h
    have hrun := Grammar.run_concludes hg (Grammar.rule?_of_startRule hs) text limit
    refine ⟨r, rfl, ?_⟩
    cases hres : g.run text limit r with
    | stopped f d =>
      simp only [hres] at h
      exact absurd h (by simp)
    | matched d =>
      simp only [hres, Except.ok.injEq] at h
      subst h
      rw [hres] at hrun
      exact ⟨hrun.1, Or.inl ⟨rfl, hrun.2.2⟩⟩
    | failed d =>
      simp only [hres, Except.ok.injEq] at h
      subst h
      rw [hres] at hrun
      exact ⟨hrun.1, Or.inr ⟨rfl, hrun.2.2.1, (Int.ofNat.inj hrun.2.2.2).symm⟩⟩

end Packrat
