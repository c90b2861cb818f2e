import Packrat.Proofs.Agreement

/-!
# `Packrat/Proofs/Run/Replay.lean` — what a memo says without running a rule

A reference is answered from the memo wherever the memo knows the rule, so a memo judges rules like the
recogniser does, as far as it goes (`Memo.judge`). What it says and what a run does are tied together
in both directions:

* what is run with a memo that says enough is run as it says, and leaves it saying the same
  (`follow_meets_judge`);
* what a run did, the memo says afterwards (`resolve_told`), and a memo goes on saying it, but for what
  depends on the seed of a rule that still grows (`Alternative.told_run`).

An alternative depends on the seed of its rule only if its own terms come back to the rule where it
began (`looksUp`): a rule in between is done with before the seed moves, and is not run again.
-/

set_option autoImplicit false

namespace Packrat

variable {text : Text} {g : Grammar} {F : List Spot}

/-! ## What a memo says -/

/-- What the memo says of a rule at a position. A rule that was begun there and has no match yet fails,
as it does when a run comes back to it. -/
def Memo.judge (m : Memo) : Judge text := fun name p =>
  if m.isMismatch ⟨name, p.val⟩ then .fails
  else match m.longest? ⟨name, p.val⟩ with
  | some i => .endsAt i
  | none => if m.isStarted ⟨name, p.val⟩ then .fails else .undefined

/-- How a step ended, and where. -/
def Result.verdict : Result text → Verdict text
  | matched c => .ends c.pos
  | failed _ => .fails
  | stopped _ _ => .undefined

theorem Result.Meets.verdict {P : Memo → Prop} {v : Verdict text} {res : Result text}
    (h : res.Meets P v) : res.verdict = v := by
  rcases h.cases with ⟨d, rfl, hv, -⟩ | ⟨d, rfl, hv, -⟩
  · exact hv.symm
  · exact hv.symm

theorem Verdict.endsAt_val (p : Fin (text.size + 1)) :
    (Verdict.endsAt (p.val : Int) : Verdict text) = .ends p := by
  unfold Verdict.endsAt Cursor.position?
  rw [dif_pos ⟨Int.natCast_nonneg _, by omega⟩]
  rfl

theorem Verdict.eq_of_endsAt {i : Int} {q : Fin (text.size + 1)}
    (h : (Verdict.endsAt i : Verdict text) = .ends q) : i = q.val := by
  unfold Verdict.endsAt Cursor.position? at h
  by_cases hi : 0 ≤ i ∧ i ≤ text.size
  · rw [dif_pos hi] at h
    cases h
    exact (Int.toNat_of_nonneg hi.1).symm
  · rw [dif_neg hi] at h
    exact absurd h (by simp)

namespace Memo

variable {m n : Memo} {name : String} {p : Fin (text.size + 1)}

theorem judge_of_mismatch (h : m.isMismatch ⟨name, p.val⟩ = true) : m.judge name p = .fails :=
  if_pos h

theorem judge_of_longest {q : Fin (text.size + 1)} (h : m.isMismatch ⟨name, p.val⟩ = false)
    (hl : m.longest? ⟨name, p.val⟩ = some (q.val : Int)) : m.judge name p = .ends q := by
  rw [judge, h, if_neg (by simp), hl]
  exact Verdict.endsAt_val q

theorem longest_of_judge {q : Fin (text.size + 1)} (h : m.judge name p = .ends q) :
    m.longest? ⟨name, p.val⟩ = some (q.val : Int) := by
  rw [judge] at h
  cases hm : m.isMismatch ⟨name, p.val⟩ with
  | true =>
    rw [hm, if_pos rfl] at h
    exact absurd h (by simp)
  | false =>
    rw [hm, if_neg (by simp)] at h
    cases hl : m.longest? ⟨name, p.val⟩ with
    | some i =>
      rw [hl] at h
      rw [Verdict.eq_of_endsAt h]
    | none =>
      rw [hl] at h
      dsimp only at h
      split at h <;> exact absurd h (by simp)

theorem judge_of_underWay (h : m.isMismatch ⟨name, p.val⟩ = false)
    (hl : m.longest? ⟨name, p.val⟩ = none) (hs : m.isStarted ⟨name, p.val⟩ = true) :
    (m.judge name p : Verdict text) = .fails := by
  rw [judge, h, if_neg (by simp), hl]
  exact if_pos hs

/-- The memo says nothing of a rule that was not begun. -/
theorem Settled.started_of_judge (h : m.Settled g text F)
    (hd : (m.judge name p : Verdict text) ≠ .undefined) : m.isStarted ⟨name, p.val⟩ = true := by
  rw [judge] at hd
  cases hm : m.isMismatch ⟨name, p.val⟩ with
  | true => exact h.started_of_mismatch _ hm
  | false =>
    rw [hm, if_neg (by simp)] at hd
    cases hl : m.longest? ⟨name, p.val⟩ with
    | some e => exact h.started_of_longest hl
    | none =>
      rw [hl] at hd
      by_contra hs
      exact hd (if_neg hs)

/-- As long as the same rules are under way, what was begun is known to fail if it was known to fail
before, and its greatest end is the same. -/
theorem Settled.isMismatch_eq (hm : m.Settled g text F) (hn : n.Settled g text F) {s : Spot}
    (hs : m.isStarted s = true) (hs' : n.isStarted s = true) (hl : n.longest? s = m.longest? s) :
    n.isMismatch s = m.isMismatch s := by
  by_cases hF : s ∈ F
  · rw [hm.open_of_underWay s hF, hn.open_of_underWay s hF]
  · rcases hm.decided s hs hF with hfail | ⟨e, he⟩
    · rw [hfail]
      rcases hn.decided s hs' hF with hfail' | ⟨e, he⟩
      · exact hfail'
      · rw [hl, hm.apart s hfail] at he
        exact absurd he (by simp)
    · rw [hm.not_mismatch he, hn.not_mismatch (hl.trans he)]

/-- What a memo says it goes on saying, if the greatest end has not moved. -/
theorem Settled.judge_eq (hm : m.Settled g text F) (hn : n.Settled g text F)
    (hs : m.isStarted ⟨name, p.val⟩ = true → n.isStarted ⟨name, p.val⟩ = true)
    (hl : m.isStarted ⟨name, p.val⟩ = true → n.longest? ⟨name, p.val⟩ = m.longest? ⟨name, p.val⟩)
    (hd : (m.judge name p : Verdict text) ≠ .undefined) :
    (n.judge name p : Verdict text) = m.judge name p := by
  have hstarted := hm.started_of_judge hd
  rw [judge, judge, hl hstarted, hm.isMismatch_eq hn hstarted (hs hstarted) (hl hstarted), hs hstarted,
    hstarted]

/-- A step that moves no greatest end takes back nothing that the memo says. -/
theorem Settled.judge_below (hm : m.Settled g text F) (hn : n.Settled g text F)
    (hk : m.KeepsBut [] n) : Judge.Below (m.judge : Judge text) n.judge :=
  fun _ _ hd => hm.judge_eq hn (hk.started _) (fun hs => hk.longest _ hs (by simp)) hd

/-- Writing a rule down to fail that already fails for want of a match says nothing new. -/
theorem judge_below_saveMismatch (m : Memo) {name : String} {start : Fin (text.size + 1)}
    (h : (m.judge name start : Verdict text) = .fails) :
    Judge.Below (m.judge : Judge text) (m.saveMismatch ⟨name, start.val⟩).judge := by
  intro other p hd
  by_cases hs : (⟨other, p.val⟩ : Spot) = ⟨name, start.val⟩
  · obtain ⟨rfl, hp⟩ := Spot.mk.inj hs
    cases Fin.ext (Int.ofNat.inj hp)
    rw [h]
    exact judge_of_mismatch ((isMismatch_saveMismatch _ _ _).2 (Or.inl rfl))
  · have hm : (m.saveMismatch ⟨name, start.val⟩).isMismatch ⟨other, p.val⟩ =
        m.isMismatch ⟨other, p.val⟩ := by
      rw [Bool.eq_iff_iff, isMismatch_saveMismatch]
      exact or_iff_right hs
    rw [judge, judge, hm]
    rfl

/-- Beginning a rule again changes nothing. -/
theorem judge_saveStarted (m : Memo) {t : Spot} (h : m.isStarted t = true) :
    ((m.saveStarted t).judge : Judge text) = m.judge := by
  funext name p
  have hs : (m.saveStarted t).isStarted ⟨name, p.val⟩ = m.isStarted ⟨name, p.val⟩ := by
    rw [Bool.eq_iff_iff, isStarted_saveStarted]
    refine or_iff_right_of_imp ?_
    rintro rfl
    exact h
  rw [judge, judge, hs]
  rfl

/-- Nor does recording a match that is not the longest. -/
theorem judge_saveMatch (hm : m.Coherent) {x : Match} {e : Int} (he : m.longest? x.spot = some e)
    (hx : 0 ≤ x.stop) (hle : x.stop ≤ e) : ((m.saveMatch x).judge : Judge text) = m.judge := by
  funext name p
  have hl : (m.saveMatch x).longest? ⟨name, p.val⟩ = m.longest? ⟨name, p.val⟩ := by
    rw [hm.longest_saveMatch hx]
    split
    · rename_i hs
      rw [hs, he, Option.getD_some, Int.max_eq_left hle]
    · rfl
  rw [judge, judge, isMismatch_saveMatch, isStarted_saveMatch, hl]

end Memo

/-! ## Running as the memo says -/

/-- References are answered as the memo says, where it says anything. -/
theorem follow_meets_judge (g : Grammar) (judge : Judge text) :
    Follow.Meets (fun m => m.Coherent ∧ m.judge = judge) judge (follow g) := by
  rintro name c ⟨hm, rfl⟩ hd
  have hres := resolution g c.levels name c
  rw [follow]
  rw [Memo.judge] at hd ⊢
  generalize resolve g c.levels name c = res at hres ⊢
  cases hres with
  | mismatch hmis =>
    rw [Cursor.spot] at hmis
    rw [if_pos hmis]
    exact ⟨rfl, hm, rfl⟩
  | recorded hmis hl =>
    rw [Cursor.spot] at hmis hl
    simp only [hmis, hl, Bool.false_eq_true, if_false] at hd ⊢
    exact Result.meets_matchedAt ⟨hm, rfl⟩ hd
  | underWay hmis hl hs =>
    rw [Cursor.spot] at hmis hl hs
    simp only [hmis, hl, hs, Bool.false_eq_true, if_false, if_true]
    exact ⟨rfl, hm, rfl⟩
  | unknown hmis hl hs | tooDeep hmis hl hs | fresh hmis hl hs =>
    rw [Cursor.spot] at hmis hl hs
    simp [hmis, hl, hs] at hd

/-! ## Saying what was run -/

/-- A step ended as is said of it with the memo that it left. -/
def Result.Told (said : Memo → Verdict text) : Result text → Prop
  | matched d => said d.memo = .ends d.pos
  | failed d => said d.memo = .fails
  | stopped _ _ => True

/-- How a reference ended, the memo says afterwards. -/
def Follow.Told (g : Grammar) (f : Follow text) : Prop :=
  ∀ (F : List Spot) (name : String) (c : Cursor text), c.memo.Settled g text F →
    (f name c).Told fun m => m.judge name c.pos

theorem Result.told_matchedAt (c : Cursor text) (i : Int) :
    (Result.matchedAt c i).Told fun _ => .endsAt i := by
  rcases Result.matchedAt_cases c i with ⟨p, rfl, h⟩ | ⟨f, h⟩ <;> rw [h]
  · exact Verdict.endsAt_val p
  · trivial

theorem resolve_told (hg : g.Owned) (n : Nat) : Follow.Told g (resolve g n : Follow text) := by
  intro F name c h
  have hset := resolve_settles hg n F name c h
  have hres := resolution g n name c
  generalize resolve g n name c = res at hset hres ⊢
  cases hres with
  | mismatch hm => exact Memo.judge_of_mismatch hm
  | underWay hm hl hs => exact Memo.judge_of_underWay hm hl hs
  | unknown | tooDeep => trivial
  | @recorded i hm hl =>
    rcases Result.matchedAt_cases c i with ⟨p, rfl, hp⟩ | ⟨f, hf⟩
    · rw [hp]
      exact Memo.judge_of_longest hm hl
    · rw [hf]
      trivial
  | @fresh r k _ _ hs hr hn =>
    have hname := Grammar.name_of_rule? hr
    subst hname
    have hrun := Rule.concludes_run (resolve_settles hg k) (resolve_recalls g k) hr (hg.of_rule? hr) c
      h hs
    cases hrk : r.run (resolve g k) c with
    | matched d =>
      rw [hrk] at hrun
      exact Memo.judge_of_longest (hrun.1.not_mismatch hrun.2.2) hrun.2.2
    | failed d =>
      rw [hrk] at hrun
      exact Memo.judge_of_mismatch hrun.2.2.1
    | stopped fault d => trivial

/-! ## Coming back to a rule -/

/-- The term is a reference to the rule. -/
def Term.refersTo (t : Term) (name : String) : Bool :=
  match t with
  | .reference n => n == name
  | _ => false

theorem Term.refersTo_iff {t : Term} {name : String} :
    t.refersTo name = true ↔ t = .reference name := by
  cases t <;> simp [refersTo]

/-- Whether the terms, judged one after the other from `q` on, come to a reference to the rule
at `p`. -/
def looksUp (judge : Judge text) (name : String) (p : Fin (text.size + 1)) :
    List Term → Fin (text.size + 1) → Bool
  | [], _ => false
  | t :: ts, q =>
    (t.refersTo name && q == p) ||
      match t.verdict judge q with
      | .ends e => looksUp judge name p ts e
      | _ => false

section

variable {j k : Judge text} {name : String} {p : Fin (text.size + 1)}

theorem looksUp_cons {t : Term} {ts : List Term} {q : Fin (text.size + 1)} :
    looksUp j name p (t :: ts) q = true ↔ (t = .reference name ∧ q = p) ∨
      ∃ e, t.verdict j q = .ends e ∧ looksUp j name p ts e = true := by
  rw [looksUp, Bool.or_eq_true, Bool.and_eq_true, Term.refersTo_iff, beq_iff_eq]
  refine or_congr_right ?_
  cases t.verdict j q <;> simp

/-- Terms that come back to a rule that is said to fail there fail themselves. -/
theorem termsVerdict_of_looksUp (hfails : j name p = .fails) :
    ∀ (ts : List Term) (q : Fin (text.size + 1)), looksUp j name p ts q = true →
      termsVerdict j ts q = .fails
  | [], _, h => absurd h (by simp [looksUp])
  | t :: ts, q, h => by
    rw [termsVerdict]
    rcases looksUp_cons.1 h with ⟨rfl, rfl⟩ | ⟨e, he, hrest⟩
    · rw [Term.verdict, hfails]
    · rw [he]
      exact termsVerdict_of_looksUp hfails ts e hrest

/-! The two judges agree wherever the first one says something, but for the rule at `p`. -/

variable (hagree : ∀ n q, ¬ (n = name ∧ q = p) → j n q ≠ .undefined → k n q = j n q)

include hagree

theorem Term.verdict_of_agreeBut {t : Term} {q : Fin (text.size + 1)}
    (hspot : ¬ (t = .reference name ∧ q = p)) (hd : t.verdict j q ≠ .undefined) :
    t.verdict k q = t.verdict j q :=
  t.verdict_of_agree q (fun n hn => hagree n q fun hs => hspot ⟨hs.1 ▸ hn, hs.2⟩) hd

theorem looksUp_of_agreeBut : ∀ (ts : List Term) (q : Fin (text.size + 1)),
    looksUp j name p ts q = true → looksUp k name p ts q = true
  | [], _, h => absurd h (by simp [looksUp])
  | t :: ts, q, h => by
    rw [looksUp_cons] at h ⊢
    by_cases hspot : t = .reference name ∧ q = p
    · exact .inl hspot
    · obtain ⟨e, he, hrest⟩ := h.resolve_left hspot
      have hsame := Term.verdict_of_agreeBut hagree hspot (by simp [he])
      exact .inr ⟨e, hsame.trans he, looksUp_of_agreeBut ts e hrest⟩

/-- Terms that do not come back to the rule are judged alike, and do not come back to it with the
second judge either. -/
theorem termsVerdict_of_agreeBut : ∀ (ts : List Term) (q : Fin (text.size + 1)),
    looksUp j name p ts q = false → termsVerdict j ts q ≠ .undefined →
      looksUp k name p ts q = false ∧ termsVerdict k ts q = termsVerdict j ts q
  | [], _, _, _ => ⟨rfl, rfl⟩
  | t :: ts, q, h, hd => by
    rw [Bool.eq_false_iff, Ne, looksUp_cons, not_or] at h
    obtain ⟨hspot, hbehind⟩ := h
    rw [termsVerdict] at hd
    have hsame := Term.verdict_of_agreeBut hagree hspot
    rw [Bool.eq_false_iff, Ne, looksUp_cons, not_or, termsVerdict, termsVerdict]
    cases hv : t.verdict j q with
    | undefined =>
      rw [hv] at hd
      exact absurd rfl hd
    | fails =>
      have hk := (hsame (by simp [hv])).trans hv
      simp [hk, hspot]
    | ends e =>
      have hk := (hsame (by simp [hv])).trans hv
      rw [hv] at hd
      have hrest : looksUp j name p ts e = false := by
        rw [Bool.eq_false_iff]
        exact fun hback => hbehind ⟨e, hv, hback⟩
      obtain ⟨hlooks, hverdict⟩ := termsVerdict_of_agreeBut ts e hrest hd
      refine ⟨⟨hspot, ?_⟩, ?_⟩
      · rintro ⟨e', he', hback⟩
        cases hk.symm.trans he'
        exact Bool.eq_false_iff.1 hlooks hback
      · rw [hk]
        exact hverdict

end

/-! ## Saying what was run, later -/

section

variable {f : Follow text}

theorem Term.told_run (hf : f.Told g) (t : Term) (c : Cursor text) (h : c.memo.Settled g text F) :
    (t.run f c).Told fun m => t.verdict m.judge c.pos := by
  cases t with
  | literal s =>
    simp only [Term.run, Term.verdict]
    split
    · exact Result.told_matchedAt c _
    · rfl
  | pattern r =>
    simp only [Term.run, Term.verdict]
    cases r.matchEnd? text c.pos with
    | none => rfl
    | some i => exact Result.told_matchedAt c i
  | reference name => exact hf F name c h
  | foreignLiteral v => trivial
  | foreign v => trivial

theorem runTerms_told (hs : f.Settles g) (hf : f.Told g) : ∀ (ts : List Term) (c : Cursor text),
    c.memo.Settled g text F → (runTerms f ts c).Told fun m => termsVerdict m.judge ts c.pos
  | [], _, _ => rfl
  | t :: ts, c, h => by
    have ht := Term.told_run hf t c h
    have hset := Term.settles_run hs t c h
    rw [runTerms]
    cases hres : t.run f c with
    | stopped fault d => trivial
    | failed d =>
      rw [hres] at ht
      show termsVerdict d.memo.judge (t :: ts) c.pos = .fails
      rw [termsVerdict, show t.verdict d.memo.judge c.pos = .fails from ht]
    | matched d =>
      rw [hres] at ht hset
      have ht : t.verdict d.memo.judge c.pos = .ends d.pos := ht
      have hrest := runTerms_told hs hf ts d hset.1
      have hkeep := runTerms_settles hs ts d hset.1
      -- the first term is still judged alike when the others have been run
      have hfirst : ∀ m : Memo, m.Settled g text F → d.memo.KeepsBut [] m →
          termsVerdict m.judge (t :: ts) c.pos = termsVerdict m.judge ts d.pos := by
        intro m hm hk
        have hsame := Term.verdict_of_agree t c.pos
          (fun name _ => hset.1.judge_below hm hk name c.pos) (by simp [ht])
        rw [termsVerdict, hsame, ht]
      dsimp only
      cases hend : runTerms f ts d with
      | stopped fault e => trivial
      | failed e =>
        rw [hend] at hrest hkeep
        exact (hfirst e.memo hkeep.1 hkeep.2).trans hrest
      | matched e =>
        rw [hend] at hrest hkeep
        exact (hfirst e.memo hkeep.1 hkeep.2.1).trans hrest

/-- Memos on both sides of a run agree in what they say, but for a rule that grew in between. -/
theorem Memo.Settled.judge_eq_but {m later : Memo} (hm : m.Settled g text F)
    (hlater : later.Settled g text F) {name : String} {p : Fin (text.size + 1)}
    (hkeep : m.KeepsBut [⟨name, p.val⟩] later) (n : String) (q : Fin (text.size + 1))
    (hspot : ¬ (n = name ∧ q = p)) (hd : (m.judge n q : Verdict text) ≠ .undefined) :
    (later.judge n q : Verdict text) = m.judge n q := by
  refine hm.judge_eq hlater (hkeep.started _) (fun hstart => hkeep.longest _ hstart ?_) hd
  simp only [List.mem_singleton, Spot.mk.injEq, not_and]
  rintro rfl hq
  exact hspot ⟨rfl, Fin.ext (Int.ofNat.inj hq)⟩

/-- What is said of an alternative in the run of a rule is said later, too, as long as the greatest end
of the rule is where it was, or the alternative does not come back to the rule. -/
theorem Alternative.verdict_later {a : Alternative} {m later : Memo} {name : String}
    {p : Fin (text.size + 1)} (hm : m.Settled g text F) (hlater : later.Settled g text F)
    (hkeep : m.KeepsBut [⟨name, p.val⟩] later)
    (hsteady : later.longest? ⟨name, p.val⟩ = m.longest? ⟨name, p.val⟩ ∨
      looksUp later.judge name p a.terms p = false)
    (hd : termsVerdict m.judge a.terms p ≠ .undefined) :
    termsVerdict later.judge a.terms p = termsVerdict m.judge a.terms p := by
  have hagree := hm.judge_eq_but hlater hkeep
  rcases hsteady with hsteady | hno
  · refine termsVerdict_mono (fun n q hq => ?_) a.terms p hd
    by_cases hspot : n = name ∧ q = p
    · obtain ⟨rfl, rfl⟩ := hspot
      exact hm.judge_eq hlater (hkeep.started _) (fun _ => hsteady) hq
    · exact hagree n q hspot hq
  · have hno' : looksUp m.judge name p a.terms p = false := by
      rw [Bool.eq_false_iff] at hno ⊢
      exact mt (looksUp_of_agreeBut hagree a.terms p) hno
    exact (termsVerdict_of_agreeBut hagree a.terms p hno' hd).2

/-- How an alternative ended, the memo says from then on, with the same exception. -/
theorem Alternative.told_run (hs : f.Settles g) (hf : f.Told g) {r : Rule} {a : Alternative}
    (ho : a.owner = r.name) {c : Cursor text} (h : c.memo.Settled g text F)
    (ht : c.spot r.name ∈ F) {later : Memo} (hlater : later.Settled g text F)
    (hkeep : (a.run f c).cursor.memo.KeepsBut [c.spot r.name] later)
    (hsteady : later.longest? (c.spot r.name) = c.memo.longest? (c.spot r.name) ∨
      looksUp later.judge r.name c.pos a.terms c.pos = false)
    (hdone : (a.run f c).verdict ≠ .undefined) :
    termsVerdict later.judge a.terms c.pos = (a.run f c).verdict := by
  have hterms := runTerms_told hs hf a.terms c h
  have hset := runTerms_settles hs a.terms c h
  -- the terms of the alternative do not move the greatest end themselves
  have hsteady' : ∀ m : Memo, c.memo.KeepsBut [] m →
      later.longest? (c.spot r.name) = m.longest? (c.spot r.name) ∨
        looksUp later.judge r.name c.pos a.terms c.pos = false := by
    intro m hcm
    rwa [hcm.longest _ (h.started_of_underWay _ ht) (by simp)]
  rw [Alternative.run] at hkeep hdone ⊢
  cases hres : runTerms f a.terms c with
  | stopped fault d =>
    rw [hres] at hdone
    exact absurd rfl hdone
  | failed d =>
    rw [hres] at hterms hset hkeep
    have hfail : termsVerdict d.memo.judge a.terms c.pos = .fails := hterms
    rw [Alternative.verdict_later hset.1 hlater hkeep (hsteady' d.memo hset.2) (by simp [hfail]), hfail]
    rfl
  | matched d =>
    rw [hres] at hterms hset hkeep
    have hends : termsVerdict d.memo.judge a.terms c.pos = .ends d.pos := hterms
    have hsave := Alternative.keepsBut_record ho c hset.1.coherent
    rw [Alternative.verdict_later hset.1 hlater (hsave.trans hkeep) (hsteady' d.memo hset.2.1)
      (by simp [hends]), hends]
    rfl

/-- An alternative that matches while its rule has no match yet does not come back to the rule, which
would have failed it. -/
theorem Alternative.not_looksUp_of_matched (hs : f.Settles g) (hf : f.Told g) {r : Rule}
    {a : Alternative} (ho : a.owner = r.name) {c e : Cursor text} (h : c.memo.Settled g text F)
    (ht : c.spot r.name ∈ F) (hnone : c.memo.longest? (c.spot r.name) = none)
    (hrun : a.run f c = .matched e) {later : Memo} (hlater : later.Settled g text F)
    (hkeep : e.memo.KeepsBut [c.spot r.name] later) :
    looksUp later.judge r.name c.pos a.terms c.pos = false := by
  have hterms := runTerms_told hs hf a.terms c h
  have hset := runTerms_settles hs a.terms c h
  rw [Alternative.run] at hrun
  cases hres : runTerms f a.terms c with
  | stopped fault d | failed d =>
    rw [hres] at hrun
    exact absurd hrun (by simp)
  | matched d =>
    rw [hres] at hterms hset hrun
    cases hrun
    have hends : termsVerdict d.memo.judge a.terms c.pos = .ends d.pos := hterms
    have hstarted := h.started_of_underWay _ ht
    have hfails : (d.memo.judge r.name c.pos : Verdict text) = .fails :=
      Memo.judge_of_underWay (hset.1.open_of_underWay _ ht)
        ((hset.2.1.longest _ hstarted (by simp)).trans hnone) (hset.2.1.started _ hstarted)
    have hno : looksUp d.memo.judge r.name c.pos a.terms c.pos = false := by
      rw [Bool.eq_false_iff]
      intro hback
      cases hends.symm.trans (termsVerdict_of_looksUp hfails a.terms c.pos hback)
    have hsave := Alternative.keepsBut_record ho c hset.1.coherent
    exact (termsVerdict_of_agreeBut (hset.1.judge_eq_but hlater (hsave.trans hkeep)) a.terms c.pos hno
      (by simp [hends])).1

end

/-- All that a run of a rule needs of its references. -/
structure Follow.Faithful (g : Grammar) (f : Follow text) : Prop where
  settles : f.Settles g
  recalls : f.Recalls
  told : f.Told g

theorem resolve_faithful (hg : g.Owned) (n : Nat) : Follow.Faithful g (resolve g n : Follow text) :=
  ⟨resolve_settles hg n, resolve_recalls g n, resolve_told hg n⟩

end Packrat
