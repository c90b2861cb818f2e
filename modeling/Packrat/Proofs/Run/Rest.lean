import Mathlib.Data.List.TakeWhile
import Packrat.Proofs.Run.Replay

/-!
# `Packrat/Proofs/Run/Rest.lean` — where a rule stops growing

A rule is at rest with a memo when running its alternatives again comes to nothing: none of them goes
beyond what the memo says of the rule itself (`Judge.AtRest`). The rounds of a rule should end only
there. They compare the end of a round with the best end so far, though, and this begins as the place
where the rule begins, as if it had matched the empty text already. An empty match is therefore never
handed to the alternatives that look up the rule where it begins and were run before it was found
(`Judge.TooEarly`). Everything else is at rest: the last round was run with the seed that the rule ends
with, or did not look at it, and so it shows what one more round would do (`grow_grown`).

What a rule at rest does when it is run again can be read off its alternatives (`Rule.rerun_of_atRest`).
This is not always what it did before: the first round starts with a full grown seed, and the shorter
seeds that came before it are gone.
-/

set_option autoImplicit false

namespace Packrat

variable {text : Text} {g : Grammar} {F : List Spot}

/-! ## Alternatives that are all judged alike -/

/-- The alternative is judged, and not to end before it begins. -/
def Alternative.Judged (judge : Judge text) (start : Fin (text.size + 1)) (a : Alternative) : Prop :=
  termsVerdict judge a.terms start = .fails ∨
    ∃ p, start ≤ p ∧ termsVerdict judge a.terms start = .ends p

/-- The furthest end of a round in which all alternatives are judged alike. -/
def reach (judge : Judge text) (start : Fin (text.size + 1)) :
    List Alternative → Option (Fin (text.size + 1)) → Option (Fin (text.size + 1))
  | [], longest => longest
  | a :: as, longest =>
    match termsVerdict judge a.terms start with
    | .ends p => reach judge start as (furthest start longest p)
    | _ => reach judge start as longest

section

variable {judge : Judge text} {start : Fin (text.size + 1)} {a : Alternative} {as : List Alternative}
  {longest : Option (Fin (text.size + 1))}

theorem Alternative.Judged.ne_undefined (h : a.Judged judge start) :
    termsVerdict judge a.terms start ≠ .undefined := by
  rcases h with h | ⟨p, -, h⟩ <;> simp [h]

theorem reach_of_ends {p : Fin (text.size + 1)} (h : termsVerdict judge a.terms start = .ends p) :
    reach judge start (a :: as) longest = reach judge start as (furthest start longest p) := by
  rw [reach, h]

theorem reach_of_fails (h : termsVerdict judge a.terms start = .fails) :
    reach judge start (a :: as) longest = reach judge start as longest := by
  rw [reach, h]

/-- The reach is the greatest end of the alternatives, and of what was found before them. -/
theorem reach_greatest : ∀ (as : List Alternative) (longest : Option (Fin (text.size + 1))),
    (∀ a ∈ as, a.Judged judge start) →
    match reach judge start as longest with
    | none => longest = none ∧ ∀ a ∈ as, termsVerdict judge a.terms start = .fails
    | some q => (longest = some q ∨ ∃ a ∈ as, termsVerdict judge a.terms start = .ends q) ∧
        (∀ e, longest = some e → e ≤ q) ∧
        ∀ a ∈ as, ∀ p, termsVerdict judge a.terms start = .ends p → p ≤ q
  | [], none, _ => ⟨rfl, by simp⟩
  | [], some q, _ => ⟨Or.inl rfl, by simp, by simp⟩
  | a :: as, longest, h => by
    have has : ∀ b ∈ as, b.Judged judge start := fun b hb => h b (List.mem_cons_of_mem a hb)
    rcases h a List.mem_cons_self with hfail | ⟨p, hp, hends⟩
    · have ih := reach_greatest as longest has
      rw [reach_of_fails hfail]
      cases hreach : reach judge start as longest with
      | none =>
        rw [hreach] at ih
        exact ⟨ih.1, List.forall_mem_cons.2 ⟨hfail, ih.2⟩⟩
      | some q =>
        rw [hreach] at ih
        obtain ⟨hq, hle, hmax⟩ := ih
        refine ⟨hq.imp_right fun ⟨b, hb, hbq⟩ => ⟨b, List.mem_cons_of_mem a hb, hbq⟩, hle, ?_⟩
        exact List.forall_mem_cons.2 ⟨fun p hends => absurd (hfail.symm.trans hends) (by simp), hmax⟩
    · have ih := reach_greatest as (furthest start longest p) has
      obtain ⟨l, hl, hval⟩ := exists_furthest start longest p
      rw [reach_of_ends hends]
      rw [hl] at ih ⊢
      cases hreach : reach judge start as (some l) with
      | none =>
        rw [hreach] at ih
        exact absurd ih.1 (by simp)
      | some q =>
        rw [hreach] at ih
        obtain ⟨hq, hle, hmax⟩ := ih
        have hlq := Fin.le_def.1 (hle l rfl)
        have hp := Fin.le_def.1 hp
        refine ⟨?_, fun e he => ?_, ?_⟩
        · rcases hq with hq | ⟨b, hb, hbq⟩
          · -- the end so far is that of this alternative, or the one before it
            cases hq
            cases longest with
            | none =>
              rw [Option.getD_none] at hval
              have hpl : p = l := Fin.ext (by omega)
              exact Or.inr ⟨a, List.mem_cons_self, hpl ▸ hends⟩
            | some e =>
              rw [Option.getD_some] at hval
              rcases Nat.le_total p.val e.val with hpe | hpe
              · exact Or.inl (congrArg some (Fin.ext (by omega)))
              · have hpl : p = l := Fin.ext (by omega)
                exact Or.inr ⟨a, List.mem_cons_self, hpl ▸ hends⟩
          · exact Or.inr ⟨b, List.mem_cons_of_mem a hb, hbq⟩
        · rw [he, Option.getD_some] at hval
          exact Fin.le_def.2 (by omega)
        · refine List.forall_mem_cons.2 ⟨fun p' hends' => ?_, hmax⟩
          cases hends.symm.trans hends'
          exact Fin.le_def.2 (by omega)

end

/-! ## Rounds -/

section

variable {f : Follow text} {r : Rule} {start : Fin (text.size + 1)} {before : Option Int}

/-- The furthest end of a round only grows. -/
theorem le_of_runRound : ∀ (as : List Alternative) {l : Fin (text.size + 1)}
    {longest' : Option (Fin (text.size + 1))} {c d : Cursor text},
    runRound f start as (some l) c = .ended longest' d → ∃ l', longest' = some l' ∧ l ≤ l'
  | [], l, _, _, _, h => by
    cases h
    exact ⟨l, rfl, Fin.le_refl l⟩
  | a :: as, l, longest', c, d, h => by
    rw [runRound] at h
    split at h
    · rename_i e he
      obtain ⟨q, hq, hval⟩ := exists_furthest start (some l) e.pos
      rw [hq] at h
      obtain ⟨l', hl', hle⟩ := le_of_runRound as h
      have hle := Fin.le_def.1 hle
      rw [Option.getD_some] at hval
      exact ⟨l', hl', Fin.le_def.2 (by omega)⟩
    · exact le_of_runRound as h
    · exact absurd h (by simp)

/-- The greatest end of the rule stays where it is through a round that ended at `longest`: it is there
later, and the round did not go beyond it. -/
def Unmoved (r : Rule) (start : Fin (text.size + 1)) (m later : Memo)
    (longest : Option (Fin (text.size + 1))) : Prop :=
  later.longest? ⟨r.name, start.val⟩ = m.longest? ⟨r.name, start.val⟩ ∧
    ∀ l, longest = some l → ∃ b : Fin (text.size + 1),
      m.longest? ⟨r.name, start.val⟩ = some (b.val : Int) ∧ l ≤ b

theorem Unmoved.of_eq {m n later : Memo} {longest : Option (Fin (text.size + 1))}
    (h : Unmoved r start m later longest)
    (hl : n.longest? ⟨r.name, start.val⟩ = m.longest? ⟨r.name, start.val⟩) :
    Unmoved r start n later longest :=
  ⟨h.1.trans hl.symm, fun l hlong => by rw [hl]; exact h.2 l hlong⟩

/-- A match in the round does not move the greatest end, since the round does not go beyond it. -/
theorem Unmoved.of_matched {later : Memo} {longest longest' : Option (Fin (text.size + 1))}
    {as : List Alternative} {c d e : Cursor text} (h : Unmoved r start c.memo later longest')
    (hround : runRound f start as (furthest start longest e.pos) e = .ended longest' d)
    (hl : e.memo.longest? ⟨r.name, start.val⟩ =
      some (max ((c.memo.longest? ⟨r.name, start.val⟩).getD e.pos.val) e.pos.val)) :
    Unmoved r start e.memo later longest' := by
  obtain ⟨q, hq, hval⟩ := exists_furthest start longest e.pos
  rw [hq] at hround
  obtain ⟨l', hl', hle⟩ := le_of_runRound as hround
  obtain ⟨b, hb, hlb⟩ := h.2 l' hl'
  have hle := Fin.le_def.1 hle
  have hlb := Fin.le_def.1 hlb
  refine h.of_eq ?_
  rw [hl, hb, Option.getD_some, Option.some.injEq]
  omega

/-- A round takes back nothing that the memo says, but for the greatest end of its rule. -/
theorem keepsBut_of_runRound (hs : f.Settles g) (hrec : f.Recalls) (hr : g.rule? r.name = some r)
    (ht : (⟨r.name, start.val⟩ : Spot) ∈ F) {as : List Alternative}
    (has : ∀ a ∈ as, a ∈ r.alternatives ∧ a.owner = r.name)
    {longest longest' : Option (Fin (text.size + 1))} {c d : Cursor text}
    (h : InRound g F r start before longest c.memo)
    (hround : runRound f start as longest c = .ended longest' d) :
    c.memo.KeepsBut [⟨r.name, start.val⟩] d.memo := by
  have hset := runRound_settles hs hrec hr ht as longest c has h
  rw [hround] at hset
  exact hset.2.1

/-- What a round found, a memo later in the run of its rule says of the alternatives, as long as the
greatest end has not moved since the round began, or no alternative comes back to the rule. -/
theorem runRound_told (hs : f.Settles g) (hrec : f.Recalls) (hf : f.Told g)
    (hr : g.rule? r.name = some r) (ht : (⟨r.name, start.val⟩ : Spot) ∈ F) {later : Memo}
    (hlater : later.Settled g text F) :
    ∀ (as : List Alternative) {longest longest' : Option (Fin (text.size + 1))} {c d : Cursor text},
      (∀ a ∈ as, a ∈ r.alternatives ∧ a.owner = r.name) →
      InRound g F r start before longest c.memo →
      runRound f start as longest c = .ended longest' d →
      d.memo.KeepsBut [⟨r.name, start.val⟩] later →
      Unmoved r start c.memo later longest' ∨
        (∀ a ∈ as, looksUp later.judge r.name start a.terms start = false) →
      (∀ a ∈ as, a.Judged later.judge start) ∧ longest' = reach later.judge start as longest
  | [], _, _, _, _, _, _, hround, _, _ => by
    cases hround
    exact ⟨by simp, rfl⟩
  | a :: as, longest, longest', c, d, has, h, hround, hkeep, hsteady => by
    obtain ⟨ha, ho⟩ := has a List.mem_cons_self
    have has' := fun b hb => has b (List.mem_cons_of_mem a hb)
    have hrest : ∀ {l : Option (Fin (text.size + 1))} {e : Cursor text},
        InRound g F r start before l e.memo → runRound f start as l e = .ended longest' d →
        e.memo.KeepsBut [⟨r.name, start.val⟩] later :=
      fun he hround => (keepsBut_of_runRound hs hrec hr ht has' he hround).trans hkeep
    have hsteady' : later.longest? ⟨r.name, start.val⟩ = c.memo.longest? ⟨r.name, start.val⟩ ∨
        looksUp later.judge r.name start a.terms start = false :=
      hsteady.imp (fun hu => hu.1) fun hno => hno a List.mem_cons_self
    have hstep := Alternative.settles_run hs hr ha ho (c.backTo start) h.settled ht
    have htold := fun hk => Alternative.told_run hs hf ho (c := c.backTo start) h.settled ht hlater hk
      hsteady'
    rw [runRound] at hround
    cases hres : a.run f (c.backTo start) with
    | stopped fault e =>
      rw [hres] at hround
      exact absurd hround (by simp)
    | matched e =>
      rw [hres] at hround hstep htold
      obtain ⟨hin, -⟩ := h.of_matched hs hr ha ho ht hres
      have hends : termsVerdict later.judge a.terms start = .ends e.pos :=
        htold (hrest hin hround) (by simp [Result.verdict])
      have ih := runRound_told hs hrec hf hr ht hlater as has' hin hround hkeep
        (hsteady.imp (fun hu => hu.of_matched hround hstep.2.2.2.1)
          fun hno b hb => hno b (List.mem_cons_of_mem a hb))
      refine ⟨List.forall_mem_cons.2 ⟨Or.inr ⟨e.pos, hstep.2.2.1, hends⟩, ih.1⟩, ?_⟩
      rw [reach_of_ends hends]
      exact ih.2
    | failed e =>
      rw [hres] at hround hstep htold
      obtain ⟨hin, -⟩ := h.of_failed hs hr ha ho ht hres
      have hfail : termsVerdict later.judge a.terms start = .fails :=
        htold (hrest hin hround) (by simp [Result.verdict])
      have hlong := hstep.2.longest ⟨r.name, start.val⟩ (h.settled.started_of_underWay _ ht) (by simp)
      have ih := runRound_told hs hrec hf hr ht hlater as has' hin hround hkeep
        (hsteady.imp (fun hu => hu.of_eq hlong) fun hno b hb => hno b (List.mem_cons_of_mem a hb))
      refine ⟨List.forall_mem_cons.2 ⟨Or.inl hfail, ih.1⟩, ?_⟩
      rw [reach_of_fails hfail]
      exact ih.2

/-- A round of a rule without a match falls into three: the alternatives before the first that matches,
of which those fail again that do not come back to the rule; that first one, which does not come back
to it; and the rest of the round. -/
theorem exists_first_match (hs : f.Settles g) (hrec : f.Recalls) (hf : f.Told g)
    (hr : g.rule? r.name = some r) (ht : (⟨r.name, start.val⟩ : Spot) ∈ F) {later : Memo}
    (hlater : later.Settled g text F) {l : Fin (text.size + 1)} {d : Cursor text}
    (hkeep : d.memo.KeepsBut [⟨r.name, start.val⟩] later) :
    ∀ (as : List Alternative) {c : Cursor text},
      (∀ a ∈ as, a ∈ r.alternatives ∧ a.owner = r.name) → InRound g F r start none none c.memo →
      runRound f start as none c = .ended (some l) d →
      ∃ front a back e, as = front ++ a :: back ∧
        (∀ b ∈ front, looksUp later.judge r.name start b.terms start = true ∨
          termsVerdict later.judge b.terms start = .fails) ∧
        looksUp later.judge r.name start a.terms start = false ∧
        termsVerdict later.judge a.terms start = .ends e.pos ∧ start ≤ e.pos ∧
        InRound g F r start none (some e.pos) e.memo ∧
        runRound f start back (some e.pos) e = .ended (some l) d
  | [], c, _, _, hround => by cases hround
  | a :: as, c, has, h, hround => by
    obtain ⟨ha, ho⟩ := has a List.mem_cons_self
    have has' := fun b hb => has b (List.mem_cons_of_mem a hb)
    have hrest : ∀ {longest : Option (Fin (text.size + 1))} {e : Cursor text},
        InRound g F r start none longest e.memo →
        runRound f start as longest e = .ended (some l) d →
        e.memo.KeepsBut [⟨r.name, start.val⟩] later :=
      fun he hround => (keepsBut_of_runRound hs hrec hr ht has' he hround).trans hkeep
    have htold := fun hk hno => Alternative.told_run hs hf ho (c := c.backTo start) h.settled ht
      hlater hk (.inr hno)
    rw [runRound] at hround
    cases hres : a.run f (c.backTo start) with
    | stopped fault e =>
      rw [hres] at hround
      exact absurd hround (by simp)
    | matched e =>
      have hstep := Alternative.settles_run hs hr ha ho (c.backTo start) h.settled ht
      obtain ⟨hin, -⟩ := h.of_matched hs hr ha ho ht hres
      rw [hres] at hround htold hstep
      dsimp only at hround
      have hstart : start ≤ e.pos := hstep.2.2.1
      rw [furthest_none hstart] at hin hround
      have hno := Alternative.not_looksUp_of_matched hs hf ho (c := c.backTo start) h.settled ht
        h.tally hres hlater (hrest hin hround)
      have hends := htold (hrest hin hround) hno (by simp [Result.verdict])
      exact ⟨[], a, as, e, rfl, by simp, hno, hends, hstart, hin, hround⟩
    | failed e =>
      rw [hres] at hround htold
      obtain ⟨hin, -⟩ := h.of_failed hs hr ha ho ht hres
      obtain ⟨front, b, back, e', rfl, hfront, hb⟩ :=
        exists_first_match hs hrec hf hr ht hlater hkeep as has' hin hround
      refine ⟨a :: front, b, back, e', rfl, List.forall_mem_cons.2 ⟨?_, hfront⟩, hb⟩
      cases hlooks : looksUp later.judge r.name start a.terms start with
      | true => exact .inl rfl
      | false => exact .inr (htold (hrest hin hround) hlooks (by simp [Result.verdict]))

end

/-! ## Growth -/

section

variable (judge : Judge text) (r : Rule) (start : Fin (text.size + 1))

/-- The alternatives in front of the first one that matches without coming back to the rule. When they
are run for the first time, there is no match of the rule yet. -/
def Judge.unseeded : List Alternative :=
  r.alternatives.takeWhile fun a =>
    looksUp judge r.name start a.terms start || decide (termsVerdict judge a.terms start = .fails)

/-- The rule matches the empty text, and the alternative comes back to the rule but was run before
there was a match of it. -/
def Judge.TooEarly (a : Alternative) : Prop :=
  judge r.name start = .ends start ∧ a ∈ judge.unseeded r start ∧
    looksUp judge r.name start a.terms start = true

/-- With the empty match as a seed, an alternative that was run too early no longer fails, and does not
just match the empty text again. -/
def Judge.Stunted : Prop :=
  ∃ a, judge.TooEarly r start a ∧ termsVerdict judge a.terms start ≠ .fails ∧
    termsVerdict judge a.terms start ≠ .ends start

/-- No alternative comes back to the rule where it begins. -/
def Judge.Seedless : Prop :=
  ∀ a ∈ r.alternatives, looksUp judge r.name start a.terms start = false

instance : Decidable (judge.Seedless r start) :=
  inferInstanceAs (Decidable (∀ a ∈ r.alternatives, looksUp judge r.name start a.terms start = false))

end

/-- The alternative fails, or ends no further than the rule. -/
def Alternative.Bounded (judge : Judge text) (name : String) (start : Fin (text.size + 1))
    (a : Alternative) : Prop :=
  termsVerdict judge a.terms start = .fails ∨
    ∃ p e, start ≤ p ∧ p ≤ e ∧ judge name start = .ends e ∧ termsVerdict judge a.terms start = .ends p

/-- The rule fails, or one of its alternatives does not. -/
def Judge.Backed (judge : Judge text) (r : Rule) (start : Fin (text.size + 1)) : Prop :=
  judge r.name start = .fails ∨ ∃ a ∈ r.alternatives, termsVerdict judge a.terms start ≠ .fails

/-- Running the alternatives of the rule again comes to nothing: none of them ends further than is
said of the rule itself, and if all of them fail, so does the rule. -/
structure Judge.AtRest (judge : Judge text) (r : Rule) (start : Fin (text.size + 1)) : Prop where
  bounded : ∀ a ∈ r.alternatives, a.Bounded judge r.name start
  backed : judge.Backed r start

/-- The same, but for the alternatives that were run too early. -/
structure Judge.Grown (judge : Judge text) (r : Rule) (start : Fin (text.size + 1)) : Prop where
  bounded : ∀ a ∈ r.alternatives, judge.TooEarly r start a ∨ a.Bounded judge r.name start
  backed : judge.Backed r start

section

variable {judge : Judge text} {r : Rule} {start : Fin (text.size + 1)}

theorem Alternative.Bounded.judged {a : Alternative} {name : String}
    (h : a.Bounded judge name start) : a.Judged judge start :=
  h.imp_right fun ⟨p, _, hp, _, _, hends⟩ => ⟨p, hp, hends⟩

theorem Judge.AtRest.judged (h : judge.AtRest r start) : ∀ a ∈ r.alternatives, a.Judged judge start :=
  fun a ha => (h.bounded a ha).judged

/-- Where a rule is at rest, its alternatives do not reach beyond it, and if they reach nowhere, it
fails. -/
theorem Judge.AtRest.reached (h : judge.AtRest r start) :
    match reach judge start r.alternatives none with
    | none => judge r.name start = .fails
    | some l => ∃ e, judge r.name start = .ends e ∧ l ≤ e := by
  have hgreatest := reach_greatest r.alternatives none h.judged
  cases hreach : reach judge start r.alternatives none with
  | none =>
    rw [hreach] at hgreatest
    exact h.backed.resolve_right fun ⟨a, ha, hne⟩ => hne (hgreatest.2 a ha)
  | some l =>
    rw [hreach] at hgreatest
    obtain ⟨a, ha, hends⟩ := hgreatest.1.resolve_left (by simp)
    rcases h.bounded a ha with hfail | ⟨p, e, -, hpe, he, hp⟩
    · exact absurd (hfail.symm.trans hends) (by simp)
    · cases hp.symm.trans hends
      exact ⟨e, he, hpe⟩

theorem Judge.Seedless.not_stunted (h : judge.Seedless r start) : ¬ judge.Stunted r start := by
  rintro ⟨a, ⟨-, hmem, hback⟩, -⟩
  exact absurd (h a ((List.takeWhile_sublist _).subset hmem)) (by simp [hback])

/-- With the memo before a run, no alternative comes back to the rule that does not with the memo
behind it. -/
theorem Judge.Seedless.before {m later : Memo} (h : later.judge.Seedless r start)
    (hm : m.Settled g text F) (hlater : later.Settled g text F)
    (hkeep : m.KeepsBut [⟨r.name, start.val⟩] later) : m.judge.Seedless r start := by
  intro a ha
  have hno := h a ha
  rw [Bool.eq_false_iff] at hno ⊢
  exact mt (looksUp_of_agreeBut (hm.judge_eq_but hlater hkeep) a.terms start) hno

/-- A rule that is done growing is at rest unless it is stunted. -/
theorem Judge.Grown.atRest (h : judge.Grown r start) (hnot : ¬ judge.Stunted r start) :
    judge.AtRest r start := by
  refine ⟨fun a ha => (h.bounded a ha).elim (fun hearly => ?_) id, h.backed⟩
  by_cases hfails : termsVerdict judge a.terms start = .fails
  · exact .inl hfails
  · by_cases hends : termsVerdict judge a.terms start = .ends start
    · exact .inr ⟨start, start, Fin.le_refl _, Fin.le_refl _, hearly.1, hends⟩
    · exact absurd ⟨a, hearly, hfails, hends⟩ hnot

theorem Judge.unseeded_eq {a : Alternative} {front back : List Alternative}
    (hsplit : r.alternatives = front ++ a :: back)
    (hfront : ∀ b ∈ front, looksUp judge r.name start b.terms start = true ∨
      termsVerdict judge b.terms start = .fails)
    (hno : looksUp judge r.name start a.terms start = false)
    (hne : termsVerdict judge a.terms start ≠ .fails) : judge.unseeded r start = front := by
  rw [unseeded, hsplit, List.takeWhile_append_of_pos (by simpa using hfront),
    List.takeWhile_cons_of_neg (by simpa [hno] using hne), List.append_nil]

/-- Alternatives that reach no further than the rule are bounded by it. -/
theorem bounded_of_reach {as : List Alternative} {longest : Option (Fin (text.size + 1))}
    {l e : Fin (text.size + 1)} {name : String} (h : ∀ a ∈ as, a.Judged judge start)
    (hreach : reach judge start as longest = some l) (hle : l ≤ e) (he : judge name start = .ends e) :
    ∀ a ∈ as, a.Bounded judge name start := by
  have hgreatest := reach_greatest as longest h
  rw [hreach] at hgreatest
  exact fun a ha => (h a ha).imp_right fun ⟨p, hp, hends⟩ =>
    ⟨p, e, hp, Fin.le_trans (hgreatest.2.2 a ha p hends) hle, he, hends⟩

end

/-- How a rule stands between two rounds; if no alternative comes back to it, the next round finds its
best end again. -/
structure Growing (g : Grammar) (F : List Spot) (r : Rule) (start best : Fin (text.size + 1))
    (m : Memo) : Prop where
  settled : m.Settled g text (⟨r.name, start.val⟩ :: F)
  planted : Planted text r start m
  best_eq : (m.longest? ⟨r.name, start.val⟩).getD start.val = best.val
  attained : m.judge.Seedless r start → m.longest? ⟨r.name, start.val⟩ ≠ none →
    ∃ a ∈ r.alternatives, termsVerdict m.judge a.terms start = .ends best

section

variable {f : Follow text} {r : Rule} {start best : Fin (text.size + 1)} {c d : Cursor text}
  {longest : Option (Fin (text.size + 1))}

theorem exists_ends_of_reach {judge : Judge text} {l : Fin (text.size + 1)} {as : List Alternative}
    (h : ∀ a ∈ as, a.Judged judge start) (hreach : reach judge start as none = some l) :
    ∃ a ∈ as, termsVerdict judge a.terms start = .ends l := by
  have hgreatest := reach_greatest as none h
  rw [hreach] at hgreatest
  exact hgreatest.1.resolve_left (by simp)

variable (hf : f.Faithful g) (hr : g.rule? r.name = some r)
  (ho : ∀ a ∈ r.alternatives, a.owner = r.name)

include hf hr ho

theorem Growing.round (h : Growing g F r start best c.memo)
    (hround : runRound f start r.alternatives none c = .ended longest d) :
    InRound g (⟨r.name, start.val⟩ :: F) r start (c.memo.longest? ⟨r.name, start.val⟩) longest d.memo ∧
      c.memo.KeepsBut [⟨r.name, start.val⟩] d.memo ∧
      (longest = none → c.memo.longest? ⟨r.name, start.val⟩ = none) := by
  have hset := runRound_settles hf.settles hf.recalls hr (F := ⟨r.name, start.val⟩ :: F)
    List.mem_cons_self r.alternatives none c (fun a ha => ⟨ha, ho a ha⟩) ⟨h.settled, h.planted, rfl⟩
  rw [hround] at hset
  exact ⟨hset.1, hset.2.1, fun hnone => h.planted.longest_eq_none (hset.2.2 hnone).2⟩

theorem Growing.told (h : Growing g F r start best c.memo)
    (hround : runRound f start r.alternatives none c = .ended longest d)
    (hsteady : Unmoved r start c.memo d.memo longest ∨ d.memo.judge.Seedless r start) :
    (∀ a ∈ r.alternatives, a.Judged d.memo.judge start) ∧
      longest = reach d.memo.judge start r.alternatives none :=
  runRound_told hf.settles hf.recalls hf.told hr List.mem_cons_self (h.round hf hr ho hround).1.settled
    r.alternatives (fun a ha => ⟨ha, ho a ha⟩) ⟨h.settled, h.planted, rfl⟩ hround (.refl _ _) hsteady

/-- A round that found a match moves the greatest end to its own, if that is beyond the best one. -/
theorem Growing.longest_eq {l : Fin (text.size + 1)} (h : Growing g F r start best c.memo)
    (hround : runRound f start r.alternatives none c = .ended (some l) d) :
    start ≤ l ∧ d.memo.longest? ⟨r.name, start.val⟩ = some (max best.val l.val : Int) := by
  have htally := (h.round hf hr ho hround).1.tally
  rwa [h.best_eq] at htally

theorem Growing.next {l : Fin (text.size + 1)} (h : Growing g F r start best c.memo)
    (hround : runRound f start r.alternatives none c = .ended (some l) d) (hlt : best < l) :
    Growing g F r start l d.memo where
  settled := (h.round hf hr ho hround).1.settled
  planted := (h.round hf hr ho hround).1.planted
  best_eq := by
    rw [(h.longest_eq hf hr ho hround).2, Option.getD_some]
    have := Fin.lt_def.1 hlt
    omega
  attained hseedless _ := by
    obtain ⟨hjudged, hreach⟩ := h.told hf hr ho hround (Or.inr hseedless)
    exact exists_ends_of_reach hjudged hreach.symm

/-! ### The last round -/

/-- A round without a match would be one again. -/
theorem Growing.grown_of_none (h : Growing g F r start best c.memo)
    (hround : runRound f start r.alternatives none c = .ended none d) :
    (d.memo.saveMismatch ⟨r.name, start.val⟩).judge.Grown r start := by
  obtain ⟨hin, -, hno⟩ := h.round hf hr ho hround
  have hnone : d.memo.longest? ⟨r.name, start.val⟩ = none := hin.tally.trans (hno rfl)
  obtain ⟨hjudged, hreach⟩ := h.told hf hr ho hround
    (Or.inl ⟨hnone.trans (hno rfl).symm, fun l hl => absurd hl (by simp)⟩)
  have hgreatest := reach_greatest r.alternatives none hjudged
  rw [← hreach] at hgreatest
  have hself : (d.memo.judge r.name start : Verdict text) = .fails :=
    Memo.judge_of_underWay (hin.settled.open_of_underWay _ List.mem_cons_self) hnone
      (hin.settled.started_of_underWay _ List.mem_cons_self)
  have hbelow := Memo.judge_below_saveMismatch d.memo hself
  have hfails : ∀ a ∈ r.alternatives, termsVerdict
      (d.memo.saveMismatch ⟨r.name, start.val⟩).judge a.terms start = .fails := by
    intro a ha
    have hfail := hgreatest.2 a ha
    rw [termsVerdict_mono hbelow a.terms start (by simp [hfail]), hfail]
  exact ⟨fun a ha => Or.inr (Or.inl (hfails a ha)),
    Or.inl ((hbelow r.name start (by simp [hself])).trans hself)⟩

/-- A round that was run with the seed that the rule ends with would not go further. -/
theorem Growing.grown_of_seed {l : Fin (text.size + 1)} (h : Growing g F r start best c.memo)
    (hround : runRound f start r.alternatives none c = .ended (some l) d) (hle : l ≤ best)
    (hseed : c.memo.longest? ⟨r.name, start.val⟩ = some (best.val : Int)) :
    d.memo.judge.Grown r start := by
  have hle' := Fin.le_def.1 hle
  have hlong := (h.longest_eq hf hr ho hround).2
  rw [Int.max_eq_left (Int.ofNat_le.2 hle')] at hlong
  have hset := (h.round hf hr ho hround).1.settled
  obtain ⟨hjudged, hreach⟩ := h.told hf hr ho hround
    (Or.inl ⟨hlong.trans hseed.symm, fun l' hl' => ⟨best, hseed, by cases hl'; exact hle⟩⟩)
  have hself : d.memo.judge r.name start = .ends best :=
    Memo.judge_of_longest (hset.open_of_underWay _ List.mem_cons_self) hlong
  obtain ⟨a, ha, hends⟩ := exists_ends_of_reach hjudged hreach.symm
  exact ⟨fun a ha => Or.inr (bounded_of_reach hjudged hreach.symm hle hself a ha),
    Or.inr ⟨a, ha, by simp [hends]⟩⟩

/-- An empty match that the first round comes to was a seed for all alternatives behind the one that
found it, and this one does not come back to the rule. -/
theorem Growing.grown_of_empty {l : Fin (text.size + 1)} (h : Growing g F r start best c.memo)
    (hround : runRound f start r.alternatives none c = .ended (some l) d) (hle : l ≤ start)
    (hnone : c.memo.longest? ⟨r.name, start.val⟩ = none) : d.memo.judge.Grown r start := by
  have hlater := (h.round hf hr ho hround).1.settled
  have hown : ∀ a ∈ r.alternatives, a ∈ r.alternatives ∧ a.owner = r.name := fun a ha => ⟨ha, ho a ha⟩
  obtain ⟨front, a, back, e, hsplit, hfront, hno, hends, hstart, hin, hrest⟩ :=
    exists_first_match hf.settles hf.recalls hf.told hr List.mem_cons_self hlater (.refl _ _)
      r.alternatives hown ⟨h.settled, h.planted, hnone⟩ hround
  have hmem : ∀ b ∈ back, b ∈ r.alternatives := by
    intro b hb
    rw [hsplit]
    exact List.mem_append_right front (List.mem_cons_of_mem a hb)
  -- the first match is empty, since the round does not go beyond the beginning
  obtain ⟨l', hl', hle'⟩ := le_of_runRound back hrest
  cases hl'
  have hpos : e.pos = start := Fin.le_antisymm (Fin.le_trans hle' hle) hstart
  rw [hpos] at hends hin hrest
  cases Fin.le_antisymm hle (Fin.le_trans hstart hle')
  have hseed := hin.tally.2
  have hlong := (h.round hf hr ho hround).1.tally.2
  rw [hnone] at hlong
  rw [Option.getD_none, Int.max_self] at hseed hlong
  have hself : d.memo.judge r.name start = .ends start :=
    Memo.judge_of_longest (hlater.open_of_underWay _ List.mem_cons_self) hlong
  obtain ⟨hback, hreach⟩ := runRound_told hf.settles hf.recalls hf.told hr List.mem_cons_self hlater
    back (fun b hb => hown b (hmem b hb)) hin hrest (.refl _ _)
    (Or.inl ⟨hlong.trans hseed.symm, fun l' hl' => ⟨start, hseed, by cases hl'; exact Fin.le_refl _⟩⟩)
  have hbounded := bounded_of_reach hback hreach.symm (Fin.le_refl start) hself
  have hunseeded := Judge.unseeded_eq hsplit hfront hno (by simp [hends])
  refine ⟨fun b hb => ?_, Or.inr ⟨a, by simp [hsplit], by simp [hends]⟩⟩
  rw [hsplit, List.mem_append, List.mem_cons] at hb
  rcases hb with hb | rfl | hb
  · exact (hfront b hb).imp (fun hlooks => ⟨hself, hunseeded ▸ hb, hlooks⟩) Or.inl
  · exact Or.inr (Or.inr ⟨start, start, Fin.le_refl _, Fin.le_refl _, hself, hends⟩)
  · exact Or.inr (hbounded b hb)

/-- If no alternative comes back to the rule, one of them still finds its best end in the last
round. -/
theorem Growing.attained_of_some {l : Fin (text.size + 1)} (h : Growing g F r start best c.memo)
    (hround : runRound f start r.alternatives none c = .ended (some l) d) (hle : l ≤ best)
    (hseedless : d.memo.judge.Seedless r start) :
    ∃ a ∈ r.alternatives, termsVerdict d.memo.judge a.terms start = .ends best := by
  obtain ⟨hin, hkeep, -⟩ := h.round hf hr ho hround
  cases hc : c.memo.longest? ⟨r.name, start.val⟩ with
  | none =>
    obtain ⟨hjudged, hreach⟩ := h.told hf hr ho hround (Or.inr hseedless)
    have hb := h.best_eq
    rw [hc, Option.getD_none] at hb
    have hstart := (h.longest_eq hf hr ho hround).1
    have hl : l = best := Fin.ext (by
      have := Fin.le_def.1 hle
      have := Fin.le_def.1 hstart
      omega)
    exact hl ▸ exists_ends_of_reach hjudged hreach.symm
  | some e =>
    obtain ⟨a, ha, hends⟩ := h.attained (hseedless.before h.settled hin.settled hkeep) (by simp [hc])
    refine ⟨a, ha, ?_⟩
    rw [Alternative.verdict_later h.settled hin.settled hkeep (Or.inr (hseedless a ha))
      (by simp [hends]), hends]

/-! ### The end -/

/-- When the rounds end, the rule is done growing; and if no alternative comes back to it, one of them
still reaches the end. -/
theorem grow_grown (best : Fin (text.size + 1)) (c : Cursor text)
    (h : Growing g F r start best c.memo) :
    match grow f r start best c with
    | .matched d => d.memo.judge.Grown r start ∧ (d.memo.judge.Seedless r start →
        ∃ a ∈ r.alternatives, termsVerdict d.memo.judge a.terms start = .ends d.pos)
    | .failed d => d.memo.judge.Grown r start
    | .stopped _ _ => True := by
  induction best, c using grow.induct f r start with
  | case1 best c fault d hd =>
    rw [grow_of_stopped hd]
    trivial
  | case2 best c d hd =>
    rw [grow_of_none hd]
    exact h.grown_of_none hf hr ho hd
  | case3 best c longest d hd hlt ih =>
    rw [grow_of_lt hd hlt]
    exact ih (h.next hf hr ho hd hlt)
  | case4 best c longest d hd hlt =>
    have hle := Fin.not_lt.1 hlt
    have hattained := h.attained_of_some hf hr ho hd hle
    rw [grow_of_not_lt hd hlt]
    refine ⟨?_, hattained⟩
    show d.memo.judge.Grown r start
    have hbest := h.best_eq
    cases hc : c.memo.longest? ⟨r.name, start.val⟩ with
    | some e =>
      rw [hc, Option.getD_some] at hbest
      subst hbest
      exact h.grown_of_seed hf hr ho hd hle hc
    | none =>
      rw [hc, Option.getD_none] at hbest
      cases (Fin.ext (Int.ofNat.inj hbest) : start = best)
      exact h.grown_of_empty hf hr ho hd hle hc

/-- A rule that was not begun at its offset before is done growing there when it has been run. -/
theorem Rule.grown_run (c : Cursor text) (h : c.memo.Settled g text F)
    (hnew : c.memo.isStarted (c.spot r.name) = false) :
    match r.run f c with
    | .matched d => d.memo.judge.Grown r c.pos ∧ (d.memo.judge.Seedless r c.pos →
        ∃ a ∈ r.alternatives, termsVerdict d.memo.judge a.terms c.pos = .ends d.pos)
    | .failed d => d.memo.judge.Grown r c.pos
    | .stopped _ _ => True := by
  have hnone : (c.saveStarted (c.spot r.name)).memo.longest? ⟨r.name, c.pos.val⟩ = none :=
    h.longest_of_new hnew
  have hgrowing : Growing g F r c.pos c.pos (c.saveStarted (c.spot r.name)).memo :=
    { settled := h.saveStarted hnew ⟨c.pos, rfl⟩
      planted := fun e he => absurd (hnone.symm.trans he) (by simp)
      best_eq := by rw [hnone, Option.getD_none]
      attained := fun _ hsome => absurd hnone hsome }
  exact grow_grown hf hr ho c.pos _ hgrowing

end

/-! ## Running a rule at rest -/

section

variable {f : Follow text} {r : Rule} {start : Fin (text.size + 1)} {judge : Judge text}
  (hf : f.Meets (fun m => m.Coherent ∧ m.judge = judge) judge) (hrest : judge.AtRest r start)

include hf hrest

/-- An alternative ends as it is judged, and what it records is no news. -/
theorem Alternative.meets_rerun {a : Alternative} (ha : a ∈ r.alternatives) (ho : a.owner = r.name)
    (c : Cursor text) (hc : c.memo.Coherent ∧ c.memo.judge = judge) :
    (a.run f (c.backTo start)).Meets (fun m => m.Coherent ∧ m.judge = judge)
      (termsVerdict judge a.terms start) := by
  have hterms := runTerms_meets hf a.terms (c.backTo start) hc (hrest.judged a ha).ne_undefined
  rw [Alternative.run]
  rcases hterms.cases with ⟨d, hrun, hv, hcoh, hd⟩ | ⟨d, hrun, hv, hd⟩
  · rw [hrun]
    have hv : termsVerdict judge a.terms start = .ends d.pos := hv
    have hgreatest := reach_greatest r.alternatives none hrest.judged
    have hreached := hrest.reached
    cases hreach : reach judge start r.alternatives none with
    | none =>
      rw [hreach] at hgreatest
      exact absurd ((hgreatest.2 a ha).symm.trans hv) (by simp)
    | some l =>
      rw [hreach] at hgreatest hreached
      obtain ⟨e, he, hle⟩ := hreached
      have hde := Fin.le_def.1 (Fin.le_trans (hgreatest.2.2 a ha d.pos hv) hle)
      rw [← hd] at he
      have hlong : d.memo.longest? (⟨a.owner, start.val, d.pos.val⟩ : Match).spot = some (e.val : Int) := by
        rw [Match.spot, ho]
        exact Memo.longest_of_judge he
      refine ⟨hv, hcoh.saveMatch (Int.natCast_nonneg _), ?_⟩
      rw [← hd]
      exact Memo.judge_saveMatch hcoh hlong (Int.natCast_nonneg _) (Int.ofNat_le.2 hde)
  · rw [hrun]
    exact ⟨hv, hd⟩

/-- A round ends where the judged alternatives reach. -/
theorem runRound_rerun : ∀ (as : List Alternative) (longest : Option (Fin (text.size + 1)))
    (c : Cursor text), (∀ a ∈ as, a ∈ r.alternatives ∧ a.owner = r.name) →
    c.memo.Coherent ∧ c.memo.judge = judge →
    ∃ d, runRound f start as longest c = .ended (reach judge start as longest) d ∧
      d.memo.Coherent ∧ d.memo.judge = judge
  | [], _, c, _, hc => ⟨c, rfl, hc⟩
  | a :: as, longest, c, has, hc => by
    obtain ⟨ha, ho⟩ := has a List.mem_cons_self
    have has' := fun b hb => has b (List.mem_cons_of_mem a hb)
    rw [runRound]
    rcases (Alternative.meets_rerun hf hrest ha ho c hc).cases with
      ⟨d, hrun, hv, hd⟩ | ⟨d, hrun, hv, hd⟩
    · rw [hrun, reach_of_ends hv]
      exact runRound_rerun as _ d has' hd
    · rw [hrun, reach_of_fails hv]
      exact runRound_rerun as longest d has' hd

/-- The rule ends where its alternatives reach: with what its first round finds, since the second round
finds the same. -/
theorem Rule.rerun_of_atRest (ho : ∀ a ∈ r.alternatives, a.owner = r.name) (c : Cursor text)
    (hpos : c.pos = start) (hc : c.memo.Coherent ∧ c.memo.judge = judge)
    (hs : c.memo.isStarted (c.spot r.name) = true) :
    (r.run f c).verdict = match reach judge start r.alternatives none with
      | none => .fails
      | some l => .ends l := by
  subst hpos
  have hround := fun d => runRound_rerun hf hrest r.alternatives none d fun a ha => ⟨ha, ho a ha⟩
  have hc' : (c.saveStarted (c.spot r.name)).memo.Coherent ∧
      (c.saveStarted (c.spot r.name)).memo.judge = judge :=
    ⟨hc.1.saveStarted _, (Memo.judge_saveStarted _ hs).trans hc.2⟩
  rw [Rule.run]
  obtain ⟨d, hd, hmemo⟩ := hround _ hc'
  cases hreach : reach judge c.pos r.alternatives none with
  | none =>
    rw [hreach] at hd
    rw [grow_of_none hd]
    rfl
  | some l =>
    rw [hreach] at hd
    by_cases hlt : c.pos < l
    · obtain ⟨e, he, -⟩ := hround d hmemo
      rw [hreach] at he
      rw [grow_of_lt hd hlt, grow_of_not_lt he (Fin.lt_irrefl l)]
      rfl
    · have hgreatest := reach_greatest r.alternatives none hrest.judged
      rw [hreach] at hgreatest
      obtain ⟨a, ha, hends⟩ := hgreatest.1.resolve_left (by simp)
      have hle : c.pos ≤ l := by
        rcases hrest.judged a ha with hfail | ⟨p, hp, hends'⟩
        · exact absurd (hfail.symm.trans hends) (by simp)
        · cases hends.symm.trans hends'
          exact hp
      rw [grow_of_not_lt hd hlt, Fin.le_antisymm hle (Fin.not_lt.1 hlt)]
      rfl

end

end Packrat
