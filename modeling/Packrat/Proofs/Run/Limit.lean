import Packrat.Proofs.Consistency
import Packrat.Proofs.Run.Bounds

/-!
# `Packrat/Proofs/Run/Limit.lean` — what the limit does to a run

The limit is looked at in one place, where a reference is about to begin a rule. Two runs of the same
rule with different limits therefore go through the same moments, but for the limit that their cursors
carry, up to the first such place where one of the limits says no; the fault then falls through to the
end of the run (`Reached.under`).

A fault is all that can keep a run from an answer, and in a grammar whose terms can all be run, the
limit is the only reason for one (`Reached.going`).
-/

set_option autoImplicit false

namespace Packrat

variable {text : Text} {g : Grammar}

/-! ## Limit and depth along a run -/

namespace State

def cursor : State text → Cursor text
  | perform _ c _ => c
  | deliver res _ => res.cursor

theorem allowance_step {s s' : State text} (h : s.step g = some s') :
    s'.cursor.allowance = s.cursor.allowance := by
  match s, h with
  | perform t c K, h =>
    cases h
    cases t with
    | term t =>
      cases t with
      | literal s =>
        simp only [Task.begin, cursor]
        split
        · exact Result.allowance_matchedAt c _
        · rfl
      | pattern r =>
        simp only [Task.begin]
        split
        · exact Result.allowance_matchedAt c _
        · rfl
      | reference _ | foreignLiteral _ | foreign _ => rfl
    | terms ts => cases ts <;> rfl
    | alternative _ | rule _ => rfl
    | round r start best rest longest =>
      cases rest with
      | cons a rest => rfl
      | nil =>
        cases longest with
        | none => rfl
        | some longest =>
          simp only [Task.begin]
          split <;> rfl
    | reference name =>
      have hlead := Task.referred g name c K
      generalize (Task.reference name).begin g c K = s' at hlead ⊢
      cases hlead with
      | answered _ ha => exact ha
      | followed _ _ _ => rfl
  | deliver res (k :: K), h =>
    cases h
    cases k <;> cases res <;> rfl
  | deliver _ [], h => exact absurd h (by simp [step])

end State

theorem Reached.allowance {limit : Int} {r : Rule} {s : State text}
    (h : Reached g text limit r s) : s.cursor.allowance = (limit, 0) := by
  induction h with
  | refl => rfl
  | tail _ hstep ih => exact (State.allowance_step hstep).trans ih

/-- No more references are nested than the limit allows. -/
theorem Reached.nested_le {limit : Int} {r : Rule} {s : State text} (hr : g.rule? r.name = some r)
    (h : Reached g text limit r s) : (s.nested : Int) ≤ max limit 0 := by
  induction h with
  | refl => exact Int.le_max_right _ _
  | tail hs hstep ih =>
    have ha := Reached.allowance hs
    have hmove := (Reached.orderly hr hs).fits.moves hstep
    cases hmove with
    | stays _ _ hn => exact Int.le_trans (Int.ofNat_le.2 hn) ih
    | @follows r c K _ hroom =>
      obtain ⟨hl, hd⟩ := Prod.mk.inj ha
      have hl' : c.limit = limit := hl
      have hd' : c.depth = 0 := hd
      have hn : (State.perform (.rule r) c (.reference :: K)).nested = nesting K + 1 := rfl
      rw [hn]
      omega
    | opens => exact ih
    | grows _ => exact ih
    | closes _ _ hn => exact hn ▸ ih

/-! ## Faults -/

/-- The run is not stopped. -/
def State.Going : State text → Prop
  | .deliver (.stopped _ _) _ => False
  | _ => True

/-- A fault falls through to the end. -/
theorem Steps.stopped (f : RunFault) (c : Cursor text) : ∀ K : List (Frame text),
    Steps g (.deliver (.stopped f c) K) (.deliver (.stopped f c) [])
  | [] => .refl
  | k :: K => by
    refine Steps.resume k _ K ?_
    cases k <;> exact Steps.stopped f c K

/-- The end of a run is its result. -/
theorem Reached.eq_run {limit : Int} {r : Rule} {res : Result text}
    (h : Reached g text limit r (.deliver res [])) : g.run text limit r = res := by
  rcases Relation.ReflTransGen.cases_head h.steps_run with he | ⟨t, ht, -⟩
  · exact (State.deliver.inj he).1.symm
  · exact absurd ht (by simp [State.step])

/-- A run that is stopped at one moment is stopped in the end. -/
theorem Reached.run_eq_stopped {limit : Int} {r : Rule} {f : RunFault} {c : Cursor text}
    {K : List (Frame text)} (h : Reached g text limit r (.deliver (.stopped f c) K)) :
    g.run text limit r = .stopped f c :=
  Reached.eq_run (h.trans (Steps.stopped f c K))

theorem Reached.going_of_run {limit : Int} {r : Rule} {s : State text}
    (h : Reached g text limit r s) (hrun : ∀ f c, g.run text limit r ≠ .stopped f c) : s.Going := by
  match s, h with
  | .deliver (.stopped f c) K, h => exact absurd h.run_eq_stopped (hrun f c)
  | .deliver (.matched _) _, _ => exact trivial
  | .deliver (.failed _) _, _ => exact trivial
  | .perform _ _ _, _ => exact trivial

theorem Reached.sound {limit : Int} {r : Rule} {s : State text} (hg : g.Owned)
    (hr : g.rule? r.name = some r) (h : Reached g text limit r s) : s.memo.Sound g text := by
  have hrun := (Grammar.run_concludes hg hr text limit).sound
  refine ⟨h.coherent, hrun.justified.of_prefix h.extends_run.log, fun t ht => ?_⟩
  exact (h.coherent.longest_eq_none_iff t).2 (hrun.apart_log.of_extends h.extends_run t ht)

/-- A task that can be run is not stopped, where the limit leaves room. -/
theorem Task.going_begin (hrun : g.Runnable) {t : Task text} {c : Cursor text}
    {K : List (Frame text)} (hfits : (State.perform t c K).Fits g) (hm : c.memo.Sound g text)
    (hroom : ∀ name r, t = .reference name → c.memo.isStarted (c.spot name) = false →
      g.rule? name = some r → c.depth + nesting K < c.limit) : (t.begin g c K).Going := by
  have hpos : c.pos.val ≤ text.size := Nat.le_of_lt_succ c.pos.isLt
  have hmove : ∀ q : Nat, q ≤ text.size → (State.deliver (Result.matchedAt c q) K).Going := by
    intro q hq
    rw [Result.matchedAt_of_le c hq]
    exact trivial
  cases t with
  | term t =>
    cases t with
    | literal s =>
      rw [Task.begin]
      split
      · rename_i hs
        exact hmove (c.pos.val + s.length) (Text.slice_of_startsAt hpos hs).1
      · exact trivial
    | pattern p =>
      rw [Task.begin]
      split
      · rename_i i hi
        exact hmove i (p.bounds hpos hi).2
      · exact trivial
    | reference name => exact trivial
    | foreignLiteral v => exact (hrun.proper _ hfits.1).elim
    | foreign v => exact (hrun.proper _ hfits.1).elim
  | terms ts => cases ts <;> exact trivial
  | alternative a => exact trivial
  | round r start best rest longest =>
    cases rest with
    | cons a rest => exact trivial
    | nil =>
      cases longest with
      | none => exact trivial
      | some longest =>
        rw [Task.begin]
        split <;> exact trivial
  | rule r => exact trivial
  | reference name =>
    obtain ⟨r, hr⟩ := hrun.resolved.exists_rule? hfits.1
    rw [Task.begin]
    split
    · exact trivial
    · split
      · rename_i i hi
        obtain ⟨q, rfl, hq⟩ := hm.longest_nat hi
        exact hmove q hq
      · split
        · exact trivial
        · rename_i hs
          rw [hr]
          dsimp only
          rw [if_neg (Int.not_le.2 (hroom name r rfl (Bool.eq_false_iff.2 hs) hr))]
          exact trivial

theorem Frame.going_resume {k : Frame text} {K : List (Frame text)} {res : Result text}
    (h : (State.deliver res (k :: K)).Going) : (k.resume K res).Going := by
  cases res with
  | matched d => cases k <;> exact trivial
  | failed d => cases k <;> exact trivial
  | stopped f d => exact h.elim

/-- A run in a grammar that can be run is not stopped, if its limit lets a reference begin at every spot
but the first. -/
theorem Reached.going {limit : Int} {r : Rule} {s : State text} (hg : g.Owned)
    (hrun : g.Runnable) (hr : g.rule? r.name = some r)
    (hlimit : (g.size * (text.size + 1) : Nat) - 1 ≤ limit) (h : Reached g text limit r s) :
    s.Going := by
  induction h with
  | refl => exact trivial
  | @tail s s' hs hstep ih =>
    have ho := Reached.orderly hr hs
    match s, hstep with
    | .perform t c K, hstep =>
      cases hstep
      refine Task.going_begin hrun ho.fits (Reached.sound hg hr hs) fun name r' ht hnew hr' => ?_
      -- there is a spot for one more reference, and the limit counts the spots
      obtain ⟨hl, hd⟩ := Prod.mk.inj (Reached.allowance hs)
      subst ht
      have hname := Grammar.name_of_rule? hr'
      subst hname
      have hlt := ho.length_lt hr' hnew
      have hlen : (openRounds K).length = nesting K + 1 := ho.fits.2.length_openRounds
      have hl' : c.limit = limit := hl
      have hd' : c.depth = 0 := hd
      have hlt' : (openRounds K).length < g.size * (text.size + 1) := hlt
      omega
    | .deliver res (k :: K), hstep =>
      cases hstep
      exact Frame.going_resume ih
    | .deliver _ [], hstep => exact absurd hstep (by simp [State.step])

/-- Such a run has an answer. -/
theorem Grammar.run_ne_stopped {limit : Int} {r : Rule} (hg : g.Owned) (hrun : g.Runnable)
    (hr : g.rule? r.name = some r) (hlimit : (g.size * (text.size + 1) : Nat) - 1 ≤ limit)
    (f : RunFault) (c : Cursor text) : g.run text limit r ≠ .stopped f c := by
  intro he
  have hgo := Reached.going hg hrun hr hlimit (reached_run g text limit r)
  rw [he] at hgo
  exact hgo

theorem Grammar.parse_of_run {limit : Int} {start : Option String} {r : Rule}
    (hr : g.startRule start = .ok r) (hrun : ∀ f c, g.run text limit r ≠ .stopped f c) :
    g.parse text start limit = .ok (g.run text limit r).cursor := by
  rw [Grammar.parse, hr]
  dsimp only
  cases he : g.run text limit r with
  | matched c => rfl
  | failed c => rfl
  | stopped f c => exact absurd he (hrun f c)

/-! ## Two limits -/

/-- The same cursor with another limit. -/
def Cursor.under (m : Int) (c : Cursor text) : Cursor text := { c with limit := m }

def Result.under (m : Int) : Result text → Result text
  | matched c => matched (c.under m)
  | failed c => failed (c.under m)
  | stopped f c => stopped f (c.under m)

def State.under (m : Int) : State text → State text
  | perform t c K => perform t (c.under m) K
  | deliver res K => deliver (res.under m) K

/-- From `s` to `s'` a rule is begun by a reference, and the limit `m` has no room for it. -/
def State.Refuses (g : Grammar) (m : Int) (s s' : State text) : Prop :=
  m ≤ s.cursor.depth + s.nested ∧ s'.nested = s.nested + 1 ∧
    ∃ name q c K, (s.under m).step g = some (.deliver (.stopped (.tooDeep name q m) c) K)

section

variable {m : Int}

theorem Result.matchedAt_under (c : Cursor text) (i : Int) :
    Result.matchedAt (c.under m) i = (Result.matchedAt c i).under m := by
  unfold Result.matchedAt Cursor.moveTo
  cases Cursor.position? text i <;> rfl

theorem Result.cursor_under (res : Result text) : (res.under m).cursor = res.cursor.under m := by
  cases res <;> rfl

/-- Only the limit can keep a rule that was never begun here from being begun. -/
theorem Task.begin_reference {name : String} {c : Cursor text} {K : List (Frame text)} {r : Rule}
    (hm : c.memo.isMismatch (c.spot name) = false) (hl : c.memo.longest? (c.spot name) = none)
    (hs : c.memo.isStarted (c.spot name) = false) (hr : g.rule? name = some r) :
    (Task.reference name).begin g c K =
      if c.limit ≤ c.depth + nesting K then .deliver (.stopped (.tooDeep name c.pos c.limit) c) K
      else .perform (.rule r) c (.reference :: K) := by
  simp only [Task.begin, hm, hl, hs, hr, Bool.false_eq_true, if_false]

theorem Result.under_ne_stopped {res : Result text} (h : ∀ f c, res ≠ .stopped f c) :
    ∀ f c, res.under m ≠ .stopped f c := by
  intro f c he
  cases res with
  | matched d | failed d => cases he
  | stopped f d => exact h f d rfl

/-- A task that is not stopped begins under another limit as it does under its own, unless the other
limit stops it. -/
theorem Task.begin_under (t : Task text) (c : Cursor text) (K : List (Frame text))
    (hgo : (t.begin g c K).Going) :
    t.begin g (c.under m) K = (t.begin g c K).under m ∨
      (State.perform t c K).Refuses g m (t.begin g c K) := by
  have hmove : ∀ i : Int, State.deliver (Result.matchedAt (c.under m) i) K =
      (State.deliver (Result.matchedAt c i) K).under m :=
    fun i => congrArg (State.deliver · K) (Result.matchedAt_under c i)
  cases t with
  | term t =>
    left
    cases t with
    | literal s =>
      rw [Task.begin, Task.begin, show (c.under m).pos = c.pos from rfl]
      split
      · exact hmove _
      · rfl
    | pattern r =>
      rw [Task.begin, Task.begin, show (c.under m).pos = c.pos from rfl]
      split
      · exact hmove _
      · rfl
    | reference name | foreignLiteral v | foreign v => rfl
  | terms ts => cases ts <;> exact Or.inl rfl
  | alternative a | rule r => exact Or.inl rfl
  | round r start best rest longest =>
    left
    cases rest with
    | cons a rest => rfl
    | nil =>
      cases longest with
      | none => rfl
      | some longest =>
        rw [Task.begin, Task.begin]
        split <;> rfl
  | reference name =>
    have hspot : (c.under m).spot name = c.spot name := rfl
    have hmemo : (c.under m).memo = c.memo := rfl
    cases hm : c.memo.isMismatch (c.spot name) with
    | true =>
      simp only [Task.begin, hspot, hmemo, hm, if_true]
      exact Or.inl rfl
    | false =>
      cases hl : c.memo.longest? (c.spot name) with
      | some i =>
        simp only [Task.begin, hspot, hmemo, hm, hl, Bool.false_eq_true, if_false]
        exact Or.inl (hmove i)
      | none =>
        cases hs : c.memo.isStarted (c.spot name) with
        | true =>
          simp only [Task.begin, hspot, hmemo, hm, hl, hs, Bool.false_eq_true, if_false, if_true]
          exact Or.inl rfl
        | false =>
          cases hr : g.rule? name with
          | none =>
            simp only [Task.begin, hspot, hmemo, hm, hl, hs, hr, Bool.false_eq_true, if_false]
            exact Or.inl rfl
          | some r =>
            have hbegin : (Task.reference name).begin g c K =
                .perform (.rule r) c (.reference :: K) := by
              rw [Task.begin_reference hm hl hs hr] at hgo ⊢
              by_cases hroom : c.limit ≤ c.depth + nesting K
              · rw [if_pos hroom] at hgo
                exact hgo.elim
              · rw [if_neg hroom]
            have hunder := Task.begin_reference (c := c.under m) (K := K) hm hl hs hr
            by_cases hroom : m ≤ c.depth + nesting K
            · right
              rw [hbegin]
              refine ⟨hroom, rfl, name, c.pos, c.under m, K, ?_⟩
              exact congrArg some (hunder.trans (if_pos hroom))
            · left
              rw [hbegin, hunder]
              exact if_neg hroom

theorem Frame.resume_under (k : Frame text) (K : List (Frame text)) (res : Result text) :
    k.resume K (res.under m) = (k.resume K res).under m := by
  cases k <;> cases res <;> rfl

theorem State.step_under {s s' : State text} (hstep : s.step g = some s') (hgo : s'.Going) :
    (s.under m).step g = some (s'.under m) ∨ s.Refuses g m s' := by
  match s, hstep with
  | .perform t c K, hstep =>
    cases hstep
    exact (Task.begin_under t c K hgo).imp (congrArg some) id
  | .deliver res (k :: K), hstep =>
    cases hstep
    exact Or.inl (congrArg some (Frame.resume_under k K res))
  | .deliver _ [], hstep => exact absurd hstep (by simp [State.step])

/-- A run that is not stopped and the run with another limit come through the same moments, unless the
other limit stops its run. It does so only where references are nested deeper than it allows. -/
theorem Reached.under {limit : Int} {r : Rule} {s : State text}
    (hrun : ∀ f c, g.run text limit r ≠ .stopped f c) (h : Reached g text limit r s) :
    Reached g text m r (s.under m) ∨
      (∃ name q c, g.run text m r = .stopped (.tooDeep name q m) c) ∧
        ∃ t, Reached g text limit r t ∧ max m 0 < t.nested := by
  induction h with
  | refl => exact Or.inl .refl
  | @tail s s' hs hstep ih =>
    have hs' : Reached g text limit r s' := Relation.ReflTransGen.tail hs hstep
    rcases ih with hunder | hstopped
    · rcases State.step_under (m := m) hstep (hs'.going_of_run hrun) with hm | hm
      · exact Or.inl (hunder.tail hm)
      · obtain ⟨hdeep, hnested, name, q, c, K, hfault⟩ := hm
        have hdepth : s.cursor.depth = 0 := congrArg Prod.snd (Reached.allowance hs)
        refine Or.inr ⟨⟨name, q, c, Reached.run_eq_stopped (hunder.tail hfault)⟩, s', hs', ?_⟩
        omega
    · exact Or.inr hstopped

end

end Packrat
