import Packrat.Proofs.Run.Bounds
import Packrat.Proofs.Run.Replay

/-!
# `Packrat/Proofs/Run/Lasting.lean` — what is decided stays decided

Matches are recorded for the innermost rule under way and for no other, and a rule is written down to
fail when it is done with. So a spot that was begun and is not under way any more keeps its greatest end
and its failure to the end of the run: what the memo says of it at that moment, the memo of the whole
run says, too (`Reached.lastsIn_run`).

`Packrat/Proofs/Run/Settled.lean` has the same from the beginning of a step to its end. Here it is said
of every single move, where a run is looked at in the middle.
-/

set_option autoImplicit false

namespace Packrat

variable {text : Text} {g : Grammar}

/-! ## Alternatives and their rounds -/

/-- Every alternative on the stack was begun by the round below it, at the spot of its rule. -/
def Seated : List (Frame text) → Prop
  | [] => True
  | .alternative a p :: K =>
    (openRounds K).head?.map Prod.fst = some ⟨a.owner, p.val⟩ ∧ Seated K
  | .terms _ :: K => Seated K
  | .round .. :: K => Seated K
  | .reference :: K => Seated K

theorem mem_of_innermost {K : List (Frame text)} {t : Spot}
    (h : (openRounds K).head?.map Prod.fst = some t) : t ∈ (openRounds K).map Prod.fst := by
  rw [← List.head?_map] at h
  exact List.mem_of_mem_head? h

namespace State

/-- The spots of the rules that are under way, the innermost one first. -/
def underWay (s : State text) : List Spot := s.rounds.map Prod.fst

def Seated : State text → Prop
  | perform (.alternative a) c K =>
    (openRounds K).head?.map Prod.fst = some (c.spot a.owner) ∧ Packrat.Seated K
  | perform _ _ K => Packrat.Seated K
  | deliver _ K => Packrat.Seated K

end State

theorem Task.seated_begin (hg : g.Owned) {t : Task text} {c : Cursor text} {K : List (Frame text)}
    (hfits : (State.perform t c K).Fits g) (h : (State.perform t c K).Seated) :
    (t.begin g c K).Seated := by
  cases t with
  | term t =>
    cases t with
    | literal s => exact h
    | pattern r =>
      rw [Task.begin]
      split <;> exact h
    | reference name => exact h
    | foreignLiteral v => exact h
    | foreign v => exact h
  | terms ts => cases ts <;> exact h
  | alternative a => exact h
  | round r start best rest longest =>
    cases rest with
    | cons a rest =>
      -- the alternatives of the rule record their matches under its name
      have hmem := hfits.2.1.subset List.mem_cons_self
      have hspot : (⟨r.name, start.val⟩ : Spot) = (c.backTo start).spot a.owner := by
        rw [hg.of_rule? hfits.1 a hmem]
        rfl
      exact ⟨congrArg some hspot, h⟩
    | nil =>
      cases longest with
      | none => exact h
      | some longest =>
        rw [Task.begin]
        split <;> exact h
  | rule r => exact h
  | reference name =>
    have hlead := Task.referred g name c K
    generalize (Task.reference name).begin g c K = s at hlead ⊢
    cases hlead with
    | answered _ _ => exact h
    | followed _ _ _ => exact h

theorem Frame.seated_resume {k : Frame text} {K : List (Frame text)} (h : Seated (k :: K))
    (res : Result text) : (k.resume K res).Seated := by
  cases k with
  | alternative a p => cases res <;> exact h.2
  | terms ts => cases res <;> exact h
  | round r start best rest longest => cases res <;> exact h
  | reference => cases res <;> exact h

theorem State.Seated.step (hg : g.Owned) {s s' : State text} (hfits : s.Fits g) (h : s.Seated)
    (hstep : s.step g = some s') : s'.Seated := by
  match s, hstep with
  | .perform t c K, hstep =>
    cases hstep
    exact Task.seated_begin hg hfits h
  | .deliver res (k :: K), hstep =>
    cases hstep
    exact Frame.seated_resume h res
  | .deliver _ [], hstep => exact absurd hstep (by simp [State.step])

/-! ## What a move leaves alone -/

/-- The move changes nothing that the memo says of the spots that are not under way, and writes no rule
down to fail that is under way afterwards. -/
structure Leaves (s s' : State text) : Prop where
  longest : ∀ t, t ∉ s.underWay → s'.memo.longest? t = s.memo.longest? t
  mismatch : ∀ t, t ∉ s.underWay ∨ t ∈ s'.underWay → s'.memo.isMismatch t = s.memo.isMismatch t

theorem Leaves.of_eq {s s' : State text} (hl : ∀ t, s'.memo.longest? t = s.memo.longest? t)
    (hm : ∀ t, s'.memo.isMismatch t = s.memo.isMismatch t) : Leaves s s' :=
  ⟨fun t _ => hl t, fun t _ => hm t⟩

theorem Leaves.of_memo {s s' : State text} (h : s'.memo = s.memo) : Leaves s s' :=
  .of_eq (fun t => congrArg (·.longest? t) h) fun t => congrArg (·.isMismatch t) h

theorem Task.leaves_begin {t : Task text} {c : Cursor text} {K : List (Frame text)}
    (h : (State.perform t c K).Orderly g) : Leaves (.perform t c K) (t.begin g c K) := by
  cases t with
  | term t =>
    cases t with
    | literal s =>
      refine .of_memo ?_
      rw [Task.begin]
      split
      · exact Result.memo_matchedAt c _
      · rfl
    | pattern r =>
      refine .of_memo ?_
      rw [Task.begin]
      split
      · exact Result.memo_matchedAt c _
      · rfl
    | reference name => exact .of_memo rfl
    | foreignLiteral v => exact .of_memo rfl
    | foreign v => exact .of_memo rfl
  | terms ts => cases ts <;> exact .of_memo rfl
  | alternative a => exact .of_memo rfl
  | round r start best rest longest =>
    cases rest with
    | cons a rest => exact .of_memo rfl
    | nil =>
      cases longest with
      | none =>
        -- the rule is done with; the other rules under way are at other spots
        refine ⟨fun t _ => rfl, fun t ht => ?_⟩
        have hne : t ≠ ⟨r.name, start.val⟩ := by
          rintro rfl
          rcases ht with ht | ht
          · exact ht List.mem_cons_self
          · exact (List.nodup_cons.1 h.nodup).1 ht
        rw [Bool.eq_iff_iff]
        exact (Memo.isMismatch_saveMismatch _ _ t).trans (or_iff_right hne)
      | some longest =>
        refine .of_memo ?_
        rw [Task.begin]
        split <;> rfl
  | rule r => exact .of_eq (fun _ => rfl) fun _ => rfl
  | reference name =>
    have hlead := Task.referred g name c K
    generalize (Task.reference name).begin g c K = s at hlead ⊢
    cases hlead with
    | answered hm _ => exact .of_memo hm
    | followed _ _ _ => exact .of_memo rfl

theorem Frame.leaves_resume {k : Frame text} {K : List (Frame text)} {res : Result text}
    (h : Seated (k :: K)) (hc : res.cursor.memo.Coherent) :
    Leaves (.deliver res (k :: K)) (k.resume K res) := by
  cases k with
  | alternative a p =>
    cases res with
    | matched d =>
      refine ⟨fun t ht => ?_, fun t _ => Memo.isMismatch_saveMatch _ _ t⟩
      refine (hc.longest_saveMatch (Int.natCast_nonneg _) t).trans (if_neg ?_)
      rintro rfl
      exact ht (mem_of_innermost h.1)
    | failed d => exact .of_memo rfl
    | stopped f d => exact .of_memo rfl
  | terms ts => cases res <;> exact .of_memo rfl
  | round r start best rest longest => cases res <;> exact .of_memo rfl
  | reference => cases res <;> exact .of_memo rfl

/-! ## A memo in good order -/

/-- The memo says nothing of spots that were not begun, and has written down to fail none that are under
way. -/
structure State.Tidy (g : Grammar) (s : State text) : Prop extends s.Orderly g where
  seated : s.Seated
  coherent : s.memo.Coherent
  untouched : ∀ t, s.memo.isStarted t = false →
    s.memo.longest? t = none ∧ s.memo.isMismatch t = false
  opened : ∀ t ∈ s.underWay, s.memo.isMismatch t = false

section

variable {s s' : State text}

theorem State.Tidy.leaves (h : s.Tidy g) (hstep : s.step g = some s') : Leaves s s' := by
  match s, hstep with
  | .perform t c K, hstep =>
    cases hstep
    exact Task.leaves_begin h.toOrderly
  | .deliver res (k :: K), hstep =>
    cases hstep
    exact Frame.leaves_resume h.seated h.coherent
  | .deliver _ [], hstep => exact absurd hstep (by simp [State.step])

theorem State.Orderly.started_of_underWay (h : s.Orderly g) {t : Spot} (ht : t ∈ s.underWay) :
    s.memo.isStarted t = true := by
  obtain ⟨x, hx, rfl⟩ := List.mem_map.1 ht
  exact h.started x hx

theorem State.Tidy.not_underWay_of_new (h : s.Tidy g) {t : Spot}
    (ht : s.memo.isStarted t = false) : t ∉ s.underWay := by
  intro hmem
  rw [h.started_of_underWay hmem] at ht
  exact absurd ht (by simp)

/-- The rules under way after a move were so before, or one was begun at a spot that is new. -/
theorem State.Tidy.underWay_step (h : s.Tidy g) (hstep : s.step g = some s') {t : Spot}
    (ht : t ∈ s'.underWay) : t ∈ s.underWay ∨ s.memo.isStarted t = false := by
  unfold State.underWay at ht ⊢
  cases h.fits.moves hstep with
  | stays hr => exact Or.inl (hr ▸ ht)
  | follows => exact Or.inl ht
  | @opens r c K =>
    rcases List.mem_cons.1 ht with rfl | ht
    · exact Or.inr h.fits.2.1
    · exact Or.inl ht
  | grows => exact Or.inl ht
  | closes hr =>
    rw [hr]
    exact Or.inl (List.mem_cons_of_mem _ ht)

/-- What is begun is under way, at first. -/
theorem State.Orderly.begun_step (h : s.Orderly g) (hstep : s.step g = some s')
    {t : Spot} (ht : s'.memo.isStarted t = true) : s.memo.isStarted t = true ∨ t ∈ s'.underWay := by
  cases h.fits.moves hstep with
  | stays _ hs => exact Or.inl (hs t ▸ ht)
  | follows => exact Or.inl ht
  | @opens r c K =>
    rcases (Memo.isStarted_saveStarted _ _ _).1 ht with rfl | ht
    · exact Or.inr List.mem_cons_self
    · exact Or.inl ht
  | grows => exact Or.inl ht
  | closes _ hs => exact Or.inl (hs t ▸ ht)

theorem State.started_mono (hstep : s.step g = some s') {t : Spot} (ht : s'.memo.isStarted t = false) :
    s.memo.isStarted t = false := by
  rw [Bool.eq_false_iff] at ht ⊢
  exact fun hs => ht ((State.written_step hstep).extends.started t hs)

theorem State.Tidy.step (hg : g.Owned) (h : s.Tidy g) (hstep : s.step g = some s') : s'.Tidy g := by
  have hleaves := h.leaves hstep
  refine ⟨h.toOrderly.step hstep, h.seated.step hg h.fits hstep,
    (State.written_step hstep).coherent h.coherent, fun t ht => ?_, fun t ht => ?_⟩
  · have hnew := State.started_mono hstep ht
    have hno := h.not_underWay_of_new hnew
    rw [hleaves.longest t hno, hleaves.mismatch t (Or.inl hno)]
    exact h.untouched t hnew
  · rw [hleaves.mismatch t (Or.inr ht)]
    rcases h.underWay_step hstep ht with hmem | hnew
    · exact h.opened t hmem
    · exact (h.untouched t hnew).2

theorem State.Tidy.started_of_judge (h : s.Tidy g) {name : String} {p : Fin (text.size + 1)}
    (hd : (s.memo.judge name p : Verdict text) ≠ .undefined) :
    s.memo.isStarted ⟨name, p.val⟩ = true := by
  by_contra hs
  rw [Bool.not_eq_true] at hs
  obtain ⟨hl, hm⟩ := h.untouched _ hs
  refine hd ?_
  simp [Memo.judge, hl, hm, hs]

/-- What was begun and is not under way is left as it is. -/
theorem State.Tidy.lasts_step (h : s.Tidy g) (hstep : s.step g = some s') {name : String}
    {p : Fin (text.size + 1)} (hs : s.memo.isStarted ⟨name, p.val⟩ = true)
    (hno : (⟨name, p.val⟩ : Spot) ∉ s.underWay) :
    s'.memo.isStarted ⟨name, p.val⟩ = true ∧ (⟨name, p.val⟩ : Spot) ∉ s'.underWay ∧
      (s'.memo.judge name p : Verdict text) = s.memo.judge name p := by
  have hleaves := h.leaves hstep
  have hs' := (State.written_step hstep).extends.started _ hs
  refine ⟨hs', fun hmem => ?_, ?_⟩
  · rcases h.underWay_step hstep hmem with hmem | hnew
    · exact hno hmem
    · exact absurd (hs.symm.trans hnew) (by simp)
  · rw [Memo.judge, Memo.judge, hleaves.longest _ hno, hleaves.mismatch _ (Or.inl hno), hs, hs']

theorem Steps.lasts (hg : g.Owned) (h : Steps g s s') (ht : s.Tidy g) {name : String}
    {p : Fin (text.size + 1)} (hs : s.memo.isStarted ⟨name, p.val⟩ = true)
    (hno : (⟨name, p.val⟩ : Spot) ∉ s.underWay) :
    s'.Tidy g ∧ s'.memo.isStarted ⟨name, p.val⟩ = true ∧ (⟨name, p.val⟩ : Spot) ∉ s'.underWay ∧
      (s'.memo.judge name p : Verdict text) = s.memo.judge name p := by
  induction h with
  | refl => exact ⟨ht, hs, hno, rfl⟩
  | tail _ hstep ih =>
    obtain ⟨ht, hs, hno, hsame⟩ := ih
    obtain ⟨hs', hno', hsame'⟩ := ht.lasts_step hstep hs hno
    exact ⟨ht.step hg hstep, hs', hno', hsame'.trans hsame⟩

end

section

variable {limit : Int} {r : Rule} {s : State text}

theorem Reached.tidy (hg : g.Owned) (hr : g.rule? r.name = some r) (h : Reached g text limit r s) :
    s.Tidy g := by
  induction h with
  | refl =>
    refine ⟨orderly_first hr limit, trivial, Memo.coherent_empty, fun t _ => ?_, fun t ht => ?_⟩
    · exact ⟨by simp [State.memo, Cursor.first, Memo.longest?], rfl⟩
    · exact absurd ht (by simp [State.underWay, State.rounds, openRounds])
  | tail _ hstep ih => exact ih.step hg hstep

/-- What the memo says of the spots that are done with at the moment, `m` says, too. -/
def State.LastsIn (s : State text) (m : Memo) : Prop :=
  ∀ (name : String) (p : Fin (text.size + 1)), s.memo.isStarted ⟨name, p.val⟩ = true →
    (⟨name, p.val⟩ : Spot) ∉ s.underWay → (m.judge name p : Verdict text) = s.memo.judge name p

theorem Reached.lastsIn_run (hg : g.Owned) (hr : g.rule? r.name = some r)
    (h : Reached g text limit r s) : s.LastsIn (g.run text limit r).cursor.memo :=
  fun _ _ hs hno => (Steps.lasts hg h.steps_run (h.tidy hg hr) hs hno).2.2.2

end

end Packrat
