import Mathlib.Logic.Relation
import Packrat.Proofs.Memo
import Packrat.Proofs.Run.Allowance

/-!
# `Packrat/Proofs/Run/Machine.lean` — a run, one step at a time

The run of a rule is a function from cursors to results, and what happens on the way to the result is
not to be seen in it. This file takes the run apart: a `State` is what is done next, with the cursor
and with a stack of the things that wait for it, and `State.step` makes one move. The states that a
run comes through are those that `Reached` holds of.

`reached_run` ties the two together: the machine ends, and it ends with the result of the run. A step
only ever adds to the memo, so whatever is reached is part of what the memo holds in the end, also
where the run is stopped (`Reached.extends_run`).
-/

set_option autoImplicit false

namespace Packrat

variable {text : Text} {g : Grammar}

/-! ## The machine -/

/-- What is done next. -/
inductive Task (text : Text) where
  | term (t : Term)
  | terms (ts : List Term)
  | alternative (a : Alternative)
  /-- The round of `r` goes on with the alternatives `rest`. -/
  | round (r : Rule) (start best : Fin (text.size + 1)) (rest : List Alternative)
      (longest : Option (Fin (text.size + 1)))
  | rule (r : Rule)
  | reference (name : String)

/-- What waits for a result. -/
inductive Frame (text : Text) where
  /-- The terms behind the one that is matched. -/
  | terms (ts : List Term)
  /-- The alternative whose terms are matched, and where it began. -/
  | alternative (a : Alternative) (start : Fin (text.size + 1))
  /-- The round behind the alternative that is run. -/
  | round (r : Rule) (start best : Fin (text.size + 1)) (rest : List Alternative)
      (longest : Option (Fin (text.size + 1)))
  /-- The reference whose rule is run. -/
  | reference

/-- How many references are under way. -/
def nesting : List (Frame text) → Nat
  | [] => 0
  | .reference :: K => nesting K + 1
  | _ :: K => nesting K

/-- A moment of a run: a task is taken up, or a result is handed to what waits for it. -/
inductive State (text : Text) where
  | perform (t : Task text) (c : Cursor text) (K : List (Frame text))
  | deliver (res : Result text) (K : List (Frame text))

/-- The first move of a task. -/
def Task.begin (g : Grammar) (c : Cursor text) (K : List (Frame text)) : Task text → State text
  | .term (.literal s) =>
    .deliver (if text.startsAt s c.pos then .matchedAt c (c.pos + s.length) else .failed c) K
  | .term (.pattern r) =>
    match r.matchEnd? text c.pos with
    | some i => .deliver (.matchedAt c i) K
    | none => .deliver (.failed c) K
  | .term (.reference name) => .perform (.reference name) c K
  | .term (.foreignLiteral v) => .deliver (.stopped (.foreignTerm v) c) K
  | .term (.foreign v) => .deliver (.stopped (.foreignTerm v) c) K
  | .terms [] => .deliver (.matched c) K
  | .terms (t :: ts) => .perform (.term t) c (.terms ts :: K)
  | .alternative a => .perform (.terms a.terms) c (.alternative a c.pos :: K)
  | .round r start best (a :: rest) longest =>
    .perform (.alternative a) (c.backTo start) (.round r start best rest longest :: K)
  | .round r start _ [] none =>
    .deliver (.failed ((c.saveMismatch ⟨r.name, start.val⟩).backTo start)) K
  | .round r start best [] (some longest) =>
    if best < longest then .perform (.round r start longest r.alternatives none) c K
    else .deliver (.matched (c.backTo best)) K
  | .rule r => .perform (.round r c.pos c.pos r.alternatives none) (c.saveStarted (c.spot r.name)) K
  | .reference name =>
    if c.memo.isMismatch (c.spot name) then .deliver (.failed c) K
    else match c.memo.longest? (c.spot name) with
    | some i => .deliver (.matchedAt c i) K
    | none =>
      if c.memo.isStarted (c.spot name) then .deliver (.failed c) K
      else match g.rule? name with
      | none => .deliver (.stopped (.unknownRule name) c) K
      | some r =>
        if c.limit ≤ c.depth + nesting K then .deliver (.stopped (.tooDeep name c.pos c.limit) c) K
        else .perform (.rule r) c (.reference :: K)

/-- What a result leads to. A fault is handed on to the bottom of the stack. -/
def Frame.resume (K : List (Frame text)) : Frame text → Result text → State text
  | .terms ts, .matched d => .perform (.terms ts) d K
  | .alternative a p, .matched d =>
    .deliver (.matched (d.saveMatch ⟨a.owner, p.val, d.pos.val⟩)) K
  | .alternative _ p, .failed d => .deliver (.failed (d.backTo p)) K
  | .round r start best rest longest, .matched d =>
    .perform (.round r start best rest (furthest start longest d.pos)) d K
  | .round r start best rest longest, .failed d => .perform (.round r start best rest longest) d K
  | _, res => .deliver res K

namespace State

/-- One move; there is none once a result has nothing to go to. -/
def step (g : Grammar) : State text → Option (State text)
  | perform t c K => some (t.begin g c K)
  | deliver _ [] => none
  | deliver res (k :: K) => some (k.resume K res)

/-- The memo as it is at the moment. -/
def memo : State text → Memo
  | perform _ c _ => c.memo
  | deliver res _ => res.cursor.memo

end State

/-- Any number of moves. -/
abbrev Steps (g : Grammar) : State text → State text → Prop :=
  Relation.ReflTransGen fun s t => s.step g = some t

/-- The states that the run of a rule from the beginning of the text comes through. -/
def Reached (g : Grammar) (text : Text) (limit : Int) (r : Rule) (s : State text) : Prop :=
  Steps g (.perform (.rule r) (.first text limit) []) s

/-! ## The memo along the way -/

/-- What a single move may do to the memo: nothing, or one of the three writes. -/
inductive Memo.Written (m : Memo) : Memo → Prop
  | nothing : Written m m
  | aMatch {x : Match} (hx : 0 ≤ x.stop) : Written m (m.saveMatch x)
  | aMismatch (s : Spot) : Written m (m.saveMismatch s)
  | aStart (s : Spot) : Written m (m.saveStarted s)

theorem Memo.Written.extends {m n : Memo} (h : m.Written n) : m.Extends n := by
  cases h with
  | nothing => exact .refl m
  | aMatch _ => exact .saveMatch m _
  | aMismatch s => exact .saveMismatch m s
  | aStart s => exact .saveStarted m s

theorem Memo.Written.coherent {m n : Memo} (h : m.Written n) (hm : m.Coherent) : n.Coherent := by
  cases h with
  | nothing => exact hm
  | aMatch hx => exact hm.saveMatch hx
  | aMismatch s => exact hm.saveMismatch s
  | aStart s => exact hm.saveStarted s

theorem Result.memo_matchedAt (c : Cursor text) (i : Int) :
    (Result.matchedAt c i).cursor.memo = c.memo := by
  rcases Result.matchedAt_cases c i with ⟨p, -, h⟩ | ⟨f, h⟩ <;> rw [h] <;> rfl

theorem Task.written_begin (t : Task text) (c : Cursor text) (K : List (Frame text)) :
    c.memo.Written (t.begin g c K).memo := by
  have hmove : ∀ i : Int, c.memo.Written (Result.matchedAt c i).cursor.memo := by
    intro i
    rw [Result.memo_matchedAt]
    exact .nothing
  cases t with
  | term t =>
    cases t with
    | literal s =>
      simp only [Task.begin, State.memo]
      split
      · exact hmove _
      · exact .nothing
    | pattern r =>
      simp only [Task.begin]
      split
      · exact hmove _
      · exact .nothing
    | reference name => exact .nothing
    | foreignLiteral v => exact .nothing
    | foreign v => exact .nothing
  | terms ts => cases ts <;> exact .nothing
  | alternative a => exact .nothing
  | round r start best rest longest =>
    cases rest with
    | cons a rest => exact .nothing
    | nil =>
      cases longest with
      | none => exact .aMismatch _
      | some longest =>
        simp only [Task.begin]
        split <;> exact .nothing
  | rule r => exact .aStart _
  | reference name =>
    simp only [Task.begin]
    split
    · exact .nothing
    · split
      · exact hmove _
      · split
        · exact .nothing
        · split
          · exact .nothing
          · split <;> exact .nothing

theorem Frame.written_resume (k : Frame text) (K : List (Frame text)) (res : Result text) :
    res.cursor.memo.Written (k.resume K res).memo := by
  cases k <;> cases res <;> first | exact .nothing | exact .aMatch (Int.natCast_nonneg _)

theorem State.written_step {s t : State text} (h : s.step g = some t) : s.memo.Written t.memo := by
  match s, h with
  | .perform task c K, h =>
    cases h
    exact Task.written_begin task c K
  | .deliver res (k :: K), h =>
    cases h
    exact Frame.written_resume k K res
  | .deliver _ [], h => exact absurd h (by simp [State.step])

theorem Steps.extends {s t : State text} (h : Steps g s t) : s.memo.Extends t.memo := by
  induction h with
  | refl => exact .refl _
  | tail _ hstep ih => exact ih.trans (State.written_step hstep).extends

theorem Steps.coherent {s t : State text} (h : Steps g s t) (hs : s.memo.Coherent) :
    t.memo.Coherent := by
  induction h with
  | refl => exact hs
  | tail _ hstep ih => exact (State.written_step hstep).coherent ih

/-! ## The machine performs the run

Each function of the run is performed by the task of its name, on top of any stack, as long as the
stack leaves it as many levels as the function is given. -/

/-- How many references may still be nested on top of the stack. -/
def room (c : Cursor text) (K : List (Frame text)) : Nat := (c.limit - (c.depth + nesting K)).toNat

theorem room_of_allowance {c d : Cursor text} (h : d.allowance = c.allowance)
    (K : List (Frame text)) : room d K = room c K := by
  obtain ⟨hl, hd⟩ := Prod.mk.inj h
  rw [room, room, hl, hd]

theorem Steps.perform {s : State text} (t : Task text) (c : Cursor text) (K : List (Frame text))
    (h : Steps g (t.begin g c K) s) : Steps g (.perform t c K) s := .head rfl h

theorem Steps.resume {s : State text} (k : Frame text) (res : Result text) (K : List (Frame text))
    (h : Steps g (k.resume K res) s) : Steps g (.deliver res (k :: K)) s := .head rfl h

/-- With `n` levels left, the machine answers references as `f` does. -/
def Follow.PerformedAt (g : Grammar) (n : Nat) (f : Follow text) : Prop :=
  ∀ (name : String) (c : Cursor text) (K : List (Frame text)), room c K = n →
    Steps g (.perform (.reference name) c K) (.deliver (f name c) K)

section

variable {f : Follow text} {n : Nat}

theorem Term.performed (hf : f.PerformedAt g n) (t : Term) (c : Cursor text)
    (K : List (Frame text)) (hc : room c K = n) :
    Steps g (.perform (.term t) c K) (.deliver (t.run f c) K) := by
  apply Steps.perform
  cases t with
  | literal s => exact .refl
  | pattern r =>
    rw [Term.run, Task.begin]
    cases r.matchEnd? text c.pos <;> exact .refl
  | reference name => exact hf name c K hc
  | foreignLiteral v => exact .refl
  | foreign v => exact .refl

theorem runTerms_performed (hf : f.PerformedAt g n) (hs : f.Steady) : ∀ (ts : List Term)
    (c : Cursor text) (K : List (Frame text)), room c K = n →
      Steps g (.perform (.terms ts) c K) (.deliver (runTerms f ts c) K)
  | [], c, K, _ => Steps.perform _ _ _ .refl
  | t :: ts, c, K, hc => by
    have ha := Term.allowance_run hs t c
    apply Steps.perform
    refine (Term.performed hf t c (.terms ts :: K) hc).trans ?_
    apply Steps.resume
    rw [runTerms]
    cases hres : t.run f c with
    | matched d =>
      rw [hres] at ha
      exact runTerms_performed hf hs ts d K ((room_of_allowance ha K).trans hc)
    | failed d => exact .refl
    | stopped fault d => exact .refl

theorem Alternative.performed (hf : f.PerformedAt g n) (hs : f.Steady) (a : Alternative)
    (c : Cursor text) (K : List (Frame text)) (hc : room c K = n) :
    Steps g (.perform (.alternative a) c K) (.deliver (a.run f c) K) := by
  apply Steps.perform
  refine (runTerms_performed hf hs a.terms c (.alternative a c.pos :: K) hc).trans ?_
  apply Steps.resume
  rw [Alternative.run]
  cases runTerms f a.terms c <;> exact .refl

/-- A round and what comes behind it are one stretch of the machine: it goes on as it would behind
the last alternative. -/
theorem runRound_performed (hf : f.PerformedAt g n) (hs : f.Steady) (r : Rule)
    (start best : Fin (text.size + 1)) (K : List (Frame text)) : ∀ (as : List Alternative)
    (longest : Option (Fin (text.size + 1))) (c : Cursor text), room c K = n →
      Steps g (.perform (.round r start best as longest) c K)
        (match runRound f start as longest c with
        | .ended longest' d => .perform (.round r start best [] longest') d K
        | .stopped fault d => .deliver (.stopped fault d) K)
  | [], _, _, _ => .refl
  | a :: as, longest, c, hc => by
    have ha := Alternative.allowance_run hs a (c.backTo start)
    apply Steps.perform
    refine (Alternative.performed hf hs a (c.backTo start)
      (.round r start best as longest :: K) hc).trans ?_
    apply Steps.resume
    rw [runRound]
    cases hres : a.run f (c.backTo start) with
    | matched d =>
      rw [hres] at ha
      exact runRound_performed hf hs r start best K as _ d ((room_of_allowance ha K).trans hc)
    | failed d =>
      rw [hres] at ha
      exact runRound_performed hf hs r start best K as _ d ((room_of_allowance ha K).trans hc)
    | stopped fault d => exact .refl

theorem grow_performed (hf : f.PerformedAt g n) (hs : f.Steady) (r : Rule)
    (start best : Fin (text.size + 1)) (c : Cursor text) (K : List (Frame text))
    (hc : room c K = n) :
    Steps g (.perform (.round r start best r.alternatives none) c K)
      (.deliver (grow f r start best c) K) := by
  have hround := fun best c => runRound_performed hf hs r start best K r.alternatives none c
  induction best, c using grow.induct f r start with
  | case1 best c fault d hd =>
    have h := hround best c hc
    rw [hd] at h
    rw [grow_of_stopped hd]
    exact h
  | case2 best c d hd =>
    have h := hround best c hc
    rw [hd] at h
    rw [grow_of_none hd]
    exact h.trans (Steps.perform _ _ _ .refl)
  | case3 best c longest d hd hlt ih =>
    have h := hround best c hc
    have ha := runRound_allowance hs start r.alternatives none c
    rw [hd] at h ha
    rw [grow_of_lt hd hlt]
    refine h.trans ?_
    apply Steps.perform
    rw [Task.begin, if_pos hlt]
    exact ih ((room_of_allowance ha K).trans hc)
  | case4 best c longest d hd hlt =>
    have h := hround best c hc
    rw [hd] at h
    rw [grow_of_not_lt hd hlt]
    refine h.trans ?_
    apply Steps.perform
    rw [Task.begin, if_neg hlt]

theorem Rule.performed (hf : f.PerformedAt g n) (hs : f.Steady) (r : Rule) (c : Cursor text)
    (K : List (Frame text)) (hc : room c K = n) :
    Steps g (.perform (.rule r) c K) (.deliver (r.run f c) K) :=
  Steps.perform _ _ _ (grow_performed hf hs r c.pos c.pos (c.saveStarted (c.spot r.name)) K hc)

end

theorem resolve_performed (g : Grammar) : ∀ n, Follow.PerformedAt g n (resolve g n : Follow text) := by
  intro n
  induction n using Nat.strongRecOn with
  | ind n ih =>
    intro name c K hc
    apply Steps.perform
    have hres := resolution g n name c
    generalize resolve g n name c = res at hres
    rw [Task.begin]
    cases hres with
    | mismatch hm => rw [if_pos hm]
    | recorded hm hl => simp only [hm, hl, Bool.false_eq_true, if_false, Relation.ReflTransGen.refl]
    | underWay hm hl hs =>
      simp only [hm, hl, hs, Bool.false_eq_true, if_false, if_true, Relation.ReflTransGen.refl]
    | unknown hm hl hs hr =>
      simp only [hm, hl, hs, hr, Bool.false_eq_true, if_false, Relation.ReflTransGen.refl]
    | tooDeep hm hl hs hr hn =>
      have hdeep : c.limit ≤ c.depth + nesting K := by
        rw [room] at hc
        omega
      simp only [hm, hl, hs, hr, hdeep, Bool.false_eq_true, if_false, if_true,
        Relation.ReflTransGen.refl]
    | @fresh r k hm hl hs hr hn =>
      have hroom : ¬ c.limit ≤ c.depth + nesting K := by
        rw [room] at hc
        omega
      -- on top of the reference there is room for one level less
      have hk : room c (.reference :: K) = k := by
        rw [room] at hc ⊢
        rw [nesting]
        omega
      simp only [hm, hl, hs, hr, hroom, Bool.false_eq_true, if_false]
      exact (Rule.performed (ih k (by omega)) (resolve_steady g k) r c _ hk).trans
        (Steps.resume _ _ _ .refl)

/-- The machine ends with the result of the run. -/
theorem reached_run (g : Grammar) (text : Text) (limit : Int) (r : Rule) :
    Reached g text limit r (.deliver (g.run text limit r) []) := by
  rw [Grammar.run_eq_resolve]
  exact Rule.performed (resolve_performed g _) (resolve_steady g _) r _ []
    (by simp [room, nesting, Cursor.first])

/-! ## What is reached on the way -/

/-- Every state that is reached comes before the end. -/
theorem Reached.steps_run {limit : Int} {r : Rule} {s : State text}
    (h : Reached g text limit r s) : Steps g s (.deliver (g.run text limit r) []) := by
  -- a state has one successor, so two runs from the same beginning lie on one line
  have hunique : Relator.RightUnique fun s t : State text => s.step g = some t :=
    fun _ _ _ hb hc => Option.some.inj (hb.symm.trans hc)
  rcases Relation.ReflTransGen.total_of_right_unique hunique h (reached_run g text limit r) with
    hs | hs
  · exact hs
  · -- there is no move behind the end
    rcases Relation.ReflTransGen.cases_head hs with he | ⟨t, ht, -⟩
    · exact he ▸ .refl
    · exact absurd ht (by simp [State.step])

/-- What the memo holds on the way it holds in the end. -/
theorem Reached.extends_run {limit : Int} {r : Rule} {s : State text}
    (h : Reached g text limit r s) : s.memo.Extends (g.run text limit r).cursor.memo :=
  Steps.extends h.steps_run

theorem Reached.coherent {limit : Int} {r : Rule} {s : State text}
    (h : Reached g text limit r s) : s.memo.Coherent :=
  Steps.coherent h Memo.coherent_empty

end Packrat
