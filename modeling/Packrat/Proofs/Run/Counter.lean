import Packrat.Proofs.Run.Allowance

/-!
# `Packrat/Proofs/Run/Counter.lean` — the depth as a counter

`resolve` is told how many levels are left, and the depth that a cursor carries stays what it was when
the run began. One may also keep the depth up to date: count it up when a reference begins a rule, let
the guard compare it with the limit, and count it down again however the run of the rule ends. `lookUp`
is one reference answered that way.

The two ways are one. A run never looks at the depth but through the levels that are left, so it does
the same at every depth (`Rule.run_deeper`); hence `follow` answers each reference as `lookUp` does, and
nothing else does so (`lookUp_eq_self_iff`).
-/

set_option autoImplicit false

namespace Packrat

variable {text : Text} {g : Grammar}

/-- The cursor with so many more references nested around it. -/
def Cursor.deeper (c : Cursor text) (n : Int) : Cursor text := { c with depth := c.depth + n }

namespace Cursor

@[simp] theorem pos_deeper (c : Cursor text) (n : Int) : (c.deeper n).pos = c.pos := rfl

@[simp] theorem memo_deeper (c : Cursor text) (n : Int) : (c.deeper n).memo = c.memo := rfl

@[simp] theorem spot_deeper (c : Cursor text) (n : Int) (name : String) :
    (c.deeper n).spot name = c.spot name := rfl

/-- No levels are left where the depth has come to the limit. -/
theorem levels_eq_zero_iff (c : Cursor text) : c.levels = 0 ↔ c.limit ≤ c.depth := by
  rw [levels]
  omega

theorem levels_deeper (c : Cursor text) : (c.deeper 1).levels = c.levels - 1 := by
  simp only [levels, deeper]
  omega

end Cursor

namespace Result

/-- The same end, reached so many levels deeper. -/
def deeper (n : Int) : Result text → Result text
  | matched c => matched (c.deeper n)
  | failed c => failed (c.deeper n)
  | stopped f c => stopped f (c.deeper n)

theorem deeper_deeper (a b : Int) (res : Result text) :
    (res.deeper a).deeper b = res.deeper (a + b) := by
  cases res <;> simp [deeper, Cursor.deeper, Int.add_assoc]

theorem deeper_zero (res : Result text) : res.deeper 0 = res := by
  cases res <;> simp [deeper, Cursor.deeper]

theorem matchedAt_deeper (c : Cursor text) (i : Int) (n : Int) :
    matchedAt (c.deeper n) i = (matchedAt c i).deeper n := by
  unfold matchedAt Cursor.moveTo
  cases Cursor.position? text i <;> rfl

end Result

/-- Answers a reference from the memo, or else by running the rule one level deeper; the level is given
back however that run ends. -/
def lookUp (g : Grammar) (f : Follow text) : Follow text := fun name c =>
  if c.memo.isMismatch (c.spot name) then .failed c
  else match c.memo.longest? (c.spot name) with
  | some i => .matchedAt c i
  | none =>
    if c.memo.isStarted (c.spot name) then .failed c
    else match g.rule? name with
    | none => .stopped (.unknownRule name) c
    | some r =>
      if c.limit ≤ c.depth then .stopped (.tooDeep name c.pos c.limit) c
      else (r.run f (c.deeper 1)).deeper (-1)

/-! ## A run does the same at every depth -/

/-- References are answered alike at every depth. -/
def Follow.Oblivious (f : Follow text) : Prop :=
  ∀ name c n, f name (c.deeper n) = (f name c).deeper n

section

variable {f : Follow text}

theorem Term.run_deeper (hf : f.Oblivious) (t : Term) (c : Cursor text) (n : Int) :
    t.run f (c.deeper n) = (t.run f c).deeper n := by
  cases t with
  | literal s =>
    rw [Term.run, Term.run, Cursor.pos_deeper]
    by_cases hs : text.startsAt s c.pos = true
    · rw [if_pos hs, if_pos hs]
      exact Result.matchedAt_deeper c _ n
    · rw [if_neg hs, if_neg hs]
      rfl
  | pattern r =>
    rw [Term.run, Term.run, Cursor.pos_deeper]
    cases r.matchEnd? text c.pos with
    | some i => exact Result.matchedAt_deeper c i n
    | none => rfl
  | reference name => exact hf name c n
  | foreignLiteral v => rfl
  | foreign v => rfl

theorem runTerms_deeper (hf : f.Oblivious) (n : Int) : ∀ (ts : List Term) (c : Cursor text),
    runTerms f ts (c.deeper n) = (runTerms f ts c).deeper n
  | [], c => rfl
  | t :: ts, c => by
    rw [runTerms, runTerms, Term.run_deeper hf]
    cases t.run f c with
    | matched d => exact runTerms_deeper hf n ts d
    | failed d => rfl
    | stopped fault d => rfl

theorem Alternative.run_deeper (hf : f.Oblivious) (a : Alternative) (c : Cursor text) (n : Int) :
    a.run f (c.deeper n) = (a.run f c).deeper n := by
  rw [Alternative.run, Alternative.run, runTerms_deeper hf]
  cases runTerms f a.terms c <;> rfl

/-- The same end of a round, reached so many levels deeper. -/
def Round.deeper (n : Int) : Round text → Round text
  | ended longest c => ended longest (c.deeper n)
  | stopped f c => stopped f (c.deeper n)

theorem runRound_deeper (hf : f.Oblivious) (start : Fin (text.size + 1)) (n : Int) :
    ∀ (as : List Alternative) (longest : Option (Fin (text.size + 1))) (c : Cursor text),
      runRound f start as longest (c.deeper n) = (runRound f start as longest c).deeper n
  | [], _, _ => rfl
  | a :: as, longest, c => by
    have ha : a.run f ((c.deeper n).backTo start) = (a.run f (c.backTo start)).deeper n :=
      Alternative.run_deeper hf a (c.backTo start) n
    rw [runRound, runRound, ha]
    cases a.run f (c.backTo start) with
    | matched d => exact runRound_deeper hf start n as _ d
    | failed d => exact runRound_deeper hf start n as _ d
    | stopped fault d => rfl

theorem grow_deeper (hf : f.Oblivious) (r : Rule) (start best : Fin (text.size + 1))
    (c : Cursor text) (n : Int) :
    grow f r start best (c.deeper n) = (grow f r start best c).deeper n := by
  have hround := runRound_deeper hf start n r.alternatives none
  induction best, c using grow.induct f r start with
  | case1 best c fault d hd =>
    have h := hround c
    rw [hd] at h
    rw [grow_of_stopped hd, grow_of_stopped h]
    rfl
  | case2 best c d hd =>
    have h := hround c
    rw [hd] at h
    rw [grow_of_none hd, grow_of_none h]
    rfl
  | case3 best c longest d hd hlt ih =>
    have h := hround c
    rw [hd] at h
    rw [grow_of_lt hd hlt, grow_of_lt h hlt]
    exact ih
  | case4 best c longest d hd hlt =>
    have h := hround c
    rw [hd] at h
    rw [grow_of_not_lt hd hlt, grow_of_not_lt h hlt]
    rfl

theorem Rule.run_deeper (hf : f.Oblivious) (r : Rule) (c : Cursor text) (n : Int) :
    r.run f (c.deeper n) = (r.run f c).deeper n :=
  grow_deeper hf r c.pos c.pos (c.saveStarted (c.spot r.name)) n

end

theorem resolve_oblivious (g : Grammar) : ∀ n, Follow.Oblivious (resolve g n : Follow text) := by
  intro n
  induction n using Nat.strongRecOn with
  | ind n ih =>
    intro name c k
    rw [resolve.eq_def, resolve.eq_def]
    dsimp only
    rw [Cursor.memo_deeper, Cursor.spot_deeper]
    cases c.memo.isMismatch (c.spot name) with
    | true => rfl
    | false =>
      cases c.memo.longest? (c.spot name) with
      | some i => exact Result.matchedAt_deeper c i k
      | none =>
        cases c.memo.isStarted (c.spot name) with
        | true => rfl
        | false =>
          cases g.rule? name with
          | none => rfl
          | some r =>
            cases n with
            | zero => rfl
            | succ n => exact Rule.run_deeper (ih n (by omega)) r c k

/-! ## The counter is kept -/

/-- References are followed as the counter says. -/
theorem lookUp_follow (g : Grammar) : lookUp g (follow g : Follow text) = follow g := by
  funext name c
  rw [follow, resolve.eq_def, lookUp]
  dsimp only
  cases c.memo.isMismatch (c.spot name) with
  | true => rfl
  | false =>
    cases c.memo.longest? (c.spot name) with
    | some i => rfl
    | none =>
      cases c.memo.isStarted (c.spot name) with
      | true => rfl
      | false =>
        cases g.rule? name with
        | none => rfl
        | some r =>
          cases hn : c.levels with
          | zero => exact if_pos ((Cursor.levels_eq_zero_iff c).1 hn)
          | succ k =>
            have hroom : ¬ c.limit ≤ c.depth := fun h =>
              absurd ((Cursor.levels_eq_zero_iff c).2 h) (by omega)
            have hk : (c.deeper 1).levels = k := by rw [Cursor.levels_deeper, hn, Nat.add_sub_cancel]
            simp only [Bool.false_eq_true, if_false, if_neg hroom]
            rw [Rule.run_follow, hk, Rule.run_deeper (resolve_oblivious g k), Result.deeper_deeper]
            exact Result.deeper_zero _

theorem follow_steady (g : Grammar) : Follow.Steady (follow g : Follow text) :=
  fun name c => resolve_steady g c.levels name c

/-- What a reference comes to depends on what those one level deeper come to, if there is a level. -/
theorem lookUp_congr {f f' : Follow text} (hf : f'.Steady) {name : String} {c : Cursor text}
    (h : ¬ c.limit ≤ c.depth → ∀ name d, d.allowance = (c.deeper 1).allowance →
      f name d = f' name d) : lookUp g f name c = lookUp g f' name c := by
  unfold lookUp
  cases c.memo.isMismatch (c.spot name) with
  | true => rfl
  | false =>
    cases c.memo.longest? (c.spot name) with
    | some i => rfl
    | none =>
      cases c.memo.isStarted (c.spot name) with
      | true => rfl
      | false =>
        cases g.rule? name with
        | none => rfl
        | some r =>
          by_cases hroom : c.limit ≤ c.depth
          · simp only [if_pos hroom]
          · simp only [if_neg hroom]
            rw [Rule.run_congr hf (h hroom) r (c.deeper 1) rfl]

/-- The counter leaves one way to follow references, and `follow` is it. -/
theorem lookUp_eq_self_iff {f : Follow text} : lookUp g f = f ↔ f = follow g := by
  constructor
  · intro hf
    have hall : ∀ (n : Nat) (name : String) (c : Cursor text), c.levels = n →
        f name c = follow g name c := by
      intro n
      induction n using Nat.strongRecOn with
      | ind n ih =>
        intro name c hn
        rw [← hf, ← lookUp_follow]
        refine lookUp_congr (follow_steady g) fun hroom name d hd => ?_
        have hpos : c.levels ≠ 0 := fun h => hroom ((Cursor.levels_eq_zero_iff c).1 h)
        refine ih d.levels ?_ name d rfl
        rw [Cursor.levels_eq_of_allowance hd, Cursor.levels_deeper]
        omega
    exact funext fun name => funext fun c => hall _ name c rfl
  · rintro rfl
    exact lookUp_follow g

end Packrat
