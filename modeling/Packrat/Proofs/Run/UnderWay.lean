import Packrat.Proofs.Grammar
import Packrat.Proofs.Run.Machine

/-!
# `Packrat/Proofs/Run/UnderWay.lean` — the rules under way at a moment of a run

The stack of a run holds one open round for every rule under way, and between two of them the reference
through which the inner one was reached. `Stacked` says that the stack is built like this, and
`State.Fits` that what is done next goes with it.

All bounds on a run come from two facts. A rule is begun at a spot where it was never begun before, so
the spots under way differ from each other and there are not more of them than spots
(`State.Orderly`). And a rule goes round again only with a greater end. `Moves` says what a move does to
the open rounds; the bounds are read off it, and the machine is not opened again for them.
-/

set_option autoImplicit false

namespace Packrat

variable {text : Text} {g : Grammar}

/-! ## What is on the stack -/

/-- How a stack is built. The flag tells whether its top is inside a round; it is not where a rule may
begin, at the bottom and behind a reference. -/
inductive Stacked (g : Grammar) : Bool → List (Frame text) → Prop
  | nil : Stacked g false []
  | reference {K : List (Frame text)} (h : Stacked g true K) : Stacked g false (.reference :: K)
  | terms {ts : List Term} {K : List (Frame text)} (hts : ∀ t ∈ ts, g.Uses t)
      (h : Stacked g true K) : Stacked g true (.terms ts :: K)
  | alternative {a : Alternative} {p : Fin (text.size + 1)} {K : List (Frame text)}
      (h : Stacked g true K) : Stacked g true (.alternative a p :: K)
  | round {r : Rule} {start best : Fin (text.size + 1)} {rest : List Alternative}
      {longest : Option (Fin (text.size + 1))} {K : List (Frame text)}
      (hr : g.rule? r.name = some r) (hrest : rest <:+ r.alternatives)
      (hlt : rest.length < r.alternatives.length) (h : Stacked g false K) :
      Stacked g true (.round r start best rest longest :: K)

/-- What is done next belongs to the grammar and goes with the stack. A rule that is taken up was not
begun where it is taken up. -/
def State.Fits (g : Grammar) : State text → Prop
  | .perform (.term t) _ K => g.Uses t ∧ Stacked g true K
  | .perform (.terms ts) _ K => (∀ t ∈ ts, g.Uses t) ∧ Stacked g true K
  | .perform (.alternative a) _ K => (∀ t ∈ a.terms, g.Uses t) ∧ Stacked g true K
  | .perform (.round r _ _ rest _) _ K =>
    g.rule? r.name = some r ∧ rest <:+ r.alternatives ∧ Stacked g false K
  | .perform (.rule r) c K =>
    g.rule? r.name = some r ∧ c.memo.isStarted (c.spot r.name) = false ∧ Stacked g false K
  | .perform (.reference name) _ K => g.Uses (.reference name) ∧ Stacked g true K
  | .deliver _ K => ∃ inside, Stacked g inside K

/-- Where a reference leads: to an answer on the spot, which may be a fault, or to a rule that was never
begun here, as long as there is room for one more. -/
inductive Referred (g : Grammar) (name : String) (c : Cursor text) (K : List (Frame text)) :
    State text → Prop
  | answered {res : Result text} (memo : res.cursor.memo = c.memo)
      (allowance : res.cursor.allowance = c.allowance) : Referred g name c K (.deliver res K)
  | followed {r : Rule} (hr : g.rule? name = some r)
      (new : c.memo.isStarted (c.spot name) = false) (room : c.depth + nesting K < c.limit) :
      Referred g name c K (.perform (.rule r) c (.reference :: K))

theorem Task.referred (g : Grammar) (name : String) (c : Cursor text) (K : List (Frame text)) :
    Referred g name c K ((Task.reference name).begin g c K) := by
  rw [Task.begin]
  split
  · exact .answered rfl rfl
  split
  · exact .answered (Result.memo_matchedAt c _) (Result.allowance_matchedAt c _)
  split
  · exact .answered rfl rfl
  rename_i hs
  split
  · exact .answered rfl rfl
  rename_i r hr
  split
  · exact .answered rfl rfl
  rename_i hroom
  exact .followed hr (Bool.eq_false_iff.2 hs) (Int.not_le.1 hroom)

theorem Task.fits_begin {t : Task text} {c : Cursor text} {K : List (Frame text)}
    (h : (State.perform t c K).Fits g) : (t.begin g c K).Fits g := by
  cases t with
  | term t =>
    cases t with
    | literal s => exact ⟨_, h.2⟩
    | pattern r =>
      rw [Task.begin]
      split <;> exact ⟨_, h.2⟩
    | reference name => exact h
    | foreignLiteral v => exact ⟨_, h.2⟩
    | foreign v => exact ⟨_, h.2⟩
  | terms ts =>
    cases ts with
    | nil => exact ⟨_, h.2⟩
    | cons t ts =>
      exact ⟨h.1 t List.mem_cons_self, .terms (fun u hu => h.1 u (List.mem_cons_of_mem t hu)) h.2⟩
  | alternative a => exact ⟨h.1, .alternative h.2⟩
  | round r start best rest longest =>
    obtain ⟨hr, hrest, hK⟩ := h
    cases rest with
    | cons a rest =>
      have hlt : rest.length < r.alternatives.length := hrest.length_le
      exact ⟨Grammar.uses_of_alternative hr (hrest.subset List.mem_cons_self),
        .round hr ((List.suffix_cons a rest).trans hrest) hlt hK⟩
    | nil =>
      cases longest with
      | none => exact ⟨_, hK⟩
      | some longest =>
        rw [Task.begin]
        split
        · exact ⟨hr, List.suffix_refl _, hK⟩
        · exact ⟨_, hK⟩
  | rule r => exact ⟨h.1, List.suffix_refl _, h.2.2⟩
  | reference name =>
    obtain ⟨-, hK⟩ := h
    have hlead := Task.referred g name c K
    generalize (Task.reference name).begin g c K = s at hlead ⊢
    cases hlead with
    | answered _ _ => exact ⟨_, hK⟩
    | followed hr hs _ =>
      have hname := Grammar.name_of_rule? hr
      subst hname
      exact ⟨hr, hs, .reference hK⟩

theorem Frame.fits_resume {k : Frame text} {K : List (Frame text)} {inside : Bool}
    (h : Stacked g inside (k :: K)) (res : Result text) : (k.resume K res).Fits g := by
  cases h with
  | reference hK => cases res <;> exact ⟨_, hK⟩
  | terms hts hK =>
    cases res with
    | matched d => exact ⟨hts, hK⟩
    | failed d => exact ⟨_, hK⟩
    | stopped f d => exact ⟨_, hK⟩
  | alternative hK => cases res <;> exact ⟨_, hK⟩
  | round hr hrest hlt hK =>
    cases res with
    | matched d => exact ⟨hr, hrest, hK⟩
    | failed d => exact ⟨hr, hrest, hK⟩
    | stopped f d => exact ⟨_, hK⟩

theorem State.Fits.step {s s' : State text} (h : s.Fits g) (hstep : s.step g = some s') :
    s'.Fits g := by
  match s, hstep with
  | .perform t c K, hstep =>
    cases hstep
    exact Task.fits_begin h
  | .deliver res (k :: K), hstep =>
    cases hstep
    obtain ⟨inside, hK⟩ := h
    exact Frame.fits_resume hK res
  | .deliver _ [], hstep => exact absurd hstep (by simp [State.step])

/-! ## Open rounds -/

/-- The rounds that wait on a stack: the spot of the rule and its best end so far. -/
def openRounds : List (Frame text) → List (Spot × Fin (text.size + 1))
  | [] => []
  | .round r start best _ _ :: K => (⟨r.name, start.val⟩, best) :: openRounds K
  | .terms _ :: K => openRounds K
  | .alternative _ _ :: K => openRounds K
  | .reference :: K => openRounds K

namespace State

/-- The rounds that are open at a moment, that of the innermost rule first. -/
def rounds : State text → List (Spot × Fin (text.size + 1))
  | perform (.round r start best _ _) _ K => (⟨r.name, start.val⟩, best) :: openRounds K
  | perform _ _ K => openRounds K
  | deliver _ K => openRounds K

/-- How many of the rules under way were begun by a reference. -/
def nested : State text → Nat
  | perform _ _ K => nesting K
  | deliver _ K => nesting K

/-- A rule is taken up at the spot. -/
def enters (t : Spot) : State text → Bool
  | perform (.rule r) c _ => c.spot r.name == t
  | _ => false

/-- A round of the rule at the spot begins: all the alternatives are still to be run. -/
def beginsRound (t : Spot) : State text → Bool
  | perform (.round r start _ rest _) _ _ =>
    rest.length == r.alternatives.length && (⟨r.name, start.val⟩ : Spot) == t
  | _ => false

end State

/-- What a move does to the rules under way. -/
inductive Moves : State text → State text → Prop
  /-- The open rounds stay as they are. -/
  | stays {s s' : State text} (rounds : s'.rounds = s.rounds)
      (started : ∀ t, s'.memo.isStarted t = s.memo.isStarted t) (nested : s'.nested ≤ s.nested)
      (enters : ∀ t, s.enters t = false) (begins : ∀ t, s'.beginsRound t = false) : Moves s s'
  /-- A reference leads to a rule that was not begun where the cursor stands, as long as there is
  room for one more. -/
  | follows {r : Rule} {c : Cursor text} {K : List (Frame text)}
      (new : c.memo.isStarted (c.spot r.name) = false) (room : c.depth + nesting K < c.limit) :
      Moves (.perform (.reference r.name) c K) (.perform (.rule r) c (.reference :: K))
  /-- A rule begins its first round. -/
  | opens {r : Rule} {c : Cursor text} {K : List (Frame text)} :
      Moves (.perform (.rule r) c K)
        (.perform (.round r c.pos c.pos r.alternatives none) (c.saveStarted (c.spot r.name)) K)
  /-- A round that went further is followed by another. -/
  | grows {r : Rule} {start best longest : Fin (text.size + 1)} {c : Cursor text}
      {K : List (Frame text)} (hlt : best < longest) :
      Moves (.perform (.round r start best [] (some longest)) c K)
        (.perform (.round r start longest r.alternatives none) c K)
  /-- The innermost round is over, and its rule is done with. -/
  | closes {s s' : State text} {x : Spot × Fin (text.size + 1)} (rounds : s.rounds = x :: s'.rounds)
      (started : ∀ t, s'.memo.isStarted t = s.memo.isStarted t) (nested : s'.nested = s.nested)
      (enters : ∀ t, s.enters t = false) (begins : ∀ t, s'.beginsRound t = false) : Moves s s'

/-- A task inside a round that is answered on the spot. -/
theorem Moves.delivers {s : State text} {res : Result text} {K : List (Frame text)}
    (hr : openRounds K = s.rounds) (hm : res.cursor.memo = s.memo) (hn : nesting K = s.nested)
    (he : ∀ t, s.enters t = false) : Moves s (.deliver res K) :=
  .stays hr (fun t => congrArg (Memo.isStarted · t) hm) (Nat.le_of_eq hn) he (fun _ => rfl)

theorem Task.moves_begin (t : Task text) (c : Cursor text) (K : List (Frame text)) :
    Moves (.perform t c K) (t.begin g c K) := by
  have hmove := Result.memo_matchedAt c
  cases t with
  | term t =>
    cases t with
    | literal s =>
      rw [Task.begin]
      refine .delivers rfl ?_ rfl fun _ => rfl
      split
      · exact hmove _
      · rfl
    | pattern r =>
      rw [Task.begin]
      split
      · exact .delivers rfl (hmove _) rfl fun _ => rfl
      · exact .delivers rfl rfl rfl fun _ => rfl
    | reference name => exact .stays rfl (fun _ => rfl) (Nat.le_refl _) (fun _ => rfl) fun _ => rfl
    | foreignLiteral v => exact .delivers rfl rfl rfl fun _ => rfl
    | foreign v => exact .delivers rfl rfl rfl fun _ => rfl
  | terms ts =>
    cases ts with
    | nil => exact .delivers rfl rfl rfl fun _ => rfl
    | cons t ts => exact .stays rfl (fun _ => rfl) (Nat.le_refl _) (fun _ => rfl) fun _ => rfl
  | alternative a => exact .stays rfl (fun _ => rfl) (Nat.le_refl _) (fun _ => rfl) fun _ => rfl
  | round r start best rest longest =>
    cases rest with
    | cons a rest => exact .stays rfl (fun _ => rfl) (Nat.le_refl _) (fun _ => rfl) fun _ => rfl
    | nil =>
      cases longest with
      | none => exact .closes rfl (fun _ => rfl) rfl (fun _ => rfl) fun _ => rfl
      | some longest =>
        rw [Task.begin]
        split
        · rename_i hlt
          exact .grows hlt
        · exact .closes rfl (fun _ => rfl) rfl (fun _ => rfl) fun _ => rfl
  | rule r => exact .opens
  | reference name =>
    have hlead := Task.referred g name c K
    generalize (Task.reference name).begin g c K = s at hlead ⊢
    cases hlead with
    | answered hm _ => exact .delivers rfl hm rfl fun _ => rfl
    | followed hr hs hroom =>
      have hname := Grammar.name_of_rule? hr
      subst hname
      exact .follows hs hroom

/-- A round that waits has run one alternative at least, so no round begins when it is taken up
again. -/
theorem Frame.moves_resume {k : Frame text} {K : List (Frame text)} {inside : Bool}
    (h : Stacked g inside (k :: K)) (res : Result text) :
    Moves (.deliver res (k :: K)) (k.resume K res) := by
  cases h with
  | reference hK =>
    cases res <;> exact .stays rfl (fun _ => rfl) (Nat.le_succ _) (fun _ => rfl) fun _ => rfl
  | terms hts hK =>
    cases res <;> exact .stays rfl (fun _ => rfl) (Nat.le_refl _) (fun _ => rfl) fun _ => rfl
  | @alternative a p K hK =>
    cases res with
    | matched d =>
      exact .stays rfl (fun t => Memo.isStarted_saveMatch _ _ t) (Nat.le_refl _) (fun _ => rfl)
        fun _ => rfl
    | failed d => exact .stays rfl (fun _ => rfl) (Nat.le_refl _) (fun _ => rfl) fun _ => rfl
    | stopped f d => exact .stays rfl (fun _ => rfl) (Nat.le_refl _) (fun _ => rfl) fun _ => rfl
  | @round r start best rest longest K hr hrest hlt hK =>
    have hbegins : ∀ l (d : Cursor text) t,
        (State.perform (.round r start best rest l) d K).beginsRound t = false := by
      intro l d t
      rw [State.beginsRound, beq_eq_false_iff_ne.2 (Nat.ne_of_lt hlt), Bool.false_and]
    cases res with
    | matched d =>
      exact .stays rfl (fun _ => rfl) (Nat.le_refl _) (fun _ => rfl) (hbegins _ d)
    | failed d => exact .stays rfl (fun _ => rfl) (Nat.le_refl _) (fun _ => rfl) (hbegins _ d)
    | stopped f d => exact .closes rfl (fun _ => rfl) rfl (fun _ => rfl) fun _ => rfl

theorem State.Fits.moves {s s' : State text} (h : s.Fits g) (hstep : s.step g = some s') :
    Moves s s' := by
  match s, hstep with
  | .perform t c K, hstep =>
    cases hstep
    exact Task.moves_begin t c K
  | .deliver res (k :: K), hstep =>
    cases hstep
    obtain ⟨inside, hK⟩ := h
    exact Frame.moves_resume hK res
  | .deliver _ [], hstep => exact absurd hstep (by simp [State.step])

end Packrat
