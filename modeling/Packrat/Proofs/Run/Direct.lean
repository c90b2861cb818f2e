import Packrat.Proofs.Growth
import Packrat.Proofs.Run.Lasting

/-!
# `Packrat/Proofs/Run/Direct.lean` — runs in which a rule is looked up by its own alternatives

A rule may be looked up where it was begun while it is still under way. If that is only ever done by its
own alternatives, so that there is no other rule in between, the run is direct (`Grammar.DirectOnly`).
The answer is then the seed of the innermost rule, and every other answer is a final one. So each rule
ends as it does for a judge that knows what the other rules come to from the start.

The stack says how it will go on: what waits on it for a verdict passes it through its terms, its
alternative and the rest of its round, and in the end this is the verdict of the rule (`Awaits`). A move
keeps that true (`State.Kept.step`), and so does a run up to its end, where the judge and the memo agree
on all that was begun (`Grammar.run_tells`).
-/

set_option autoImplicit false

namespace Packrat

variable {text : Text} {g : Grammar}

/-! ## Direct runs -/

/-- A rule that is looked up while it is under way is the innermost one. -/
def State.Direct : State text → Prop
  | .perform (.reference name) c K => c.spot name ∈ (openRounds K).map Prod.fst →
    (openRounds K).head?.map Prod.fst = some (c.spot name)
  | _ => True

/-- In the run of the rule from the beginning of the text, a rule at a position that is looked up while
it is under way is looked up only by its own alternatives. -/
def Grammar.DirectOnly (g : Grammar) (text : Text) (limit : Int) (r : Rule) : Prop :=
  ∀ s : State text, Reached g text limit r s → s.Direct

instance (s : State text) : Decidable s.Direct :=
  match s with
  | .perform (.reference name) c K => inferInstanceAs (Decidable (c.spot name ∈
      (openRounds K).map Prod.fst → (openRounds K).head?.map Prod.fst = some (c.spot name)))
  | .perform (.term _) _ _ | .perform (.terms _) _ _ | .perform (.alternative _) _ _
  | .perform (.round ..) _ _ | .perform (.rule _) _ _ | .deliver _ _ => inferInstanceAs (Decidable True)

/-- Looks at the moments of a run one after the other, up to as many as that. -/
def directFor (g : Grammar) : Nat → State text → Bool
  | 0, _ => false
  | n + 1, s => decide s.Direct && match s.step g with
    | none => true
    | some t => directFor g n t

theorem direct_of_directFor : ∀ {n : Nat} {s : State text}, directFor g n s = true →
    ∀ t, Steps g s t → t.Direct
  | 0, _, h, _, _ => absurd h (by simp [directFor])
  | n + 1, s, h, t, ht => by
    rw [directFor, Bool.and_eq_true, decide_eq_true_eq] at h
    rcases Relation.ReflTransGen.cases_head ht with rfl | ⟨u, hu, ht⟩
    · exact h.1
    · rw [hu] at h
      exact direct_of_directFor h.2 t ht

/-! ## How a round goes on -/

section

variable {judge : Judge text} {r : Rule} {start best : Fin (text.size + 1)} {a : Alternative}
  {rest : List Alternative} {longest seed : Option (Fin (text.size + 1))}

/-- What becomes of the rule when its round goes on with the alternatives `rest`. -/
def resumed (judge : Judge text) (r : Rule) (start best : Fin (text.size + 1))
    (rest : List Alternative) (longest seed : Option (Fin (text.size + 1))) : Verdict text :=
  match sweep judge r.name start rest longest seed with
  | .undefined => .undefined
  | .ended none _ => .fails
  | .ended (some l) seed => if best < l then growth judge r start l seed else .ends best

theorem resumed_begin : resumed judge r start best r.alternatives none seed =
    growth judge r start best seed := by
  rw [growth]
  rfl

theorem resumed_of_fails (h : judge.extend r start a seed = .fails) :
    resumed judge r start best (a :: rest) longest seed =
      resumed judge r start best rest longest seed := by
  rw [Judge.extend] at h
  rw [resumed, resumed, sweep, h]

theorem resumed_of_ends {p : Fin (text.size + 1)} (h : judge.extend r start a seed = .ends p) :
    resumed judge r start best (a :: rest) longest seed =
      resumed judge r start best rest (furthest start longest p) (furthest start seed p) := by
  rw [Judge.extend] at h
  rw [resumed, resumed, sweep, h]

theorem Tallied.le (h : Tallied start best longest seed) (hb : start ≤ best) :
    ∀ e, seed = some e → start ≤ e := by
  rintro e rfl
  cases longest with
  | none => exact (show e = best from h) ▸ hb
  | some l =>
    obtain ⟨_, he, hval⟩ := h
    cases he
    have hb := Fin.le_def.1 hb
    exact Fin.le_def.2 (by omega)

/-- Where the rule stands in a round that goes on with `rest`: the seed is the greatest end in the memo,
and what is still to come makes the rule end as it does from its beginning. -/
structure Stands (judge : Judge text) (m : Memo) (r : Rule) (start best : Fin (text.size + 1))
    (rest : List Alternative) (longest seed : Option (Fin (text.size + 1))) : Prop where
  recorded : m.longest? ⟨r.name, start.val⟩ = seed.map fun e => (e.val : Int)
  ahead : start ≤ best
  tally : Tallied start best longest seed
  verdict : resumed judge r start best rest longest seed = r.verdict judge start

theorem Stands.of_fails {m : Memo} (h : Stands judge m r start best (a :: rest) longest seed)
    (ha : judge.extend r start a seed = .fails) : Stands judge m r start best rest longest seed :=
  ⟨h.recorded, h.ahead, h.tally, (resumed_of_fails ha).symm.trans h.verdict⟩

/-- A match is recorded and counted in. -/
theorem Stands.of_ends {m : Memo} (hj : judge.Forward) (hm : m.Coherent)
    (h : Stands judge m r start best (a :: rest) longest seed) {p : Fin (text.size + 1)}
    (ha : judge.extend r start a seed = .ends p) (ho : a.owner = r.name) :
    Stands judge (m.saveMatch ⟨a.owner, start.val, p.val⟩) r start best rest
      (furthest start longest p) (furthest start seed p) := by
  have hle : start ≤ p := termsVerdict_forward (hj.seeded r.name start (h.tally.le h.ahead)) a.terms ha
  have hspot : (⟨r.name, start.val⟩ : Spot) = (⟨a.owner, start.val, p.val⟩ : Match).spot := by
    rw [ho]
    rfl
  refine ⟨?_, h.ahead, h.tally.furthest h.ahead p, (resumed_of_ends ha).symm.trans h.verdict⟩
  rw [hm.longest_saveMatch (Int.natCast_nonneg _), if_pos hspot, h.recorded, map_furthest hle]

end

/-! ## What waits on the stack -/

/-- The stack waits for the verdict `v` of what is done on top of it, which may depend on the seed of the
innermost rule. Passed down to its round, the verdict leads to that of the rule, and this in turn is what
the rule around it waits for. -/
inductive Awaits (judge : Judge text) (m : Memo) :
    List (Frame text) → (Judge text → Verdict text) → Prop
  | done (v : Judge text → Verdict text) : Awaits judge m [] v
  | reference {K : List (Frame text)} {v : Judge text → Verdict text} (h : Awaits judge m K v) :
      Awaits judge m (.reference :: K) v
  | terms {ts : List Term} {K : List (Frame text)} {v : Judge text → Verdict text}
      (h : Awaits judge m K fun j => (v j).andThen (termsVerdict j ts)) :
      Awaits judge m (.terms ts :: K) v
  | alternative {a : Alternative} {r : Rule} {start best : Fin (text.size + 1)}
      {rest : List Alternative} {longest seed : Option (Fin (text.size + 1))} {K : List (Frame text)}
      {v : Judge text → Verdict text} (ho : a.owner = r.name)
      (hs : Stands judge m r start best (a :: rest) longest seed)
      (hv : v (judge.seeded r.name start seed) = judge.extend r start a seed)
      (h : Awaits judge m K fun j => j r.name start) :
      Awaits judge m (.alternative a start :: .round r start best rest longest :: K) v

namespace Awaits

variable {judge : Judge text} {m : Memo} {K : List (Frame text)} {v u : Judge text → Verdict text}

/-- Only what the verdict is for the innermost rule matters. -/
theorem congr (h : Awaits judge m K v)
    (hvu : ∀ (name : String) (start : Fin (text.size + 1)) (seed : Option (Fin (text.size + 1))),
      (openRounds K).head?.map Prod.fst = some ⟨name, start.val⟩ →
      m.longest? ⟨name, start.val⟩ = seed.map (fun e => (e.val : Int)) →
      v (judge.seeded name start seed) = u (judge.seeded name start seed)) : Awaits judge m K u := by
  induction h generalizing u with
  | done => exact .done u
  | reference _ ih => exact .reference (ih hvu)
  | terms _ ih =>
    refine .terms (ih fun name start seed hn hl => ?_)
    exact congrArg (Verdict.andThen · _) (hvu name start seed hn hl)
  | @alternative a r start best rest longest seed K v ho hs hv h _ =>
    exact .alternative ho hs ((hvu r.name start seed rfl hs.recorded).symm.trans hv) h

/-- Only the greatest ends of the rules under way matter. -/
theorem of_longest {n : Memo} (h : Awaits judge m K v)
    (hl : ∀ t ∈ (openRounds K).map Prod.fst, n.longest? t = m.longest? t) : Awaits judge n K v := by
  induction h with
  | done v => exact .done v
  | reference _ ih => exact .reference (ih hl)
  | terms _ ih => exact .terms (ih hl)
  | @alternative a r start best rest longest seed K v ho hs hv _ ih =>
    refine .alternative ho ⟨?_, hs.ahead, hs.tally, hs.verdict⟩ hv
      (ih fun t ht => hl t (List.mem_cons_of_mem _ ht))
    exact (hl _ List.mem_cons_self).trans hs.recorded

end Awaits

/-- At every moment the stack waits for what the task or the result on top of it comes to. -/
inductive State.Kept (judge : Judge text) : State text → Prop
  | term {t : Term} {c : Cursor text} {K : List (Frame text)}
      (h : Awaits judge c.memo K fun j => t.verdict j c.pos) : Kept judge (.perform (.term t) c K)
  | terms {ts : List Term} {c : Cursor text} {K : List (Frame text)}
      (h : Awaits judge c.memo K fun j => termsVerdict j ts c.pos) :
      Kept judge (.perform (.terms ts) c K)
  | reference {name : String} {c : Cursor text} {K : List (Frame text)}
      (h : Awaits judge c.memo K fun j => j name c.pos) : Kept judge (.perform (.reference name) c K)
  | rule {r : Rule} {c : Cursor text} {K : List (Frame text)}
      (h : Awaits judge c.memo K fun j => j r.name c.pos) : Kept judge (.perform (.rule r) c K)
  | alternative {a : Alternative} {c : Cursor text} {K : List (Frame text)}
      (h : Kept judge (.perform (.terms a.terms) c (.alternative a c.pos :: K))) :
      Kept judge (.perform (.alternative a) c K)
  | round {r : Rule} {start best : Fin (text.size + 1)} {rest : List Alternative}
      {longest seed : Option (Fin (text.size + 1))} {c : Cursor text} {K : List (Frame text)}
      (hs : Stands judge c.memo r start best rest longest seed)
      (h : Awaits judge c.memo K fun j => j r.name start) :
      Kept judge (.perform (.round r start best rest longest) c K)
  | answered {res : Result text} {K : List (Frame text)}
      (h : Awaits judge res.cursor.memo K fun _ => res.verdict) : Kept judge (.deliver res K)
  /-- The match of an alternative is recorded already, and counted in with the next move. -/
  | counted {r : Rule} {start best : Fin (text.size + 1)} {rest : List Alternative}
      {longest : Option (Fin (text.size + 1))} {res : Result text} {K : List (Frame text)}
      (h : Kept judge (Frame.resume K (.round r start best rest longest) res)) :
      Kept judge (.deliver res (.round r start best rest longest :: K))
  | stopped {f : RunFault} {d : Cursor text} {K : List (Frame text)} :
      Kept judge (.deliver (.stopped f d) K)

/-- What the judge says of a rule is what the memo says, and what the rule comes to for the judge. -/
def Judge.Knows (judge : Judge text) (g : Grammar) (m : Memo) (name : String)
    (p : Fin (text.size + 1)) : Prop :=
  m.judge name p = judge name p ∧ ∀ r, g.rule? name = some r → r.verdict judge p = judge name p

/-- The judge knows what every rule that is done with has come to. -/
def State.Tells (g : Grammar) (judge : Judge text) (s : State text) : Prop :=
  ∀ (name : String) (p : Fin (text.size + 1)), s.memo.isStarted ⟨name, p.val⟩ = true →
    (⟨name, p.val⟩ : Spot) ∉ s.underWay → judge.Knows g s.memo name p

/-! ## How a reference is answered -/

/-- A reference is answered as the memo says, if the memo says anything; if not, it leads to a rule or
to a fault. -/
inductive Looked (g : Grammar) (name : String) (c : Cursor text) (K : List (Frame text)) :
    State text → Prop
  | answered {res : Result text} (memo : res.cursor.memo = c.memo)
      (judged : c.memo.judge name c.pos = res.verdict) (known : res.verdict ≠ .undefined) :
      Looked g name c K (.deliver res K)
  | followed {r : Rule} (hr : g.rule? name = some r) :
      Looked g name c K (.perform (.rule r) c (.reference :: K))
  | stopped (f : RunFault) : Looked g name c K (.deliver (.stopped f c) K)

theorem Task.looked (g : Grammar) (name : String) (c : Cursor text) (K : List (Frame text)) :
    Looked g name c K ((Task.reference name).begin g c K) := by
  rw [Task.begin]
  cases hm : c.memo.isMismatch (c.spot name) with
  | true => exact .answered rfl (Memo.judge_of_mismatch hm) (by simp [Result.verdict])
  | false =>
    rw [if_neg (by simp)]
    cases hl : c.memo.longest? (c.spot name) with
    | some i =>
      dsimp only
      rcases Result.matchedAt_cases c i with ⟨p, rfl, h⟩ | ⟨f, h⟩
      · rw [h]
        exact .answered rfl (Memo.judge_of_longest hm hl) (by simp [Result.verdict])
      · rw [h]
        exact .stopped f
    | none =>
      dsimp only
      split
      · rename_i hs
        exact .answered rfl (Memo.judge_of_underWay hm hl hs) (by simp [Result.verdict])
      split
      · exact .stopped _
      rename_i r hr
      split
      · exact .stopped _
      · exact .followed hr

section

variable {judge : Judge text} {name : String} {c : Cursor text} {K : List (Frame text)}

/-- What the memo says of a rule under way is its seed, and of the others what the judge says. -/
theorem Awaits.of_looked (ht : (State.perform (.reference name) c K).Tidy g)
    (hdirect : (State.perform (.reference name) c K).Direct)
    (htells : (State.perform (.reference name) c K).Tells g judge)
    (hd : (c.memo.judge name c.pos : Verdict text) ≠ .undefined)
    (h : Awaits judge c.memo K fun j => j name c.pos) :
    Awaits judge c.memo K fun _ => c.memo.judge name c.pos := by
  have hstarted : c.memo.isStarted (c.spot name) = true := ht.started_of_judge hd
  refine h.congr fun n start seed hhead hseed => ?_
  unfold Judge.seeded
  by_cases hs : name = n ∧ c.pos = start
  · obtain ⟨rfl, rfl⟩ := hs
    have hm : c.memo.isMismatch (c.spot name) = false := ht.opened _ (mem_of_innermost hhead)
    rw [if_pos ⟨rfl, rfl⟩]
    cases seed with
    | none => exact (Memo.judge_of_underWay hm hseed hstarted).symm
    | some e => exact (Memo.judge_of_longest hm hseed).symm
  · rw [if_neg hs]
    -- a rule under way that is not the innermost is not looked up
    have hno : c.spot name ∉ (openRounds K).map Prod.fst := by
      intro hmem
      obtain ⟨hn, hp⟩ := Spot.mk.inj (Option.some.inj ((hdirect hmem).symm.trans hhead))
      exact hs ⟨hn, Fin.ext (Int.ofNat.inj hp)⟩
    exact (htells name c.pos hstarted hno).1.symm

end

/-! ## A move -/

/-- What is learned from a memo: where it says of a rule what the rule comes to for the judge, the judge
says so, too. -/
def Judge.LearnsFrom (judge : Judge text) (g : Grammar) (m : Memo) : Prop :=
  ∀ (r : Rule) (p : Fin (text.size + 1)), g.rule? r.name = some r →
    m.judge r.name p = r.verdict judge p → r.verdict judge p ≠ .undefined →
    judge r.name p = r.verdict judge p

/-- The judge knows what became of a rule that the move was the last of. -/
def Closes (g : Grammar) (judge : Judge text) (s s' : State text) : Prop :=
  ∀ (name : String) (p : Fin (text.size + 1)), (⟨name, p.val⟩ : Spot) ∈ s.underWay →
    (⟨name, p.val⟩ : Spot) ∉ s'.underWay → judge.Knows g s'.memo name p

theorem Closes.of_subset {judge : Judge text} {s s' : State text} (h : s.underWay ⊆ s'.underWay) :
    Closes g judge s s' := fun _ _ hs hs' => absurd (h hs) hs'

/-- What is kept from one moment to the next, unless the run is stopped. -/
def State.Keeps (g : Grammar) (judge : Judge text) (s s' : State text) : Prop :=
  (∃ f d K, s' = .deliver (.stopped f d) K) ∨ s'.Kept judge ∧ Closes g judge s s'

section

variable {judge : Judge text} {c : Cursor text} {K : List (Frame text)}

/-- Something that leaves the rules under way as they are. -/
theorem State.Keeps.of_kept {s s' : State text} (h : s'.Kept judge)
    (hsub : s.underWay ⊆ s'.underWay) : State.Keeps g judge s s' := Or.inr ⟨h, .of_subset hsub⟩

theorem State.Keeps.matchedAt {t : Task text} {i : Int}
    (h : Awaits judge c.memo K fun _ => .endsAt i)
    (hsub : (State.perform t c K).underWay ⊆ (openRounds K).map Prod.fst) :
    State.Keeps g judge (.perform t c K) (.deliver (.matchedAt c i) K) := by
  rcases Result.matchedAt_cases c i with ⟨p, rfl, hm⟩ | ⟨f, hm⟩
  · rw [hm]
    rw [Verdict.endsAt_val] at h
    exact .of_kept (.answered h) hsub
  · rw [hm]
    exact Or.inl ⟨f, c, K, rfl⟩

/-- The round of the innermost rule is over. The rules around it are at other spots, so it is by what the
judge knows of the rule that they go on. -/
theorem State.Keeps.close {r : Rule} {start best : Fin (text.size + 1)}
    {longest : Option (Fin (text.size + 1))} {res : Result text} {m : Memo}
    (ht : (State.perform (.round r start best [] longest) c K).Tidy g)
    (h : Awaits judge c.memo K fun j => j r.name start)
    (hl : ∀ t, res.cursor.memo.longest? t = c.memo.longest? t)
    (hs : ∀ t, res.cursor.memo.isStarted t = c.memo.isStarted t)
    (hv : res.verdict = r.verdict judge start) (hd : res.verdict ≠ .undefined)
    (hmemo : res.cursor.memo.judge r.name start = res.verdict)
    (hlast : (State.deliver res K).LastsIn m) (hlearn : judge.LearnsFrom g m) :
    State.Keeps g judge (.perform (.round r start best [] longest) c K) (.deliver res K) := by
  have hr : g.rule? r.name = some r := ht.fits.1
  have hno : (⟨r.name, start.val⟩ : Spot) ∉ (openRounds K).map Prod.fst :=
    (List.nodup_cons.1 ht.nodup).1
  have hstarted : res.cursor.memo.isStarted ⟨r.name, start.val⟩ = true :=
    (hs _).trans (ht.started_of_underWay List.mem_cons_self)
  have hjudge : judge r.name start = res.verdict := by
    rw [hv]
    refine hlearn r start hr ?_ (hv ▸ hd)
    exact (hlast r.name start hstarted hno).trans (hmemo.trans hv)
  refine Or.inr ⟨.answered ((h.congr ?_).of_longest fun t _ => hl t), ?_⟩
  · intro n p seed hhead _
    have hne : ¬ (r.name = n ∧ start = p) := by
      rintro ⟨rfl, rfl⟩
      exact hno (mem_of_innermost hhead)
    unfold Judge.seeded
    rw [if_neg hne]
    exact hjudge
  · intro name p hmem hmem'
    rcases List.mem_cons.1 hmem with he | hmem
    · obtain ⟨rfl, hp⟩ := Spot.mk.inj he
      cases Fin.ext (Int.ofNat.inj hp)
      refine ⟨hmemo.trans hjudge.symm, fun x hx => ?_⟩
      cases hr.symm.trans hx
      exact hv.symm.trans hjudge.symm
    · exact absurd hmem hmem'

/-- A round is over: it is followed by another, or the rule is done with. -/
theorem Task.keeps_lastAlternative {m : Memo} {r : Rule} {start best : Fin (text.size + 1)}
    {longest seed : Option (Fin (text.size + 1))}
    (ht : (State.perform (.round r start best [] longest) c K).Tidy g)
    (hs : Stands judge c.memo r start best [] longest seed)
    (h : Awaits judge c.memo K fun j => j r.name start)
    (hlast : ((Task.round r start best [] longest).begin g c K).LastsIn m)
    (hlearn : judge.LearnsFrom g m) :
    State.Keeps g judge (.perform (.round r start best [] longest) c K)
      ((Task.round r start best [] longest).begin g c K) := by
  have hverdict := hs.verdict
  rw [resumed, sweep] at hverdict
  cases longest with
  | none =>
    refine .close ht h (fun _ => rfl) (fun _ => rfl) hverdict (by simp [Result.verdict]) ?_ hlast
      hlearn
    exact Memo.judge_of_mismatch ((Memo.isMismatch_saveMismatch _ _ _).2 (Or.inl rfl))
  | some l =>
    obtain ⟨e, rfl, heval⟩ := hs.tally
    dsimp only at hverdict
    rw [Task.begin] at hlast ⊢
    split at hverdict
    · rename_i hlt
      rw [if_pos hlt] at hlast ⊢
      have he : e = l := Fin.ext (heval.trans (Nat.max_eq_right (Nat.le_of_lt hlt)))
      subst he
      refine .of_kept (.round ⟨hs.recorded, ?_, rfl, ?_⟩ h) fun _ => id
      · exact Fin.le_trans hs.ahead (Fin.le_of_lt hlt)
      · exact resumed_begin.trans hverdict
    · rename_i hlt
      rw [if_neg hlt] at hlast ⊢
      have he : e = best := Fin.ext (heval.trans (Nat.max_eq_left (Nat.le_of_not_lt hlt)))
      subst he
      refine .close ht h (fun _ => rfl) (fun _ => rfl) hverdict (by simp [Result.verdict]) ?_ hlast
        hlearn
      exact Memo.judge_of_longest (ht.opened _ List.mem_cons_self) hs.recorded

theorem Task.keeps_begin (hg : g.Owned) {t : Task text} {m : Memo}
    (ht : (State.perform t c K).Tidy g) (hdirect : (State.perform t c K).Direct)
    (htells : (State.perform t c K).Tells g judge) (h : (State.perform t c K).Kept judge)
    (hlast : (t.begin g c K).LastsIn m) (hlearn : judge.LearnsFrom g m) :
    State.Keeps g judge (.perform t c K) (t.begin g c K) := by
  cases h with
  | @term t _ _ h =>
    cases t with
    | literal s =>
      rw [Task.begin]
      simp only [Term.verdict] at h
      split
      · rename_i hs
        simp only [hs, if_true] at h
        exact .matchedAt h fun _ => id
      · rename_i hs
        simp only [hs, Bool.false_eq_true, if_false] at h
        exact .of_kept (.answered h) fun _ => id
    | pattern r =>
      rw [Task.begin]
      simp only [Term.verdict] at h
      cases hr : r.matchEnd? text c.pos with
      | some i =>
        simp only [hr] at h
        exact .matchedAt h fun _ => id
      | none =>
        simp only [hr] at h
        exact .of_kept (.answered h) fun _ => id
    | reference name => exact .of_kept (.reference h) fun _ => id
    | foreignLiteral v => exact Or.inl ⟨_, _, _, rfl⟩
    | foreign v => exact Or.inl ⟨_, _, _, rfl⟩
  | @terms ts _ _ h =>
    cases ts with
    | nil => exact .of_kept (.answered h) fun _ => id
    | cons t ts => exact .of_kept (.term (.terms h)) fun _ => id
  | @reference name _ _ h =>
    have hlead := Task.looked g name c K
    generalize (Task.reference name).begin g c K = s at hlead ⊢
    cases hlead with
    | answered hm hjudged hknown =>
      rw [← hjudged] at hknown
      refine .of_kept (.answered ?_) fun _ => id
      rw [hm, ← hjudged]
      exact h.of_looked ht hdirect htells hknown
    | followed hr =>
      cases Grammar.name_of_rule? hr
      exact .of_kept (.rule (.reference h)) fun _ => id
    | stopped f => exact Or.inl ⟨f, c, K, rfl⟩
  | @rule r _ _ h =>
    have hnew : c.memo.isStarted (c.spot r.name) = false := ht.fits.2.1
    have hs : Stands judge (c.saveStarted (c.spot r.name)).memo r c.pos c.pos r.alternatives none none :=
      ⟨(ht.untouched _ hnew).1, Fin.le_refl _, rfl, resumed_begin⟩
    exact .of_kept (.round hs (h.of_longest fun _ _ => rfl)) fun _ => List.mem_cons_of_mem _
  | alternative h => exact .of_kept h fun _ => id
  | @round r start best rest longest seed _ _ hs h =>
    cases rest with
    | cons a rest =>
      have ho := hg.of_rule? ht.fits.1 a (ht.fits.2.1.subset List.mem_cons_self)
      exact .of_kept (.alternative (.terms (.alternative ho hs rfl h))) fun _ => id
    | nil => exact Task.keeps_lastAlternative ht hs h hlast hlearn

/-- A verdict goes to what waits for it. -/
theorem Frame.kept_resume (hj : judge.Forward) {k : Frame text} {res : Result text}
    (ht : (State.deliver res (k :: K)).Tidy g) (h : (State.deliver res (k :: K)).Kept judge) :
    (k.resume K res).Kept judge := by
  cases h with
  | stopped => cases k <;> exact .stopped
  | counted h => exact h
  | answered h =>
    cases h with
    | reference h => cases res <;> exact .answered h
    | terms h =>
      cases res with
      | matched d => exact .terms h
      | failed d => exact .answered h
      | stopped f d => exact .stopped
    | @alternative a r start best rest longest seed K _ ho hs hv h =>
      cases res with
      | matched d =>
        have hno : (⟨r.name, start.val⟩ : Spot) ∉ (openRounds K).map Prod.fst :=
          (List.nodup_cons.1 ht.nodup).1
        refine .counted (.round (hs.of_ends hj ht.coherent hv.symm ho) (h.of_longest fun t hmem => ?_))
        refine (ht.coherent.longest_saveMatch (Int.natCast_nonneg _) t).trans (if_neg ?_)
        rintro rfl
        rw [Match.spot, ho] at hmem
        exact hno hmem
      | failed d => exact .counted (.round (hs.of_fails hv.symm) h)
      | stopped f d => exact .stopped

theorem Frame.keeps_resume (hj : judge.Forward) {k : Frame text} {res : Result text}
    (ht : (State.deliver res (k :: K)).Tidy g) (h : (State.deliver res (k :: K)).Kept judge) :
    State.Keeps g judge (.deliver res (k :: K)) (k.resume K res) := by
  have hkept := Frame.kept_resume hj ht h
  cases res with
  | stopped f d => cases k <;> exact Or.inl ⟨f, d, K, rfl⟩
  | matched d => cases k <;> exact .of_kept hkept fun _ => id
  | failed d => cases k <;> exact .of_kept hkept fun _ => id

theorem State.Kept.step (hg : g.Owned) (hj : judge.Forward) {s s' : State text} {m : Memo}
    (ht : s.Tidy g) (hdirect : s.Direct) (htells : s.Tells g judge) (h : s.Kept judge)
    (hstep : s.step g = some s') (hlast : s'.LastsIn m) (hlearn : judge.LearnsFrom g m) :
    State.Keeps g judge s s' := by
  match s, hstep with
  | .perform t c K, hstep =>
    cases hstep
    exact Task.keeps_begin hg ht hdirect htells h hlast hlearn
  | .deliver res (k :: K), hstep =>
    cases hstep
    exact Frame.keeps_resume hj ht h
  | .deliver _ [], hstep => exact absurd hstep (by simp [State.step])

theorem State.Tells.step {s s' : State text} (ht : s.Tidy g) (h : s.Tells g judge)
    (hstep : s.step g = some s') (hclose : Closes g judge s s') : s'.Tells g judge := by
  intro name p hs' hno'
  rcases ht.begun_step hstep hs' with hs | hmem
  · by_cases hmem : (⟨name, p.val⟩ : Spot) ∈ s.underWay
    · exact hclose name p hmem hno'
    · rw [Judge.Knows, (ht.lasts_step hstep hs hmem).2.2]
      exact h name p hs hmem
  · exact absurd hmem hno'

end

/-! ## Whole runs -/

section

variable {judge : Judge text} {limit : Int} {r : Rule}

/-- A fault is handed on to the end. -/
theorem State.stopped_step {f : RunFault} {d : Cursor text} {K : List (Frame text)} {s : State text}
    (h : (State.deliver (.stopped f d) K).step g = some s) :
    ∃ K', s = .deliver (.stopped f d) K' := by
  cases K with
  | nil => exact absurd h (by simp [State.step])
  | cons k K =>
    cases h
    cases k <;> exact ⟨K, rfl⟩

/-- In a direct run a judge that goes forward, and learns from the memo that the run ends with, knows at
every moment what the rules have come to that are done with. -/
theorem Reached.tells (hg : g.Owned) (hr : g.rule? r.name = some r) (hj : judge.Forward)
    (hdirect : g.DirectOnly text limit r)
    (hlearn : judge.LearnsFrom g (g.run text limit r).cursor.memo) {s : State text}
    (h : Reached g text limit r s) :
    (∃ f d K, s = .deliver (.stopped f d) K) ∨ s.Tells g judge ∧ s.Kept judge := by
  induction h with
  | refl =>
    refine Or.inr ⟨fun name p hs => absurd hs ?_, .rule (.done _)⟩
    simp [State.memo, Cursor.first, Memo.isStarted]
  | @tail s s' h hstep ih =>
    rcases ih with ⟨f, d, K, rfl⟩ | ⟨htells, hkept⟩
    · obtain ⟨K', rfl⟩ := State.stopped_step hstep
      exact Or.inl ⟨f, d, K', rfl⟩
    · have htidy := Reached.tidy hg hr h
      have hlast := Reached.lastsIn_run hg hr (h.tail hstep)
      rcases hkept.step hg hj htidy (hdirect s h) htells hstep hlast hlearn with hstop | ⟨hkept', hclose⟩
      · exact Or.inl hstop
      · exact Or.inr ⟨htells.step htidy hstep hclose, hkept'⟩

/-- At the end of a direct run the judge and the memo agree on all that was begun, and every rule comes
to what they say of it. -/
theorem Grammar.run_tells (hg : g.Owned) (hr : g.rule? r.name = some r) (hj : judge.Forward)
    (hdirect : g.DirectOnly text limit r)
    (hlearn : judge.LearnsFrom g (g.run text limit r).cursor.memo)
    (hrun : (g.run text limit r).verdict ≠ .undefined) {name : String} {p : Fin (text.size + 1)}
    (hs : (g.run text limit r).cursor.memo.isStarted ⟨name, p.val⟩ = true) :
    judge.Knows g (g.run text limit r).cursor.memo name p := by
  rcases Reached.tells hg hr hj hdirect hlearn (reached_run g text limit r) with
    ⟨f, d, K, hstop⟩ | ⟨htells, -⟩
  · cases hres : g.run text limit r with
    | stopped f d =>
      rw [hres] at hrun
      exact absurd rfl hrun
    | matched d =>
      rw [hres] at hstop
      exact absurd hstop (by simp)
    | failed d =>
      rw [hres] at hstop
      exact absurd hstop (by simp)
  · exact htells name p hs (by simp [State.underWay, State.rounds, openRounds])

end

end Packrat
