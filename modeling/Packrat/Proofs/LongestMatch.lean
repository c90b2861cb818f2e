import Packrat.Proofs.Run.Direct

/-!
# `Packrat/Proofs/LongestMatch.lean` — the longest match wins, in whatever order

Two grammars whose rules have the same alternatives in another order are run on the same text. All
alternatives are tried, and the longest match counts, so one expects that the runs end alike. They do as
long as rules are looked up only by their own alternatives while they are under way and growing is
steady.

Growing need not be steady. A rule that refers to itself is answered with the longest match so far, and
an alternative that could go on from a shorter one gets nothing of it when a longer one was found before.
-/

set_option autoImplicit false

namespace Packrat

variable {text : Text} {g g' : Grammar}

/-! ## Another order -/

/-- The same rule with its alternatives in another order. -/
structure Rule.Reordered (r r' : Rule) : Prop where
  name : r.name = r'.name
  alternatives : r.alternatives.Perm r'.alternatives

/-- The same grammar with the alternatives in its rules in another order. -/
structure Grammar.Reordered (g g' : Grammar) : Prop where
  rules : List.Forall₂ Rule.Reordered g.rules g'.rules
  start : g.start = g'.start

theorem exists_reordered {name : String} : ∀ {rs rs' : List Rule},
    List.Forall₂ Rule.Reordered rs rs' → ∀ {r' : Rule}, rs'.find? (·.name == name) = some r' →
      ∃ r, rs.find? (·.name == name) = some r ∧ r.Reordered r'
  | _, _, .nil, _, hr => absurd hr (by simp)
  | r :: rs, x :: xs, .cons h hs, r', hr => by
    rw [List.find?_cons] at hr ⊢
    rw [h.name]
    cases hx : x.name == name with
    | true =>
      rw [hx] at hr
      cases hr
      exact ⟨r, rfl, h⟩
    | false =>
      rw [hx] at hr
      exact exists_reordered hs hr

theorem Grammar.Reordered.rule? (h : g.Reordered g') {name : String} {r' : Rule}
    (hr : g'.rule? name = some r') : ∃ r, g.rule? name = some r ∧ r.Reordered r' :=
  exists_reordered h.rules hr

theorem Grammar.name_of_startRule {start : Option String} {r : Rule}
    (h : g.startRule start = .ok r) : start.or g.start = some r.name := by
  unfold Grammar.startRule at h
  split at h
  · exact absurd h (by simp)
  · rename_i name hname
    split at h
    · exact absurd h (by simp)
    · rename_i x hx
      cases h
      rw [hname, Grammar.name_of_rule? hx]

theorem Grammar.Reordered.name_startRule (h : g.Reordered g') {start : Option String} {r r' : Rule}
    (hr : g.startRule start = .ok r) (hr' : g'.startRule start = .ok r') : r'.name = r.name := by
  have hname := Grammar.name_of_startRule hr
  rw [h.start] at hname
  exact Option.some.inj ((Grammar.name_of_startRule hr').symm.trans hname)

/-! ## Two judges -/

/-- What the first judge says, and what the second one says where the first says nothing. -/
def Judge.or (j k : Judge text) : Judge text := fun name p =>
  if j name p = .undefined then k name p else j name p

theorem Judge.below_or (j k : Judge text) : j.Below (j.or k) := fun _ _ hd => if_neg hd

theorem Judge.Forward.or {j k : Judge text} (hj : j.Forward) (hk : k.Forward) : (j.or k).Forward := by
  intro name p q hq
  unfold Judge.or at hq
  split at hq
  · exact hk name p q hq
  · exact hj name p q hq

theorem Memo.Settled.forward {F : List Spot} {m : Memo} (h : m.Settled g text F) :
    (m.judge : Judge text).Forward := fun _ _ _ hq =>
  (h.answers_bounds (Memo.longest_of_judge hq)).1

/-! ## Runs that end alike -/

/-- The run of a parse is direct. -/
def Grammar.DirectParse (g : Grammar) (text : Text) (start : Option String) (limit : Int) : Prop :=
  ∀ r, g.startRule start = .ok r → g.DirectOnly text limit r

section

variable {start : Option String} {limit : Int} {c c' : Cursor text}

theorem Grammar.directParse_of_directFor {r : Rule} (hr : g.startRule start = .ok r) {n : Nat}
    (h : directFor g n (.perform (.rule r) (.first text limit) []) = true) :
    g.DirectParse text start limit := by
  intro x hx
  cases hr.symm.trans hx
  exact direct_of_directFor h

/-- A parse that returns leaves a memo that says of the start rule how its run ended, and the cursor
stands there. -/
theorem Grammar.judge_of_parse (hg : g.Owned) (h : g.parse text start limit = .ok c) :
    ∃ r, g.startRule start = .ok r ∧ c.memo.Settled g text [] ∧ (g.run text limit r).cursor = c ∧
      (g.run text limit r).verdict ≠ .undefined ∧
      (c.memo.judge r.name (0 : Fin (text.size + 1)) = .ends c.pos ∨
        c.memo.judge r.name (0 : Fin (text.size + 1)) = .fails ∧ c.pos = 0) := by
  obtain ⟨r, hr, hset, hend⟩ := Grammar.settled_of_parse hg h
  refine ⟨r, hr, hset, ?_⟩
  rcases hend with ⟨hrun, hlong⟩ | ⟨hrun, hm, hpos⟩
  · rw [hrun]
    exact ⟨rfl, by simp [Result.verdict],
      Or.inl (Memo.judge_of_longest (hset.not_mismatch hlong) hlong)⟩
  · rw [hrun]
    exact ⟨rfl, by simp [Result.verdict], Or.inr ⟨Memo.judge_of_mismatch hm, Fin.ext hpos⟩⟩

/-- After a direct parse every rule that was begun comes to what the memo says of it, if its references
are judged by the memo. -/
theorem Grammar.verdict_of_parse (hg : g.Owned) (h : g.parse text start limit = .ok c)
    (hdirect : g.DirectParse text start limit) {r : Rule} {p : Fin (text.size + 1)}
    (hr : g.rule? r.name = some r) (hs : c.memo.isStarted ⟨r.name, p.val⟩ = true) :
    r.verdict c.memo.judge p = c.memo.judge r.name p := by
  obtain ⟨x, hx, hset, rfl, hrun, -⟩ := Grammar.judge_of_parse hg h
  exact (Grammar.run_tells hg (Grammar.rule?_of_startRule hx) hset.forward (hdirect x hx)
    (fun _ _ _ hsame _ => hsame) hrun hs).2 r hr

/-- A judge that both memos have a say in learns nothing from the second that it does not say: where the
first memo says something, the order of the alternatives makes no difference. -/
theorem Judge.or_learnsFrom (hg : g.Owned) (h : g.Reordered g')
    (hc : g.parse text start limit = .ok c) (hdirect : g.DirectParse text start limit)
    (hset : c.memo.Settled g text []) (hset' : c'.memo.Settled g' text [])
    (hsteady : ∀ (r : Rule) (p : Fin (text.size + 1)), g.rule? r.name = some r →
      c.memo.isStarted ⟨r.name, p.val⟩ = true → c'.memo.isStarted ⟨r.name, p.val⟩ = true →
      (c.memo.judge.or c'.memo.judge).Steady r p) :
    (c.memo.judge.or c'.memo.judge : Judge text).LearnsFrom g' c'.memo := by
  intro r' p hr' hsame hd
  by_cases hfirst : (c.memo.judge r'.name p : Verdict text) = .undefined
  · unfold Judge.or at hsame ⊢
    rw [if_pos hfirst]
    exact hsame
  · obtain ⟨r, hr, hname, hperm⟩ := h.rule? hr'
    rw [← hname] at hr hfirst hsame ⊢
    have hs : c.memo.isStarted ⟨r.name, p.val⟩ = true := hset.started_of_judge hfirst
    have hs' : c'.memo.isStarted ⟨r.name, p.val⟩ = true := hset'.started_of_judge (hsame ▸ hd)
    have hverdict := Grammar.verdict_of_parse hg hc hdirect hr hs
    have hmono := growth_mono (Judge.below_or c.memo.judge c'.memo.judge) r p p none
      (show r.verdict c.memo.judge p ≠ .undefined from hverdict ▸ hfirst)
    have hor : r.verdict (c.memo.judge.or c'.memo.judge) p = c.memo.judge r.name p :=
      hmono.trans hverdict
    rw [Rule.verdict_of_perm (hset.forward.or hset'.forward) hname hperm (hsteady r p hr hs hs')
      (hor ▸ hfirst) hd, hor]
    exact Judge.below_or _ _ _ _ hfirst

/-- **The longest match wins, in whatever order.** Two parses of one text, by grammars that differ only
in the order of their alternatives, end alike if rules under way are looked up only by their own
alternatives and growing is steady for all that both have begun. -/
theorem reordered_ends_alike {lib : Regex.Library} {s s' : RuleSet} (hs : s.compile lib = .ok g)
    (hs' : s'.compile lib = .ok g')
    (h : g.Reordered g') (hc : g.parse text start limit = .ok c)
    (hc' : g'.parse text start limit = .ok c') (hdirect : g.DirectParse text start limit)
    (hdirect' : g'.DirectParse text start limit)
    (hsteady : ∀ (r : Rule) (p : Fin (text.size + 1)), g.rule? r.name = some r →
      c.memo.isStarted ⟨r.name, p.val⟩ = true → c'.memo.isStarted ⟨r.name, p.val⟩ = true →
      (c.memo.judge.or c'.memo.judge).Steady r p) :
    c'.pos = c.pos ∧ c'.matched = c.matched := by
  have hg := RuleSet.owned_of_compile hs
  have hg' := RuleSet.owned_of_compile hs'
  obtain ⟨r, hr, hset, -, -, hend⟩ := Grammar.judge_of_parse hg hc
  obtain ⟨r', hr', hset', rfl, hrun', hend'⟩ := Grammar.judge_of_parse hg' hc'
  have hlearn := Judge.or_learnsFrom hg h hc hdirect hset hset' hsteady
  rw [← h.name_startRule hr hr'] at hend
  have hdone : (c.memo.judge r'.name (0 : Fin (text.size + 1)) : Verdict text) ≠ .undefined := by
    rcases hend with hjudge | ⟨hjudge, -⟩ <;> simp [hjudge]
  have hdone' : ((g'.run text limit r').cursor.memo.judge r'.name (0 : Fin (text.size + 1)) :
      Verdict text) ≠ .undefined := by
    rcases hend' with hjudge | ⟨hjudge, -⟩ <;> simp [hjudge]
  -- both memos say of the start rule what the judge says of it that has learned from both
  have hsame := (Grammar.run_tells hg' (Grammar.rule?_of_startRule hr') (hset.forward.or hset'.forward)
    (hdirect' r' hr') hlearn hrun' (hset'.started_of_judge hdone')).1.trans
    (Judge.below_or _ _ _ _ hdone)
  have hpos : (g'.run text limit r').cursor.pos = c.pos := by
    rcases hend with hjudge | ⟨hjudge, hzero⟩
    · rcases hend' with hjudge' | ⟨hjudge', -⟩
      · exact Verdict.ends.inj (hjudge'.symm.trans (hsame.trans hjudge))
      · exact absurd (hjudge'.symm.trans (hsame.trans hjudge)) (by simp)
    · rcases hend' with hjudge' | ⟨-, hzero'⟩
      · exact absurd (hjudge'.symm.trans (hsame.trans hjudge)) (by simp)
      · rw [hzero, hzero']
  exact ⟨hpos, by rw [Cursor.matched, Cursor.matched, Cursor.atEnd, Cursor.atEnd, hpos]⟩

end

/-! ## One rule in two orders -/

/-- A rule set of one rule, with these alternatives. -/
def single (as : List Sequence) : RuleSet := ⟨[("s", as)], some "s"⟩

def singleRule (as : List (List Term)) : Rule := ⟨"s", as.map fun ts => ⟨"s", ts⟩⟩

def singleGrammar (as : List (List Term)) : Grammar := ⟨[singleRule as], some "s"⟩

theorem reordered_single {as bs : List (List Term)} (h : as.Perm bs) :
    (singleGrammar as).Reordered (singleGrammar bs) :=
  ⟨.cons ⟨rfl, h.map _⟩ .nil, rfl⟩

/-- An `a` with any number of `b` behind it. -/
def chain : RuleSet := single [[.reference "s", .literal "b"], [.literal "a"]]

def chainRule : Rule := singleRule [[.reference "s", .literal "b"], [.literal "a"]]

def chainGrammar : Grammar := ⟨[chainRule], some "s"⟩

/-- The same in the other order. -/
def turned : RuleSet := single [[.literal "a"], [.reference "s", .literal "b"]]

def turnedRule : Rule := singleRule [[.literal "a"], [.reference "s", .literal "b"]]

def turnedGrammar : Grammar := ⟨[turnedRule], some "s"⟩

theorem termsVerdict_singleton (judge : Judge text) (t : Term) (p : Fin (text.size + 1)) :
    termsVerdict judge [t] p = t.verdict judge p := by
  rw [termsVerdict_cons]
  cases t.verdict judge p <;> rfl

/-- Every `b` is one step, so no alternative goes beyond a longer seed than its own. -/
theorem steady_chain (judge : Judge text) : judge.Steady chainRule 0 := by
  have hb : ∀ (seed : Option (Fin (text.size + 1))) (p : Fin (text.size + 1)),
      judge.extend chainRule 0 ⟨"s", [.reference "s", .literal "b"]⟩ seed = .ends p →
        ∃ q, seed = some q ∧ p.val = q.val + 1 := by
    intro seed p hp
    rw [Judge.extend, termsVerdict_cons, Verdict.andThen_eq_ends] at hp
    obtain ⟨q, hq, hp⟩ := hp
    rw [termsVerdict_singleton] at hp
    refine ⟨q, ?_, Term.verdict_literal hp⟩
    rw [Term.verdict] at hq
    unfold Judge.seeded at hq
    rw [if_pos ⟨rfl, rfl⟩] at hq
    cases seed with
    | none => exact absurd hq (by simp)
    | some e => rw [Verdict.ends.inj hq]
  have ha : ∀ (seed : Option (Fin (text.size + 1))) (p : Fin (text.size + 1)),
      judge.extend chainRule 0 ⟨"s", [.literal "a"]⟩ seed = .ends p → p.val = 1 := by
    intro seed p hp
    rw [Judge.extend, termsVerdict_singleton] at hp
    exact Term.verdict_literal hp
  have hmem : ∀ x ∈ chainRule.alternatives,
      x = ⟨"s", [.reference "s", .literal "b"]⟩ ∨ x = ⟨"s", [.literal "a"]⟩ := by
    intro x hx
    simpa [chainRule, singleRule] using hx
  constructor
  · intro q q' p x _ _ hlt hx hp hbeyond
    rw [Fin.lt_def] at hlt hbeyond
    rcases hmem x hx with rfl | rfl
    · obtain ⟨e, he, hval⟩ := hb _ p hp
      cases he
      omega
    · have hval := ha _ p hp
      omega
  · intro hseed hempty
    obtain ⟨x, hx, p, hp⟩ := hseed.exists_seedless (by simp)
    have hzero := hempty x hx p hp
    rcases hmem x hx with rfl | rfl
    · obtain ⟨e, he, -⟩ := hb _ p hp
      exact absurd he (by simp)
    · have hval := ha _ p hp
      rw [hzero] at hval
      exact absurd hval (by simp)

/-- Both orders come to the end of `abb`, although they need another number of rounds for it. -/
theorem reordered_ends_alike_chain :
    chain.compile .standard = .ok chainGrammar ∧ turned.compile .standard = .ok turnedGrammar ∧
    chainGrammar.Reordered turnedGrammar ∧
    chainGrammar.DirectParse #['a', 'b', 'b'] none 0 ∧
    turnedGrammar.DirectParse #['a', 'b', 'b'] none 0 ∧
    ∃ c c' : Cursor #['a', 'b', 'b'], chainGrammar.parse _ none 0 = .ok c ∧
      turnedGrammar.parse _ none 0 = .ok c' ∧ c.pos = 3 ∧ c'.pos = c.pos ∧ c'.matched = c.matched := by
  have hend : (chainGrammar.parse #['a', 'b', 'b'] none 0).toOption.map (fun c => (c.pos,
      decide (∀ p : Fin 4, c.memo.isStarted ⟨"s", p.val⟩ = true → p = 0))) = some (3, true) := by
    decide +kernel
  have hend' : (turnedGrammar.parse #['a', 'b', 'b'] none 0).toOption.map (·.pos) = some 3 := by
    decide +kernel
  have hdirect : chainGrammar.DirectParse #['a', 'b', 'b'] none 0 :=
    Grammar.directParse_of_directFor (r := chainRule) (n := 100) rfl (by decide +kernel)
  have hdirect' : turnedGrammar.DirectParse #['a', 'b', 'b'] none 0 :=
    Grammar.directParse_of_directFor (r := turnedRule) (n := 100) rfl (by decide +kernel)
  have hcompile : chain.compile .standard = .ok chainGrammar := rfl
  have hcompile' : turned.compile .standard = .ok turnedGrammar := rfl
  have hreordered : chainGrammar.Reordered turnedGrammar := reordered_single (.swap _ _ [])
  obtain ⟨c, hc, hval⟩ := exists_of_toOption_map hend
  obtain ⟨c', hc', -⟩ := exists_of_toOption_map hend'
  obtain ⟨hpos, honly⟩ := Prod.mk.inj hval
  refine ⟨hcompile, hcompile', hreordered, hdirect, hdirect', c, c', hc, hc', hpos, ?_⟩
  refine reordered_ends_alike hcompile hcompile' hreordered hc hc' hdirect hdirect' ?_
  intro r p hr hs _
  cases (List.mem_singleton.1 (Grammar.mem_of_rule? hr) : r = chainRule)
  rw [of_decide_eq_true honly p hs]
  exact steady_chain _

/-! ## Orders that matter -/

/-- On this text the parses by two grammars, which differ in the order of alternatives only, both return
and are direct, and they do not end alike. -/
def OrderMatters (s s' : RuleSet) (text : Text) : Prop :=
  ∃ g g' : Grammar, s.compile .standard = .ok g ∧ s'.compile .standard = .ok g' ∧ g.Reordered g' ∧
    g.DirectParse text none standardLimit ∧ g'.DirectParse text none standardLimit ∧
    ∃ c c', g.parse text none standardLimit = .ok c ∧ g'.parse text none standardLimit = .ok c' ∧
      c'.pos ≠ c.pos ∧ c'.matched ≠ c.matched

theorem orderMatters_single {as bs : List Sequence} {xs ys : List (List Term)} {text : Text}
    (ha : (single as).compile .standard = .ok (singleGrammar xs))
    (hb : (single bs).compile .standard = .ok (singleGrammar ys)) (hperm : xs.Perm ys) (n : Nat)
    (hx : directFor (singleGrammar xs) n
      (.perform (.rule (singleRule xs)) (.first text standardLimit) []) = true)
    (hy : directFor (singleGrammar ys) n
      (.perform (.rule (singleRule ys)) (.first text standardLimit) []) = true)
    (p p' : Fin (text.size + 1)) (hp : p' ≠ p) (b : Bool)
    (hc : ((singleGrammar xs).parse text none standardLimit).toOption.map
      (fun c => (c.pos, c.matched)) = some (p, !b))
    (hc' : ((singleGrammar ys).parse text none standardLimit).toOption.map
      (fun c => (c.pos, c.matched)) = some (p', b)) :
    OrderMatters (single as) (single bs) text := by
  obtain ⟨c, hparse, hval⟩ := exists_of_toOption_map hc
  obtain ⟨c', hparse', hval'⟩ := exists_of_toOption_map hc'
  obtain ⟨rfl, hflag⟩ := Prod.mk.inj hval
  obtain ⟨rfl, hflag'⟩ := Prod.mk.inj hval'
  refine ⟨_, _, ha, hb, reordered_single hperm, Grammar.directParse_of_directFor rfl hx,
    Grammar.directParse_of_directFor rfl hy, c, c', hparse, hparse', hp, ?_⟩
  rw [hflag, hflag']
  exact fun h => absurd h (by simp)

/-- On `abc` the rule comes to the end if its last alternative is tried while `a` is the longest match;
behind `ab` it finds no `b`. On `x` it comes to the end if the empty match is found first. -/
theorem order_matters :
    OrderMatters
      (single [[.literal "a"], [.literal "a", .literal "b"],
        [.reference "s", .literal "b", .literal "c"]])
      (single [[.literal "a"], [.reference "s", .literal "b", .literal "c"],
        [.literal "a", .literal "b"]]) #['a', 'b', 'c'] ∧
    OrderMatters (single [[.reference "s", .literal "x"], [.literal ""]])
      (single [[.literal ""], [.reference "s", .literal "x"]]) #['x'] := by
  constructor
  · exact orderMatters_single rfl rfl (.cons _ (.swap _ _ [])) 200 (by decide +kernel)
      (by decide +kernel) 2 3 (by decide) true (by decide +kernel) (by decide +kernel)
  · exact orderMatters_single rfl rfl (.swap _ _ []) 200 (by decide +kernel)
      (by decide +kernel) 0 1 (by decide) true (by decide +kernel) (by decide +kernel)

end Packrat
