import Packrat.Proofs.DepthLimit

/-!
# `Packrat/Proofs/Checked.lean` — what a checked grammar can still run into

`Grammar.check` reads the rules and never a text. It lets a grammar through exactly when every
reference in it names a rule, and the start rule does (`Grammar.check_eq_ok_iff`). That is enough for
every run: whatever the text, a run that ends with a fault ends with that of the limit.

A term may also be no term at all, and that the check does not see. Rule sets in which items are items
have no such term (`RuleSet.WellTyped`).
-/

set_option autoImplicit false

namespace Packrat

variable {g : Grammar} {text : Text}

namespace Grammar

/-! ## The check -/

theorem contains_iff (g : Grammar) (name : String) :
    g.contains name = true ↔ ∃ r ∈ g.rules, r.name = name := by
  rw [contains, names, List.contains_iff_mem, List.mem_map]

theorem mem_referencesOf {r : Rule} {name : String} :
    name ∈ referencesOf r ↔ ∃ a ∈ r.alternatives, .reference name ∈ a.terms := by
  rw [referencesOf, List.mem_flatMap]
  refine exists_congr fun a => and_congr_right fun _ => ?_
  rw [List.mem_filterMap]
  constructor
  · rintro ⟨t, ht, hname⟩
    cases t with
    | reference n =>
      cases hname
      exact ht
    | literal _ | pattern _ | foreignLiteral _ | foreign _ => exact absurd hname (by simp)
  · exact fun ht => ⟨_, ht, rfl⟩

/-- What is listed as dangling is a name that no rule has. It is listed for a rule that refers to it,
and without a rule when it is the start. -/
theorem mem_dangling_iff {d : Dangling} :
    d ∈ g.dangling ↔ (¬ ∃ r ∈ g.rules, r.name = d.name) ∧
      ((∃ r ∈ g.rules, d.usedIn = some r.name ∧
        ∃ a ∈ r.alternatives, .reference d.name ∈ a.terms) ∨
      (d.usedIn = none ∧ g.start = some d.name)) := by
  have hmissing : ∀ name, (¬ ∃ r ∈ g.rules, r.name = name) ↔ g.contains name = false := by
    intro name
    rw [← contains_iff, Bool.not_eq_true]
  have hrules : (d ∈ g.rules.flatMap fun r => (referencesOf r).filterMap fun name =>
      if g.contains name then none else some ⟨name, some r.name⟩) ↔
      g.contains d.name = false ∧ ∃ r ∈ g.rules, d.usedIn = some r.name ∧
        ∃ a ∈ r.alternatives, .reference d.name ∈ a.terms := by
    simp only [List.mem_flatMap, List.mem_filterMap, ← mem_referencesOf]
    constructor
    · rintro ⟨r, hr, name, hname, hd⟩
      cases hc : g.contains name with
      | true => simp [hc] at hd
      | false =>
        rw [hc] at hd
        cases hd
        exact ⟨hc, r, hr, rfl, hname⟩
    · rintro ⟨hc, r, hr, hused, hname⟩
      refine ⟨r, hr, d.name, hname, ?_⟩
      rw [hc, ← hused]
      rfl
  rw [hmissing, dangling, List.mem_append, and_or_left]
  refine or_congr hrules ?_
  cases g.start with
  | none => simp
  | some name =>
    cases hc : g.contains name with
    | true =>
      simp only [hc, if_true, List.not_mem_nil, false_iff]
      rintro ⟨hd, -, hname⟩
      cases hname
      rw [hc] at hd
      cases hd
    | false =>
      simp only [hc, Bool.false_eq_true, if_false, List.mem_singleton]
      constructor
      · rintro rfl
        exact ⟨hc, rfl, rfl⟩
      · rintro ⟨-, hused, hname⟩
        cases hname
        rw [← hused]

/-- The check lets a grammar through exactly when the references of all its rules name rules, and so
does the start if there is one. -/
theorem check_eq_ok_iff (g : Grammar) :
    g.check = .ok () ↔
      (∀ r ∈ g.rules, ∀ a ∈ r.alternatives, ∀ name, .reference name ∈ a.terms →
        ∃ target ∈ g.rules, target.name = name) ∧
      ∀ name, g.start = some name → ∃ target ∈ g.rules, target.name = name := by
  have hempty : g.check = .ok () ↔ ∀ d, d ∉ g.dangling := by
    rw [check, ← List.eq_nil_iff_forall_not_mem, ← List.isEmpty_iff]
    cases g.dangling.isEmpty <;> simp
  rw [hempty]
  constructor
  · intro h
    refine ⟨fun r hr a ha name ht => ?_, fun name hs => ?_⟩
    · by_contra hno
      exact h ⟨name, some r.name⟩ (mem_dangling_iff.2 ⟨hno, .inl ⟨r, hr, rfl, a, ha, ht⟩⟩)
    · by_contra hno
      exact h ⟨name, none⟩ (mem_dangling_iff.2 ⟨hno, .inr ⟨rfl, hs⟩⟩)
  · rintro ⟨hrules, hstart⟩ d hd
    obtain ⟨hno, ⟨r, hr, -, a, ha, ht⟩ | ⟨-, hs⟩⟩ := mem_dangling_iff.1 hd
    · exact hno (hrules r hr a ha d.name ht)
    · exact hno (hstart d.name hs)

/-! ## The runs of a checked grammar -/

/-- A grammar that can be run is stopped by nothing but the limit. -/
theorem run_free_or_refused {r : Rule} (hg : g.Owned) (hrun : g.Runnable)
    (hr : g.rule? r.name = some r) (text : Text) (limit : Int) :
    (∀ f c, g.run text limit r ≠ .stopped f c) ∨
      ∃ name q c, g.run text limit r = .stopped (.tooDeep name q limit) c := by
  -- under a limit that is as good as none the run has an answer, and a depth
  obtain ⟨free, hlimit⟩ : ∃ free : Int, (g.size * (text.size + 1) : Nat) - 1 ≤ free :=
    ⟨_, Int.le_refl _⟩
  have hfree := run_ne_stopped hg hrun hr hlimit
  by_cases hroom : ∀ d ∈ g.depths text free r, (d : Int) ≤ max limit 0
  · left
    rw [(run_under hfree hroom).1]
    exact Result.under_ne_stopped hfree
  · right
    push Not at hroom
    obtain ⟨d, hd, hdeep⟩ := hroom
    exact run_tooDeep hr hfree hd hdeep

/-- The rule to begin with is there, if it is one of the grammar, or the start of a grammar that was
checked. -/
theorem exists_startRule (hc : g.check = .ok ()) {start : Option String}
    (h : (∃ r ∈ g.rules, start = some r.name) ∨ start = none ∧ g.start.isSome = true) :
    ∃ r, g.startRule start = .ok r := by
  have hname : ∃ name, start.or g.start = some name ∧ g.contains name = true := by
    rcases h with ⟨r, hr, rfl⟩ | ⟨rfl, hs⟩
    · exact ⟨r.name, rfl, (contains_iff g _).2 ⟨r, hr, rfl⟩⟩
    · obtain ⟨name, hs⟩ := Option.isSome_iff_exists.1 hs
      exact ⟨name, hs, (contains_iff g _).2 (((check_eq_ok_iff g).1 hc).2 name hs)⟩
  obtain ⟨name, hor, hcon⟩ := hname
  obtain ⟨r, hr⟩ := exists_rule?_of_contains hcon
  exact ⟨r, by rw [startRule, hor]; dsimp only; rw [hr]⟩

end Grammar

/-- The check is exact about references, and a grammar that it lets through has an answer for every
text and from every rule, or a fault that names the limit. -/
theorem checked_stopped_only_by_limit {lib : Regex.Library} {s : RuleSet}
    (hs : s.compile lib = .ok g) (ht : s.WellTyped) :
    (g.check = .ok () ↔
      (∀ r ∈ g.rules, ∀ a ∈ r.alternatives, ∀ name, .reference name ∈ a.terms →
        ∃ target ∈ g.rules, target.name = name) ∧
      ∀ name, g.start = some name → ∃ target ∈ g.rules, target.name = name) ∧
    (g.check = .ok () → ∀ (text : Text) (start : Option String) (limit : Int),
      ((∃ r ∈ g.rules, start = some r.name) ∨ start = none ∧ g.start.isSome = true) →
      (∃ c, g.parse text start limit = .ok c) ∨
        ∃ name q, g.parse text start limit = .error (.tooDeep name q limit)) := by
  refine ⟨Grammar.check_eq_ok_iff g, fun hc text start limit hstart => ?_⟩
  obtain ⟨r, hr⟩ := Grammar.exists_startRule hc hstart
  have hrun := RuleSet.runnable_of_compile hs ht (Grammar.resolved_of_check hc)
  rcases Grammar.run_free_or_refused (RuleSet.owned_of_compile hs) hrun
    (Grammar.rule?_of_startRule hr) text limit with hfree | ⟨name, q, c, hstop⟩
  · exact .inl ⟨_, Grammar.parse_of_run hr hfree⟩
  · refine .inr ⟨name, q, ?_⟩
    rw [Grammar.parse, hr]
    dsimp only
    rw [hstop]

/-- The grammar of sums has an answer for every text under a limit of a thousand, or says that a
thousand is too few. -/
theorem sums_stopped_only_by_limit :
    sums.compile .standard = .ok sumGrammar ∧ sums.WellTyped ∧ sumGrammar.check = .ok () ∧
    ∀ text : Text, (∃ c, sumGrammar.parse text none 1000 = .ok c) ∨
      ∃ name q, sumGrammar.parse text none 1000 = .error (.tooDeep name q 1000) := by
  have ht : sums.WellTyped := by simp [RuleSet.WellTyped, sums]
  obtain ⟨-, hparse⟩ := checked_stopped_only_by_limit (compile_sums .standard) ht
  exact ⟨rfl, ht, rfl, fun text => hparse rfl text none 1000 (.inr ⟨rfl, rfl⟩)⟩

end Packrat
