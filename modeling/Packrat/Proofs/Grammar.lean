import Packrat.Compile
import Packrat.Program

/-!
# `Packrat/Proofs/Grammar.lean` — what compiling promises

Matches are recorded under the owner of an alternative and looked up under the name of a rule. A run
makes sense only where the two are the same, and in a compiled grammar they are: `owned_of_compile`.
-/

set_option autoImplicit false

namespace Packrat

/-! ## Taking a success apart -/

section

variable {ε δ α β : Type}

theorem exists_of_bind_ok {x : Except ε α} {f : α → Except ε β} {b : β} (h : x >>= f = .ok b) :
    ∃ a, x = .ok a ∧ f a = .ok b := by
  cases x with
  | error e => exact absurd h (by simp [bind, Except.bind])
  | ok a => exact ⟨a, rfl, h⟩

theorem exists_of_map_ok {x : Except ε α} {f : α → β} {b : β} (h : x.map f = .ok b) :
    ∃ a, x = .ok a ∧ f a = b := by
  cases x with
  | error e => exact absurd h (by simp [Except.map])
  | ok a => exact ⟨a, rfl, by simpa [Except.map] using h⟩

theorem exists_of_toOption_map {x : Except ε α} {f : α → β} {b : β}
    (h : x.toOption.map f = some b) : ∃ a, x = .ok a ∧ f a = b := by
  cases x with
  | error e => exact absurd h (by simp [Except.toOption])
  | ok a => exact ⟨a, rfl, by simpa [Except.toOption] using h⟩

theorem eq_of_mapError_ok {x : Except ε α} {f : ε → δ} {a : α} (h : x.mapError f = .ok a) :
    x = .ok a := by
  cases x with
  | error e => cases h
  | ok b =>
    cases h
    rfl

/-- What a fallible map yields comes from an element of the list. -/
theorem exists_of_mapM_ok {f : α → Except ε β} :
    ∀ {xs : List α} {ys : List β}, xs.mapM f = .ok ys → ∀ y ∈ ys, ∃ x ∈ xs, f x = .ok y
  | [], ys, h, y, hy => by
    cases h
    exact absurd hy (by simp)
  | x :: xs, ys, h, y, hy => by
    rw [List.mapM_cons] at h
    obtain ⟨z, hz, h⟩ := exists_of_bind_ok h
    obtain ⟨zs, hzs, h⟩ := exists_of_bind_ok h
    cases h
    rcases List.mem_cons.1 hy with rfl | hy
    · exact ⟨x, List.mem_cons_self, hz⟩
    · obtain ⟨x', hx', hfx'⟩ := exists_of_mapM_ok hzs y hy
      exact ⟨x', List.mem_cons_of_mem x hx', hfx'⟩

end

/-! ## Rules and their owners -/

namespace Grammar

/-- The alternatives of each rule record their matches under its name. -/
def Owned (g : Grammar) : Prop := ∀ r ∈ g.rules, ∀ a ∈ r.alternatives, a.owner = r.name

theorem mem_of_rule? {g : Grammar} {name : String} {r : Rule} (h : g.rule? name = some r) :
    r ∈ g.rules := List.mem_of_find?_eq_some h

theorem name_of_rule? {g : Grammar} {name : String} {r : Rule} (h : g.rule? name = some r) :
    r.name = name := by
  have := List.find?_some h
  simpa using this

theorem Owned.of_rule? {g : Grammar} (h : g.Owned) {name : String} {r : Rule}
    (hr : g.rule? name = some r) : ∀ a ∈ r.alternatives, a.owner = r.name :=
  h r (mem_of_rule? hr)

/-- The term stands somewhere in the grammar. -/
def Uses (g : Grammar) (t : Term) : Prop := ∃ r ∈ g.rules, ∃ a ∈ r.alternatives, t ∈ a.terms

/-- Every reference names a rule. -/
def Resolved (g : Grammar) : Prop := ∀ r ∈ g.rules, ∀ name ∈ referencesOf r, g.contains name = true

theorem uses_of_alternative {g : Grammar} {r : Rule} (hr : g.rule? r.name = some r)
    {a : Alternative} (ha : a ∈ r.alternatives) : ∀ t ∈ a.terms, g.Uses t :=
  fun _ ht => ⟨r, mem_of_rule? hr, a, ha, ht⟩

theorem exists_rule?_of_contains {g : Grammar} {name : String} (h : g.contains name = true) :
    ∃ r, g.rule? name = some r := by
  rw [contains, names, List.contains_iff_mem] at h
  obtain ⟨r, hr, rfl⟩ := List.mem_map.1 h
  exact Option.isSome_iff_exists.1 (List.find?_isSome.2 ⟨r, hr, beq_self_eq_true _⟩)

theorem Resolved.exists_rule? {g : Grammar} (h : g.Resolved) {name : String}
    (hn : g.Uses (.reference name)) : ∃ r, g.rule? name = some r := by
  obtain ⟨r, hr, a, ha, ht⟩ := hn
  refine exists_rule?_of_contains (h r hr name ?_)
  exact List.mem_flatMap.2 ⟨a, ha, List.mem_filterMap.2 ⟨_, ht, rfl⟩⟩

/-- A grammar that is not refused has no reference that leads nowhere. -/
theorem resolved_of_check {g : Grammar} (h : g.check = .ok ()) : g.Resolved := by
  intro r hr name hname
  rw [check] at h
  split at h
  · rename_i hempty
    rw [List.isEmpty_iff, dangling, List.append_eq_nil_iff, List.flatMap_eq_nil_iff] at hempty
    have hnone := List.filterMap_eq_nil_iff.1 (hempty.1 r hr) name hname
    cases hc : g.contains name with
    | true => rfl
    | false => exact absurd hnone (by simp [hc])
  · exact absurd h (by simp)

theorem rule?_of_startRule {g : Grammar} {start : Option String} {r : Rule}
    (h : g.startRule start = .ok r) : g.rule? r.name = some r := by
  unfold startRule at h
  split at h
  · exact absurd h (by simp)
  · split at h
    · exact absurd h (by simp)
    · rename_i name r' hr
      cases h
      rw [name_of_rule? hr]
      exact hr

theorem rules_of_ofRules {rules : List Rule} {start : Option String} {g : Grammar}
    (h : ofRules rules start = .ok g) : g.rules = rules := by
  unfold ofRules at h
  split at h
  · exact absurd h (by simp)
  · cases h
    rfl

end Grammar

namespace RuleSet

variable {lib : Regex.Library}

theorem owner_of_compileSequence {rule : String} {number : Nat} {s : Sequence} {a : Alternative}
    (h : compileSequence lib rule number s = .ok a) : a.owner = rule := by
  unfold compileSequence at h
  split at h
  · exact absurd h (by simp)
  · obtain ⟨ts, -, rfl⟩ := exists_of_map_ok h
    rfl

/-- An alternative of a compiled rule is one of its sequences, compiled. -/
theorem exists_of_compileAlternatives {rule : String} : ∀ {ss : List Sequence} {number : Nat}
    {as : List Alternative}, compileAlternatives lib rule number ss = .ok as →
      ∀ a ∈ as, ∃ s ∈ ss, ∃ n, compileSequence lib rule n s = .ok a
  | [], _, as, h, a, ha => by
    cases h
    exact absurd ha (by simp)
  | s :: ss, number, as, h, a, ha => by
    rw [compileAlternatives] at h
    obtain ⟨b, hb, h⟩ := exists_of_bind_ok h
    obtain ⟨bs, hbs, h⟩ := exists_of_bind_ok h
    cases h
    rcases List.mem_cons.1 ha with rfl | ha
    · exact ⟨s, List.mem_cons_self, number, hb⟩
    · obtain ⟨s', hs', n, hn⟩ := exists_of_compileAlternatives hbs a ha
      exact ⟨s', List.mem_cons_of_mem s hs', n, hn⟩

theorem exists_of_compileRule {name : String} {ss : List Sequence} {r : Rule}
    (h : compileRule lib name ss = .ok r) :
    ∃ as, compileAlternatives lib name 1 ss = .ok as ∧ r = ⟨name, as⟩ := by
  unfold compileRule at h
  split at h
  · exact absurd h (by simp)
  · obtain ⟨as, has, hr⟩ := exists_of_map_ok h
    exact ⟨as, has, hr.symm⟩

/-- An alternative of a compiled grammar is a sequence of a rule, compiled under the name of the
rule. -/
theorem exists_of_compile {s : RuleSet} {g : Grammar} (h : s.compile lib = .ok g) {r : Rule}
    (hr : r ∈ g.rules) {a : Alternative} (ha : a ∈ r.alternatives) :
    ∃ rule ∈ s.rules, rule.1 = r.name ∧ ∃ is ∈ rule.2, ∃ n,
      compileSequence lib r.name n is = .ok a := by
  obtain ⟨rules, hrules, hg⟩ := exists_of_bind_ok h
  rw [Grammar.rules_of_ofRules (eq_of_mapError_ok hg)] at hr
  obtain ⟨⟨name, ss⟩, hmem, hc⟩ := exists_of_mapM_ok hrules r hr
  obtain ⟨as, has, rfl⟩ := exists_of_compileRule hc
  obtain ⟨is, his, n, hn⟩ := exists_of_compileAlternatives has a ha
  exact ⟨(name, ss), hmem, rfl, is, his, n, hn⟩

/-- In a compiled grammar every match is recorded under the rule that made it. -/
theorem owned_of_compile {s : RuleSet} {g : Grammar} (h : s.compile lib = .ok g) : g.Owned := by
  intro r hr a ha
  obtain ⟨_, _, _, _, _, _, hn⟩ := exists_of_compile h hr ha
  exact owner_of_compileSequence hn

/-- A term of a compiled grammar is an item of the rule set, compiled. -/
theorem item_of_compile {s : RuleSet} {g : Grammar} (h : s.compile lib = .ok g) {t : Term}
    (ht : g.Uses t) : ∃ rule ∈ s.rules, ∃ is ∈ rule.2, ∃ i ∈ is, i.compile lib = .ok t := by
  obtain ⟨r, hr, a, ha, ht⟩ := ht
  obtain ⟨rule, hrule, -, is, his, n, hn⟩ := exists_of_compile h hr ha
  unfold compileSequence at hn
  split at hn
  · exact absurd hn (by simp)
  · obtain ⟨ts, hts, rfl⟩ := exists_of_map_ok hn
    obtain ⟨i, hi, hc⟩ := exists_of_mapM_ok hts t ht
    exact ⟨rule, hrule, is, his, i, hi, hc⟩

/-! ### What can be run -/

/-- No value stands where an item belongs, or the text of one. -/
def WellTyped (s : RuleSet) : Prop :=
  ∀ rule ∈ s.rules, ∀ is ∈ rule.2, ∀ f, Item.foreign f ∉ is

end RuleSet

/-- The term is a text, a pattern or a reference. -/
def Term.Proper : Term → Prop
  | .foreignLiteral _ => False
  | .foreign _ => False
  | _ => True

theorem Item.proper_of_compile {lib : Regex.Library} {i : Item} {t : Term}
    (h : i.compile lib = .ok t) (hi : ∀ f, i ≠ .foreign f) : t.Proper := by
  cases i with
  | literal _ | reference _ =>
    cases h
    exact trivial
  | pattern _ _ | regex _ _ =>
    obtain ⟨_, -, rfl⟩ := exists_of_map_ok h
    exact trivial
  | foreign f => exact absurd rfl (hi f)

/-- A pattern without flags becomes what the library reads. -/
theorem Item.compile_pattern {lib : Regex.Library} {source : String} {r : Regex}
    (hpinned : Pattern.isPinned source = false) (h : lib.read source {} = .ok r) :
    (Item.pattern source "").compile lib = .ok (.pattern r) := by
  have hflags : Pattern.flags "".toList = .ok {} := rfl
  rw [Item.compile, Pattern.ofSource, hflags]
  dsimp only
  rw [h]
  dsimp only
  rw [Pattern.accept, lib.source_read h, hpinned]
  rfl

/-- All terms of the grammar can be run: references lead to rules, and nothing stands where a term
belongs that is none. -/
structure Grammar.Runnable (g : Grammar) : Prop where
  resolved : g.Resolved
  proper : ∀ t, g.Uses t → t.Proper

namespace RuleSet

theorem runnable_of_compile {lib : Regex.Library} {s : RuleSet} {g : Grammar}
    (h : s.compile lib = .ok g) (ht : s.WellTyped) (hr : g.Resolved) : g.Runnable := by
  refine ⟨hr, fun t hu => ?_⟩
  obtain ⟨rule, hrule, is, his, i, hi, hc⟩ := item_of_compile h hu
  refine Item.proper_of_compile hc fun f hf => ?_
  subst hf
  exact ht rule hrule is his f hi

end RuleSet

end Packrat
