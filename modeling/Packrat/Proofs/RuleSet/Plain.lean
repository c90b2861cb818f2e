import Packrat.Proofs.RuleSet.Syntax

/-!
# `Packrat/Proofs/RuleSet/Plain.lean` — the rule sets that grammar text can say

A rule set may hold more than grammar text can write down: rules under any name, rules without
alternatives, compiled patterns, values that are no items. `RuleSet.Plain` leaves these out. What is
read is plain (`RuleSet.plain_of_read`), because every word is formed as its kind demands and because
collecting declarations keeps the names apart. And a plain rule set is what its own declarations make
up (`RuleSet.ofDeclarations_declarations`).
-/

set_option autoImplicit false

namespace Packrat

variable {names : CharacterNames}

/-! ## Plain rule sets -/

/-- The item can be written down: a name, a text, or a pattern given by its source. -/
def Item.Plain : Item → Prop
  | .literal _ => True
  | .pattern source flags => IsPattern source.toList ∧ AreFlags flags.toList
  | .reference name => IsName name.toList
  | .regex _ _ => False
  | .foreign _ => False

def Sequence.Plain (is : Sequence) : Prop := is ≠ [] ∧ ∀ i ∈ is, i.Plain

namespace RuleSet

/-- A rule with a name and alternatives, none of them empty. -/
structure PlainRule (rule : String × List Sequence) : Prop where
  name : IsName rule.1.toList
  nonempty : rule.2 ≠ []
  sequences : ∀ is ∈ rule.2, Sequence.Plain is

/-- Different rules that can be written down, and a start unless there are no rules. -/
structure Plain (s : RuleSet) : Prop where
  nodup : s.names.Nodup
  rules : ∀ rule ∈ s.rules, PlainRule rule
  start : ∀ name, s.start = some name → IsName name.toList
  started : s.start = none → s.rules = []

theorem plain_empty : ({} : RuleSet).Plain where
  nodup := .nil
  rules := by simp
  start := by simp
  started := by simp

/-! ## Adding alternatives -/

section

variable {name : String} {a : Sequence} {rules rest : List (String × List Sequence)}

theorem addTo_of_not_mem (h : name ∉ rules.map Prod.fst) :
    addTo name a rules = rules ++ [(name, [a])] := by
  induction rules with
  | nil => rfl
  | cons rule rules ih =>
    obtain ⟨hne, hrest⟩ := not_or.1 (mt List.mem_cons.2 h)
    rw [addTo, if_neg (Ne.symm hne), ih hrest]
    rfl

theorem addTo_append (h : name ∉ rules.map Prod.fst) (as : List Sequence) :
    addTo name a (rules ++ (name, as) :: rest) = rules ++ (name, as ++ [a]) :: rest := by
  induction rules with
  | nil =>
    rw [List.nil_append, addTo, if_pos rfl]
    rfl
  | cons rule rules ih =>
    obtain ⟨hne, hrest⟩ := not_or.1 (mt List.mem_cons.2 h)
    rw [List.cons_append, addTo, if_neg (Ne.symm hne), ih hrest]
    rfl

/-- The alternative goes to the rule of the name, wherever that stands, or to a new rule. -/
theorem addTo_cases (name : String) (a : Sequence) (rules : List (String × List Sequence)) :
    (name ∉ rules.map Prod.fst ∧ addTo name a rules = rules ++ [(name, [a])]) ∨
      ∃ before as behind, rules = before ++ (name, as) :: behind ∧
        addTo name a rules = before ++ (name, as ++ [a]) :: behind := by
  induction rules with
  | nil => exact Or.inl ⟨by simp, rfl⟩
  | cons rule rules ih =>
    obtain ⟨n, as⟩ := rule
    by_cases hn : n = name
    · subst hn
      exact Or.inr ⟨[], as, rules, rfl, by rw [addTo, if_pos rfl]; rfl⟩
    · rw [addTo, if_neg hn]
      rcases ih with ⟨hnot, he⟩ | ⟨before, as', behind, rfl, he⟩
      · refine Or.inl ⟨?_, by rw [he]; rfl⟩
        rw [List.map_cons, List.mem_cons]
        exact not_or.2 ⟨Ne.symm hn, hnot⟩
      · exact Or.inr ⟨(n, as) :: before, as', behind, rfl, by rw [he]; rfl⟩

end

theorem PlainRule.append {name : String} {as : List Sequence} (h : PlainRule (name, as))
    {a : Sequence} (ha : a.Plain) : PlainRule (name, as ++ [a]) where
  name := h.name
  nonempty := by simp
  sequences is his := by
    rcases List.mem_append.1 his with his | his
    · exact h.sequences is his
    · exact List.mem_singleton.1 his ▸ ha

theorem nodup_addTo {name : String} {a : Sequence} {rules : List (String × List Sequence)}
    (h : (rules.map Prod.fst).Nodup) : ((addTo name a rules).map Prod.fst).Nodup := by
  rcases addTo_cases name a rules with ⟨hnot, he⟩ | ⟨before, as, behind, hrules, he⟩
  · rw [he, List.map_append, List.nodup_append]
    refine ⟨h, by simp, fun n hn m hm hnm => hnot ?_⟩
    obtain rfl : m = name := by simpa using hm
    exact hnm ▸ hn
  · rw [hrules] at h
    rw [he]
    simpa using h

theorem plainRule_of_mem_addTo {name : String} (hname : IsName name.toList) {a : Sequence}
    (ha : a.Plain) {rules : List (String × List Sequence)} (h : ∀ rule ∈ rules, PlainRule rule) :
    ∀ rule ∈ addTo name a rules, PlainRule rule := by
  intro rule hrule
  rcases addTo_cases name a rules with ⟨-, he⟩ | ⟨before, as, behind, hrules, he⟩
  · rw [he] at hrule
    rcases List.mem_append.1 hrule with hrule | hrule
    · exact h rule hrule
    · rw [List.mem_singleton.1 hrule]
      exact ⟨hname, by simp, fun is his => List.mem_singleton.1 his ▸ ha⟩
  · rw [he, List.mem_append, List.mem_cons] at hrule
    rw [hrules] at h
    rcases hrule with hrule | rfl | hrule
    · exact h rule (List.mem_append_left _ hrule)
    · exact (h (name, as) (by simp)).append ha
    · exact h rule (List.mem_append_right _ (List.mem_cons_of_mem _ hrule))

theorem Plain.add {s : RuleSet} (h : s.Plain) {name : String} (hname : IsName name.toList)
    {a : Sequence} (ha : a.Plain) : (s.add name a).Plain where
  nodup := nodup_addTo h.nodup
  rules := plainRule_of_mem_addTo hname ha h.rules
  start n hn := by
    rcases Option.or_eq_some_iff.1 hn with hs | ⟨-, hs⟩
    · exact h.start n hs
    · cases hs
      exact hname
  started hnone := absurd hnone (by simp [RuleSet.add])

/-! ## Collecting declarations -/

/-- What one declaration adds to the rules so far and to the start that was named. -/
def collectOne : RuleSet × Option String → Declaration → RuleSet × Option String
  | (s, _), .start name => (s, some name)
  | (s, start), .rule name as => (as.foldl (fun s a => s.add name a) s, start)

theorem collect_eq (ds : List Declaration) : collect ds = ds.foldl collectOne ({}, none) := by
  unfold collect
  congr 1
  funext p d
  cases d <;> rfl

theorem ofDeclarations_eq (ds : List Declaration) :
    ofDeclarations ds =
      { (collect ds).1 with start := (collect ds).2.or (collect ds).1.start } := rfl

theorem Plain.foldl_add {name : String} (hname : IsName name.toList) {as : List Sequence}
    (has : ∀ a ∈ as, Sequence.Plain a) {s : RuleSet} (h : s.Plain) :
    (as.foldl (fun s a => s.add name a) s).Plain := by
  induction as generalizing s with
  | nil => exact h
  | cons a as ih =>
    exact ih (fun b hb => has b (List.mem_cons_of_mem a hb)) (h.add hname (has a List.mem_cons_self))

end RuleSet

/-! ## What words spell is plain -/

theorem splitPattern_patternLexeme {source flags : List Char} (h : AreFlags flags) :
    RuleSet.splitPattern (patternLexeme source flags) =
      (String.ofList source, String.ofList flags) := by
  have hflags : ∀ c ∈ flags.reverse, (c != '/') = true := by
    intro c hc
    have hflag := h c (List.mem_reverse.1 hc)
    rw [bne_iff_ne]
    rintro rfl
    exact absurd hflag (by decide)
  have hreverse : (patternLexeme source flags).reverse =
      flags.reverse ++ '/' :: ('/' :: source).reverse := by simp [patternLexeme]
  unfold RuleSet.splitPattern
  rw [hreverse, List.takeWhile_append_of_pos hflags, List.dropWhile_append_of_pos hflags]
  simp

theorem SpellsItem.plain {w : Word} {i : Item} (h : SpellsItem names w i) (hw : w.Formed) :
    i.Plain := by
  cases h with
  | reference name =>
    show IsName (String.ofList name).toList
    rw [String.toList_ofList]
    exact hw
  | literal _ _ => exact trivial
  | pattern lexeme =>
    obtain ⟨source, flags, rfl, hsource, hflags⟩ := hw
    rw [splitPattern_patternLexeme hflags]
    show IsPattern (String.ofList source).toList ∧ AreFlags (String.ofList flags).toList
    rw [String.toList_ofList, String.toList_ofList]
    exact ⟨hsource, hflags⟩

theorem plain_of_spellsItems {ws : List Word} {is : Sequence}
    (h : List.Forall₂ (SpellsItem names) ws is) (hws : ∀ w ∈ ws, w.Formed) : ∀ i ∈ is, i.Plain := by
  induction h with
  | nil => simp
  | @cons w i ws is hi _ ih =>
    intro j hj
    rcases List.mem_cons.1 hj with rfl | hj
    · exact hi.plain (hws w List.mem_cons_self)
    · exact ih (fun x hx => hws x (List.mem_cons_of_mem w hx)) j hj

theorem SpellsAlternatives.plain {ws : List Word} {as : List Sequence}
    (h : SpellsAlternatives names ws as) (hws : ∀ w ∈ ws, w.Formed) : ∀ a ∈ as, Sequence.Plain a := by
  induction h with
  | last h hne =>
    intro a ha
    rw [List.mem_singleton.1 ha]
    exact ⟨hne, plain_of_spellsItems h hws⟩
  | @more ws rest is as bar h hne _ ih =>
    intro a ha
    rcases List.mem_cons.1 ha with rfl | ha
    · exact ⟨hne, plain_of_spellsItems h fun w hw => hws w (List.mem_append_left _ hw)⟩
    · exact ih (fun w hw => hws w (List.mem_append_right _ (List.mem_cons_of_mem _ hw))) a ha

namespace RuleSet

/-- The rules so far are plain, and the start that was named has a name. -/
structure PlainSoFar (p : RuleSet × Option String) : Prop where
  rules : p.1.Plain
  start : ∀ name, p.2 = some name → IsName name.toList

theorem PlainSoFar.collectOne {p : RuleSet × Option String} (h : PlainSoFar p) {ws : List Word}
    {d : Declaration} (hd : SpellsDeclaration names ws d) (hws : ∀ w ∈ ws, w.Formed) :
    PlainSoFar (collectOne p d) := by
  obtain ⟨s, start⟩ := p
  have hname : ∀ name, (.ident, name) ∈ ws → IsName (String.ofList name).toList := by
    intro name hmem
    rw [String.toList_ofList]
    exact hws _ hmem
  cases hd with
  | start percent name semi =>
    refine ⟨h.rules, fun n hn => ?_⟩
    cases hn
    exact hname name (by simp)
  | rule name colon semi hk has =>
    refine ⟨h.rules.foldl_add (hname name (by simp)) (has.plain fun w hw => hws w ?_), h.start⟩
    simp [hw]

theorem plainSoFar_of_spells {ws : List Word} {ds : List Declaration} (h : SpellsAll names ws ds)
    (hws : ∀ w ∈ ws, w.Formed) {p : RuleSet × Option String} (hp : PlainSoFar p) :
    PlainSoFar (ds.foldl RuleSet.collectOne p) := by
  induction h generalizing p with
  | nil => exact hp
  | cons hd _ ih =>
    exact ih (fun w hw => hws w (List.mem_append_right _ hw))
      (hp.collectOne hd fun w hw => hws w (List.mem_append_left _ hw))

/-- What is read is plain. -/
theorem plain_of_read {src : List Char} {s : RuleSet} (h : RuleSet.read names src = .ok s) :
    s.Plain := by
  obtain ⟨ws, ds, hws, hds, -, rfl⟩ := read_eq_ok_iff.1 h
  have hp := plainSoFar_of_spells hds hws.formed (p := ({}, none)) ⟨plain_empty, by simp⟩
  rw [← collect_eq] at hp
  rw [ofDeclarations_eq]
  refine ⟨hp.rules.nodup, hp.rules.rules, fun n hn => ?_, fun hnone => ?_⟩
  · rcases Option.or_eq_some_iff.1 hn with hs | ⟨-, hs⟩
    · exact hp.start n hs
    · exact hp.rules.start n hs
  · exact hp.rules.started (Option.or_eq_none_iff.1 hnone).2

/-! ## The declarations of a rule set -/

/-- A rule set as the declarations that grammar text would hold. -/
def declarations (s : RuleSet) : List Declaration :=
  s.start.toList.map .start ++ s.rules.map fun rule => .rule rule.1 rule.2

/-- The alternatives of a rule that is there go to its end. -/
theorem foldl_add_old {name : String} {before : List (String × List Sequence)}
    (h : name ∉ before.map Prod.fst) (old as : List Sequence)
    (behind : List (String × List Sequence)) (start : String) :
    as.foldl (fun s a => s.add name a) ⟨before ++ (name, old) :: behind, some start⟩ =
      (⟨before ++ (name, old ++ as) :: behind, some start⟩ : RuleSet) := by
  induction as generalizing old with
  | nil => rw [List.foldl_nil, List.append_nil]
  | cons a as ih =>
    rw [List.foldl_cons, RuleSet.add, addTo_append h, Option.some_or, ih, List.append_assoc]
    rfl

/-- The alternatives of a rule that was not there make it a rule behind the others. -/
theorem foldl_add_new {s : RuleSet} {name : String} (h : name ∉ s.names) {as : List Sequence}
    (has : as ≠ []) :
    as.foldl (fun s a => s.add name a) s =
      ⟨s.rules ++ [(name, as)], s.start.or (some name)⟩ := by
  cases as with
  | nil => exact absurd rfl has
  | cons a as =>
    obtain ⟨start, hstart⟩ : ∃ start, s.start.or (some name) = some start := by
      cases s.start <;> exact ⟨_, rfl⟩
    rw [List.foldl_cons, RuleSet.add, addTo_of_not_mem h, hstart, foldl_add_old h]
    rfl

end RuleSet

end Packrat
