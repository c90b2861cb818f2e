import Mathlib.Data.List.Forall2
import Packrat.Fault
import Packrat.Proofs.Grammar
import Packrat.Proofs.RuleSet.Plain
import Packrat.Regex.Standard

/-!
# `Packrat/Proofs/RuleSet/Compiling.lean` — what becomes of the rules of grammar text

Compiling refuses much that a rule set may hold: rules without alternatives, alternatives without
items, two rules of one name, flags that there are not, values that are no items. Grammar text can say
none of this, so a rule set that was read is refused for a pattern or not at all, and then it becomes
the grammar that mirrors it, term by term (`compile_of_read`).

Items are compiled in the order in which they stand, and the first that is refused ends it. Every
part of the compiler therefore goes by the items that it is about: it comes through if all of them
become terms, and otherwise fails with the first pattern that is refused (`Follows`). There is one
lemma for a step behind another, and each part is put together from such steps.

Which patterns can be read is up to the library of regular expressions, and nothing here depends on
it. A pattern that is refused is a fault of the grammar, with one exception: what the library calls a
misuse of its own ends compiling as it is.
-/

set_option autoImplicit false

namespace Packrat

variable {lib : Regex.Library}

/-! ## Patterns and items -/

namespace Pattern

/-- The pattern begins with a sign that stands for the start of the whole text. -/
def Pinned (source : String) : Prop :=
  ['^'] <+: source.toList ∨ ['\\', 'A'] <+: source.toList

/-- The pattern with these flags is refused, and for what. -/
inductive Refused (lib : Regex.Library) (source letters : String) : PatternFault → Prop
  | invalid {f : Regex.Flags} {why : Regex.Refusal} (hf : flags letters.toList = .ok f)
      (h : lib.read source f = .error why) : Refused lib source letters (.invalid source why)
  | pinned {f : Regex.Flags} {r : Regex} (hf : flags letters.toList = .ok f)
      (hr : lib.read source f = .ok r) (h : Pinned source) :
      Refused lib source letters (.pinned source)

end Pattern

/-- The term that an item stands for. -/
inductive Item.Becomes (lib : Regex.Library) : Item → Term → Prop
  | literal (text : CodePoints) : Becomes lib (.literal text) (.literal text)
  | pattern {source letters : String} {f : Regex.Flags} {r : Regex}
      (hf : Pattern.flags letters.toList = .ok f) (hr : lib.read source f = .ok r)
      (hs : r.source = source) (hfree : ¬ Pattern.Pinned source) :
      Becomes lib (.pattern source letters) (.pattern r)
  | reference (name : String) : Becomes lib (.reference name) (.reference name)

/-- The alternative stands for the items, and records its matches under the rule. -/
structure Sequence.Becomes (lib : Regex.Library) (rule : String) (is : Sequence)
    (a : Alternative) : Prop where
  owner : a.owner = rule
  terms : List.Forall₂ (Item.Becomes lib) is a.terms

namespace RuleSet

structure RuleBecomes (lib : Regex.Library) (rule : String × List Sequence) (r : Rule) :
    Prop where
  name : r.name = rule.1
  alternatives : List.Forall₂ (Sequence.Becomes lib rule.1) rule.2 r.alternatives

/-- The grammar has the rules of the rule set, in the same order, and each of them its alternatives and
their items as terms. -/
structure Becomes (lib : Regex.Library) (s : RuleSet) (g : Grammar) : Prop where
  start : g.start = s.start
  rules : List.Forall₂ (RuleBecomes lib) s.rules g.rules

/-- The items of a rule set, in the order in which they stand. -/
def items (s : RuleSet) : List Item := s.rules.flatMap fun rule => rule.2.flatten

end RuleSet

/-- The first item that does not become a term is a pattern, refused for `p`. -/
inductive RefusedFirst (lib : Regex.Library) : List Item → PatternFault → Prop
  | here {source letters : String} {p : PatternFault} (h : Pattern.Refused lib source letters p)
      (is : List Item) : RefusedFirst lib (.pattern source letters :: is) p
  | later {i : Item} {t : Term} {is : List Item} {p : PatternFault} (hi : i.Becomes lib t)
      (h : RefusedFirst lib is p) : RefusedFirst lib (i :: is) p

namespace Pattern

theorem isPinned_iff (source : String) : isPinned source = true ↔ Pinned source := by
  unfold isPinned Pinned
  generalize source.toList = cs
  split
  · simp
  · simp
  · rename_i hcaret hescape
    refine iff_of_false (by simp) ?_
    rintro (⟨rest, rfl⟩ | ⟨rest, rfl⟩)
    · exact hcaret rest rfl
    · exact hescape rest rfl

theorem exists_flags {letters : List Char} (h : AreFlags letters) : ∃ f, flags letters = .ok f := by
  induction letters with
  | nil => exact ⟨_, rfl⟩
  | cons c cs ih =>
    obtain ⟨f, hf⟩ := ih fun d hd => h d (List.mem_cons_of_mem c hd)
    obtain ⟨f', hf'⟩ : ∃ f', flag? c = some f' := by
      have hc := h c List.mem_cons_self
      simp only [Lexeme.isFlag, Bool.or_eq_true, beq_iff_eq] at hc
      rcases hc with (((rfl | rfl) | rfl) | rfl) | rfl <;> exact ⟨_, rfl⟩
    exact ⟨f'.union f, by rw [flags, hf', hf]; rfl⟩

/-- A pattern with known flags is accepted, or refused. -/
theorem ofSource_cases {source letters : String} (h : AreFlags letters.toList) :
    (∃ r, ofSource lib source letters = .ok r ∧
      (Item.pattern source letters).Becomes lib (.pattern r)) ∨
    ∃ p, ofSource lib source letters = .error p ∧ Refused lib source letters p := by
  obtain ⟨f, hf⟩ := exists_flags h
  cases hread : lib.read source f with
  | error why => exact .inr ⟨_, by rw [ofSource, hf]; simp only [hread], .invalid hf hread⟩
  | ok r =>
    have hs := lib.source_read hread
    have haccept : ofSource lib source letters = accept r := by
      rw [ofSource, hf]
      simp only [hread]
    rw [haccept, accept, hs]
    by_cases hpinned : Pinned source
    · exact .inr ⟨_, if_pos ((isPinned_iff source).2 hpinned), .pinned hf hread hpinned⟩
    · exact .inl ⟨r, if_neg (mt (isPinned_iff source).1 hpinned), .pattern hf hread hs hpinned⟩

end Pattern

/-! ## The first item that is refused -/

theorem Pattern.Refused.not_becomes {source letters : String} {p : PatternFault}
    (h : Pattern.Refused lib source letters p) {t : Term} :
    ¬ (Item.pattern source letters).Becomes lib t := by
  rintro (_ | ⟨hf, hr, -, hfree⟩ | _)
  cases h with
  | invalid hf' h =>
    cases hf.symm.trans hf'
    cases hr.symm.trans h
  | pinned _ _ hpinned => exact hfree hpinned

theorem Pattern.Refused.unique {source letters : String} {p p' : PatternFault}
    (h : Pattern.Refused lib source letters p) (h' : Pattern.Refused lib source letters p') :
    p = p' := by
  cases h with
  | invalid hf h =>
    cases h' with
    | invalid hf' h' =>
      cases hf.symm.trans hf'
      cases h.symm.trans h'
      rfl
    | pinned hf' hr' _ =>
      cases hf.symm.trans hf'
      cases h.symm.trans hr'
  | pinned hf hr _ =>
    cases h' with
    | invalid hf' h' =>
      cases hf.symm.trans hf'
      cases hr.symm.trans h'
    | pinned _ _ _ => rfl

namespace RefusedFirst

variable {is js : List Item} {p p' : PatternFault}

theorem append_right (h : RefusedFirst lib is p) (js : List Item) :
    RefusedFirst lib (is ++ js) p := by
  induction h with
  | here h is => exact .here h _
  | later hi _ ih => exact .later hi ih

theorem append_left (h : RefusedFirst lib js p) (his : ∀ i ∈ is, ∃ t, i.Becomes lib t) :
    RefusedFirst lib (is ++ js) p := by
  induction is with
  | nil => exact h
  | cons i is ih =>
    obtain ⟨t, ht⟩ := his i List.mem_cons_self
    exact .later ht (ih fun j hj => his j (List.mem_cons_of_mem i hj))

theorem not_forall_becomes (h : RefusedFirst lib is p) : ¬ ∀ i ∈ is, ∃ t, i.Becomes lib t := by
  intro hall
  induction h with
  | here h is =>
    obtain ⟨t, ht⟩ := hall _ List.mem_cons_self
    exact h.not_becomes ht
  | later _ _ ih => exact ih fun j hj => hall j (List.mem_cons_of_mem _ hj)

/-- An item is refused because its pattern cannot be read, or is pinned. -/
theorem invalid_or_pinned (h : RefusedFirst lib is p) :
    (∃ source why, p = .invalid source why) ∨ ∃ source, p = .pinned source := by
  induction h with
  | here h _ =>
    cases h with
    | invalid _ _ => exact .inl ⟨_, _, rfl⟩
    | pinned _ _ _ => exact .inr ⟨_, rfl⟩
  | later _ _ ih => exact ih

theorem unique (h : RefusedFirst lib is p) (h' : RefusedFirst lib is p') : p = p' := by
  induction h with
  | here h is =>
    cases h' with
    | here h' _ => exact h.unique h'
    | later hi _ => exact absurd hi h.not_becomes
  | later hi _ ih =>
    cases h' with
    | here h' _ => exact absurd hi h'.not_becomes
    | later _ h' => exact ih h'

end RefusedFirst

/-! ## Going by the items -/

/-- The result comes through if all the items become terms, and then `R` holds of it; otherwise it fails
with the first item that is refused. -/
inductive Follows (lib : Regex.Library) {α : Type} (is : List Item) (R : α → Prop) :
    Except CompileFault α → Prop
  | through {y : α} (h : ∀ i ∈ is, ∃ t, i.Becomes lib t) (hy : R y) : Follows lib is R (.ok y)
  | refused {p : PatternFault} (h : RefusedFirst lib is p) : Follows lib is R (.error (.pattern p))

namespace Follows

variable {α β : Type} {is js : List Item} {R : α → Prop} {T : β → Prop} {x : Except CompileFault α}

theorem ok {y : α} (hy : R y) : Follows lib [] R (.ok y) := .through (by simp) hy

/-- A step behind another one goes by the items of both. -/
theorem bind (hx : Follows lib is R x) {f : α → Except CompileFault β}
    (hf : ∀ y, R y → Follows lib js T (f y)) : Follows lib (is ++ js) T (x >>= f) := by
  cases hx with
  | @through y his hy =>
    have hrest := hf y hy
    show Follows lib (is ++ js) T (f y)
    generalize f y = r at hrest
    cases hrest with
    | through hjs hz =>
      refine .through (fun i hi => ?_) hz
      rcases List.mem_append.1 hi with hi | hi
      · exact his i hi
      · exact hjs i hi
    | refused h => exact .refused (h.append_left his)
  | refused h => exact .refused (h.append_right js)

theorem map (hx : Follows lib is R x) {f : α → β} (hf : ∀ y, R y → T (f y)) :
    Follows lib is T (x.map f) := by
  cases hx with
  | through h hy => exact .through h (hf _ hy)
  | refused h => exact .refused h

/-- A last step that looks at no items. -/
theorem andThen (hx : Follows lib is R x) {f : α → β} (hf : ∀ y, R y → T (f y)) :
    Follows lib is T (x >>= fun y => .ok (f y)) := by
  rw [← List.append_nil is]
  exact hx.bind fun y hy => .ok (hf y hy)

theorem mapM {S : α → β → Prop} {f : α → Except CompileFault β} {items : α → List Item} :
    ∀ {xs : List α}, (∀ x ∈ xs, Follows lib (items x) (S x) (f x)) →
      Follows lib (xs.flatMap items) (List.Forall₂ S xs) (xs.mapM f)
  | [], _ => .ok .nil
  | x :: xs, h => by
    rw [List.mapM_cons, List.flatMap_cons]
    refine (h x List.mem_cons_self).bind fun y hy => ?_
    exact (mapM fun z hz => h z (List.mem_cons_of_mem x hz)).andThen fun ys hys => .cons hy hys

theorem of_eq_ok (hx : Follows lib is R x) {y : α} (h : x = .ok y) : R y := by
  cases hx with
  | through _ hy =>
    cases h
    exact hy
  | refused _ => cases h

/-- A result that goes by the items fails just as the first refused of them says. -/
theorem eq_error_iff (hx : Follows lib is R x) {f : CompileFault} :
    x = .error f ↔ ∃ p, f = .pattern p ∧ RefusedFirst lib is p := by
  cases hx with
  | through h _ =>
    refine iff_of_false (by simp) ?_
    rintro ⟨p, -, hp⟩
    exact hp.not_forall_becomes h
  | @refused p h =>
    constructor
    · intro hf
      cases hf
      exact ⟨p, rfl, h⟩
    · rintro ⟨p', rfl, hp'⟩
      rw [h.unique hp']

end Follows

/-! ## The parts of the compiler -/

theorem Item.Plain.follows {i : Item} (h : i.Plain) :
    Follows lib [i] (i.Becomes lib) (i.compile lib) := by
  have hbecomes : ∀ {t : Term}, i.Becomes lib t → Follows lib [i] (i.Becomes lib) (.ok t) :=
    fun {t} ht => .through (by simpa using ⟨t, ht⟩) ht
  cases i with
  | literal text => exact hbecomes (.literal text)
  | reference name => exact hbecomes (.reference name)
  | pattern source letters =>
    rcases Pattern.ofSource_cases h.2 with ⟨r, hr, hb⟩ | ⟨p, hp, href⟩
    · rw [Item.compile, hr]
      exact hbecomes hb
    · rw [Item.compile, hp]
      exact .refused (.here href [])
  | regex _ _ => exact absurd h id
  | foreign _ => exact absurd h id

namespace RuleSet

theorem follows_compileSequence {is : Sequence} (h : is.Plain) (rule : String) (number : Nat) :
    Follows lib is (is.Becomes lib rule) (compileSequence lib rule number is) := by
  rw [compileSequence, if_neg (by simpa using h.1)]
  have hitems : Follows lib (is.flatMap fun i => [i]) _ _ :=
    Follows.mapM fun i hi => (h.2 i hi).follows
  rw [List.flatMap_singleton'] at hitems
  exact hitems.map fun ts hts => ⟨rfl, hts⟩

theorem follows_compileAlternatives (rule : String) : ∀ {ss : List Sequence} (number : Nat),
    (∀ is ∈ ss, Sequence.Plain is) →
      Follows lib ss.flatten (List.Forall₂ (Sequence.Becomes lib rule) ss)
        (compileAlternatives lib rule number ss)
  | [], _, _ => .ok .nil
  | is :: ss, number, h => by
    rw [compileAlternatives, List.flatten_cons]
    refine (follows_compileSequence (h is List.mem_cons_self) rule number).bind fun a ha => ?_
    exact (follows_compileAlternatives rule (number + 1) fun js hjs =>
      h js (List.mem_cons_of_mem is hjs)).andThen fun as has => .cons ha has

theorem PlainRule.follows {rule : String × List Sequence} (h : PlainRule rule) :
    Follows lib rule.2.flatten (RuleBecomes lib rule) (compileRule lib rule.1 rule.2) := by
  rw [compileRule, if_neg (by simpa using h.nonempty)]
  exact (follows_compileAlternatives rule.1 1 h.sequences).map fun as has => ⟨rfl, has⟩

theorem names_of_becomes {rules : List (String × List Sequence)} {rs : List Rule}
    (h : List.Forall₂ (RuleBecomes lib) rules rs) : rs.map (·.name) = rules.map Prod.fst := by
  induction h with
  | nil => rfl
  | cons hr _ ih => rw [List.map_cons, List.map_cons, hr.name, ih]

end RuleSet

namespace Grammar

theorem repeated?_eq_none {names : List String} (h : names.Nodup) {seen : List String}
    (hseen : ∀ n ∈ names, n ∉ seen) : repeated? seen names = none := by
  induction names generalizing seen with
  | nil => rfl
  | cons n names ih =>
    obtain ⟨hn, hnodup⟩ := List.nodup_cons.1 h
    rw [repeated?, if_neg (by simpa using hseen n List.mem_cons_self)]
    refine ih hnodup fun m hm hmem => ?_
    rcases List.mem_cons.1 hmem with rfl | hmem
    · exact hn hm
    · exact hseen m (List.mem_cons_of_mem n hm) hmem

/-- Rules of different names make up a grammar. -/
theorem ofRules_eq_ok {rules : List Rule} (h : (rules.map (·.name)).Nodup) (start : Option String) :
    ofRules rules start = .ok ⟨rules, start⟩ := by
  rw [ofRules, repeated?_eq_none h (by simp)]

end Grammar

namespace RuleSet

variable {s : RuleSet}

/-- Compiling a plain rule set goes by its items. -/
theorem Plain.follows (h : s.Plain) : Follows lib s.items (s.Becomes lib) (s.compile lib) := by
  rw [← List.append_nil s.items]
  refine (Follows.mapM fun rule hrule => (h.rules rule hrule).follows).bind fun rules hrules => ?_
  rw [Grammar.ofRules_eq_ok (by rw [names_of_becomes hrules]; exact h.nodup)]
  exact .ok ⟨rfl, hrules⟩

/-- A rule set that was read becomes the grammar that has the same rules with the same alternatives and
their items as terms, unless a pattern is refused; and if one is, compiling fails with the first that
is. It fails for nothing else. The fault is one of the grammar except where the regular expression is
refused as misused. -/
theorem compile_of_read {names : CharacterNames} {src : List Char}
    (h : RuleSet.read names src = .ok s) (lib : Regex.Library) :
    (∀ g, s.compile lib = .ok g → g.names = s.names ∧ s.Becomes lib g) ∧
    (∀ f, s.compile lib = .error f ↔ ∃ p, f = .pattern p ∧ RefusedFirst lib s.items p) ∧
    (((∃ g, s.compile lib = .ok g) ∨
        ∃ f, s.compile lib = .error f ∧ (Fault.compile f).kind = .grammar) ↔
      ¬ ∃ source message, RefusedFirst lib s.items (.invalid source (.misuse message))) := by
  have hfollows : Follows lib s.items _ _ := (plain_of_read h).follows
  refine ⟨fun g hg => ?_, fun f => hfollows.eq_error_iff, ?_, fun hno => ?_⟩
  · have hbecomes := hfollows.of_eq_ok hg
    exact ⟨names_of_becomes hbecomes.rules, hbecomes⟩
  · rintro hdone ⟨source, message, href⟩
    have herror := hfollows.eq_error_iff.2 ⟨_, rfl, href⟩
    rcases hdone with ⟨g, hg⟩ | ⟨f, hf, hkind⟩
    · cases hg.symm.trans herror
    · cases hf.symm.trans herror
      cases hkind
  · cases hc : s.compile lib with
    | ok g => exact .inl ⟨g, rfl⟩
    | error f =>
      obtain ⟨p, rfl, href⟩ := hfollows.eq_error_iff.1 hc
      refine .inr ⟨_, rfl, ?_⟩
      rcases href.invalid_or_pinned with ⟨source, why, rfl⟩ | ⟨source, rfl⟩
      · cases why with
        | misuse message => exact absurd ⟨source, message, href⟩ hno
        | malformed _ => rfl
      · rfl

/-! ## Three texts

In the first the rule `a` is declared twice, and its patterns stand between literals and a reference. In
the second the pattern of `b` is pinned, but that of `a` is refused before it. The pattern of the third
switches to Unicode what its flag switches to ASCII. -/

def mixedText : List Char := "%start b ; a : 'x' b | /[0-9]+/ ; b ::= /y/i ; a : \"z\" ;".toList

def refusedText : List Char := "a : 'x' | /[/ ; b : /^c/ ;".toList

def misusedText : List Char := "a : /(?u)x/A ;".toList

/-- The kind of the fault that compiling with the standard library ends with, if it ends with one. -/
def faultKind? (s : RuleSet) : Option FaultKind :=
  match s.compile .standard with
  | .ok _ => none
  | .error f => some (Fault.compile f).kind

theorem exists_of_faultKind? {k : FaultKind} (h : s.faultKind? = some k) :
    ∃ f, s.compile .standard = .error f ∧ (Fault.compile f).kind = k := by
  unfold faultKind? at h
  split at h
  · cases h
  · rename_i f hf
    exact ⟨f, hf, Option.some.inj h⟩

theorem compile_of_read_texts :
    (∃ s g, RuleSet.read .empty mixedText = .ok s ∧ s.compile .standard = .ok g ∧
      g.names = ["a", "b"] ∧ s.Becomes .standard g) ∧
    ∃ s p, RuleSet.read .empty refusedText = .ok s ∧ s.compile .standard = .error (.pattern p) ∧
      RefusedFirst .standard s.items p ∧ (Fault.compile (.pattern p)).kind = .grammar := by
  constructor
  · have hnames : (RuleSet.read .empty mixedText).toOption.map
        (fun s => (s.names, (s.compile .standard).toOption.isSome)) = some (["a", "b"], true) := by
      decide +kernel
    obtain ⟨s, hs, hboth⟩ := exists_of_toOption_map hnames
    obtain ⟨hnames, hsome⟩ := Prod.mk.inj hboth
    cases hc : s.compile .standard with
    | error f => simp [hc, Except.toOption] at hsome
    | ok g =>
      obtain ⟨hgnames, hbecomes⟩ := (compile_of_read hs .standard).1 g hc
      exact ⟨s, g, hs, hc, hgnames.trans hnames, hbecomes⟩
  · have hkind : (RuleSet.read .empty refusedText).toOption.map faultKind? = some (some .grammar) := by
      decide +kernel
    obtain ⟨s, hs, hkind⟩ := exists_of_toOption_map hkind
    obtain ⟨f, hf, hkind⟩ := exists_of_faultKind? hkind
    obtain ⟨p, rfl, href⟩ := ((compile_of_read hs .standard).2.1 f).1 hf
    exact ⟨s, p, hs, hf, href, hkind⟩

theorem misused_pattern_no_grammar_fault :
    ∃ s, RuleSet.read .empty misusedText = .ok s ∧
      ¬ ((∃ g, s.compile .standard = .ok g) ∨
        ∃ f, s.compile .standard = .error f ∧ (Fault.compile f).kind = .grammar) := by
  have hkind : (RuleSet.read .empty misusedText).toOption.map faultKind? = some (some .value) := by
    decide +kernel
  obtain ⟨s, hs, hkind⟩ := exists_of_toOption_map hkind
  obtain ⟨f, hf, hkind⟩ := exists_of_faultKind? hkind
  refine ⟨s, hs, ?_⟩
  rintro (⟨g, hg⟩ | ⟨f', hf', hgrammar⟩)
  · cases hf.symm.trans hg
  · cases hf.symm.trans hf'
    cases hkind.symm.trans hgrammar

end RuleSet

end Packrat
