import Packrat.Proofs.RuleSet.Plain
import Packrat.RuleSet.Printer

/-!
# `Packrat/Proofs/RuleSet/RoundTrip.lean` — what is printed reads as what it was printed from

The printer puts words next to each other, with a blank, a bar or a line end between them, and never a
word right behind another. `Prints` says of a piece of printed text which words it splits into, whatever
comes behind it; pieces are joined by `Prints.intercalate`, at each of the three levels in the same way.
That the words spell the declarations of the rule set is all that reading needs (`read_print`).

A pattern that begins with a star is the exception: printed, it opens a comment.
-/

set_option autoImplicit false

namespace Packrat

variable {names : CharacterNames}

/-! ## Pieces of printed text -/

/-- The text splits into the words, in front of whatever may follow it. -/
def Prints (follow : List Char → Prop) (t : String) (ws : List Word) : Prop :=
  ∀ rest ws', follow rest → Words rest ws' → Words (t.toList ++ rest) (ws ++ ws')

/-- A blank comes next. -/
def BeforeBlank (rest : List Char) : Prop := ∃ cs, rest = ' ' :: cs

/-- Pieces with a separator between them, which splits into words of its own. -/
theorem Prints.intercalate {follow : List Char → Prop} {sep : String} {mark : List Word}
    (hsep : Prints (fun _ => True) sep mark) (hfollow : ∀ rest, follow (sep.toList ++ rest))
    {texts : List String} {wss : List (List Word)} (h : List.Forall₂ (Prints follow) texts wss) :
    Prints follow (sep.intercalate texts) (mark.intercalate wss) := by
  intro rest ws' hrest hws'
  induction h with
  | nil => exact hws'
  | @cons t ws texts wss ht hall ih =>
    cases hall with
    | nil =>
      rw [String.intercalate_singleton, List.intercalate_singleton]
      exact ht rest ws' hrest hws'
    | cons _ _ =>
      rw [String.intercalate_cons_cons, List.intercalate_cons_cons, String.toList_append,
        String.toList_append, List.append_assoc, List.append_assoc, List.append_assoc,
        List.append_assoc]
      exact ht _ _ (hfollow _) (hsep _ _ trivial ih)

/-- Where each of several things can be printed, so that it spells what it should, all can. -/
theorem exists_prints {α : Type} {f : α → Except PrintFault String} {spells : List Word → α → Prop}
    {follow : List Char → Prop} {xs : List α}
    (h : ∀ x ∈ xs, ∃ t ws, f x = .ok t ∧ spells ws x ∧ Prints follow t ws) :
    ∃ texts wss, xs.mapM f = .ok texts ∧ List.Forall₂ spells wss xs ∧
      List.Forall₂ (Prints follow) texts wss := by
  induction xs with
  | nil => exact ⟨[], [], rfl, .nil, .nil⟩
  | cons x xs ih =>
    obtain ⟨t, ws, ht, hspells, hprints⟩ := h x List.mem_cons_self
    obtain ⟨texts, wss, htexts, hall, hprint⟩ := ih fun y hy => h y (List.mem_cons_of_mem x hy)
    refine ⟨t :: texts, ws :: wss, ?_, .cons hspells hall, .cons hprints hprint⟩
    rw [List.mapM_cons, ht, htexts]
    rfl

/-! ## Items, sequences and rules -/

/-- The item does not begin a comment when it is printed. -/
def Item.Starless : Item → Prop
  | .pattern source _ => source.toList.head? ≠ some '*'
  | _ => True

theorem quotationKind_eq (q : Char) :
    quotationKind q = .doubleQuoted ∨ quotationKind q = .singleQuoted := by
  unfold quotationKind
  split
  · exact Or.inl rfl
  · exact Or.inr rfl

theorem Item.exists_print (names : CharacterNames) {i : Item} (hi : i.Plain) (hstar : i.Starless) :
    ∃ t ws, i.print = .ok t ∧ (∃ w, ws = [w] ∧ SpellsItem names w i) ∧
      Prints BeforeBlank t ws := by
  cases i with
  | literal text =>
    refine ⟨quoted text, _, rfl, ⟨_, rfl,
      .literal (quotationKind_eq (quoteFor text)) (Quotation.read_quotedChars names text)⟩, ?_⟩
    intro rest ws' _ hws'
    rw [quoted, String.toList_ofList]
    exact hws'.quotation text
  | pattern source flags =>
    obtain ⟨hsource, hflags⟩ := hi
    have hspells : SpellsItem names _ _ :=
      .pattern (patternLexeme source.toList flags.toList)
    rw [splitPattern_patternLexeme hflags, String.ofList_toList, String.ofList_toList] at hspells
    refine ⟨"/" ++ source ++ "/" ++ flags, _, rfl, ⟨_, rfl, hspells⟩, ?_⟩
    rintro _ ws' ⟨cs, rfl⟩ hws'
    have htext : ("/" ++ source ++ "/" ++ flags).toList =
        patternLexeme source.toList flags.toList := by simp [patternLexeme]
    rw [htext]
    exact hws'.pattern hsource hstar hflags
  | reference name =>
    have hspells : SpellsItem names _ _ := .reference name.toList
    rw [String.ofList_toList] at hspells
    refine ⟨name, _, rfl, ⟨_, rfl, hspells⟩, ?_⟩
    rintro _ ws' ⟨cs, rfl⟩ hws'
    exact hws'.name hi
  | regex _ _ | foreign _ => exact hi.elim

theorem prints_blank : Prints (fun _ => True) " " [] := fun _ _ _ hws' => hws'.blank

theorem prints_bar : Prints (fun _ => True) " | " [(.bar, ['|'])] :=
  fun _ _ _ hws' => hws'.blank.bar.blank

theorem prints_newline : Prints (fun _ => True) "\n" [] := fun _ _ _ hws' => hws'.newline

theorem spellsItems_of_singles {wss : List (List Word)} {is : Sequence}
    (h : List.Forall₂ (fun ws i => ∃ w, ws = [w] ∧ SpellsItem names w i) wss is) :
    List.Forall₂ (SpellsItem names) (([] : List Word).intercalate wss) is := by
  induction h with
  | nil => exact .nil
  | @cons ws i wss is hw hall ih =>
    obtain ⟨w, rfl, hi⟩ := hw
    cases hall with
    | nil => exact .cons hi .nil
    | cons _ _ => exact .cons hi ih

theorem exists_printSequence (names : CharacterNames) {is : Sequence} (his : is.Plain)
    (hstar : ∀ i ∈ is, i.Starless) :
    ∃ t ws, RuleSet.printSequence is = .ok t ∧ (List.Forall₂ (SpellsItem names) ws is ∧ is ≠ []) ∧
      Prints BeforeBlank t ws := by
  obtain ⟨texts, wss, htexts, hspells, hprints⟩ :=
    exists_prints fun i hi => Item.exists_print names (his.2 i hi) (hstar i hi)
  refine ⟨" ".intercalate texts, _, ?_, ⟨spellsItems_of_singles hspells, his.1⟩,
    prints_blank.intercalate (fun rest => ⟨rest, rfl⟩) hprints⟩
  rw [RuleSet.printSequence, htexts]
  rfl

theorem spellsAlternatives_of_sequences {wss : List (List Word)} {as : List Sequence}
    (h : List.Forall₂ (fun ws is => List.Forall₂ (SpellsItem names) ws is ∧ is ≠ []) wss as)
    (hne : as ≠ []) :
    SpellsAlternatives names (List.intercalate [(TokenKind.bar, ['|'])] wss) as := by
  induction h with
  | nil => exact absurd rfl hne
  | @cons ws is wss as hw hall ih =>
    cases hall with
    | nil =>
      rw [List.intercalate_singleton]
      exact .last hw.1 hw.2
    | cons _ _ =>
      rw [List.intercalate_cons_cons, List.append_assoc]
      exact .more _ hw.1 hw.2 (ih (by simp))

namespace RuleSet

theorem exists_printRule (names : CharacterNames) {rule : String × List Sequence} (h : PlainRule rule)
    (hstar : ∀ is ∈ rule.2, ∀ i ∈ is, i.Starless) :
    ∃ t ws, printRule rule.1 rule.2 = .ok t ∧ SpellsDeclaration names ws (.rule rule.1 rule.2) ∧
      Prints (fun _ => True) t ws := by
  obtain ⟨name, as⟩ := rule
  obtain ⟨texts, wss, htexts, hspells, hprints⟩ :=
    exists_prints fun is his => exists_printSequence names (h.sequences is his) (hstar is his)
  have hrule := SpellsDeclaration.rule name.toList [':'] [';'] (Or.inl rfl)
    (spellsAlternatives_of_sequences hspells h.nonempty)
  rw [String.ofList_toList] at hrule
  have hbody := prints_bar.intercalate (fun rest => ⟨_, rfl⟩) hprints
  refine ⟨name ++ " : " ++ " | ".intercalate texts ++ " ;", _, ?_, hrule, ?_⟩
  · rw [printRule, htexts]
    rfl
  · intro rest ws' _ hws'
    have hline : (name ++ " : " ++ " | ".intercalate texts ++ " ;").toList ++ rest =
        name.toList ++ ' ' :: ':' :: ' ' :: ((" | ".intercalate texts).toList ++
          ' ' :: ';' :: rest) := by simp [String.toList_append]
    rw [hline, List.cons_append, List.cons_append, List.append_assoc]
    exact .name h.name (.blank (.colon (.blank (hbody _ _ ⟨_, rfl⟩ (.blank (.semi hws'))))))

theorem prints_startLine {name : String} (hname : IsName name.toList) :
    Prints (fun _ => True) ("%start " ++ name ++ " ;")
      [(.percent, ['%']), (.ident, ['s', 't', 'a', 'r', 't']), (.ident, name.toList),
        (.semi, [';'])] := by
  intro rest ws' _ hws'
  have hline : ("%start " ++ name ++ " ;").toList ++ rest =
      '%' :: (['s', 't', 'a', 'r', 't'] ++ ' ' :: (name.toList ++ ' ' :: ';' :: rest)) := by
    simp [String.toList_append]
  have hstart : IsName ['s', 't', 'a', 'r', 't'] :=
    ⟨by decide, List.all_eq_true.1 (by decide)⟩
  rw [hline]
  exact .percent (.name hstart (.blank (.name hname (.blank (.semi hws')))))

theorem spellsAll_of_lines {wss : List (List Word)} {ds : List Declaration}
    (h : List.Forall₂ (SpellsDeclaration names) wss ds) :
    SpellsAll names (([] : List Word).intercalate wss) ds := by
  induction h with
  | nil => exact .nil
  | @cons ws d wss ds hd hall ih =>
    cases hall with
    | nil =>
      have hlast := SpellsAll.cons hd .nil
      rw [List.append_nil] at hlast
      rw [List.intercalate_singleton]
      exact hlast
    | cons _ _ =>
      rw [List.intercalate_cons_cons, List.append_nil]
      exact .cons hd ih

/-- No pattern begins with a star. -/
def Starless (s : RuleSet) : Prop := ∀ rule ∈ s.rules, ∀ is ∈ rule.2, ∀ i ∈ is, i.Starless

/-- A plain rule set can be printed, and what is printed spells its declarations. -/
theorem Plain.exists_print (names : CharacterNames) {s : RuleSet} (h : s.Plain) (hstar : s.Starless) :
    ∃ text ws, s.print = .ok text ∧ Words text.toList ws ∧ SpellsAll names ws s.declarations := by
  obtain ⟨lines, wss, hlines, hspells, hprints⟩ :=
    exists_prints fun rule hrule => exists_printRule names (h.rules rule hrule) (hstar rule hrule)
  have hprint : s.print = .ok ("\n".intercalate (startLine s.start ++ lines)) := by
    rw [print, hlines]
    rfl
  have hrules : List.Forall₂ (SpellsDeclaration names) wss
      (s.rules.map fun rule => .rule rule.1 rule.2) := List.forall₂_map_right_iff.2 hspells
  -- the line that names the start, if there is one, is a declaration like the others
  obtain ⟨wss', hspells', hprints'⟩ : ∃ wss',
      List.Forall₂ (SpellsDeclaration names) wss' s.declarations ∧
        List.Forall₂ (Prints fun _ => True) (startLine s.start ++ lines) wss' := by
    cases hstart : s.start with
    | none =>
      rw [declarations, hstart]
      exact ⟨wss, hrules, hprints⟩
    | some name =>
      rw [declarations, hstart]
      have hline : SpellsDeclaration names _ _ := .start ['%'] name.toList [';']
      rw [String.ofList_toList] at hline
      exact ⟨_ :: wss, .cons hline hrules, .cons (prints_startLine (h.start name hstart)) hprints⟩
  have hwords := prints_newline.intercalate (fun _ => trivial) hprints' [] [] trivial .nil
  rw [List.append_nil, List.append_nil] at hwords
  exact ⟨_, _, hprint, hwords, spellsAll_of_lines hspells'⟩

end RuleSet

end Packrat
